import VssServer.GetCalls

/-!
# One instance for each value type

However many threads race on the first `get` of a type, and whatever
collections and clears run in between, an attached living singleton is the
entry of its own key whenever `m_childrenLock` is free, its creation was
started once, and two `get`s of a type determine the same instance unless the
entry went in between.  No assumption on the schedule is needed.

* `one_instance`: at most one living instance of a type, and the `get`s of the type return it.
-/

namespace SingletonStorage

variable {K : Type}

variable [DecidableEq K] {p : Program K} {s : State K}

/-- A singleton that is neither deleted nor detached. -/
def Singleton.Attached (x : Singleton K) : Prop :=
  x.storage = true ∧ x.deleted = false

/-- **One instance.**  In the state to which any run leads: while `m_childrenLock` is free,
an attached living singleton is the entry of its own key, so there is at most one for each
key, and its `createFuture` was called once (it was not called yet only while its
constructor runs).  Every `Ref` that a `get` returned points to the instance of its key that
the access of this very call determined, and two calls of `get` for the same key return the
same instance unless, between their accesses, the entry was removed or all of them were.
Every `Ref` there is points to an instance that some `get` returned. -/
theorem one_instance [Inhabited K] {ls : List (Label K)}
    (h : Runs.run (step p) initial ls = some s) :
    (s.childrenLock = none → ∀ o < s.bound, (s.singletons o).Attached →
      s.children.lookup (s.singletons o).key = some o) ∧
    (s.childrenLock = none → ∀ o < s.bound, ∀ o' < s.bound,
      (s.singletons o).Attached → (s.singletons o').Attached →
      (s.singletons o).key = (s.singletons o').key → o = o') ∧
    (s.childrenLock = none → ∀ o < s.bound, (s.singletons o).createCalls = 1) ∧
    (∀ o < s.bound, (s.singletons o).createCalls = 1 ∨
      (s.singletons o).createCalls = 0 ∧ ∃ t k, .getCreate k o ∈ s.stack t) ∧
    (∀ t ref before after, p.history ls = before ++ .returned t ref :: after →
      ∃ k earlier during, GetCall (p.history ls) t k ref earlier during after ∧
        (s.singletons ref.2).key = k) ∧
    (∀ t t' k ref ref' before during after before' during' after',
      GetCall (p.history ls) t k ref before during after →
      GetCall (p.history ls) t' k ref' before' during' after' →
      before.length ≤ before'.length → .removed k ∉ before'.drop before.length →
      .cleared ∉ before'.drop before.length → ref.2 = ref'.2) ∧
    ∀ r ∈ s.refs, ∃ t holder, .returned t (holder, r.2) ∈ p.history ls := by
  have hsound := Reach.sound (Runs.reach_of_run h Runs.runMeets_always)
  have hrecorded := recorded_of_run h
  have hinside : s.childrenLock = none → s.inside = none := fun hfree => by
    simp [State.inside, hfree]
  have hentry : s.childrenLock = none → ∀ o < s.bound, (s.singletons o).Attached →
      s.children.lookup (s.singletons o).key = some o := fun hfree o ho hattached =>
    (hsound.directory.entry_iff (hinside hfree) ho).mpr
      ⟨hattached.1, by simp [State.directory, hattached.2]⟩
  refine ⟨hentry, ?_, ?_, ?_, ?_, ?_, hrecorded.refs⟩
  · intro hfree o ho o' ho' hattached hattached' hkey
    have hlookup := hentry hfree o ho hattached
    rw [hkey, hentry hfree o' ho' hattached'] at hlookup
    exact (Option.some.inj hlookup).symm
  · exact fun hfree o ho => hsound.directory.created_eq_one (hinside hfree) ho
  · intro o ho
    rcases hsound.directory.created o ho with ⟨hone, -⟩ | ⟨hzero, hphase⟩
    · exact .inl hone
    · obtain ⟨t, -, f, hf, hcreating⟩ := State.frame_of_inside hphase
      refine .inr ⟨hzero, t, (s.singletons o).key, ?_⟩
      cases f <;> simp_all [Frame.phase]
      obtain ⟨rfl, rfl⟩ := hcreating
      exact hf
  · intro t ref before after heq
    obtain ⟨k, earlier, during, hcall⟩ := hrecorded.own heq
    have haccessed : .accessed t k ref.2 ∈ p.history ls := by
      rw [hcall.happened]
      exact List.mem_append_right _ (.head _)
    exact ⟨k, earlier, during, hcall, (hrecorded.keys t k ref.2 haccessed).2⟩
  · intro t t' k ref ref' before during after before' during' after' hcall hcall' hle
    exact hcall.same hrecorded hsound hcall' hle

/-- Two clients ask for a type nobody has asked for yet; the second one takes
the lock between the insertion and the `Ref` of the first. -/
def firstGetRace : List (Label String) :=
  [.start 0 (.get "Speed"), .start 1 (.get "Speed"), .next (.client 0), .next (.client 0),
    .next (.client 0), .next (.client 0), .next (.client 0), .next (.client 1),
    .next (.client 1), .next (.client 1), .next (.client 1), .next (.client 0),
    .next (.client 1)]

/-- Types whose `create` needs no other singleton. -/
def independent : Program String where
  create _ := []
  async _ := false

theorem independent_async (k : String) : independent.async k = false := rfl

/-- What the two calls show. -/
def firstGetCalls : List (Event String) :=
  [.called (.client 0) "Speed", .called (.client 1) "Speed", .accessed (.client 0) "Speed" 0,
    .accessed (.client 1) "Speed" 0, .returned (.client 0) (.client, 0),
    .returned (.client 1) (.client, 0)]

theorem one_instance_firstGetRace :
    ∃ s, Runs.run (step independent) initial firstGetRace = some s ∧
      independent.history firstGetRace = firstGetCalls ∧
      s.refs = [(.client, 0), (.client, 0)] ∧ s.children.lookup "Speed" = some 0 ∧
      (s.singletons 0).createCalls = 1 ∧
      ∃ k earlier during, GetCall (independent.history firstGetRace) (.client 1) k (.client, 0)
        earlier during [] := by
  refine ⟨_, rfl, rfl, rfl, ?_⟩
  have hrun : Runs.run (step independent) initial firstGetRace = some _ := rfl
  obtain ⟨hentry, -, hcreated, -, hreturned, -⟩ := one_instance hrun
  obtain ⟨k, earlier, during, hcall, -⟩ := hreturned (.client 1) (.client, 0)
    (firstGetCalls.take 5) [] rfl
  exact ⟨hentry rfl 0 (by decide) ⟨rfl, rfl⟩, hcreated rfl 0 (by decide), k, earlier, during,
    hcall⟩

end SingletonStorage
