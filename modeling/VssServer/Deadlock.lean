import VssServer.Sequential

/-!
# Deleting a singleton whose creation is running

The destructor of the last `shared_future` of a `std::async` task waits for the
task.  A collection deletes while it holds `m_childrenLock`, so a creation that
has still to `get` a dependency and the collection that deletes its singleton
wait for each other.  `no_deadlock` says that nothing else can make an owner of
the lock and a creation wait for each other: it is enough that every singleton
deleted under the lock has no creation running that can still come to a `get`.

* `Settled`: the side condition on the deletions under the lock.
* `Joined`: the owner of the lock joins only creations that come to no `get` any more.
* `Step.joined`: every settled step keeps this.
* `no_deadlock`: no owner of the lock and no creation wait for each other.
* `collection_deadlocks`: without the condition they can.
-/

namespace SingletonStorage

variable {K : Type}

/-- The owner of `m_childrenLock` waits for a creation, and the thread that runs
the creation waits for `m_childrenLock` inside a `get`. -/
def Deadlock (p : Program K) (s : State K) : Prop :=
  ∃ t o below, s.childrenLock = some t ∧ s.stack t = .join o :: below ∧
    p.async (s.singletons o).key ∧ (s.singletons o).future = .running ∧
    ∃ dependency rest, s.stack (.task o) = .getLock dependency :: rest

/-- The creation of `v` owns a `Ref` to `o`, or is about to construct it. -/
def Holds (s : State K) (v o : Ptr) : Prop :=
  (.value v, o) ∈ s.refs ∨ ∃ t, .getRef o ∈ s.stack t ∧ .creating v ∈ s.stack t

/-- What is left of the creation of an object can come to a `get`: in its own
body, or in the body of a deferred dependency whose value it asks for. -/
inductive Calls (s : State K) : Ptr → Prop
  | get {v : Ptr} {k : K} (call : .get k ∈ (s.singletons v).body) : Calls s v
  | value {v o : Ptr} (call : .value (s.singletons o).key ∈ (s.singletons v).body)
      (holds : Holds s v o) (deferred : (s.singletons o).future = .deferred)
      (inner : Calls s o) : Calls s v

/-- A frame of a creation that is in a `get`, or can come to one. -/
def Frame.MayGet (s : State K) : Frame K → Prop
  | .getLock _ => True
  | .creating v => Calls s v
  | .wait o _ => (s.singletons o).future = .deferred ∧ Calls s o
  | _ => False

/-- The task that creates `o` waits for `m_childrenLock`, or can come to that. -/
def MayGet (s : State K) (o : Ptr) : Prop :=
  ∃ f ∈ s.stack (.task o), f.MayGet s

/-- An asynchronous creation is under way. -/
def Creating (p : Program K) (s : State K) (o : Ptr) : Prop :=
  p.async (s.singletons o).key ∧ (s.singletons o).future = .running

variable [DecidableEq K] {p : Program K} {s s' : State K} {l : Label K}

/-- The side condition on a step: the owner of `m_childrenLock` deletes no
singleton whose running creation can still come to a `get`. -/
def Settled (p : Program K) (s : State K) (l : Label K) : Prop :=
  ∀ o, Deletes s l o → s.childrenLock = some l.tid → Creating p s o → ¬MayGet s o

/-- A step that is not one of the critical section, apart from deletions. -/
def Outside (s : State K) (l : Label K) : Prop :=
  (∃ o, Deletes s l o) ∨ s.childrenLock ≠ none ∧ ∀ f ∈ s.stack l.tid, f.locked = false

/-- The frame on top of such a step is not locked, or it is that of a collection. -/
theorem Outside.top (h : Outside s l) {f : Frame K} {rest : List (Frame K)}
    (top : s.stack l.tid = f :: rest) :
    f.locked = false ∨ ∃ keys n caller, f = .gcKeys none keys n caller := by
  rcases h with ⟨o, ⟨t, rest', rfl, top'⟩ | ⟨t, k, keys, n, caller, rest', rfl, top', -⟩⟩ | ⟨-, h⟩
  · obtain ⟨rfl, -⟩ := List.cons.inj (top.symm.trans top')
    exact .inl rfl
  · obtain ⟨rfl, -⟩ := List.cons.inj (top.symm.trans top')
    exact .inr ⟨keys, n, caller, rfl⟩
  · exact .inl (h f (by simp [top]))

/-- Outside of the critical section nothing is created, and bodies only shrink. -/
theorem Step.object_outside (hs : Step p s l s') (hout : Outside s l) (v : Ptr) :
    (s'.singletons v).key = (s.singletons v).key ∧
    (s'.singletons v).body ⊆ (s.singletons v).body ∧
    ((s'.singletons v).future = .deferred → (s.singletons v).future = .deferred) := by
  cases hs.object v with
  | same eq =>
      rw [eq]
      exact ⟨rfl, List.Subset.refl _, id⟩
  | new label top =>
      subst label
      simpa [Frame.locked] using hout.top top
  | alters eq step =>
      rw [eq]
      cases step with
      | createFuture label top =>
          subst label
          simpa [Frame.locked] using hout.top top
      | createCall _ calls => exact ⟨rfl, by simp [calls], id⟩
      | createDone | waitDeferred => exact ⟨rfl, List.Subset.refl _, by simp⟩
      | _ => exact ⟨rfl, List.Subset.refl _, id⟩

/-- Outside of the critical section no `get` is about to return that was not before. -/
theorem Step.getRef_outside (hs : Step p s l s') (hout : Outside s l) {t : Tid} {o : Ptr}
    (h : .getRef o ∈ s'.stack t) : .getRef o ∈ s.stack t := by
  rcases hs.enters h with hold | ⟨rfl, henters⟩ | hlaunches
  · exact hold
  · cases henters with
    | getRef top => simpa [Frame.locked] using hout.top top
  · cases hlaunches

/-- Outside of the critical section a creation begins only where somebody waits for a deferred
one. -/
theorem Step.creating_outside (hs : Step p s l s') (hout : Outside s l) {t : Tid} {v : Ptr}
    (h : .creating v ∈ s'.stack t) : .creating v ∈ s.stack t ∨
      ∃ keep rest, s.stack t = .wait v keep :: rest ∧ (s.singletons v).future = .deferred := by
  rcases hs.enters h with hold | ⟨rfl, henters⟩ | hlaunches
  · exact .inl hold
  · cases henters with
    | waitDeferred top deferred => exact .inr ⟨_, _, top, deferred⟩
  · cases hlaunches with
    | creating label top _ =>
        subst label
        simpa [Frame.locked] using hout.top top

/-- Outside of the critical section no creation gets a `Ref` it was not about to get. -/
theorem Step.holds_outside (hs : Step p s l s') (hsound : Sound s) (hout : Outside s l)
    {v o : Ptr} (h : Holds s' v o) : Holds s v o := by
  rcases h with href | ⟨t, href, hcreating⟩
  · cases hs
    case getRef t o' rest top =>
      rcases List.mem_cons.mp href with heq | hold
      · obtain ⟨hholder, rfl⟩ := Prod.mk.inj heq
        refine .inr ⟨t, by simp [top], ?_⟩
        rcases rest with _ | ⟨f, rest⟩
        · cases hholder
        · cases f <;> cases hholder
          simp [top]
      · exact .inl hold
    case startCopy => exact .inl (by simpa using href)
    case startDrop | dropRef => exact .inl (List.mem_of_mem_erase href)
    all_goals exact .inl href
  · have hold := hs.getRef_outside hout href
    refine .inr ⟨t, hold, ?_⟩
    rcases hs.creating_outside hout hcreating with hc | ⟨keep, rest, top, -⟩
    · exact hc
    · -- a thread that waits is not about to return from a `get`
      rw [top] at hold
      rcases List.mem_cons.mp hold with heq | hrest
      · cases heq
      · simpa [Frame.deletes, Frame.waits] using (hsound.shaped.of_top top).below _ hrest

/-- Outside of the critical section no creation gets more to call. -/
theorem Step.calls_outside (hs : Step p s l s') (hsound : Sound s) (hout : Outside s l)
    {v : Ptr} (h : Calls s' v) : Calls s v := by
  induction h with
  | get call => exact .get ((hs.object_outside hout _).2.1 call)
  | value call holds deferred _ ih =>
      rw [(hs.object_outside hout _).1] at call
      exact .value ((hs.object_outside hout _).2.1 call) (hs.holds_outside hsound hout holds)
        ((hs.object_outside hout _).2.2 deferred) ih

/-- So no task comes to a `get` that it could not come to before. -/
theorem Step.mayGet_outside (hs : Step p s l s') (hsound : Sound s) (hout : Outside s l)
    {o : Ptr} (h : MayGet s' o) : MayGet s o := by
  obtain ⟨f, hf, hmay⟩ := h
  have hcalls := fun {v} => hs.calls_outside hsound hout (v := v)
  have hdeferred := fun v => (hs.object_outside hout v).2.2
  rcases hs.enters hf with hold | ⟨htid, henters⟩ | hlaunches
  · refine ⟨f, hold, ?_⟩
    cases f with
    | getLock => trivial
    | creating v => exact hcalls hmay
    | wait v _ => exact ⟨hdeferred _ hmay.1, hcalls hmay.2⟩
    | _ => exact hmay
  · cases henters with
    | startGet label | startValue label _ =>
        rw [label] at htid
        cases htid
    | @createGet v k _ _ top call =>
        exact ⟨.creating v, by simp [top], .get (k := k) (by simp [call])⟩
    | @createValue v _ _ _ top call live =>
        exact ⟨.creating v, by simp [top],
          .value (by simp [call]) (.inl live) (hdeferred _ hmay.1) (hcalls hmay.2)⟩
    | waitDeferred top deferred =>
        exact ⟨.wait _ _, by rw [top]; exact .head _, deferred, hcalls hmay⟩
    | _ => exact hmay.elim
  · cases hlaunches with
    | creating label top _ =>
        subst label
        simpa [Frame.locked] using hout.top top

/-- An asynchronous creation is never deferred. -/
def NeverDeferred (p : Program K) (s : State K) : Prop :=
  ∀ o, p.async (s.singletons o).key → (s.singletons o).future ≠ .deferred

/-- No step defers an asynchronous creation. -/
theorem Step.neverDeferred (hs : Step p s l s') (hsound : Sound s) (h : NeverDeferred p s) :
    NeverDeferred p s' := by
  intro o hasync
  cases hs.object o with
  | same eq =>
      rw [eq] at hasync ⊢
      exact h o hasync
  | new _ _ _ _ eq =>
      simp [eq]
  | alters eq step =>
      rw [eq] at hasync ⊢
      cases step with
      | @createFuture _ k _ label top =>
          have hin : s.inside = some (.creating k o) := (State.inside_top hsound.owned top rfl).2
          have hkey : (s.singletons o).key = k := (hsound.directory.pending k o (.inl hin)).1
          have hasync : p.async k = true := hkey ▸ hasync
          simp [hasync]
      | createDone | waitDeferred => simp
      | _ => exact h o hasync

/-- The owner of the lock joins only creations that come to no `get` any more. -/
def Joined (p : Program K) (s : State K) : Prop :=
  ∀ t o, s.childrenLock = some t → .join o ∈ s.stack t → Creating p s o → ¬MayGet s o

/-- Outside of the critical section no asynchronous creation begins. -/
theorem Step.creating_of_outside (hs : Step p s l s') (hout : Outside s l)
    (hnever : NeverDeferred p s) {o : Ptr} (h : Creating p s' o) : Creating p s o := by
  obtain ⟨hasync, hrunning⟩ := h
  rw [(hs.object_outside hout o).1] at hasync
  refine ⟨hasync, ?_⟩
  cases hs.object o with
  | same eq => rwa [eq] at hrunning
  | new label top =>
      subst label
      simpa [Frame.locked] using hout.top top
  | alters eq step =>
      rw [eq] at hrunning
      cases step with
      | createFuture label top =>
          subst label
          simpa [Frame.locked] using hout.top top
      | waitDeferred _ deferred => exact absurd deferred (hnever o hasync)
      | createDone => cases hrunning
      | _ => exact hrunning

/-- A deletion leaves the lock alone. -/
theorem Step.deletes_lock (hs : Step p s l s') {o : Ptr} (hd : Deletes s l o) :
    s.childrenLock = s'.childrenLock := by
  have htop : ∃ f rest, s.stack l.tid = f :: rest ∧
      (f = .unrefDelete o ∨ ∃ keys n caller, f = .gcKeys none keys n caller) := by
    rcases hd with ⟨t, rest, rfl, top⟩ | ⟨t, k, keys, n, caller, rest, rfl, top, -⟩
    · exact ⟨_, rest, top, .inl rfl⟩
    · exact ⟨_, rest, top, .inr ⟨keys, n, caller, rfl⟩⟩
  obtain ⟨f, rest, top, hf⟩ := htop
  cases hs.lockChange with
  | same eq => exact eq.symm
  | takes top' locks =>
      cases top.symm.trans top'
      rcases locks with ⟨_, rfl⟩ | rfl | rfl <;> rcases hf with hf | ⟨_, _, _, hf⟩ <;> cases hf
  | releases top' unlocks =>
      cases top.symm.trans top'
      rcases unlocks with ⟨_, rfl⟩ | ⟨_, rfl⟩ | rfl <;>
        rcases hf with hf | ⟨_, _, _, hf⟩ <;> cases hf

/-- A join begins with a deletion. -/
theorem Step.join_cases (hs : Step p s l s') {t : Tid} {o : Ptr} (h : .join o ∈ s'.stack t) :
    .join o ∈ s.stack t ∨ Deletes s l o ∧ t = l.tid := by
  rcases hs.enters h with hold | ⟨htid, henters⟩ | hlaunches
  · exact .inl hold
  · refine .inr ⟨?_, htid⟩
    cases henters with
    | unrefJoin label top => exact .inl ⟨_, _, label, top⟩
    | gcJoin label top entry mem => exact .inr ⟨_, _, _, _, _, _, label, top, mem, entry⟩
  · cases hlaunches

/-- A thread that joins before and after a step of its own has not moved. -/
theorem Step.join_blocked (hs : Step p s l s') (hsound : Sound s) {t : Tid} {o : Ptr}
    {rest : List (Frame K)} (top : s.stack t = .join o :: rest) (h : .join o ∈ s'.stack t) :
    t ≠ l.tid := by
  rintro rfl
  have hrest : .join o ∉ rest := fun hmem => by
    simpa [Frame.deletes, Frame.waits] using (hsound.shaped.of_top top).below _ hmem
  rcases hs.top_moves top with ⟨frames, hstack, hleaves⟩ | ⟨frames, -, hpushes⟩
  · rw [hstack] at h
    cases hleaves <;> exact hrest (by simpa using h)
  · cases hpushes

/-- A thread gets the lock by a step of its own. -/
theorem Step.lock_other (hs : Step p s l s') {t : Tid} (ht : t ≠ l.tid)
    (h : s'.childrenLock = some t) : s.childrenLock = some t := by
  cases hs.lockChange with
  | same eq => exact eq ▸ h
  | takes _ _ eq => exact absurd (Option.some.inj (h.symm.trans eq)) ht
  | releases _ _ eq => cases eq.symm.trans h

/-- A settled step lets the owner of the lock join no other creations. -/
theorem Step.joined (hs : Step p s l s') (hsound : Sound s) (hnever : NeverDeferred p s)
    (hok : Settled p s l) (h : Joined p s) : Joined p s' := by
  intro t o hlock hjoin hcreating hmay
  rcases hs.join_cases hjoin with hold | ⟨hdeletes, rfl⟩
  · have htop : ∃ rest, s.stack t = .join o :: rest := by
      rcases hstack : s.stack t with _ | ⟨f, rest⟩
      · simp [hstack] at hold
      · rw [hstack] at hold
        rcases List.mem_cons.mp hold with rfl | hrest
        · exact ⟨rest, rfl⟩
        · simpa [Frame.deletes, Frame.waits] using (hsound.shaped.of_top hstack).below _ hrest
    obtain ⟨rest, top⟩ := htop
    have hother := hs.join_blocked hsound top hjoin
    have hlocked := hs.lock_other hother hlock
    have hout : Outside s l := by
      refine .inr ⟨by simp [hlocked], fun f hf => ?_⟩
      by_contra hl
      have howner := hsound.owned l.tid f hf (by simpa using hl)
      exact hother (Option.some.inj (hlocked.symm.trans howner))
    exact h t o hlocked hold (hs.creating_of_outside hout hnever hcreating)
      (hs.mayGet_outside hsound hout hmay)
  · have hout : Outside s l := .inl ⟨o, hdeletes⟩
    have hlocked := (hs.deletes_lock hdeletes).trans hlock
    exact hok o hdeletes hlocked (hs.creating_of_outside hout hnever hcreating)
      (hs.mayGet_outside hsound hout hmay)

/-- It joins no others in a settled run. -/
theorem Reach.joined [Inhabited K] (h : Runs.Reach (step p) (Settled p) initial s) :
    Joined p s := by
  have hall : Sound s ∧ NeverDeferred p s ∧ Joined p s := by
    refine h.invariant (I := fun s => Sound s ∧ NeverDeferred p s ∧ Joined p s)
      ⟨sound_initial, ?_, ?_⟩ fun _ _ _ ⟨hsound, hnever, hjoined⟩ hok hstep => ?_
    · intro o _
      simp [initial]
    · intro t o hlock
      simp [initial] at hlock
    · have hs := step_cases hstep
      exact ⟨hs.sound hsound, hs.neverDeferred hsound hnever,
        hs.joined hsound hnever hok hjoined⟩
  exact hall.2.2

/-- **No deadlock.**  In every run in which the owner of `m_childrenLock` deletes
only singletons whose creation is finished or comes to no `get` any more, no
owner of the lock and no creation wait for each other. -/
theorem no_deadlock [Inhabited K] (h : Runs.Reach (step p) (Settled p) initial s) :
    ¬Deadlock p s := by
  rintro ⟨t, o, below, hlock, top, hasync, hrunning, dependency, rest, hwaits⟩
  refine Reach.joined h t o hlock (by simp [top]) ⟨hasync, hrunning⟩ ?_
  exact ⟨.getLock dependency, by simp [hwaits], trivial⟩

/-- An attribute is created asynchronously and gets the proxy it belongs to. -/
def attributes : Program String where
  create k := if k = "Attribute" then [.get "Proxy", .value "Proxy"] else []
  async k := k = "Attribute"

/-- Client 0 gets an attribute. -/
def getAttribute : List (Label String) :=
  [.start 0 (.get "Attribute"), .next (.client 0), .next (.client 0), .next (.client 0),
    .next (.client 0), .next (.client 0), .next (.client 0)]

/-- The creation of the attribute gets the proxy, waits for it and finishes. -/
def finishAttribute : List (Label String) :=
  [.next (.task 0), .next (.task 0), .next (.task 0), .next (.task 0), .next (.task 0),
    .next (.task 0), .next (.task 0), .pick (.task 0) 1, .next (.task 0), .next (.task 0),
    .next (.task 0), .next (.task 0)]

/-- Client 0 drops the attribute and collects, up to the deletion. -/
def dropAttribute : List (Label String) :=
  [.start 0 (.drop 0), .next (.client 0), .next (.client 0), .next (.client 0),
    .start 0 .garbageCollect, .next (.client 0), .next (.client 0),
    .pickKey (.client 0) "Attribute"]

/-- The attribute is dropped when its creation is over. -/
theorem no_deadlock_finished :
    ∃ s, Runs.run (step attributes) initial
        (getAttribute ++ finishAttribute ++ dropAttribute) = some s ∧
      (s.singletons 0).deleted = true ∧ ¬Deadlock attributes s := by
  have hrun : Runs.run (step attributes) initial
      (getAttribute ++ finishAttribute ++ dropAttribute) = some _ := rfl
  refine ⟨_, hrun, rfl, no_deadlock (Runs.reach_of_run hrun ?_)⟩
  iterate 26
    refine ⟨by rintro o (⟨_, _, ⟨⟩, ⟨⟩⟩ | ⟨_, _, _, _, _, _, ⟨⟩, -⟩), ?_⟩
    rintro _ ⟨⟩
  -- the creation of the attribute is finished when the collection deletes it
  refine ⟨?_, fun _ _ => trivial⟩
  rintro o (⟨_, _, ⟨⟩, -⟩ | ⟨_, _, _, _, _, _, ⟨⟩, -, -, hentry⟩) - ⟨-, hrunning⟩
  obtain rfl : 0 = o := Option.some.inj hentry
  cases hrunning

/-- The client drops the attribute before its creation has run. -/
theorem collection_deadlocks :
    ∃ s, Runs.run (step attributes) initial
        (getAttribute ++ dropAttribute ++ [.next (.task 0)]) = some s ∧
      Deadlock attributes s ∧ step attributes s (.next (.client 0)) = none ∧
      step attributes s (.next (.task 0)) = none := by
  refine ⟨_, rfl, ⟨.client 0, 0, _, rfl, rfl, rfl, rfl, "Proxy", _, rfl⟩, rfl, rfl⟩

end SingletonStorage
