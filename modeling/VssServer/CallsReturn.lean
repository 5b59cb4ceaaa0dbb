import VssServer.Collector
import VssServer.Creations

/-!
# Calls return

In a history in phases nobody waits for ever.  The owners of the locks have a step to
take; who waits for a value waits for a creation, and the one that waits for the
smallest type, or for nothing, can go on.  Together with the measure of all that is
left to do, every call returns.

* `Getting.enabled`, `GivingUp.enabled`: in each phase some thread can go on.
* `Reach.enabled`: until every thread is idle some thread can go on.
* `calls_return`: every call returns within a bounded number of steps.
-/

namespace SingletonStorage

variable {K : Type} [DecidableEq K] {p : Program K} {s s' : State K} {l : Label K}

/-- The keys that a collection has taken have entries, in every phase. -/
theorem Step.keysFound_phases (hs : Step p s l s') (hsound : Sound s) (htracked : Tracked s)
    (hphase : InPhase s) (h : ∀ t, ∀ f ∈ s.stack t, f.Found s.children) :
    ∀ t, ∀ f ∈ s'.stack t, f.Found s'.children := by
  intro t f hf
  by_cases hstart : ∃ n op, l = .start n op
  · obtain ⟨n, op, rfl⟩ := hstart
    have hidle : s.stack (.client n) = [] := by
      cases hs <;> assumption
    rw [hs.start_children]
    rcases hs.enters hf with hold | ⟨rfl, henters⟩ | hlaunches
    · exact h t f hold
    · cases henters with
      | gcKeys top _ | gcErased top | gcDeleting _ top _ _ => cases hidle.symm.trans top
      | _ => trivial
    · cases hlaunches
      trivial
  · have hgoes : ∀ n op, l ≠ .start n op := fun n op heq => hstart ⟨n, op, heq⟩
    cases hphase with
    | getting hgetting =>
        have hcollects := (hs.getting hgoes hgetting t f hf).2
        cases f <;> trivial
    | givingUp hgiving =>
        have hdestroys :=
          (hs.givingUp (fun n op heq => absurd heq (hgoes n op)) hgiving).frames t f hf
        cases f <;> trivial
    | @alone n hrel =>
        by_cases ht : t = .client n
        · subst ht
          exact hs.keysFound hsound htracked hgoes hrel (h _) f hf
        · simp [(hs.releasing hgoes hrel).1 t ht] at hf

/-- A collection finds the keys it has gathered. -/
theorem Reach.keysFound [Inhabited K] (h : Runs.Reach (step p) Phased initial s) :
    ∀ t, ∀ f ∈ s.stack t, f.Found s.children :=
  h.along (fun _ _ hf => by cases hf) fun _ _ _ hs hI _ hstep =>
    (step_cases hstep).keysFound_phases (Reach.ledger hs).1.sound (Reach.ledger hs).1.tracked
      (Reach.ledger hs).2 hI

/-- The owner of `m_childrenLock` can go on with its `get`. -/
theorem Getting.locked_enabled (h : Getting s) (hsound : Sound s) {t : Tid} {f : Frame K}
    (hf : f ∈ s.stack t) (hlocked : f.locked) : (step p s (.next t)).isSome := by
  have hcollects := (h t f hf).2
  obtain ⟨rest, top⟩ : ∃ rest, s.stack t = f :: rest := by
    rcases hstack : s.stack t with _ | ⟨g, rest⟩
    · simp [hstack] at hf
    · rcases List.mem_cons.mp (hstack ▸ hf) with rfl | hbelow
      · exact ⟨rest, rfl⟩
      · have hbelow := (hsound.shaped.of_top hstack).below f hbelow
        cases f <;> simp_all [Frame.locked, Frame.collects, Frame.deletes, Frame.waits]
  cases f with
  | getFind k => cases hentry : s.children.lookup k <;> simp [step, next, top, hentry]
  | getRecycle | getCreate | getInsert | getUnlock => simp [step, next, top]
  | _ => cases hlocked <;> cases hcollects

/-- Where the lock is free, a thread can go on unless it waits for a running creation. -/
theorem Getting.top_enabled (h : Getting s) (hsound : Sound s) (hcalled : Called s)
    (hcreations : Creations p s) (hproper : p.Proper) (hfree : s.childrenLock = none) {t : Tid}
    {f : Frame K} {rest : List (Frame K)} (top : s.stack t = f :: rest) :
    (∃ l, Running s l ∧ (step p s l).isSome) ∨
      ∃ o keep, f = .wait o keep ∧ (s.singletons o).future = .running := by
  have hmem : f ∈ s.stack t := by simp [top]
  have hnext : (next p s t).isSome → ∃ l, Running s l ∧ (step p s l).isSome :=
    fun hs => ⟨.next t, by simp [Running], hs⟩
  have hlocked : f.locked = false := by
    by_contra hlocked
    cases hfree.symm.trans (hsound.owned t f hmem (by simpa using hlocked))
  obtain ⟨hdestroys, hcollects⟩ := h t f hmem
  cases f with
  | getLock k => exact .inl (hnext (by simp [next, top, hfree]))
  | getRef o => exact .inl (hnext (by simp [next, top]))
  | creating v =>
      left
      rcases hbody : (s.singletons v).body with _ | ⟨call, body⟩
      · exact hnext (by simp [next, top, hbody])
      cases call with
      | get k => exact hnext (by simp [next, top, hbody])
      | value k =>
          -- what it waits for it has got before
          obtain ⟨done, hcreate, hhas⟩ := hcreations.gotten t v hmem
          have hget := hproper _ done k body (hbody ▸ hcreate)
          rcases hhas k hget with ⟨o, hr, hkey⟩ | ⟨g, rest', top', hasks⟩
          · exact ⟨.pick t o, by simp [Running], by simp [step, pick, top, hbody, hr, hkey]⟩
          · cases top.symm.trans top'
            cases hasks
  | wait o keep =>
      cases hfuture : (s.singletons o).future with
      | unset => exact absurd hfuture (hcalled.frames t _ hmem o rfl)
      | deferred => exact .inl (hnext (by simp [next, top, hfuture]))
      | running => exact .inr ⟨o, keep, rfl, hfuture⟩
      | ready => exact .inl (hnext (by simp [next, top, hfuture]))
  | _ => cases hlocked <;> cases hdestroys <;> cases hcollects

/-- **Progress of `get`s.**  Some thread can go on. -/
theorem Getting.enabled (h : Getting s) (hsound : Sound s) (hattended : Attended s)
    (hcalled : Called s) (hcreations : Creations p s) (hproper : p.Proper)
    (hwf : WellFounded p.Needs) :
    Idle s ∨ ∃ l, Running s l ∧ (step p s l).isSome := by
  rcases hlock : s.childrenLock with _ | t
  swap
  · obtain ⟨f, hf, hlocked⟩ := hattended.lock t hlock
    exact .inr ⟨.next t, by simp [Running], h.locked_enabled hsound hf hlocked⟩
  -- the creation that is waited for is of a smaller type than the one that waits
  have hchain : ∀ k t o keep rest, (s.singletons o).key = k → s.stack t = .wait o keep :: rest →
      (s.singletons o).future = .running → ∃ l, Running s l ∧ (step p s l).isSome := by
    intro k
    induction k using hwf.transGen.induction with
    | _ k ih =>
        rintro t o keep rest rfl top hrunning
        obtain ⟨t', hcreating⟩ := hattended.running o hrunning
        rcases hstack : s.stack t' with _ | ⟨g, rest'⟩
        · simp [hstack] at hcreating
        rcases h.top_enabled hsound hcalled hcreations hproper hlock hstack with
          henabled | ⟨o', keep', rfl, hrunning'⟩
        · exact henabled
        · have hbelow : .creating o ∈ rest' := by simpa [hstack] using hcreating
          have hnested := hcreations.nested t'
          rw [hstack] at hnested
          have hsmaller := (List.pairwise_cons.mp hnested).1 _ hbelow o' o rfl rfl
          exact ih _ hsmaller t' o' keep' rest' rfl hstack hrunning'
  by_cases hidle : Idle s
  · exact .inl hidle
  right
  obtain ⟨t, hinside⟩ := not_forall.mp hidle
  obtain ⟨f, rest, top⟩ := List.exists_cons_of_ne_nil hinside
  rcases h.top_enabled hsound hcalled hcreations hproper hlock top with
    henabled | ⟨o, keep, rfl, hrunning⟩
  · exact henabled
  · exact hchain _ t o keep rest rfl top hrunning

/-- **Progress of drops.**  Some thread can go on. -/
theorem GivingUp.enabled (h : GivingUp s) (hsound : Sound s) (hattended : Attended s) :
    Idle s ∨ ∃ l, Running s l ∧ (step p s l).isSome := by
  by_cases hidle : Idle s
  · exact .inl hidle
  right
  have hnext : ∀ {t}, (next p s t).isSome → ∃ l, Running s l ∧ (step p s l).isSome :=
    fun {t} hs => ⟨.next t, by simp [Running], hs⟩
  -- the owner of a spinlock is in nothing else
  have howner : ∀ {t o}, .unrefLocked o ∈ s.stack t ∨ .unrefUnlock o ∈ s.stack t →
      ∃ l, Running s l ∧ (step p s l).isSome := by
    intro t o hf
    rcases hstack : s.stack t with _ | ⟨g, rest⟩
    · simp [hstack] at hf
    have hbelow := (hsound.shaped.of_top hstack).below
    have hg : g = .unrefLocked o ∨ g = .unrefUnlock o := by
      rw [hstack] at hf
      rcases hf with hf | hf <;> rcases List.mem_cons.mp hf with rfl | hrest
      · exact .inl rfl
      · simpa [Frame.deletes, Frame.waits] using hbelow _ hrest
      · exact .inr rfl
      · simpa [Frame.deletes, Frame.waits] using hbelow _ hrest
    rcases hg with rfl | rfl
    · by_cases hstorage : (s.singletons o).storage = true
      · exact hnext (t := t) (by simp [next, hstack, hstorage])
      · exact hnext (t := t) (by simp [next, hstack, hstorage])
    · exact hnext (t := t) (by simp [next, hstack])
  obtain ⟨t, hinside⟩ := not_forall.mp hidle
  obtain ⟨f, rest, top⟩ := List.exists_cons_of_ne_nil hinside
  have hmem : f ∈ s.stack t := by simp [top]
  have hdestroys := h.frames t f hmem
  cases f with
  | unrefLock o =>
      by_cases hspin : (s.singletons o).spinlock = true
      · obtain ⟨t', hf⟩ := hattended.spinlock o hspin
        exact howner hf
      · exact hnext (t := t) (by simp [next, top, hspin])
  | unrefLocked o => exact howner (.inl hmem)
  | unrefUnlock o => exact howner (.inr hmem)
  | unrefDelete o => exact hnext (t := t) (by simp [next, top])
  | join o =>
      have hdone : (s.singletons o).future ≠ .running := by
        intro hrunning
        obtain ⟨t', hf⟩ := hattended.running o hrunning
        cases h.frames t' _ hf
      by_cases hpins : (s.singletons o).pins = 0
      · exact hnext (t := t) (by simp [next, top, hdone, hpins])
      · exact hnext (t := t) (by simp [next, top, hdone, hpins])
  | dropValue v =>
      by_cases hheld : ∃ r ∈ s.refs, r.1 = .value v
      · obtain ⟨⟨_, o⟩, hr, rfl⟩ := hheld
        exact ⟨.pick t o, by simp [Running], by simp [step, pick, top, hr]⟩
      · exact hnext (t := t) (by simp [next, top, hheld])
  | _ => cases hdestroys

/-- **Progress.**  Until every thread is idle, some thread can go on. -/
theorem Reach.enabled [Inhabited K] (h : Runs.Reach (step p) Phased initial s)
    (hproper : p.Proper) (hwf : WellFounded p.Needs) :
    Idle s ∨ ∃ l, Running s l ∧ (step p s l).isSome := by
  obtain ⟨hledger, hphase⟩ := Reach.ledger h
  obtain ⟨hcalled, hcreations⟩ := Reach.creations h hproper hwf
  have hattended := Reach.attended h
  cases hphase with
  | getting hgetting =>
      exact hgetting.enabled hledger.sound hattended hcalled hcreations hproper hwf
  | givingUp hgiving => exact hgiving.enabled hledger.sound hattended
  | alone hrel => exact hrel.enabled hledger.sound hattended (Reach.keysFound h _)

/-- **Calls return.**  From every state of a history in phases, where every `create` gets
what it waits for and no type needs itself, the threads take a bounded number of steps
until a client begins the next call, and as long as not all of them are idle one of them
has a step to take, so that no call waits for ever. -/
theorem calls_return [Inhabited K] (h : Runs.Reach (step p) Phased initial s)
    (hproper : p.Proper) (hwf : WellFounded p.Needs) :
    ∃ bound, ∀ ls s', Runs.run (step p) s ls = some s' →
      (∀ l ∈ ls, ∀ n op, l ≠ .start n op) →
      ls.length ≤ bound ∧ (Idle s' ∨ ∃ l, Running s' l ∧ (step p s' l).isSome) := by
  obtain ⟨cost, hcost⟩ := Measures.exists_cost p.create Call.needs 21 hwf
  obtain ⟨m, hfew⟩ := Reach.few h
  refine ⟨s.effort cost m, fun ls s' hrun hgoes => ⟨?_, ?_⟩⟩
  · exact hfew.run_length_le (Reach.sound h) (Reach.detachesOnce h) hcost hrun hgoes
  · have hmeets : Runs.RunMeets (step p) Phased s ls :=
      Runs.runMeets_of_labels fun l hl _ n op heq => absurd heq (hgoes l hl n op)
    exact Reach.enabled (h.trans (Runs.reach_of_run hrun hmeets)) hproper hwf

/-- `create` of the attribute gets the proxy before it waits for it. -/
theorem attributes_proper : attributes.Proper := by
  intro k done k' body hcreate
  by_cases hk : k = "Attribute"
  · simp only [attributes, hk, if_true] at hcreate
    rcases done with _ | ⟨c, _ | ⟨c', done⟩⟩
    · cases hcreate
    · cases hcreate
      exact .head _
    · simp at hcreate
  · simp [attributes, hk] at hcreate

/-- While the creation of the attribute gets the proxy, client 1 asks for the attribute. -/
def waitForAttribute : List (Label String) :=
  getAttribute ++ [.next (.task 0), .next (.task 0), .start 1 (.get "Attribute")]

/-- The clients only get and wait. -/
theorem waitForAttribute_gets (n : Nat) (op : Op String)
    (h : .start n op ∈ waitForAttribute) : op.gets := by
  simp only [waitForAttribute, getAttribute, List.mem_append, List.mem_cons, List.not_mem_nil,
    reduceCtorEq, Label.start.injEq, or_false, false_or] at h
  rcases h with ⟨-, rfl⟩ | ⟨-, rfl⟩ <;> rfl

/-- A client that waits for the lock is not the last one to go on. -/
theorem calls_return_attribute :
    ∃ s, Runs.run (step attributes) initial waitForAttribute = some s ∧
      step attributes s (.next (.client 1)) = none ∧
      ∃ bound, ∀ ls s', Runs.run (step attributes) s ls = some s' →
        (∀ l ∈ ls, ∀ n op, l ≠ .start n op) →
        ls.length ≤ bound ∧ (Idle s' ∨ ∃ l, Running s' l ∧ (step attributes s' l).isSome) := by
  have hrun : Runs.run (step attributes) initial waitForAttribute = some _ := rfl
  have hgetting : Getting (initial (K := String)) := fun _ _ hf => by cases hf
  have hreach := Runs.reach_of_run hrun (hgetting.runMeets waitForAttribute_gets)
  exact ⟨_, hrun, rfl, calls_return hreach attributes_proper attributes_wellFounded⟩

end SingletonStorage
