import VssServer.Collector
import VssServer.Reachability

/-!
# What a collection deletes

A `Ref` of a client, and one of a value that a `shared_ptr` keeps, holds its
singleton whatever is collected; a `Ref` of any other value holds it as long as
the singleton of that value lives.  At the end of a `garbageCollect` that began
while every thread was idle the living singletons are closed under this rule,
because destructors alone drop `Ref`s, and supported by it, because `m_disposed`
is empty; without cycles between values they are the ones that were reached when
the collection began.

* `During.reached_held`: what was reached when the collection began lives.
* `Completes.supported`: what lives after it is held.
* `Completes.alive_iff`: so what lives after it is what was reached.
* `garbageCollect_exact`: the collection ends, violates no assertion, and deletes what was not
  reached.
-/

namespace SingletonStorage

variable {K : Type}

/-- A `Ref` to `o` is held by a client, or by a value that a `shared_ptr` keeps. -/
def State.Root (s : State K) (o : Ptr) : Prop :=
  (.client, o) ∈ s.refs ∨ ∃ v, (.value v, o) ∈ s.refs ∧ 0 < (s.singletons v).pins

/-- The value of `v` holds a `Ref` to `o`. -/
def State.DependsOn (s : State K) (v o : Ptr) : Prop :=
  (.value v, o) ∈ s.refs

/-- A `Ref` from outside of the values that only their singletons keep leads to `o`. -/
def State.Reached (s : State K) (o : Ptr) : Prop :=
  Reachability.Reached s.Root s.DependsOn o

/-- Whether an owner of `Ref`s was destroyed is seen from its value. -/
instance (s s' : State K) : ∀ holder, Decidable (DestroyedBetween s s' holder)
  | .client => isFalse (by simp [DestroyedBetween])
  | .value v => decidable_of_iff
      ((s.singletons v).valueGone = false ∧ (s'.singletons v).valueGone = true)
      (by simp [DestroyedBetween])

variable [DecidableEq K] {p : Program K} {s₀ s s' : State K} {l : Label K} {n : Nat}

/-- The object whose destructor a step calls. -/
def State.deletes (s : State K) : Label K → Option Ptr
  | .next t =>
      match s.stack t with
      | .unrefDelete o :: _ => some o
      | _ => none
  | .pickKey t k =>
      match s.stack t with
      | .gcKeys none keys _ _ :: _ => if k ∈ keys then s.children.lookup k else none
      | _ => none
  | _ => none

/-- How often the destructor of `o` is called in a run. -/
def deletions (p : Program K) (o : Ptr) : State K → List (Label K) → Nat
  | _, [] => 0
  | s, l :: ls => (if s.deletes l = some o then 1 else 0) +
      (step p s l).elim 0 fun s' => deletions p o s' ls

/-- What a `garbageCollect` has done to a storage. -/
structure Collected (s s' : State K) : Prop where
  disposed : s'.disposed = ∅
  deleted : ∀ o < s.bound, (s.singletons o).deleted = false →
    ((s'.singletons o).deleted = true ↔ ¬s.Reached o)
  entries : ∀ k o, s'.children.lookup k = some o ↔ s.children.lookup k = some o ∧ s.Reached o
  refCount : ∀ o, (s'.singletons o).refCount +
    s.refs.countP (fun r => r.2 = o ∧ DestroyedBetween s s' r.1) = (s.singletons o).refCount

/-- The deletion of a step, computed. -/
theorem State.deletes_iff {o : Ptr} : s.deletes l = some o ↔ Deletes s l o := by
  constructor
  · intro h
    cases l with
    | next t =>
        simp only [State.deletes] at h
        split at h
        · cases h
          exact .inl ⟨t, _, rfl, ‹_›⟩
        · cases h
    | pickKey t k =>
        simp only [State.deletes] at h
        split at h
        · obtain ⟨mem, entry⟩ := Option.ite_none_right_eq_some.mp h
          exact .inr ⟨t, k, _, _, _, _, rfl, ‹_›, mem, entry⟩
        · cases h
    | _ => cases h
  · rintro (⟨t, rest, rfl, top⟩ | ⟨t, k, keys, n, caller, rest, rfl, top, mem, entry⟩)
    · simp [State.deletes, top]
    · simp [State.deletes, top, mem, entry]

/-- A collector leaves what it may not touch. -/
theorem Step.untouched (hs : Step p s l s') (hsound : Sound s) (hl : Running s l)
    (h : Collecting s₀ n s) (hu : Untouched s₀ s) : Untouched s₀ s' where
  pins v := by
    rw [← hu.pins v]
    cases hs.object v with
    | same eq => rw [eq]
    | new _ top => cases (h.top hsound top).2
    | alters eq step =>
        rw [eq]
        cases step with
        | release label | releaseLast label => exact absurd label (hl _ _)
        | waitReady top => cases (h.top hsound top).2
        | _ => rfl
  pinned v hpinned := by
    rw [← hu.pinned v hpinned]
    cases hs.object v with
    | same eq => rw [eq]
    | new _ top => cases (h.top hsound top).2
    | alters eq step =>
        rw [eq]
        cases step with
        | releaseLast label => exact absurd label (hl _ _)
        | joinLast _ _ last => exact absurd (hu.pins v ▸ last) hpinned.ne'
        | _ => rfl
  count r hkept := by
    have hlater : DestroyedBetween s₀ s r.1 → DestroyedBetween s₀ s' r.1 :=
      fun ⟨v, hv, hbefore, hnow⟩ => ⟨v, hv, hbefore, hs.gone_kept h.releasing hnow⟩
    rw [← hu.count r fun hdestroyed => hkept (hlater hdestroyed)]
    cases hs
    case dropRef t v o rest top mem =>
      refine List.count_erase_of_ne ?_
      rintro rfl
      exact hkept (hlater (h.dropping t v (by simp [top])))
    case getRef top => cases (h.top hsound top).2
    case startCopy | startDrop => exact absurd rfl (hl _ _)
    all_goals rfl

/-- Outside of what it destroys a collection leaves everything. -/
theorem During.untouched [Inhabited K] (h₀ : Runs.Reach (step p) Sequential initial s₀)
    (hidle : Idle s₀) (h : During p s₀ n .garbageCollect s) : Untouched s₀ s := by
  refine h.along (fun s₁ hs => ?_) fun m l m' hm _ hI hok hs => ?_
  · cases hs
    exact ⟨fun _ => rfl, fun _ _ => rfl, fun _ _ => rfl⟩
  · exact hs.untouched (Reach.sound (hm.reach h₀ hidle)) hok (hm.collecting h₀ hidle) hI

/-- A `Ref` whose owner was not destroyed still holds its singleton. -/
theorem During.held [Inhabited K] (h₀ : Runs.Reach (step p) Sequential initial s₀)
    (hidle : Idle s₀) (h : During p s₀ n .garbageCollect s) {r : Holder × Ptr}
    (hr : r ∈ s₀.refs) (hkept : ¬DestroyedBetween s₀ s r.1) :
    0 < (s.singletons r.2).refCount :=
  (Reach.sound (h.reach h₀ hidle)).counted.pos
    (((h.collecting h₀ hidle).kept r hr).resolve_right hkept)

/-- The value of a living singleton holds what it held. -/
theorem During.depends [Inhabited K] (h₀ : Runs.Reach (step p) Sequential initial s₀)
    (hidle : Idle s₀) (h : During p s₀ n .garbageCollect s) {v o : Ptr}
    (halive : (s.singletons v).deleted = false) (hr : s₀.DependsOn v o) :
    0 < (s.singletons o).refCount := by
  refine h.held h₀ hidle hr ?_
  rintro ⟨_, ⟨⟩, -, hgone⟩
  have hvalues := Reach.valuesOnce (Reach.orderly (h.reach h₀ hidle))
  cases (hvalues.alive v halive).symm.trans (hvalues.gone v hgone)

/-- What has a `Ref` survives. -/
theorem During.alive [Inhabited K] (h₀ : Runs.Reach (step p) Sequential initial s₀)
    (hidle : Idle s₀) (h : During p s₀ n .garbageCollect s) {o : Ptr}
    (hpos : 0 < (s.singletons o).refCount) : (s.singletons o).deleted = false := by
  by_contra hdeleted
  have hgone := (Reach.tracked (Reach.orderly (h.reach h₀ hidle))).2.1
  exact hpos.ne' (hgone o (.inr (.inr (.inr (by simpa using hdeleted))))).1

/-- **Safety.**  What was reached when the collection began lives. -/
theorem During.reached_held [Inhabited K] (h₀ : Runs.Reach (step p) Sequential initial s₀)
    (hidle : Idle s₀) (h : During p s₀ n .garbageCollect s) {o : Ptr} (ho : s₀.Reached o) :
    0 < (s.singletons o).refCount := by
  refine Reachability.Reached.of_closed (I := fun o => 0 < (s.singletons o).refCount)
    (fun o hroot => ?_) (fun v o hv hvo => h.depends h₀ hidle (h.alive h₀ hidle hv) hvo) ho
  rcases hroot with hclient | ⟨v, hr, hpinned⟩
  · exact h.held h₀ hidle hclient nofun
  · refine h.held h₀ hidle hr ?_
    rintro ⟨_, ⟨⟩, hbefore, hnow⟩
    rw [(h.untouched h₀ hidle).pinned v hpinned, hbefore] at hnow
    cases hnow

/-- Nothing is disposed after a collection. -/
theorem Completes.collected [Inhabited K] (h₀ : Runs.Reach (step p) Sequential initial s)
    (h : Completes p s n .garbageCollect s') : s'.disposed = ∅ := by
  rcases (h.during.collecting h₀ h.before).emptied with ⟨f, hf, -⟩ | ⟨hempty, -⟩
  · simp [h.after (.client n)] at hf
  · exact hempty

/-- **Completeness.**  What lives after the collection is held from outside, or
by something that lives. -/
theorem Completes.supported [Inhabited K] (h₀ : Runs.Reach (step p) Sequential initial s)
    (h : Completes p s n .garbageCollect s') {o : Ptr} (ho : o < s.bound)
    (halive : (s'.singletons o).deleted = false) :
    s.Root o ∨ ∃ v, (v < s.bound ∧ (s'.singletons v).deleted = false) ∧ s.DependsOn v o := by
  have hcollecting := h.during.collecting h₀ h.before
  have hreach := h.reach h₀
  obtain ⟨hsound, -, htracked⟩ := Reach.tracked (Reach.orderly hreach)
  have hcount : 0 < (s'.singletons o).refCount := by
    simpa [h.collected h₀] using h.after.referenced htracked (hcollecting.bound ▸ ho) halive
  obtain ⟨⟨holder, _⟩, hr, rfl⟩ := hsound.counted.exists_ref hcount
  have hrefs := hcollecting.refs hr
  cases holder with
  | client => exact .inl (.inl hrefs)
  | value v =>
      rcases (h.after.value_kept (Reach.values hreach) hr).2 with hpinned | hv
      · exact .inl (.inr ⟨v, hrefs, (h.during.untouched h₀ h.before).pins v ▸ hpinned⟩)
      · exact .inr ⟨v, ⟨(Reach.values h₀).bound v _ hrefs, hv⟩, hrefs⟩

/-- Without cycles, what lives after the collection is what was reached before. -/
theorem Completes.alive_iff [Inhabited K] (h₀ : Runs.Reach (step p) Sequential initial s)
    (hacyclic : Reachability.Acyclic s.DependsOn) (h : Completes p s n .garbageCollect s')
    {o : Ptr} (ho : o < s.bound) : (s'.singletons o).deleted = false ↔ s.Reached o := by
  have hbound : ∀ {holder o}, (holder, o) ∈ s.refs → o < s.bound := fun hr =>
    (Reach.sound h₀).allocated.refs _ hr
  have hwf : WellFounded s.DependsOn := hacyclic.wellFounded (Set.finite_Iio s.bound)
    fun v o hr => ⟨(Reach.values h₀).bound v o hr, hbound hr⟩
  have halive := fun {o} => h.during.alive h₀ h.before (o := o)
  have hiff := Reachability.reached_iff
    (I := fun o => o < s.bound ∧ (s'.singletons o).deleted = false) hwf
    (fun o hroot => ⟨?_, halive (h.during.reached_held h₀ h.before (.root hroot))⟩)
    (fun v o hv hvo => ⟨hbound hvo, halive (h.during.depends h₀ h.before hv.2 hvo)⟩)
    (fun o hkept => h.supported h₀ hkept.1 hkept.2) o
  · exact ⟨fun hlives => hiff.mp ⟨ho, hlives⟩, fun hreached => (hiff.mpr hreached).2⟩
  · rcases hroot with hclient | ⟨v, hr, -⟩
    · exact hbound hclient
    · exact hbound hr

/-- The entries that stay are the ones that were reached. -/
theorem Completes.entries_iff [Inhabited K] (h₀ : Runs.Reach (step p) Sequential initial s)
    (hacyclic : Reachability.Acyclic s.DependsOn) (h : Completes p s n .garbageCollect s')
    (k : K) (o : Ptr) : s'.children.lookup k = some o ↔
      s.children.lookup k = some o ∧ s.Reached o := by
  have hcollecting := h.during.collecting h₀ h.before
  have hsound := Reach.sound (h.reach h₀)
  constructor
  · intro entry
    obtain ⟨ho, -, hattached⟩ := (h.after.entry_iff_key hsound).mp entry
    have ho : o < s.bound := hcollecting.bound ▸ ho
    exact ⟨h.entry_before h₀ ho entry, (h.alive_iff h₀ hacyclic ho).mp hattached.2⟩
  · rintro ⟨entry, hreached⟩
    obtain ⟨ho, hkey, hattached⟩ := (h.before.entry_iff_key (Reach.sound h₀)).mp entry
    exact (h.after.entry_iff_key hsound).mpr ⟨hcollecting.bound ▸ ho,
      ((h.older h₀).key _ ho).trans hkey, (hcollecting.storage o).trans hattached.1,
      (h.alive_iff h₀ hacyclic ho).mpr hreached⟩

omit [DecidableEq K] in
/-- The `Ref`s that are left are those whose owner was not destroyed, each as often as
before, if the others are gone and none of these was copied or dropped. -/
theorem State.refs_perm_of_count
    (hgone : ∀ r ∈ s'.refs, ¬DestroyedBetween s s' r.1)
    (hcount : ∀ r, ¬DestroyedBetween s s' r.1 → s'.refs.count r = s.refs.count r) :
    s'.refs.Perm (s.refs.filter fun r => ¬DestroyedBetween s s' r.1) := by
  refine List.perm_iff_count.mpr fun r => ?_
  by_cases hdestroyed : DestroyedBetween s s' r.1
  · have hout : r ∉ s'.refs := fun hr => hgone r hr hdestroyed
    rw [List.count_eq_zero.mpr hout, List.count_eq_zero.mpr (by simp [hdestroyed])]
  · rw [hcount r hdestroyed, List.count_filter (by simpa using hdestroyed)]

omit [DecidableEq K] in
/-- In an idle storage the owner of a `Ref` has not been destroyed. -/
theorem Idle.owner_kept (h : Idle s') (hvalues : Values s') {r : Holder × Ptr}
    (hr : r ∈ s'.refs) : ¬DestroyedBetween s s' r.1 := by
  obtain ⟨holder, o⟩ := r
  rintro ⟨v, rfl, -, hgone⟩
  cases (h.value_kept hvalues hr).1.symm.trans hgone

/-- The `Ref`s that are left are those whose owner was not destroyed. -/
theorem Completes.refs_perm [Inhabited K] (h₀ : Runs.Reach (step p) Sequential initial s)
    (h : Completes p s n .garbageCollect s') :
    s'.refs.Perm (s.refs.filter fun r => ¬DestroyedBetween s s' r.1) :=
  State.refs_perm_of_count (fun _ hr => h.after.owner_kept (Reach.values (h.reach h₀)) hr)
    (h.during.untouched h₀ h.before).count

/-- Counters go down by the `Ref`s of destroyed values. -/
theorem Completes.refCount_eq [Inhabited K] (h₀ : Runs.Reach (step p) Sequential initial s)
    (h : Completes p s n .garbageCollect s') (o : Ptr) :
    (s'.singletons o).refCount +
        s.refs.countP (fun r => r.2 = o ∧ DestroyedBetween s s' r.1) =
      (s.singletons o).refCount := by
  have hsplit := List.countP_eq_countP_filter_add s.refs (fun r => r.2 = o)
    fun r => DestroyedBetween s s' r.1
  rw [(Reach.sound (h.reach h₀)).counted o, (Reach.sound h₀).counted o,
    (h.refs_perm h₀).countP_eq, hsplit, add_comm]
  simp [List.countP_filter]

/-- A run within an operation deletes an object once, if it lives before and
not after the run. -/
theorem During.deletions_eq [Inhabited K] (h₀ : Runs.Reach (step p) Sequential initial s₀)
    (hidle : Idle s₀) {op : Op K} (h : During p s₀ n op s) {o : Ptr} (ho : o < s.bound)
    {ls : List (Label K)} (hrun : Runs.run (step p) s ls = some s')
    (hok : ∀ l ∈ ls, ∀ n op, l ≠ .start n op) :
    deletions p o s ls + (s.singletons o).deleted.toNat = (s'.singletons o).deleted.toNat := by
  induction ls generalizing s with
  | nil => cases hrun; simp [deletions]
  | cons l ls ih =>
      obtain ⟨m, hstep, hrest⟩ := Option.bind_eq_some_iff.mp hrun
      have hs := step_cases hstep
      have htracked := (Reach.tracked (Reach.orderly (h.reach h₀ hidle))).2.2
      have hm := h.next (hok l (.head _)) hstep
      have hnext := ih hm (ho.trans_le hs.bound_le) hrest fun l hl => hok l (.tail _ hl)
      simp only [deletions, hstep, Option.elim_some]
      by_cases hdeletes : s.deletes l = some o
      · have hd := State.deletes_iff.mp hdeletes
        rw [hs.deletes_deleted hd] at hnext
        rw [if_pos hdeletes, hd.alive htracked]
        simp at hnext ⊢
        omega
      · have hsame : (m.singletons o).deleted = (s.singletons o).deleted := by
          by_cases hold : (s.singletons o).deleted = true
          · rw [hold, hs.deleted_kept ho hold]
          · refine (Bool.eq_false_of_not_eq_true fun hdeleted => ?_).trans
              (Bool.eq_false_of_not_eq_true hold).symm
            exact (hs.deleted_cases hdeleted).elim hold fun hd =>
              hdeletes (State.deletes_iff.mpr hd)
        rw [if_neg hdeletes, Nat.zero_add, ← hsame]
        exact hnext

/-- **Garbage collection.**  From every idle state of a sequential history whose
values depend on each other without cycles, every run of a `garbageCollect` is
bounded, goes on until the collection is over, and violates no assertion.  When
it is over `m_disposed` is empty, the destructors of exactly the living
singletons were called that no `Ref` from outside reached, each once, and the
other entries are there with their counters lower by the `Ref`s of destroyed
values. -/
theorem garbageCollect_exact [Inhabited K] (h : Runs.Reach (step p) Sequential initial s)
    (hidle : Idle s) (hacyclic : Reachability.Acyclic s.DependsOn) {ls : List (Label K)}
    (hrun : Runs.run (step p) s (.start n .garbageCollect :: ls) = some s')
    (hok : ∀ l ∈ ls, ∀ n op, l ≠ .start n op) :
    ls.length ≤ 10 * s.refs.length + 6 * s.pendingGarbageCollect + 3 ∧
    (Idle s' ∨ ∃ l, Running s' l ∧ (step p s' l).isSome) ∧
    Asserted s' ∧
    (Idle s' → Collected s s' ∧
      ∀ o < s.bound, (s.singletons o).deleted = false →
        (¬s.Reached o → deletions p o s (.start n .garbageCollect :: ls) = 1) ∧
        (s.Reached o → deletions p o s (.start n .garbageCollect :: ls) = 0)) := by
  obtain ⟨s₁, hfirst, hrest⟩ := Option.bind_eq_some_iff.mp hrun
  have h₁ : During p s n .garbageCollect s₁ := ⟨s₁, hfirst, .refl⟩
  have hduring : During p s n .garbageCollect s' := ⟨s₁, hfirst, Runs.reach_of_run hrest
    (Runs.runMeets_of_labels fun l hl _ => hok l hl)⟩
  refine ⟨garbageCollect_length_le h hidle hrun hok, hduring.enabled h hidle,
    hduring.asserted h hidle, fun hdone => ?_⟩
  have hcompletes : Completes p s n .garbageCollect s' := ⟨hidle, hduring, hdone⟩
  have halive := fun {o} => hcompletes.alive_iff h hacyclic (o := o)
  refine ⟨⟨hcompletes.collected h, fun o ho _ => ?_, hcompletes.entries_iff h hacyclic,
    hcompletes.refCount_eq h⟩, fun o ho hbefore => ?_⟩
  · rw [← halive ho, Bool.not_eq_false]
  have hkept : s₁.bound = s.bound ∧ (s₁.singletons o).deleted = false := by
    cases step_cases hfirst
    exact ⟨rfl, hbefore⟩
  have hcount := h₁.deletions_eq h hidle (hkept.1 ▸ ho) hrest hok
  have hall : deletions p o s (.start n .garbageCollect :: ls) =
      (s'.singletons o).deleted.toNat := by
    simpa [deletions, State.deletes, hfirst, hkept.2] using hcount
  rw [hall]
  constructor
  · intro hnot
    have hdeleted : (s'.singletons o).deleted = true := by
      simpa using mt (halive ho).mp hnot
    rw [hdeleted, Bool.toNat_true]
  · intro hreached
    rw [(halive ho).mpr hreached, Bool.toNat_false]

/-- A type that gets another one while it is created, by whoever asks for its value. -/
def dependents : Program String where
  create k := if k = "DependOnSomeType" then [.get "SomeType"] else []
  async _ := false

/-- Nothing is created in a task. -/
theorem dependents_async (k : String) : dependents.async k = false := rfl

/-- Client 0 gets the dependent type and its value, and lets both go. -/
def dropDependent : List (Label String) :=
  [.start 0 (.get "DependOnSomeType"), .next (.client 0), .next (.client 0), .next (.client 0),
    .next (.client 0), .next (.client 0), .next (.client 0), .start 0 (.value 0),
    .next (.client 0), .next (.client 0), .next (.client 0), .next (.client 0),
    .next (.client 0), .next (.client 0), .next (.client 0), .next (.client 0),
    .next (.client 0), .next (.client 0), .start 0 (.release 0), .start 0 (.drop 0),
    .next (.client 0), .next (.client 0), .next (.client 0)]

/-- The dependent singleton is garbage, and its value has the only `Ref` to the other. -/
theorem dropDependent_idle {s : State String}
    (hrun : Runs.run (step dependents) initial dropDependent = some s) :
    Runs.Reach (step dependents) Sequential initial s ∧ Idle s ∧
      Reachability.Acyclic s.DependsOn := by
  have hsolo : ∀ l ∈ dropDependent, l.tid = .client 0 := by decide
  obtain ⟨hstack, hrefs⟩ : s.stack (.client 0) = [] ∧ s.refs = [(.value 0, 1)] := by
    cases hrun
    exact ⟨rfl, rfl⟩
  refine ⟨reach_of_solo dependents_async hsolo (fun _ _ => rfl) hrun,
    idle_of_solo dependents_async hsolo (fun _ _ => rfl) hrun hstack, ?_⟩
  refine .of_rank id fun v o hr => ?_
  have hone : (Holder.value v, o) ∈ s.refs := hr
  simp [hrefs] at hone
  simp [hone]

/-- The steps of the collection: one round for each type. -/
def collectDependent : List (Label String) :=
  [.next (.client 0), .next (.client 0), .pickKey (.client 0) "DependOnSomeType",
    .next (.client 0), .pick (.client 0) 1, .next (.client 0), .next (.client 0),
    .next (.client 0), .next (.client 0), .next (.client 0), .next (.client 0),
    .next (.client 0), .pickKey (.client 0) "SomeType", .next (.client 0), .next (.client 0),
    .next (.client 0), .next (.client 0), .next (.client 0), .next (.client 0)]

/-- A singleton and the one its value has are collected. -/
theorem garbageCollect_exact_dependent :
    ∃ s s', Runs.run (step dependents) initial dropDependent = some s ∧
      s.pendingGarbageCollect = 1 ∧
      Runs.run (step dependents) s (.start 0 .garbageCollect :: collectDependent) = some s' ∧
      Collected s s' ∧ (s'.singletons 0).deleted = true ∧ (s'.singletons 1).deleted = true := by
  have hrun : Runs.run (step dependents) initial dropDependent = some _ := rfl
  obtain ⟨hreach, hidle, hacyclic⟩ := dropDependent_idle hrun
  refine ⟨_, _, hrun, rfl, rfl, ?_, rfl, rfl⟩
  have hcollect : Runs.run (step dependents)
      ((Runs.run (step dependents) initial dropDependent).get rfl)
      (.start 0 .garbageCollect :: collectDependent) = some _ := rfl
  have hok : ∀ l ∈ collectDependent, ∀ n op, l ≠ .start n op := by simp [collectDependent]
  refine ((garbageCollect_exact hreach hidle hacyclic hcollect hok).2.2.2 ?_).1
  exact idle_of_solo dependents_async (n := 0) (by decide) (fun t _ => hidle t) hcollect rfl

end SingletonStorage
