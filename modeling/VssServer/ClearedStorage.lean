import VssServer.AttributeProxies
import VssServer.Phases
import VssServer.Releases

/-!
# Nothing leaks

While every thread of a history in phases is idle, a singleton lives exactly if a `Ref`
from outside of the values, or a disposed singleton, leads to it; and its value lives
exactly if the singleton does or a `shared_ptr` keeps it.  After a `clear`
nothing is disposed, so what lives is what was reached before, detached, and its last
`Ref` deletes it.

* `Ledger.alive_iff`: what lives while every thread is idle is what is referred to from
  outside, or disposed.
* `Completes.clear_alive_iff`: what lives after a `clear` is what was reached before.
* `idle_accounted`: all objects and values of an idle storage are accounted for.
* `clear_exact`: what a `clear` deletes, detaches and leaves.
-/

namespace SingletonStorage

variable {K : Type}

/-- A `Ref` from outside leads to `o`, or a singleton that waits for its collection. -/
def State.Kept (s : State K) (o : Ptr) : Prop :=
  Reachability.Reached (fun o => s.Root o ∨ o ∈ s.disposed) s.DependsOn o

/-- What a storage has accounted for while every thread is idle. -/
structure Accounted (s : State K) : Prop where
  objects : ∀ o < s.bound, (s.singletons o).deleted = false ↔ s.Kept o
  values : ∀ v < s.bound, (s.singletons v).valueGone = false ↔
    (s.singletons v).deleted = false ∨ 0 < (s.singletons v).pins
  disposed : s.children = ∅ → s.disposed = ∅
  released : (∀ o, (.client, o) ∉ s.refs) → (∀ v, (s.singletons v).pins = 0) →
    s.disposed = ∅ → s.refs = [] ∧
      ∀ o < s.bound, (s.singletons o).deleted = true ∧ (s.singletons o).valueGone = true

/-- What a `clear` has done to a storage. -/
structure Cleared (s s' : State K) : Prop where
  bound : s'.bound = s.bound
  children : s'.children = ∅
  disposed : s'.disposed = ∅
  objects : ∀ o < s.bound, (s'.singletons o).deleted = false ↔ s.Reached o
  detached : ∀ o < s.bound, s.Reached o →
    (s'.singletons o).storage = false ∧ 0 < (s'.singletons o).refCount
  refs : s'.refs.Perm (s.refs.filter fun r => ¬DestroyedBetween s s' r.1)

/-- What a client that is alone leaves to the owners of `Ref`s and values: it takes none
itself, and copies or drops none of an owner that stays. -/
structure Spared (s₀ s : State K) : Prop where
  bound : s.bound = s₀.bound
  refs : s.refs ⊆ s₀.refs
  pins : ∀ v, (s.singletons v).pins = (s₀.singletons v).pins
  count : ∀ r, ¬DestroyedBetween s₀ s r.1 → s.refs.count r = s₀.refs.count r

/-- What a client holds is not dropped for it. -/
theorem Spared.client {s₀ s : State K} (h : Spared s₀ s) {o : Ptr}
    (hr : (.client, o) ∈ s₀.refs) : (.client, o) ∈ s.refs := by
  have hcount := h.count (.client, o) (by simp [DestroyedBetween])
  exact List.count_pos_iff.mp (hcount ▸ List.count_pos_iff.mpr hr)

/-- A value that still lives has its `Ref`s. -/
theorem Spared.value {s₀ s : State K} (h : Spared s₀ s) {v o : Ptr}
    (hr : (.value v, o) ∈ s₀.refs) (hheld : (s.singletons v).valueGone = false) :
    (.value v, o) ∈ s.refs := by
  have hcount := h.count (.value v, o) (by simp [DestroyedBetween, hheld])
  exact List.count_pos_iff.mp (hcount ▸ List.count_pos_iff.mpr hr)

variable [DecidableEq K] {p : Program K} {s₀ s s' : State K} {l : Label K} {n : Nat} {op : Op K}

/-- Only a destructor that was called drops the `Ref`s of a value. -/
theorem Reach.dropping [Inhabited K] {ok : State K → Label K → Prop}
    (h : Runs.Reach (step p) ok initial s) : Dropping s :=
  h.along (fun _ _ hf => by cases hf) fun _ _ _ hs hI _ hstep =>
    (step_cases hstep).dropping (Reach.sound hs).allocated hI

/-- A value lives as long as its singleton, or a `shared_ptr` that keeps it. -/
theorem Ledger.value_iff (h : Ledger s) (hidle : Idle s) (v : Ptr) :
    (s.singletons v).valueGone = false ↔
      (s.singletons v).deleted = false ∨ 0 < (s.singletons v).pins := by
  constructor
  · intro hheld
    by_contra hlost
    obtain ⟨hdeleted, hpins⟩ := not_or.mp hlost
    have hshared : (s.singletons v).shared = false := by
      rcases h.values.joining v (by simpa using hdeleted) with ⟨t, hjoin⟩ | hshared
      · simp [hidle t] at hjoin
      · exact hshared
    have hgone := h.values.last v hshared (Nat.eq_zero_of_not_pos hpins)
    cases hheld.symm.trans hgone
  · intro hkept
    by_contra hgone
    rw [Bool.not_eq_false] at hgone
    rcases hkept with halive | hpins
    · cases (h.once.gone v hgone).symm.trans (h.once.alive v halive)
    · exact hpins.ne' (h.unpinned v hgone)

/-- Whoever has a `Ref` keeps the singleton. -/
theorem Ledger.alive_of_ref (h : Ledger s) {r : Holder × Ptr} (hr : r ∈ s.refs) :
    (s.singletons r.2).deleted = false := by
  by_contra hdeleted
  have hzero := (h.gone r.2 (.inr (.inr (.inr (by simpa using hdeleted))))).1
  exact (h.sound.counted.pos hr).ne' hzero

/-- Without cycles every dependence comes to an end. -/
theorem Ledger.dependsOn_wellFounded (h : Ledger s)
    (hacyclic : Reachability.Acyclic s.DependsOn) : WellFounded s.DependsOn :=
  hacyclic.wellFounded (Set.finite_Iio s.bound) fun v o hr =>
    ⟨h.values.bound v o hr, h.sound.allocated.refs _ hr⟩

/-- **No leak, no dangling `Ref`.** -/
theorem Ledger.alive_iff (h : Ledger s) (hidle : Idle s)
    (hacyclic : Reachability.Acyclic s.DependsOn) {o : Ptr} (ho : o < s.bound) :
    (s.singletons o).deleted = false ↔ s.Kept o := by
  have hiff : o < s.bound ∧ (s.singletons o).deleted = false ↔ s.Kept o :=
    Reachability.reached_iff (I := fun o => o < s.bound ∧ (s.singletons o).deleted = false)
      (h.dependsOn_wellFounded hacyclic) (fun o hroot => ?_)
      (fun v o _ hr => ⟨h.sound.allocated.refs _ hr, h.alive_of_ref hr⟩)
      (fun o hkept => ?_) o
  · exact ⟨fun halive => hiff.mp ⟨ho, halive⟩, fun hkept => (hiff.mpr hkept).2⟩
  · rcases hroot with (hr | ⟨v, hr, -⟩) | hdisposed
    · exact ⟨h.sound.allocated.refs _ hr, h.alive_of_ref hr⟩
    · exact ⟨h.sound.allocated.refs _ hr, h.alive_of_ref hr⟩
    · exact ⟨h.sound.allocated.disposed o hdisposed, (h.tracked.disposed o hdisposed).2.1.2⟩
  · rcases hidle.referenced h.tracked hkept.1 hkept.2 with hcount | hdisposed
    · obtain ⟨⟨holder, _⟩, hr, rfl⟩ := h.sound.counted.exists_ref hcount
      cases holder with
      | client => exact .inl (.inl (.inl hr))
      | value v =>
          rcases (hidle.value_kept h.values hr).2 with hpinned | halive
          · exact .inl (.inl (.inr ⟨v, hr, hpinned⟩))
          · exact .inr ⟨v, ⟨h.values.bound v _ hr, halive⟩, hr⟩
    · exact .inl (.inr hdisposed)

/-- What is disposed has an entry. -/
theorem Ledger.disposed_empty (h : Ledger s) (hchildren : s.children = ∅) :
    s.disposed = ∅ := by
  refine Finset.eq_empty_of_forall_notMem fun o ho => ?_
  have hentry := (h.tracked.disposed o ho).2.2
  simp [hchildren] at hentry

/-- A client that is alone creates nothing and takes no value; and it drops no `Ref` but
those of values it destroys. -/
theorem Step.spared (hs : Step p s l s') (hl : Running s l) (hrel : Releasing s n)
    (hdropping : Dropping s)
    (hheld : ∀ v o, (.value v, o) ∈ s₀.refs → (s₀.singletons v).valueGone = false)
    (h : Spared s₀ s) : Spared s₀ s' where
  bound := by
    rw [← h.bound]
    cases hs
    case getMissing top _ => simpa [Frame.destroys, Frame.collects] using (hrel.top top).2
    all_goals rfl
  refs _ hr := h.refs (hs.refs_subset hl hrel hr)
  pins v := by
    rw [← h.pins v]
    cases hs.object v with
    | same eq => rw [eq]
    | new _ top => simpa [Frame.destroys, Frame.collects] using (hrel.top top).2
    | alters eq step =>
        rw [eq]
        cases step with
        | release label | releaseLast label => exact absurd label (hl _ _)
        | waitReady top => simpa [Frame.destroys, Frame.collects] using (hrel.top top).2
        | _ => rfl
  count r hkept := by
    have hbefore : ¬DestroyedBetween s₀ s r.1 := by
      rintro ⟨v, hv, hold, hnow⟩
      exact hkept ⟨v, hv, hold, hs.gone_kept hrel hnow⟩
    rw [← h.count r hbefore]
    cases hs
    case dropRef t v o rest top mem =>
      refine List.count_erase_of_ne ?_
      rintro rfl
      have hgone := hdropping t v (by simp [top])
      exact hbefore ⟨v, rfl, hheld v o (h.refs mem), hgone⟩
    case getRef top => simpa [Frame.destroys, Frame.collects] using (hrel.top top).2
    case startCopy | startDrop => exact absurd rfl (hl _ _)
    all_goals rfl

/-- What a `clear` spares as long as it takes. -/
theorem During.spared [Inhabited K] (h₀ : Runs.Reach (step p) Sequential initial s₀)
    (hidle : Idle s₀) (h : During p s₀ n .clear s) : Spared s₀ s := by
  refine h.along (fun s₁ hs => ?_) fun m l m' hm _ hI hok hs => ?_
  · cases hs
    exact ⟨rfl, List.Subset.refl _, fun _ => rfl, fun _ _ => rfl⟩
  · exact hs.spared hok (hm.releasing hidle rfl) (Reach.dropping (hm.reach h₀ hidle))
      (fun v o hr => (hidle.value_kept (Reach.values h₀) hr).1) hI

/-- The `Ref`s that are left after a `clear` are those whose owner was not destroyed. -/
theorem Completes.clear_refs [Inhabited K] (h₀ : Runs.Reach (step p) Sequential initial s)
    (h : Completes p s n .clear s') :
    s'.refs.Perm (s.refs.filter fun r => ¬DestroyedBetween s s' r.1) :=
  State.refs_perm_of_count (fun _ hr => h.after.owner_kept (Reach.values (h.reach h₀)) hr)
    (h.during.spared h₀ h.before).count

/-- What lives after a `clear` is what was reached before. -/
theorem Completes.clear_alive_iff [Inhabited K]
    (h₀ : Runs.Reach (step p) Sequential initial s)
    (hacyclic : Reachability.Acyclic s.DependsOn) (h : Completes p s n .clear s') {o : Ptr}
    (ho : o < s.bound) : (s'.singletons o).deleted = false ↔ s.Reached o := by
  have hspared := h.during.spared h₀ h.before
  have hledger := (Reach.ledger (Reach.phased (h.reach h₀))).1
  have hdisposed := hledger.disposed_empty (h.clear_entries h₀)
  have hle : s'.DependsOn ≤ s.DependsOn := fun _ _ hr => hspared.refs hr
  have hlater : Reachability.Acyclic s'.DependsOn := fun v hcycle =>
    hacyclic v (Relation.TransGen.mono hle v v hcycle)
  rw [hledger.alive_iff h.after hlater (hspared.bound ▸ ho)]
  constructor
  · refine Reachability.Reached.of_closed (I := s.Reached) ?_ fun v o hv hr =>
      hv.edge (hspared.refs hr)
    rintro o ((hr | ⟨v, hr, hpinned⟩) | hin)
    · exact .root (.inl (hspared.refs hr))
    · exact .root (.inr ⟨v, hspared.refs hr, hspared.pins v ▸ hpinned⟩)
    · simp [hdisposed] at hin
  · refine Reachability.Reached.of_closed (I := s'.Kept) ?_ ?_
    · rintro o (hr | ⟨v, hr, hpinned⟩)
      · exact .root (.inl (.inl (hspared.client hr)))
      · rw [← hspared.pins v] at hpinned
        have hheld := (hledger.value_iff h.after v).mpr (.inr hpinned)
        exact .root (.inl (.inr ⟨v, hspared.value hr hheld, hpinned⟩))
    · intro v o hv hr
      have hbound := hspared.bound ▸ (Reach.values h₀).bound v o hr
      have halive := (hledger.alive_iff h.after hlater hbound).mpr hv
      have hheld := (hledger.value_iff h.after v).mpr (.inl halive)
      exact hv.edge (hspared.value hr hheld)

/-- **Nothing leaks.**  In every state of a history in phases in which all threads are
idle and the values depend on each other without cycles, a singleton lives exactly if a
`Ref` of a client, or of a value that a `shared_ptr` keeps, leads to it, or a disposed
singleton does; its value lives exactly if the singleton does or a `shared_ptr` keeps it;
and once the clients have let everything go and nothing is disposed, every object and
every value that was ever created has been destroyed. -/
theorem idle_accounted [Inhabited K] (h : Runs.Reach (step p) Phased initial s)
    (hidle : Idle s) (hacyclic : Reachability.Acyclic s.DependsOn) : Accounted s := by
  obtain ⟨hledger, -⟩ := Reach.ledger h
  refine ⟨fun _ ho => hledger.alive_iff hidle hacyclic ho,
    fun v _ => hledger.value_iff hidle v, hledger.disposed_empty, ?_⟩
  intro hclient hpins hdisposed
  have hnone : ∀ o, ¬s.Kept o := fun o => by
    refine Reachability.Reached.of_closed (I := fun _ => False) ?_ fun _ _ hv _ => hv
    rintro o ((hr | ⟨v, -, hpinned⟩) | hin)
    · exact hclient o hr
    · simp [hpins v] at hpinned
    · simp [hdisposed] at hin
  have hdeleted : ∀ o < s.bound, (s.singletons o).deleted = true := fun o ho => by
    simpa using mt (hledger.alive_iff hidle hacyclic ho).mp (hnone o)
  refine ⟨List.eq_nil_iff_forall_not_mem.mpr fun r hr => ?_, fun o ho => ⟨hdeleted o ho, ?_⟩⟩
  · have hlt := hledger.sound.allocated.refs r hr
    cases (hledger.alive_of_ref hr).symm.trans (hdeleted r.2 hlt)
  · by_contra hheld
    have hkept := (hledger.value_iff hidle o).mp (by simpa using hheld)
    simp [hdeleted o ho, hpins o] at hkept

/-- Two clients get the dependent type together, and wait for its value together. -/
def getTogether : List (Label String) :=
  [.start 0 (.get "DependOnSomeType"), .start 1 (.get "DependOnSomeType"), .next (.client 0),
    .next (.client 0), .next (.client 0), .next (.client 0), .next (.client 0),
    .next (.client 1), .next (.client 0), .next (.client 1), .next (.client 1),
    .next (.client 1), .next (.client 1), .start 0 (.value 0), .start 1 (.value 0),
    .next (.client 0), .next (.client 0), .next (.client 0), .next (.client 0),
    .next (.client 0), .next (.client 0), .next (.client 0), .next (.client 0),
    .next (.client 0), .next (.client 1), .next (.client 0)]

/-- Then they give both up, client 1 the value while client 0 is disposing the singleton. -/
def dropTogether : List (Label String) :=
  [.start 0 (.release 0), .start 1 (.drop 0), .start 0 (.drop 0), .next (.client 0),
    .start 1 (.release 0), .next (.client 0), .next (.client 0)]

/-- What they got is garbage, and its value has the only `Ref` to the other singleton. -/
theorem idle_accounted_dropDependent :
    ∃ s, Runs.run (step dependents) initial (getTogether ++ dropTogether) = some s ∧
      s.refs = [(.value 0, 1)] ∧ Accounted s := by
  have hgets : Runs.run (step dependents) initial getTogether = some _ := rfl
  have hdrops : Runs.run (step dependents)
      ((Runs.run (step dependents) initial getTogether).get rfl) dropTogether = some _ := rfl
  have hrun : Runs.run (step dependents) initial (getTogether ++ dropTogether) = some _ := rfl
  have hidle₀ : Idle (initial (K := String)) := fun _ => rfl
  have hidle := idle_of_run (P := fun t => t = .client 0 ∨ t = .client 1) dependents_async
    (by decide) (fun _ _ => rfl) hgets (by rintro _ (rfl | rfl) <;> rfl)
  have hafter := idle_of_run (P := fun t => t = .client 0 ∨ t = .client 1) dependents_async
    (by decide) (fun _ _ => rfl) hrun (by rintro _ (rfl | rfl) <;> rfl)
  have hgetting : ∀ n op, .start n op ∈ getTogether → op.gets := by
    simp [getTogether, or_imp, forall_and, Op.gets]
  have hdropping : ∀ n op, .start n op ∈ dropTogether → op.givesUp := by
    simp [dropTogether, or_imp, forall_and, Op.givesUp]
  have hreach := (Runs.reach_of_run hgets (hidle₀.getting.runMeets hgetting)).trans
    (Runs.reach_of_run hdrops (hidle.givingUp.runMeets hdropping))
  refine ⟨_, hrun, rfl, idle_accounted hreach hafter (.of_rank id fun v o hr => ?_)⟩
  have hone : (Holder.value v, o) ∈ [(Holder.value 0, 1)] := hr
  simp at hone
  simp [hone]

/-- **Clear.**  A `clear` that is over has emptied the storage.  The destructors of exactly
those singletons were called that no `Ref` from outside reached; the others are detached
and still referenced, nothing was created, and the `Ref`s that are left are exactly those
whose owner was not destroyed, each as often as before. -/
theorem clear_exact [Inhabited K] (h : Runs.Reach (step p) Sequential initial s)
    (hacyclic : Reachability.Acyclic s.DependsOn) (hclear : Completes p s n .clear s') :
    Cleared s s' := by
  obtain ⟨hledger, -⟩ := Reach.ledger (Reach.phased (hclear.reach h))
  have hempty := hclear.clear_entries h
  refine ⟨(hclear.during.spared h hclear.before).bound, hempty, hledger.disposed_empty hempty,
    fun _ ho => hclear.clear_alive_iff h hacyclic ho, fun o ho hreached => ?_,
    hclear.clear_refs h⟩
  have halive := (hclear.clear_alive_iff h hacyclic ho).mpr hreached
  have hbound : o < s'.bound := (hclear.during.spared h hclear.before).bound ▸ ho
  constructor
  · by_contra hattached
    have hentry := (hclear.after.entry_iff hledger.sound hbound).mpr
      ⟨by simpa using hattached, halive⟩
    simp [hempty] at hentry
  · simpa [hledger.disposed_empty hempty] using
      hclear.after.referenced hledger.tracked hbound halive

/-- The `clear` deletes what the client does not hold and detaches the rest. -/
theorem clear_exact_dependent :
    ∃ s s', Runs.run (step dependents) initial holdLight = some s ∧
      Runs.run (step dependents) s (.start 0 .clear :: clearDependent) = some s' ∧
      Cleared s s' ∧ (s'.singletons 1).deleted = true ∧ (s'.singletons 2).deleted = false := by
  have hrun : Runs.run (step dependents) initial holdLight = some _ := rfl
  obtain ⟨hreach, hidle, hacyclic⟩ := holdLight_idle hrun
  have hclear : Runs.run (step dependents)
      ((Runs.run (step dependents) initial holdLight).get rfl)
      (.start 0 .clear :: clearDependent) = some _ := rfl
  obtain ⟨m, hfirst, hrest⟩ := Option.bind_eq_some_iff.mp hclear
  have hduring : During dependents _ 0 .clear _ :=
    ⟨m, hfirst, Runs.reach_of_run hrest (Runs.runMeets_of_labels fun l hl _ =>
      clearDependent_running l hl)⟩
  have hafter := idle_of_solo dependents_async (n := 0) (by decide) (fun t _ => hidle t) hclear rfl
  exact ⟨_, _, hrun, hclear, clear_exact hreach hacyclic ⟨hidle, hduring, hafter⟩, rfl, rfl⟩

end SingletonStorage
