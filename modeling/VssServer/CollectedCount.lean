import VssServer.CollectionRounds

/-!
# What `garbageCollect` returns

`garbageCollectUnlocked` counts its rounds: `disposedCount` goes up by one for
each round, whatever the round deletes.  Every round deletes at least one entry,
and one more `Ref` than rounds ended before leads to what a round deletes, so the
rounds are as many as the deleted singletons exactly if the garbage is one chain
of entries.

* `During.atLeast`: every round has deleted an object.
* `During.deepens`: the rounds are not more than the longest chain of garbage.
* `During.atMost`: a chain of garbage is not deleted in fewer rounds.
* `returns_deleted_iff`: when the returned number is that of the deleted singletons.
-/

namespace SingletonStorage

open Relation

variable {K : Type}

/-- A living singleton that no `Ref` from outside reaches. -/
def State.Garbage (s : State K) (o : Ptr) : Prop :=
  o < s.bound ∧ (s.singletons o).deleted = false ∧ ¬s.Reached o

/-- All garbage is in `m_children`, and of any two singletons in it one depends on
the other, directly or over others. -/
structure State.OneByOne (s : State K) : Prop where
  attached : ∀ o, s.Garbage o → (s.singletons o).storage = true
  comparable : ∀ o o', s.Garbage o → s.Garbage o' → o ≠ o' →
    TransGen s.DependsOn o o' ∨ TransGen s.DependsOn o' o

/-- The entries among the singletons deleted between two states. -/
def entriesBetween (s₀ s : State K) : Finset Ptr :=
  (deletedBetween s₀ s).filter fun o => (s₀.singletons o).storage = true

/-- `k` `Ref`s in a row lead to `o`. -/
def State.Depth (s : State K) (k : Nat) (o : Ptr) : Prop :=
  ∃ l, Reachability.Chain s.DependsOn (o :: l) ∧ k ≤ l.length

/-- `k` of the singletons deleted between two states are a chain. -/
def Deep (s₀ s : State K) (k : Nat) : Prop :=
  ∃ l, Reachability.Chain s₀.DependsOn l ∧ k ≤ l.length ∧ ∀ o ∈ l, o ∈ deletedBetween s₀ s

/-- Every round has deleted at least one of `d` objects. -/
def Frame.AtLeast (d : Nat) : Frame K → Prop
  | .gcRound c _ | .gcUnlock c => c ≤ d
  | .gcKeys _ keys c _ => c + 1 ≤ d + keys.length
  | _ => True

/-- Every round has deleted at most one of `d` objects. -/
def Frame.AtMost (d : Nat) : Frame K → Prop
  | .gcLock => d = 0
  | .gcRound c _ | .gcUnlock c => d ≤ c
  | .gcKeys _ keys c _ => d + keys.length ≤ c + 1
  | _ => True

variable [DecidableEq K] {p : Program K} {s₀ s s' : State K} {l : Label K} {n : Nat}

/-- A `garbageCollect` of client `n` unlocks and returns `count`. -/
def ReturnsCount (p : Program K) (s₀ : State K) (n : Nat) (count : Nat) (s' : State K) : Prop :=
  ∃ s, During p s₀ n .garbageCollect s ∧ s.stack (.client n) = [.gcUnlock count] ∧
    step p s (.next (.client n)) = some s'

/-- Where the loop is, the chains that lead to what it deletes and releases. -/
def Frame.Deepens (s₀ s : State K) : Frame K → Prop
  | .gcRound c _ => (∀ x ∈ s.disposed, s₀.Depth c x) ∧ Deep s₀ s c
  | .gcKeys _ keys c _ =>
      (∀ k ∈ keys, ∀ x, s.children.lookup k = some x → s₀.Depth c x) ∧
      (∀ v, Dying s v → s₀.Depth c v) ∧ (∀ x, Released s x → s₀.Depth (c + 1) x) ∧
      (keys = [] → Deep s₀ s (c + 1))
  | .gcUnlock c => Deep s₀ s c
  | _ => True

/-- The entries of a storage in which no `clear` runs are attached. -/
theorem Collecting.entry_attached (h : Collecting s₀ n s) (hsound : Sound s) {k : K} {o : Ptr}
    (entry : s.children.lookup k = some o) : (s.singletons o).storage = true := by
  refine (hsound.directory.attached k o entry).resolve_right ?_
  rintro ⟨remaining, hphase⟩
  obtain ⟨t, -, f, hf, hf'⟩ := State.frame_of_inside hphase
  have ht : t = .client n := by
    by_contra ht
    simp [h.releasing.1 t ht] at hf
  have hclears := h.clears f (ht ▸ hf)
  cases f <;> cases hf'
  simp [Frame.clears] at hclears

/-- A collection brings nothing back. -/
theorem During.deletedBetween_mono [Inhabited K]
    (h₀ : Runs.Reach (step p) Sequential initial s₀) (hidle : Idle s₀)
    (h : During p s₀ n .garbageCollect s) (hs : Step p s l s') :
    deletedBetween s₀ s ⊆ deletedBetween s₀ s' := by
  cases hdeletes : s.deletes l with
  | none => rw [h.deletedBetween_same h₀ hidle hs hdeletes]
  | some o =>
      rw [(h.deletedBetween_insert h₀ hidle hs hdeletes).2]
      exact Finset.subset_insert o _

/-- **Rounds are not more than deletions.** -/
theorem During.atLeast [Inhabited K] (h₀ : Runs.Reach (step p) Sequential initial s₀)
    (hidle : Idle s₀) (h : During p s₀ n .garbageCollect s) {b : Frame K}
    (hb : s.loop n = some b) : b.AtLeast (entriesBetween s₀ s).card := by
  refine (h.loop_along (I := fun s b => b.AtLeast (entriesBetween s₀ s).card) h₀ hidle
    (fun _ _ => trivial) (fun m l m' b b' hm _ hok hs hloop hI => ?_) b hb).2
  have hmono : (entriesBetween s₀ m).card ≤ (entriesBetween s₀ m').card :=
    Finset.card_le_card (Finset.filter_subset_filter _ (hm.deletedBetween_mono h₀ hidle hs))
  cases hloop with
  | lock => exact Nat.zero_le _
  | last => exact le_trans hI hmono
  | inner | erase => exact le_trans hI (Nat.add_le_add_right hmono _)
  | round nonempty =>
      have hpos := List.length_pos_iff.mpr nonempty
      simp only [Frame.AtLeast] at hI ⊢
      omega
  | next => exact le_trans hI hmono
  | @delete k o keys c caller entry mem _ deletes =>
      have hcollecting := hm.collecting h₀ hidle
      obtain ⟨hnew, hinsert⟩ := hm.deletedBetween_insert h₀ hidle hs deletes
      have hstorage : (s₀.singletons o).storage = true :=
        (hcollecting.storage o).symm.trans
          (hcollecting.entry_attached (Reach.sound (hm.reach h₀ hidle)) entry)
      have hcard : (entriesBetween s₀ m').card = (entriesBetween s₀ m).card + 1 := by
        rw [entriesBetween, hinsert, Finset.filter_insert, if_pos hstorage]
        exact Finset.card_insert_of_notMem fun hmem => hnew (Finset.mem_filter.mp hmem).1
      have hlength := List.length_erase_add_one mem
      simp only [Frame.AtLeast] at hI ⊢
      omega

/-- A singleton that is deleted, or has no `Ref`, was garbage. -/
theorem During.garbage [Inhabited K] (h₀ : Runs.Reach (step p) Sequential initial s₀)
    (hidle : Idle s₀) (h : During p s₀ n .garbageCollect s) {o : Ptr} (ho : o < s₀.bound)
    (hbefore : (s₀.singletons o).deleted = false) (hzero : (s.singletons o).refCount = 0) :
    s₀.Garbage o :=
  ⟨ho, hbefore, fun hreached => (h.reached_held h₀ hidle hreached).ne' hzero⟩

/-- What it deletes has no `Ref`. -/
theorem During.zero_of_deleted [Inhabited K] (h₀ : Runs.Reach (step p) Sequential initial s₀)
    (hidle : Idle s₀) (h : During p s₀ n .garbageCollect s) {o : Ptr}
    (hdeleted : (s.singletons o).deleted = true) : (s.singletons o).refCount = 0 := by
  by_contra hpos
  simp [h.alive h₀ hidle (Nat.pos_of_ne_zero hpos)] at hdeleted

/-- What led to a singleton without `Ref`s has been deleted in this collection. -/
theorem During.holder_deleted [Inhabited K] (h₀ : Runs.Reach (step p) Sequential initial s₀)
    (hidle : Idle s₀) (h : During p s₀ n .garbageCollect s) {v o : Ptr} (hr : s₀.DependsOn v o)
    (hzero : (s.singletons o).refCount = 0) : v ∈ deletedBetween s₀ s := by
  have hvalues := Reach.values h₀
  rw [mem_deletedBetween]
  refine ⟨hvalues.bound v o hr, ?_, ?_⟩
  · refine (hidle.value_kept hvalues hr).2.resolve_left fun hpinned => ?_
    exact (h.reached_held h₀ hidle (.root (.inr ⟨v, hr, hpinned⟩))).ne' hzero
  · by_contra halive
    exact (h.depends h₀ hidle (by simpa using halive) hr).ne' hzero

/-- Whatever leads to an object without `Ref`s has been deleted. -/
theorem During.leads_deleted [Inhabited K] (h₀ : Runs.Reach (step p) Sequential initial s₀)
    (hidle : Idle s₀) (h : During p s₀ n .garbageCollect s) {v o : Ptr}
    (hr : TransGen s₀.DependsOn v o) (hzero : (s.singletons o).refCount = 0) :
    v ∈ deletedBetween s₀ s := by
  cases hr with
  | single hedge => exact h.holder_deleted h₀ hidle hedge hzero
  | tail hreached hedge =>
      refine Reachability.gone_of_transGen (fun v o hvo ho => ?_) hreached
        (h.holder_deleted h₀ hidle hedge hzero)
      exact h.holder_deleted h₀ hidle hvo
        (h.zero_of_deleted h₀ hidle (mem_deletedBetween.mp ho).2.2)

omit [DecidableEq K] in
/-- A longer chain has the shorter ones. -/
theorem State.Depth.mono {k k' : Nat} {o : Ptr} (h : s.Depth k o) (hle : k' ≤ k) :
    s.Depth k' o :=
  h.imp fun _ hl => ⟨hl.1, hle.trans hl.2⟩

omit [DecidableEq K] in
/-- One `Ref` more. -/
theorem State.Depth.cons {k : Nat} {v o : Ptr} (h : s.Depth k v) (hedge : s.DependsOn v o) :
    s.Depth (k + 1) o := by
  obtain ⟨l, hchain, hle⟩ := h
  exact ⟨v :: l, hchain.cons hedge, Nat.succ_le_succ hle⟩

omit [DecidableEq K] in
/-- A chain of deleted singletons stays one. -/
theorem Deep.mono {k : Nat} (h : Deep s₀ s k) (hle : deletedBetween s₀ s ⊆ deletedBetween s₀ s') :
    Deep s₀ s' k :=
  h.imp fun _ hl => ⟨hl.1, hl.2.1, fun o ho => hle (hl.2.2 o ho)⟩

/-- A deleted singleton that a chain leads to ends a chain of deleted ones. -/
theorem During.deep [Inhabited K] (h₀ : Runs.Reach (step p) Sequential initial s₀)
    (hidle : Idle s₀) (h : During p s₀ n .garbageCollect s) {o : Ptr}
    (ho : o ∈ deletedBetween s₀ s) {k : Nat} (hdepth : s₀.Depth k o) : Deep s₀ s (k + 1) := by
  obtain ⟨l, hchain, hle⟩ := hdepth
  refine ⟨o :: l, hchain, Nat.succ_le_succ hle, List.forall_mem_cons.mpr ⟨ho, fun v hv => ?_⟩⟩
  exact h.leads_deleted h₀ hidle ((List.pairwise_cons.mp hchain.pairwise).1 v hv)
    (h.zero_of_deleted h₀ hidle (mem_deletedBetween.mp ho).2.2)

omit [DecidableEq K] in
/-- Where a collection is at its loop, no destructor runs. -/
theorem Collecting.at_loop (h : Collecting s₀ n s) {b : Frame K} (hstack : s.stack (.client n) = [b])
    (hb : b.collects) : (∀ v, ¬Dying s v) ∧ ∀ x, Released s x → x ∈ s.disposed := by
  have hframe : ∀ {t f}, f ∈ s.stack t → f = b := by
    intro t f hf
    have ht : t = .client n := by
      by_contra ht
      simp [h.releasing.1 t ht] at hf
    simpa [ht, hstack] using hf
  constructor
  · rintro v ⟨t, hf | hf⟩ <;> cases (hframe hf ▸ hb : Frame.collects _ = true)
  · rintro x (⟨t, f, hf, hpending⟩ | hdisposed)
    · obtain rfl := hframe hf
      cases f <;> first | (cases hpending; done) | cases hb
    · exact hdisposed

/-- What is deleted while a destructor runs is deleted by an `unref`. -/
theorem Collecting.unref_deletes (h : Collecting s₀ n s) (hsound : Sound s) {f : Frame K}
    {rest : List (Frame K)} (top : s.stack (.client n) = f :: rest) (hf : f.destroys) {o : Ptr}
    (hd : Deletes s l o) : ∃ t, .unrefDelete o ∈ s.stack t := by
  rcases hd with ⟨t, rest, -, top'⟩ | ⟨t, k, keys, c, caller, rest, -, top', -⟩
  · exact ⟨t, by simp [top']⟩
  · obtain ⟨rfl, -⟩ := h.top hsound top'
    cases top.symm.trans top'
    cases hf

/-- **Rounds are not more than the longest chain.** -/
theorem During.deepens [Inhabited K] (h₀ : Runs.Reach (step p) Sequential initial s₀)
    (hidle : Idle s₀) (h : During p s₀ n .garbageCollect s) {b : Frame K}
    (hb : s.loop n = some b) : b.Deepens s₀ s := by
  refine (h.loop_along (I := fun s b => b.Deepens s₀ s) h₀ hidle
    (fun _ _ => trivial) (fun m l m' b b' hm hm' hok hs hloop hI => ?_) b hb).2
  have hmono := hm.deletedBetween_mono h₀ hidle hs
  have hcollecting := hm'.collecting h₀ hidle
  have hreleased : ∀ {c}, (∀ v, Dying m v → s₀.Depth c v) →
      (∀ x, Released m x → s₀.Depth (c + 1) x) → ∀ x, Released m' x → s₀.Depth (c + 1) x := by
    intro c hdying hold x hx
    rcases hs.released_cases hok hx with hin | ⟨v, hv, hr⟩
    · exact hold x hin
    · exact (hdying v hv).cons ((hm.collecting h₀ hidle).refs hr)
  cases hloop with
  | lock => exact ⟨fun x _ => ⟨[], .singleton x, Nat.zero_le _⟩, [], .nil, Nat.zero_le _, nofun⟩
  | last => exact hI.2.mono hmono
  | round nonempty eq children disposed =>
      obtain ⟨hdying, hdisposed⟩ := hcollecting.at_loop eq rfl
      refine ⟨fun k hk x entry => ?_, fun v hv => (hdying v hv).elim, fun x hx => ?_,
        fun hnone => absurd hnone nonempty⟩
      · obtain ⟨o, ho, entry'⟩ := State.mem_of_disposedKeys hk
        rw [children, entry'] at entry
        exact hI.1 x (Option.some.inj entry ▸ ho)
      · simpa [disposed] using hdisposed x hx
  | next disposed =>
      exact ⟨fun x hx => hI.2.2.1 x (.inr (disposed ▸ hx)), (hI.2.2.2 rfl).mono hmono⟩
  | erase eq children =>
      refine ⟨fun k hk x entry => hI.1 k hk x ?_,
        fun v hv => ((hcollecting.at_loop eq rfl).1 v hv).elim, hreleased hI.2.1 hI.2.2.1,
        fun hnone => (hI.2.2.2 hnone).mono hmono⟩
      rw [children] at entry
      exact (AList.lookup_erase_ne (by rintro rfl; simp at entry)).symm.trans entry
  | @delete k o keys c caller entry mem children deletes =>
      have ho : o ∈ deletedBetween s₀ m' := by
        rw [(hm.deletedBetween_insert h₀ hidle hs deletes).2]
        exact Finset.mem_insert_self o _
      have hdepth := hI.1 k mem o entry
      refine ⟨fun k' hk' x entry' => hI.1 k' (List.mem_of_mem_erase hk') x (children ▸ entry'),
        fun v hv => ?_, hreleased hI.2.1 hI.2.2.1, fun _ => hm'.deep h₀ hidle ho hdepth⟩
      rcases hs.dying_cases hok hv with hold | hd
      · exact hI.2.1 v hold
      · obtain rfl : v = o := Option.some.inj ((State.deletes_iff.mpr hd).symm.trans deletes)
        exact hdepth
  | inner top destroys children =>
      refine ⟨fun k hk x entry => hI.1 k hk x (children ▸ entry), fun v hv => ?_,
        hreleased hI.2.1 hI.2.2.1, fun hnone => (hI.2.2.2 hnone).mono hmono⟩
      rcases hs.dying_cases hok hv with hold | hd
      · exact hI.2.1 v hold
      · obtain ⟨t, ht⟩ := (hm.collecting h₀ hidle).unref_deletes
          (Reach.sound (hm.reach h₀ hidle)) top destroys hd
        exact (hI.2.2.1 v (.inl ⟨t, _, ht, rfl⟩)).mono (Nat.le_succ _)

/-- A chain of garbage is disposed one by one. -/
theorem During.disposed_le_one [Inhabited K] (h₀ : Runs.Reach (step p) Sequential initial s₀)
    (hidle : Idle s₀) (hone : s₀.OneByOne) (h : During p s₀ n .garbageCollect s) :
    s.disposedKeys.length ≤ 1 := by
  obtain ⟨hsound, hgone, htracked⟩ := Reach.tracked (Reach.orderly (h.reach h₀ hidle))
  rw [(s.disposedKeys_eq hsound fun o ho => (htracked.disposed o ho).2.2).2]
  have hzero : ∀ o ∈ s.disposed, (s.singletons o).refCount = 0 := fun o ho =>
    (hgone o (.inl ho)).1
  have halive : ∀ o ∈ s.disposed, (s.singletons o).deleted = false := fun o ho =>
    (htracked.disposed o ho).2.1.2
  have hgarbage : ∀ o ∈ s.disposed, s₀.Garbage o := fun o ho => by
    have hlt : o < s₀.bound := (h.collecting h₀ hidle).bound ▸ hsound.allocated.disposed o ho
    refine h.garbage h₀ hidle hlt ?_ (hzero o ho)
    by_contra hdeleted
    simpa [halive o ho] using h.deleted_kept hlt (by simpa using hdeleted)
  have hapart : ∀ o ∈ s.disposed, ∀ o' ∈ s.disposed, ¬TransGen s₀.DependsOn o o' := by
    intro o ho o' ho' hr
    have hdeleted := h.leads_deleted h₀ hidle hr (hzero o' ho')
    simp [halive o ho] at hdeleted
  refine Finset.card_le_one.mpr fun o ho o' ho' => ?_
  by_contra hne
  exact (hone.comparable o o' (hgarbage o ho) (hgarbage o' ho') hne).elim
    (hapart o ho o' ho') (hapart o' ho' o ho)

/-- **A chain of garbage is not deleted in fewer rounds.** -/
theorem During.atMost [Inhabited K] (h₀ : Runs.Reach (step p) Sequential initial s₀)
    (hidle : Idle s₀) (hone : s₀.OneByOne) (h : During p s₀ n .garbageCollect s) {b : Frame K}
    (hb : s.loop n = some b) : b.AtMost (deletedBetween s₀ s).card := by
  refine (h.loop_along (I := fun s b => b.AtMost (deletedBetween s₀ s).card) h₀ hidle
    (fun s₁ hs => ?_) (fun m l m' b b' hm hm' hok hs hloop hI => ?_) b hb).2
  · cases hs
    simp [Frame.AtMost, deletedBetween]
  have hsame := fun hnone => hm.deletedBetween_same h₀ hidle hs hnone
  cases hloop with
  | lock deletes =>
      rw [hsame deletes]
      exact le_of_eq hI
  | last deletes | erase _ _ deletes | next _ deletes =>
      rw [hsame deletes]
      exact hI
  | round _ _ _ _ deletes =>
      rw [hsame deletes]
      exact Nat.add_le_add hI (hm.disposed_le_one h₀ hidle hone)
  | @delete k o keys c caller _ mem _ deletes =>
      obtain ⟨hnew, hinsert⟩ := hm.deletedBetween_insert h₀ hidle hs deletes
      have hlength := List.length_erase_add_one mem
      rw [hinsert, Finset.card_insert_of_notMem hnew]
      simp only [Frame.AtMost] at hI ⊢
      omega
  | inner top destroys =>
      cases hdeletes : m.deletes l with
      | none =>
          rw [hsame hdeletes]
          exact hI
      | some o =>
          -- what an `unref` deletes is detached, and no garbage is
          have hsound := Reach.sound (hm.reach h₀ hidle)
          have hcollecting := hm.collecting h₀ hidle
          obtain ⟨t, ht⟩ := hcollecting.unref_deletes hsound top destroys
            (State.deletes_iff.mp hdeletes)
          have ho : o ∈ deletedBetween s₀ m' := by
            rw [(hm.deletedBetween_insert h₀ hidle hs hdeletes).2]
            exact Finset.mem_insert_self o _
          obtain ⟨hlt, hbefore, hdeleted⟩ := mem_deletedBetween.mp ho
          have hattached := hone.attached o
            (hm'.garbage h₀ hidle hlt hbefore (hm'.zero_of_deleted h₀ hidle hdeleted))
          cases (hsound.detached t o ht).symm.trans ((hcollecting.storage o).trans hattached)

/-- The storage at the return of a `garbageCollect`, and before its unlock. -/
theorem ReturnsCount.cases [Inhabited K] (h₀ : Runs.Reach (step p) Sequential initial s₀)
    (hidle : Idle s₀) {count : Nat} (h : ReturnsCount p s₀ n count s') :
    Completes p s₀ n .garbageCollect s' ∧ ∃ s, During p s₀ n .garbageCollect s ∧
      s.loop n = some (.gcUnlock count) ∧ deletedBetween s₀ s' = deletedBetween s₀ s := by
  obtain ⟨s, hduring, hstack, hlast⟩ := h
  have hs := step_cases hlast
  have hok : Running s (.next (.client n)) := nofun
  have hnone : s.deletes (.next (.client n)) = none := by simp [State.deletes, hstack]
  refine ⟨⟨hidle, hduring.next hok hlast, fun t => ?_⟩, s, hduring, by simp [State.loop, hstack],
    hduring.deletedBetween_same h₀ hidle hs hnone⟩
  have hothers := (hduring.collecting h₀ hidle).releasing.1
  have heq : s' = { s.goto (.client n) [] with childrenLock := none } := by
    simpa [step, next, hstack] using hlast.symm
  by_cases ht : t = .client n
  · simp [heq, ht]
  · simpa [heq, ht] using hothers t ht

/-- **Count.**  From every idle state of a sequential history whose values depend
on each other without cycles: `garbageCollect` returns the number of singletons
it deletes exactly if all garbage is in `m_children` and, of any two singletons
in it, one depends on the other. -/
theorem returns_deleted_iff [Inhabited K] (h : Runs.Reach (step p) Sequential initial s)
    (hidle : Idle s) (hacyclic : Reachability.Acyclic s.DependsOn) {count : Nat}
    (hreturns : ReturnsCount p s n count s') :
    count = (deletedBetween s s').card ↔ s.OneByOne := by
  obtain ⟨hcompletes, m, hm, hloop, hdeleted⟩ := hreturns.cases h hidle
  have hleast : count ≤ (entriesBetween s m).card := hm.atLeast h hidle hloop
  rw [hdeleted]
  constructor
  · intro hcount
    obtain ⟨l, hchain, hlength, hl⟩ : Deep s m count := hm.deepens h hidle hloop
    have hgarbage : ∀ o, s.Garbage o → o ∈ deletedBetween s m := fun o ⟨ho, hbefore, hnot⟩ => by
      rw [← hdeleted, mem_deletedBetween]
      refine ⟨ho, hbefore, ?_⟩
      simpa using mt (hcompletes.alive_iff h hacyclic ho).mp hnot
    have hentries : entriesBetween s m = deletedBetween s m :=
      Finset.eq_of_subset_of_card_le (Finset.filter_subset _ _) (hcount ▸ hleast)
    have hall : l.toFinset = deletedBetween s m := by
      refine Finset.eq_of_subset_of_card_le (fun o ho => hl o (List.mem_toFinset.mp ho)) ?_
      rw [List.toFinset_card_of_nodup (hchain.nodup hacyclic), ← hcount]
      exact hlength
    have hmem : ∀ o, s.Garbage o → o ∈ l := fun o ho =>
      List.mem_toFinset.mp (hall ▸ hgarbage o ho)
    refine ⟨fun o ho => ?_, fun o o' ho ho' hne => hchain.comparable (hmem o ho) (hmem o' ho') hne⟩
    have hin : o ∈ entriesBetween s m := hentries ▸ hgarbage o ho
    rw [entriesBetween, Finset.mem_filter] at hin
    exact hin.2
  · intro hone
    exact le_antisymm (hleast.trans (Finset.card_filter_le _ _)) (hm.atMost h hidle hone hloop)

/-- A collection of client 0 that has run up to its unlock. -/
theorem ReturnsCount.of_run {ls : List (Label K)} {count : Nat}
    (hrun : Runs.run (step p) s₀ (.start n .garbageCollect :: ls) = some s)
    (hok : ∀ l ∈ ls, ∀ n op, l ≠ .start n op) (hstack : s.stack (.client n) = [.gcUnlock count])
    (hlast : step p s (.next (.client n)) = some s') : ReturnsCount p s₀ n count s' := by
  obtain ⟨s₁, hfirst, hrest⟩ := Option.bind_eq_some_iff.mp hrun
  exact ⟨s, ⟨s₁, hfirst, Runs.reach_of_run hrest
    (Runs.runMeets_of_labels fun l hl _ => hok l hl)⟩, hstack, hlast⟩

/-- A singleton and the one its value has are deleted in two rounds. -/
theorem returns_deleted_iff_dependent :
    ∃ s s', Runs.run (step dependents) initial dropDependent = some s ∧
      ReturnsCount dependents s 0 2 s' ∧ (deletedBetween s s').card = 2 ∧ s.OneByOne := by
  have hrun : Runs.run (step dependents) initial dropDependent = some _ := rfl
  obtain ⟨hreach, hidle, hacyclic⟩ := dropDependent_idle hrun
  have hcollect : Runs.run (step dependents)
      ((Runs.run (step dependents) initial dropDependent).get rfl)
      (.start 0 .garbageCollect :: collectDependent.dropLast) = some _ := rfl
  have hreturns : ReturnsCount dependents _ 0 2 _ :=
    .of_run hcollect (by simp [collectDependent]) rfl rfl
  exact ⟨_, _, hrun, hreturns, rfl, (returns_deleted_iff hreach hidle hacyclic hreturns).mp rfl⟩

/-- Client 0 gets two singletons that do not depend on each other, and drops them. -/
def dropTwo : List (Label String) :=
  [.start 0 (.get "Speed"), .next (.client 0), .next (.client 0), .next (.client 0),
    .next (.client 0), .next (.client 0), .next (.client 0), .start 0 (.get "Fuel"),
    .next (.client 0), .next (.client 0), .next (.client 0), .next (.client 0),
    .next (.client 0), .next (.client 0), .start 0 (.drop 0), .next (.client 0),
    .next (.client 0), .next (.client 0), .start 0 (.drop 1), .next (.client 0),
    .next (.client 0), .next (.client 0)]

/-- One round deletes both, up to the unlock. -/
def collectTwo : List (Label String) :=
  [.next (.client 0), .next (.client 0), .pickKey (.client 0) "Speed", .next (.client 0),
    .next (.client 0), .next (.client 0), .pickKey (.client 0) "Fuel", .next (.client 0),
    .next (.client 0), .next (.client 0), .next (.client 0), .next (.client 0)]

/-- The collection deletes two singletons and returns 1. -/
theorem returns_less_than_deleted :
    ∃ s s', Runs.Reach (step independent) Sequential initial s ∧ Idle s ∧
      Reachability.Acyclic s.DependsOn ∧ ReturnsCount independent s 0 1 s' ∧
      (deletedBetween s s').card = 2 := by
  have hrun : Runs.run (step independent) initial dropTwo = some _ := rfl
  have hsolo : ∀ l ∈ dropTwo, l.tid = .client 0 := by decide
  have hcollect : Runs.run (step independent)
      ((Runs.run (step independent) initial dropTwo).get rfl)
      (.start 0 .garbageCollect :: collectTwo) = some _ := rfl
  refine ⟨_, _, reach_of_solo independent_async hsolo (fun _ _ => rfl) hrun,
    idle_of_solo independent_async hsolo (fun _ _ => rfl) hrun rfl,
    .of_rank id fun v o hr => ?_, .of_run hcollect (by simp [collectTwo]) rfl rfl, rfl⟩
  have hnone : (Holder.value v, o) ∈ ([] : List (Holder × Ptr)) := hr
  cases hnone

end SingletonStorage
