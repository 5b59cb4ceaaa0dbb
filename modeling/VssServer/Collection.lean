import VssServer.Operations
import VssServer.Deadlock

/-!
# Collections

What a `garbageCollect` and a `clear` leave behind in a sequential history.  A
collection removes an entry exactly if nothing refers to it but values that are
destroyed in the same collection; `clear` removes all of them.

* `Step.collecting`, `Step.clearing`: what a collection has done so far.
* `Completes.garbageCollect_entries`: a collection keeps the entries to which a `Ref`
  survives.
* `Completes.clear_entries`: a `clear` removes all of them.
-/

namespace SingletonStorage

variable {K : Type}

/-- The value of an object is shared until its deletion, and its deletion ends
in one join. -/
structure ValuesOnce (s : State K) : Prop where
  gone : ∀ v, (s.singletons v).valueGone = true → (s.singletons v).shared = false
  alive : ∀ v, (s.singletons v).deleted = false → (s.singletons v).shared = true
  joining : ∀ t v, .join v ∈ s.stack t →
    (s.singletons v).deleted = true ∧ (s.singletons v).shared = true
  once : ∀ t t' v, .join v ∈ s.stack t → .join v ∈ s.stack t' → t = t'

/-- `clear` has still to detach and empty. -/
def Frame.clears : Frame K → Bool
  | .clearLock | .clearDetach _ => true
  | .gcRound _ caller | .gcKeys _ _ _ caller => caller = .clear
  | _ => false

/-- A `Ref` that outlives the values destroyed between two states. -/
def Survives (s s' : State K) (o : Ptr) : Prop :=
  ∃ r ∈ s.refs, r.2 = o ∧ ¬DestroyedBetween s s' r.1

/-- The collection has still to empty `m_disposed` once more. -/
def Frame.gathers : Frame K → Bool
  | .gcLock | .gcRound _ _ | .gcKeys _ _ _ _ => true
  | _ => false

/-- Client `n` is within a `garbageCollect` that began in `s₀`. -/
structure Collecting (s₀ : State K) (n : Nat) (s : State K) : Prop where
  releasing : Releasing s n
  clears : ∀ f ∈ s.stack (.client n), f.clears = false
  emptied : (∃ f ∈ s.stack (.client n), f.gathers) ∨
    s.disposed = ∅ ∧ ∀ f ∈ s.stack (.client n), ∃ count, f = .gcUnlock count
  bound : s.bound = s₀.bound
  storage : ∀ o, (s.singletons o).storage = (s₀.singletons o).storage
  refs : s.refs ⊆ s₀.refs
  kept : ∀ r ∈ s₀.refs, r ∈ s.refs ∨ DestroyedBetween s₀ s r.1
  gone : ∀ v, (s₀.singletons v).valueGone = true → (s.singletons v).valueGone = true
  destroyed : ∀ v, DestroyedBetween s₀ s (.value v) →
    (∃ t, .dropValue v ∈ s.stack t) ∨ ∀ r ∈ s.refs, r.1 ≠ .value v
  dropping : ∀ t v, .dropValue v ∈ s.stack t → DestroyedBetween s₀ s (.value v)

variable {p : Program K} {s₀ s s' : State K} {l : Label K} {n : Nat} {op : Op K}

/-- The thread that is alone is in a destructor or a collection. -/
theorem Releasing.top (h : Releasing s n) {t : Tid} {f : Frame K} {rest : List (Frame K)}
    (top : s.stack t = f :: rest) : t = .client n ∧ (f.destroys ∨ f.collects) := by
  have ht : t = .client n := by
    by_contra ht
    simp [h.1 t ht] at top
  subst ht
  exact ⟨rfl, h.2 f (by simp [top])⟩

/-- A counter above zero counts some `Ref`. -/
theorem Counted.exists_ref (h : Counted s) {o : Ptr} (hpos : 0 < (s.singletons o).refCount) :
    ∃ r ∈ s.refs, r.2 = o := by
  obtain ⟨r, hr, hro⟩ := List.countP_pos_iff.mp (h o ▸ hpos)
  exact ⟨r, hr, of_decide_eq_true hro⟩

variable [DecidableEq K]

/-- What is deleted was not deleted before. -/
theorem Deletes.alive (h : Tracked s) {o : Ptr} (hd : Deletes s l o) :
    (s.singletons o).deleted = false :=
  hd.retired.elim (h.pending o) fun hdoomed => (h.doomed o hdoomed).2

/-- A step that deletes an object leaves it deleted. -/
theorem Step.deletes_deleted (hs : Step p s l s') {o : Ptr} (hd : Deletes s l o) :
    (s'.singletons o).deleted = true := by
  rcases hd with ⟨t, rest, rfl, top⟩ | ⟨t, k, keys, n, caller, rest, rfl, top, -, entry⟩
  · obtain ⟨_, -, hleaves⟩ | ⟨_, -, ⟨⟩⟩ := hs.top_moves top
    cases hleaves with
    | unrefDelete deleted => exact deleted
  · cases hs with
    | gcDelete top' entry' _ =>
        cases entry.symm.trans entry'
        simp

/-- The singleton gives up its share of the value in its destructor alone. -/
theorem Step.object_shared (hs : Step p s l s') (v : Ptr) :
    (s'.singletons v).shared = (s.singletons v).shared ∨
      (v = s.bound ∧ (s'.singletons v).shared = true ∧ (s'.singletons v).deleted = false ∧
        (s'.singletons v).valueGone = false) ∨
      ∃ t rest, l = .next t ∧ s.stack t = .join v :: rest := by
  cases hs.object v with
  | same eq => exact .inl (by rw [eq])
  | new _ _ fresh _ eq => exact .inr (.inl ⟨fresh, by simp [eq]⟩)
  | alters eq step =>
      cases step with
      | joinLast label top _ | joinPinned label top => exact .inr (.inr ⟨_, _, label, top⟩)
      | _ => exact .inl (by rw [eq])

/-- The destructor of a value is called when the singleton has no share any more. -/
theorem Step.object_gone (hs : Step p s l s') (v : Ptr) (h : (s'.singletons v).valueGone = true) :
    (s.singletons v).valueGone = true ∨ (s'.singletons v).shared = false := by
  cases hs.object v with
  | same eq => exact .inl (eq ▸ h)
  | new _ _ _ _ eq => simp [eq] at h
  | alters eq step =>
      rw [eq] at h ⊢
      cases step with
      | releaseLast _ last => exact .inr last.2
      | joinLast => exact .inr rfl
      | _ => exact .inl h

/-- The object that a step joins, and that it joins it alone. -/
theorem Step.join_gone (hs : Step p s l s') (hsound : Sound s) (h : ValuesOnce s) {t t' : Tid}
    {v : Ptr} {rest : List (Frame K)} (hl : l = .next t) (top : s.stack t = .join v :: rest) :
    .join v ∉ s'.stack t' := by
  intro hjoin
  have ht : t' = t := by
    rcases hs.join_cases hjoin with hold | ⟨-, heq⟩
    · exact h.once t' t v hold (by simp [top])
    · rw [heq, hl, Label.tid]
  subst ht
  exact hs.join_blocked hsound top hjoin (by rw [hl, Label.tid])

/-- Every step keeps the account of the values of living singletons. -/
theorem Step.valuesOnce (hs : Step p s l s') (hsound : Sound s) (htracked : Tracked s)
    (h : ValuesOnce s) : ValuesOnce s' where
  gone v hgone := by
    rcases hs.object_gone v hgone with hold | hnew
    · rcases hs.object_shared v with heq | ⟨-, -, -, hfresh⟩ | ⟨t, rest, hl, top⟩
      · rw [heq]; exact h.gone v hold
      · simp [hfresh] at hgone
      · have hshared := (h.joining t v (by simp [top])).2
        simp [h.gone v hold] at hshared
    · exact hnew
  alive v halive := by
    rcases hs.object_shared v with heq | ⟨-, hfresh, -⟩ | ⟨t, rest, hl, top⟩
    · rw [heq]
      by_cases hlt : v < s.bound
      · refine h.alive v ?_
        by_contra hdeleted
        simp [hs.deleted_kept hlt (by simpa using hdeleted)] at halive
      · exact h.alive v (hsound.allocated.fresh v (not_lt.mp hlt)).2
    · exact hfresh
    · have hmem : .join v ∈ s.stack t := by simp [top]
      have hlt := hsound.allocated.frames t _ hmem v (by simp [Frame.pointers])
      simp [hs.deleted_kept hlt (h.joining t v hmem).1] at halive
  joining t v hjoin := by
    rcases hs.join_cases hjoin with hold | ⟨hdeletes, -⟩
    · have hlt := hsound.allocated.frames t _ hold v (by simp [Frame.pointers])
      obtain ⟨hdeleted, hshared⟩ := h.joining t v hold
      refine ⟨hs.deleted_kept hlt hdeleted, ?_⟩
      rcases hs.object_shared v with heq | ⟨-, hfresh, -⟩ | ⟨t', rest, hl, top⟩
      · rw [heq]; exact hshared
      · exact hfresh
      · exact absurd hjoin (hs.join_gone hsound h hl top)
    · refine ⟨hs.deletes_deleted hdeletes, ?_⟩
      have hshared := h.alive v (hdeletes.alive htracked)
      rcases hs.object_shared v with heq | ⟨-, hfresh, -⟩ | ⟨t', rest, hl, top⟩
      · rw [heq]; exact hshared
      · exact hfresh
      · exact absurd hjoin (hs.join_gone hsound h hl top)
  once t t' v ht ht' := by
    have hnew : ∀ {t}, .join v ∈ s.stack t → ¬Deletes s l v := fun hold hdeletes => by
      simpa [hdeletes.alive htracked] using (h.joining _ v hold).1
    rcases hs.join_cases ht with hold | ⟨hdeletes, heq⟩
    · rcases hs.join_cases ht' with hold' | ⟨hdeletes, -⟩
      · exact h.once t t' v hold hold'
      · exact absurd hdeletes (hnew hold)
    · rcases hs.join_cases ht' with hold' | ⟨-, heq'⟩
      · exact absurd hdeletes (hnew hold')
      · rw [heq, heq']

/-- The account holds in orderly histories. -/
theorem Reach.valuesOnce [Inhabited K] (h : Runs.Reach (step p) Orderly initial s) :
    ValuesOnce s := by
  have hall : Runs.Reach (step p) Orderly initial s ∧ ValuesOnce s := by
    refine h.invariant (I := fun s => Runs.Reach (step p) Orderly initial s ∧ ValuesOnce s)
      ⟨.refl, ?_⟩ fun _ _ _ ⟨hr, hvalues⟩ hok hstep => ?_
    · constructor <;> simp [initial]
    · obtain ⟨hsound, -, htracked⟩ := Reach.tracked hr
      exact ⟨hr.tail hok hstep, (step_cases hstep).valuesOnce hsound htracked hvalues⟩
  exact hall.2

/-- During a `clear`: it has still to empty `m_children`, or they are empty. -/
def Clearing (s : State K) (n : Nat) : Prop :=
  (∃ f ∈ s.stack (.client n), f.clears) ∨ s.children = ∅

/-- A `clear` goes through its phases: it collects, detaches and lets the lock go. -/
theorem Step.clearing (hs : Step p s l s') (hsound : Sound s) (hrel : Releasing s n)
    (h : Clearing s n) : Clearing s' n := by
  rcases h with ⟨f, hf, hclears⟩ | hempty
  · rcases hs.leaves hsound hf with hkept | ⟨rest, frames, -, -, hstack, hleaves⟩
    · exact .inl ⟨f, hkept, hclears⟩
    have hnext : ∀ g ∈ frames, g.clears → Clearing s' n := fun g hg hg' =>
      .inl ⟨g, hstack ▸ List.mem_append_left rest hg, hg'⟩
    cases hleaves with
    | clearLock | clearCollected | clearDetach => exact hnext _ (.head _) rfl
    | gcRound | gcErase | gcKeysDone => exact hnext _ (.head _) hclears
    | gcDelete => exact hnext _ (.tail _ (.head _)) hclears
    | clearChildren empty => exact .inr empty
    | _ => cases hclears
  · right
    have htop : ∀ {t f rest}, s.stack t = f :: rest → f.destroys ∨ f.collects :=
      fun top => (hrel.top top).2
    cases hs
    case getInsert top => simpa [Frame.destroys, Frame.collects] using htop top
    case gcErase => simp only [hempty]; rfl
    case clearChildren => rfl
    all_goals exact hempty

/-- A step of a lone collector that runs no `clear` detaches nothing and
creates nothing. -/
theorem Step.storage_kept (hs : Step p s l s') (hrel : Releasing s n)
    (hno : ∀ f ∈ s.stack (.client n), f.clears = false) :
    s'.bound = s.bound ∧ ∀ o, (s'.singletons o).storage = (s.singletons o).storage := by
  have htop : ∀ {t f rest}, s.stack t = f :: rest →
      (f.destroys ∨ f.collects) ∧ f.clears = false := by
    intro t f rest top
    obtain ⟨rfl, hf⟩ := hrel.top top
    exact ⟨hf, hno f (by simp [top])⟩
  constructor
  · cases hs
    case getMissing top _ => simpa [Frame.destroys, Frame.collects] using htop top
    all_goals rfl
  · intro o
    cases hs.object o with
    | same eq => rw [eq]
    | new _ top => simpa [Frame.destroys, Frame.collects] using htop top
    | alters eq step =>
        rw [eq]
        cases step with
        | detach _ top _ => simpa [Frame.clears] using htop top
        | _ => rfl

/-- No thread begins a `clear` inside of a collection. -/
theorem Step.clears_kept (hs : Step p s l s') (hl : Running s l)
    (hno : ∀ f ∈ s.stack (.client n), f.clears = false) :
    ∀ f ∈ s'.stack (.client n), f.clears = false := by
  intro f hf
  have htop : ∀ {f rest}, s.stack (.client n) = f :: rest → f.clears = false := fun top =>
    hno _ (by rw [top]; exact .head _)
  rcases hs.enters hf with hold | ⟨-, henters⟩ | hlaunches
  · exact hno f hold
  · cases henters with
    | startClear label => exact absurd label (hl _ _)
    | clearLock top _ | clearCollected top _ | clearDetach top | gcNext top | gcKeys top _
    | gcErased top | gcDeleting _ top _ _ =>
        have hold := htop top
        exact hold
    | _ => rfl
  · cases hlaunches

/-- A collector makes no `Ref`. -/
theorem Step.refs_subset (hs : Step p s l s') (hl : Running s l) (hrel : Releasing s n) :
    s'.refs ⊆ s.refs := by
  cases hs
  case getRef top => simpa [Frame.destroys, Frame.collects] using (hrel.top top).2
  case startCopy => exact absurd rfl (hl _ _)
  case startDrop | dropRef => exact List.erase_subset
  all_goals exact List.Subset.refl _

/-- A `Ref` that goes was dropped by the destructor of its owner. -/
theorem Step.refs_kept (hs : Step p s l s') (hl : Running s l) {r : Holder × Ptr}
    (hr : r ∈ s.refs) : r ∈ s'.refs ∨ ∃ t v, r.1 = .value v ∧ .dropValue v ∈ s.stack t := by
  cases hs
  case getRef => exact .inl (.tail _ hr)
  case startCopy | startDrop => exact absurd rfl (hl _ _)
  case dropRef t v o rest top mem =>
    by_cases heq : r = (.value v, o)
    · exact .inr ⟨t, v, by simp [heq], by simp [top]⟩
    · exact .inl ((List.mem_erase_of_ne heq).mpr hr)
  all_goals exact .inl hr

/-- A value that has been destroyed stays so. -/
theorem Step.gone_kept (hs : Step p s l s') (hrel : Releasing s n) {v : Ptr}
    (h : (s.singletons v).valueGone = true) : (s'.singletons v).valueGone = true := by
  cases hs.object v with
  | same eq => rw [eq, h]
  | new _ top => simpa [Frame.destroys, Frame.collects] using (hrel.top top).2
  | alters eq step =>
      rw [eq]
      cases step <;> first | exact h | rfl

/-- A value that is destroyed has its `Ref`s dropped next. -/
theorem Step.gone_cases (hs : Step p s l s') (hl : Running s l) {v : Ptr}
    (h : (s'.singletons v).valueGone = true) :
    (s.singletons v).valueGone = true ∨ .dropValue v ∈ s'.stack l.tid := by
  cases hs.object v with
  | same eq => exact .inl (eq ▸ h)
  | new _ _ _ _ eq => simp [eq] at h
  | alters eq step =>
      rw [eq] at h
      cases step with
      | releaseLast label _ => exact absurd label (hl _ _)
      | joinLast label top last =>
          subst label
          obtain ⟨_, hstack, hleaves⟩ | ⟨_, -, hpushes⟩ := hs.top_moves top
          · cases hleaves with
            | joinLast => exact .inr (hstack ▸ .head _)
            | joinPinned pinned => exact absurd last pinned
          · cases hpushes
      | _ => exact .inl h

/-- Only a value that was still shared and had no other owner is destroyed. -/
theorem Step.dropping_cases (hs : Step p s l s') (hl : Running s l) {t : Tid} {v : Ptr}
    (h : .dropValue v ∈ s'.stack t) : .dropValue v ∈ s.stack t ∨
      (.join v ∈ s.stack t ∧ (s'.singletons v).valueGone = true) := by
  rcases hs.enters h with hold | ⟨-, henters⟩ | hlaunches
  · exact .inl hold
  · cases henters with
    | releaseLast label _ _ => exact absurd label (hl _ _)
    | joinLast top gone => exact .inr ⟨by rw [top]; exact .head _, gone⟩
  · cases hlaunches

/-- The destructor of a value goes on until the value owns no `Ref`. -/
theorem Step.dropping_kept (hs : Step p s l s') (hsound : Sound s) {t : Tid} {v : Ptr}
    (h : .dropValue v ∈ s.stack t) :
    .dropValue v ∈ s'.stack t ∨ ∀ r ∈ s'.refs, r.1 ≠ .value v := by
  rcases hs.leaves hsound h with hkept | ⟨rest, frames, -, -, -, hleaves⟩
  · exact .inl hkept
  · cases hleaves with
    | dropDone none => exact .inr none

/-- A collection ends when nothing is disposed. -/
theorem Step.emptied (hs : Step p s l s') (hsound : Sound s) (hl : Running s l)
    (h : Collecting s₀ n s) : (∃ f ∈ s'.stack (.client n), f.gathers) ∨
      s'.disposed = ∅ ∧ ∀ f ∈ s'.stack (.client n), ∃ count, f = .gcUnlock count := by
  rcases h.emptied with ⟨f, hf, hgathers⟩ | ⟨hempty, hframes⟩
  · rcases hs.leaves hsound hf with hkept | ⟨rest, frames, top, -, hstack, hleaves⟩
    · exact .inl ⟨f, hkept, hgathers⟩
    have hnext : ∀ g ∈ frames, g.gathers → ∃ f ∈ s'.stack (.client n), f.gathers :=
      fun g hg hg' => ⟨g, hstack ▸ List.mem_append_left rest hg, hg'⟩
    cases hleaves with
    | gcLock | gcRound | gcErase | gcKeysDone => exact .inl (hnext _ (.head _) rfl)
    | gcDelete => exact .inl (hnext _ (.tail _ (.head _)) rfl)
    | gcEnd emptied =>
        have hrest : rest = [] := by
          simpa [Frame.above, Frame.destroys, Frame.collects] using (hsound.shaped.of_top top).1
        exact .inr ⟨emptied, by simp [hstack, hrest]⟩
    | clearCollected => simpa [Frame.clears] using h.clears _ hf
    | _ => cases hgathers
  · right
    have htop : ∀ {t f rest}, s.stack t = f :: rest → ∃ count, f = .gcUnlock count := by
      intro t f rest top
      obtain ⟨rfl, -⟩ := h.releasing.top top
      exact hframes f (by simp [top])
    cases hs
    case gcUnlock t m rest top =>
      obtain ⟨rfl, -⟩ := h.releasing.top top
      exact ⟨hempty, fun f hf => hframes f (by simp_all)⟩
    all_goals first
      | exact absurd rfl (hl _ _)
      | exact absurd (htop ‹s.stack _ = _›) (by simp)

/-- Every step of a collection keeps what it has done so far. -/
theorem Step.collecting (hs : Step p s l s') (hsound : Sound s) (hvalues : ValuesOnce s)
    (hl : Running s l) (h : Collecting s₀ n s) : Collecting s₀ n s' := by
  have hgone := fun {v} => hs.gone_kept h.releasing (v := v)
  have hstorage := hs.storage_kept h.releasing h.clears
  have hrefs := hs.refs_subset hl h.releasing
  have hlater : ∀ {holder}, DestroyedBetween s₀ s holder → DestroyedBetween s₀ s' holder :=
    fun ⟨v, hv, hbefore, hnow⟩ => ⟨v, hv, hbefore, hgone hnow⟩
  refine ⟨hs.releasing hl h.releasing, hs.clears_kept hl h.clears,
    hs.emptied hsound hl h, hstorage.1.trans h.bound,
    fun o => (hstorage.2 o).trans (h.storage o), fun r hr => h.refs (hrefs hr), fun r hr => ?_,
    fun v hv => hgone (h.gone v hv), fun v hv => ?_, fun t v hdrop => ?_⟩
  · rcases h.kept r hr with hkept | hdestroyed
    · refine (hs.refs_kept hl hkept).imp_right fun ⟨t, v, hv, hdrop⟩ => ?_
      exact hv ▸ hlater (h.dropping t v hdrop)
    · exact .inr (hlater hdestroyed)
  · obtain ⟨v', hv', hbefore, hnow⟩ := hv
    cases hv'
    rcases hs.gone_cases hl hnow with hold | hnew
    · rcases h.destroyed v ⟨v, rfl, hbefore, hold⟩ with ⟨t, hdrop⟩ | hnone
      · exact (hs.dropping_kept hsound hdrop).imp_left fun hkept => ⟨t, hkept⟩
      · exact .inr fun r hr => hnone r (hrefs hr)
    · exact .inl ⟨l.tid, hnew⟩
  · rcases hs.dropping_cases hl hdrop with hold | ⟨hjoin, hnow⟩
    · exact hlater (h.dropping t v hold)
    · refine ⟨v, rfl, ?_, hnow⟩
      by_contra hbefore
      have hshared := hvalues.gone v (h.gone v (by simpa using hbefore))
      simp [(hvalues.joining t v hjoin).2] at hshared

/-- A collection begins with nothing done. -/
theorem Step.start_collecting (hs : Step p s (.start n .garbageCollect) s') (h : Idle s) :
    Collecting s n s' := by
  cases hs
  have hstack : ∀ t, ∀ f ∈ (s.goto (.client n) [.gcLock]).stack t,
      t = .client n ∧ f = .gcLock := by
    intro t f hf
    by_cases ht : t = .client n
    · subst ht; simpa using hf
    · simp [ht, h t] at hf
  refine ⟨⟨fun t ht => by simp [ht, h t], ?_⟩, ?_, .inl ⟨.gcLock, by simp, rfl⟩, rfl,
    fun _ => rfl, fun _ hr => hr, fun _ hr => .inl hr, fun _ hv => hv, ?_, ?_⟩
  · exact fun f hf => .inr ((hstack _ f hf).2 ▸ rfl)
  · exact fun f hf => (hstack _ f hf).2 ▸ rfl
  · rintro v ⟨_, -, hbefore, hnow⟩
    exact absurd (hbefore.symm.trans hnow) (by simp)
  · exact fun t v hdrop => absurd (hstack t _ hdrop).2 (by simp)

/-- What lives while every thread is idle has a `Ref` or is disposed. -/
theorem Idle.referenced (h : Idle s) (htracked : Tracked s) {o : Ptr} (ho : o < s.bound)
    (halive : (s.singletons o).deleted = false) :
    0 < (s.singletons o).refCount ∨ o ∈ s.disposed := by
  rcases htracked.found o ho halive with hcount | ⟨t, f, hf, -⟩ | ⟨t, f, hf, -⟩ | hdisposed |
    ⟨t, current, keys, count, caller, hf, -⟩
  · exact .inl hcount
  · simp [h t] at hf
  · simp [h t] at hf
  · exact .inr hdisposed
  · simp [h t] at hf

/-- **Collection.**  A `garbageCollect` keeps exactly the entries to which a
`Ref` survives. -/
theorem Completes.garbageCollect_entries [Inhabited K]
    (h₀ : Runs.Reach (step p) Sequential initial s) (h : Completes p s n .garbageCollect s')
    (k : K) (o : Ptr) : s'.children.lookup k = some o ↔
      s.children.lookup k = some o ∧ Survives s s' o := by
  have hI := h.during.invariant (I := fun m => Collecting s n m ∧ ValuesOnce m) h₀ h.before
    (fun s₁ hs => ?_) fun m l m' hsound htracked ⟨hm, hvalues⟩ hl hs =>
      ⟨hs.collecting hsound hvalues hl hm, hs.valuesOnce hsound htracked hvalues⟩
  · have hm := hI.1.1
    obtain ⟨hsound', hgone', htracked'⟩ := Reach.tracked (Reach.orderly (h.reach h₀))
    have hempty : s'.disposed = ∅ := by
      rcases hm.emptied with ⟨f, hf, -⟩ | ⟨hempty, -⟩
      · simp [h.after (.client n)] at hf
      · exact hempty
    constructor
    · intro entry
      obtain ⟨ho, -, hattached⟩ := (h.after.entry_iff_key hsound').mp entry
      refine ⟨h.entry_before h₀ (hm.bound ▸ ho) entry, ?_⟩
      have hcount : 0 < (s'.singletons o).refCount := by
        simpa [hempty] using h.after.referenced htracked' ho hattached.2
      obtain ⟨r, hr, rfl⟩ := hsound'.counted.exists_ref hcount
      refine ⟨r, hm.refs hr, rfl, ?_⟩
      rintro ⟨v, hv, hdestroyed⟩
      rcases hm.destroyed v ⟨v, rfl, hdestroyed⟩ with ⟨t, hdrop⟩ | hnone
      · simp [h.after t] at hdrop
      · exact hnone r hr hv
    · rintro ⟨entry, r, hr, rfl, halive⟩
      obtain ⟨ho, hkey, hattached⟩ := (h.before.entry_iff_key (Reach.sound h₀)).mp entry
      have hr' := (hm.kept r hr).resolve_right halive
      refine (h.after.entry_iff_key hsound').mpr
        ⟨hm.bound ▸ ho, ((h.older h₀).key _ ho).trans hkey, ?_, ?_⟩
      · rw [hm.storage]; exact hattached.1
      · by_contra hdeleted
        have hzero := hgone' r.2 (.inr (.inr (.inr (by simpa using hdeleted))))
        exact (hsound'.counted.pos hr').ne' hzero.1
  · obtain ⟨hsound, -, htracked⟩ := Reach.tracked (Reach.orderly h₀)
    exact ⟨hs.start_collecting h.before,
      hs.valuesOnce hsound htracked (Reach.valuesOnce (Reach.orderly h₀))⟩

/-- A `clear` that begins is alone. -/
theorem Step.start_clearing (hs : Step p s (.start n .clear) s') (h : Idle s) :
    Releasing s' n ∧ Clearing s' n := by
  cases hs
  refine ⟨⟨fun t ht => by simp [ht, h t], ?_⟩, .inl ⟨.clearLock, by simp, rfl⟩⟩
  intro f hf
  obtain rfl : f = .clearLock := by simpa using hf
  exact .inr rfl

/-- A `clear` leaves no entry. -/
theorem Completes.clear_entries [Inhabited K]
    (h₀ : Runs.Reach (step p) Sequential initial s) (h : Completes p s n .clear s') :
    s'.children = ∅ := by
  have hI := h.during.invariant (I := fun m => Releasing m n ∧ Clearing m n) h₀ h.before
    (fun _ hs => hs.start_clearing h.before) fun _ _ _ hsound _ ⟨hrel, hclearing⟩ hl hs =>
      ⟨hs.releasing hl hrel, hs.clearing hsound hrel hclearing⟩
  rcases hI.1.2 with ⟨f, hf, -⟩ | hempty
  · simp [h.after (.client n)] at hf
  · exact hempty

end SingletonStorage
