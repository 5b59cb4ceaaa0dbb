import VssServer.Garbage

/-!
# The rounds of a collection

`LoopStep` is the loop of `garbageCollectUnlocked`, read off the bottom frame of
the thread that collects: a round takes the keys of the disposed entries, deletes
one after the other, and what the destructors dispose meanwhile is left to the
next round.  The steps above that frame are the destructors' own: what they
dispose or delete lost its last `Ref` to a value that died in this round.

* `Step.loop_cases`: what the steps of a collection are.
* `During.loop_along`: the invariant rule for the loop of a collection.
-/

namespace SingletonStorage

variable {K : Type}

/-- Where the loop of `garbageCollectUnlocked` is. -/
def State.loop (s : State K) (n : Nat) : Option (Frame K) :=
  (s.stack (.client n)).getLast?

/-- The destructors of `v` and of its value have been called and not ended. -/
def Dying (s : State K) (v : Ptr) : Prop :=
  ∃ t, .join v ∈ s.stack t ∨ .dropValue v ∈ s.stack t

/-- `x` has lost its last `Ref`, and waits for the next round or its `unref`. -/
def Released (s : State K) (x : Ptr) : Prop :=
  Pending s x ∨ x ∈ s.disposed

/-- The singletons that were deleted between two states. -/
def deletedBetween (s₀ s : State K) : Finset Ptr :=
  (Finset.range s₀.bound).filter fun o =>
    (s₀.singletons o).deleted = false ∧ (s.singletons o).deleted = true

variable [DecidableEq K]

/-- How the loop of `garbageCollectUnlocked` goes on. -/
inductive LoopStep (n : Nat) (s s' : State K) (l : Label K) : Frame K → Frame K → Prop
  | inner {k keys c caller f rest} (top : s.stack (.client n) = f :: rest)
      (destroys : f.destroys) (children : s'.children = s.children) :
      LoopStep n s s' l (.gcKeys (some k) keys c caller) (.gcKeys (some k) keys c caller)
  | lock (deletes : s.deletes l = none) :
      LoopStep n s s' l .gcLock (.gcRound 0 .garbageCollect)
  | round {c caller} (nonempty : s.disposedKeys ≠ [])
      (eq : s'.stack (.client n) = [.gcKeys none s.disposedKeys c caller])
      (children : s'.children = s.children) (disposed : s'.disposed = ∅)
      (deletes : s.deletes l = none) :
      LoopStep n s s' l (.gcRound c caller) (.gcKeys none s.disposedKeys c caller)
  | last {c} (deletes : s.deletes l = none) :
      LoopStep n s s' l (.gcRound c .garbageCollect) (.gcUnlock c)
  | delete {k o keys c caller} (entry : s.children.lookup k = some o) (mem : k ∈ keys)
      (children : s'.children = s.children) (deletes : s.deletes l = some o) :
      LoopStep n s s' l (.gcKeys none keys c caller) (.gcKeys (some k) (keys.erase k) c caller)
  | erase {k keys c caller} (eq : s'.stack (.client n) = [.gcKeys none keys c caller])
      (children : s'.children = s.children.erase k) (deletes : s.deletes l = none) :
      LoopStep n s s' l (.gcKeys (some k) keys c caller) (.gcKeys none keys c caller)
  | next {c caller} (disposed : s'.disposed = s.disposed) (deletes : s.deletes l = none) :
      LoopStep n s s' l (.gcKeys none [] c caller) (.gcRound (c + 1) caller)

variable {p : Program K} {s₀ s s' : State K} {l : Label K} {n : Nat} {op : Op K}

omit [DecidableEq K] in
/-- What the destructors are called from is a deletion of the loop. -/
theorem Shape.loop_below {f : Frame K} {rest : List (Frame K)} (h : Shape (f :: rest))
    (hf : f.destroys) {b : Frame K} (hlast : (f :: rest).getLast? = some b) (hb : b.collects) :
    rest ≠ [] ∧ ∃ k keys c caller, b = .gcKeys (some k) keys c caller := by
  have hrest : rest ≠ [] := by
    rintro rfl
    obtain rfl : f = b := by simpa using hlast
    cases f <;> simp_all [Frame.destroys, Frame.collects]
  obtain ⟨g, below, rfl⟩ := List.exists_cons_of_ne_nil hrest
  refine ⟨hrest, ?_⟩
  rw [List.getLast?_cons_cons] at hlast
  have hbelow := h.below b (List.mem_of_getLast? hlast)
  cases b with
  | gcKeys current keys c caller =>
      cases current with
      | some k => exact ⟨k, keys, c, caller, rfl⟩
      | none => simp [Frame.deletes, Frame.waits] at hbelow
  | dropValue | creating | wait => cases hb
  | _ => simp [Frame.deletes, Frame.waits] at hbelow

/-- **Loop.**  A step of a collection is one of its loop, one of a destructor that
the loop called, or the unlock at its end. -/
theorem Step.loop_cases (hs : Step p s l s') (hsound : Sound s) (hl : Running s l)
    (h : Collecting s₀ n s) {b : Frame K} (hb : s.loop n = some b) (hcollects : b.collects) :
    s'.loop n = none ∨ ∃ b', s'.loop n = some b' ∧ b'.collects ∧ LoopStep n s s' l b b' := by
  have hinner : ∀ {t f rest} (frames), s.stack t = f :: rest → f.destroys →
      s'.stack = Function.update s.stack t (frames ++ rest) → s'.children = s.children →
      ∃ b', s'.loop n = some b' ∧ b'.collects ∧ LoopStep n s s' l b b' := by
    intro t f rest frames top hf hstack hchildren
    obtain ⟨rfl, -⟩ := h.top hsound top
    simp only [State.loop, top] at hb
    obtain ⟨hrest, k, keys, c, caller, rfl⟩ := (hsound.shaped.of_top top).loop_below hf hb hcollects
    refine ⟨_, ?_, rfl, .inner top hf hchildren⟩
    obtain ⟨g, below, rfl⟩ := List.exists_cons_of_ne_nil hrest
    rw [List.getLast?_cons_cons] at hb
    simp [State.loop, hstack, hb]
  have houter : ∀ {t f rest}, s.stack t = f :: rest → f.collects → f.destroys = false →
      t = .client n ∧ rest = [] ∧ b = f := by
    intro t f rest top hf hnot
    obtain ⟨rfl, -⟩ := h.top hsound top
    have hrest : rest = [] := by
      simpa [Frame.above, hf, hnot] using (hsound.shaped.of_top top).1
    subst hrest
    simp only [State.loop, top, List.getLast?_singleton, Option.some.injEq] at hb
    exact ⟨rfl, rfl, hb.symm⟩
  cases hs
  case dropRef v o rest top mem =>
    by_cases hmore : 1 < (s.singletons o).refCount
    · exact .inr (hinner [.dropValue v] top rfl (by simp [hmore]; rfl) rfl)
    · exact .inr (hinner [.unrefLock o, .dropValue v] top rfl (by simp [hmore]; rfl) rfl)
  case unrefLock top _ | unrefDispose top _ | unrefDetached top _ | unrefDelete top
    | joinLast top _ _ => exact .inr (hinner [_] top rfl rfl rfl)
  case unrefUnlock top | joinPinned top _ _ | dropDone top _ =>
    exact .inr (hinner [] top rfl rfl rfl)
  case gcLock top _ =>
    obtain ⟨rfl, rfl, rfl⟩ := houter top rfl rfl
    exact .inr ⟨_, by simp [State.loop], rfl, .lock (by simp [State.deletes, top])⟩
  case gcEnd top _ =>
    obtain ⟨rfl, rfl, rfl⟩ := houter top rfl rfl
    exact .inr ⟨_, by simp [State.loop], rfl, .last (by simp [State.deletes, top])⟩
  case gcRound top nonempty =>
    obtain ⟨rfl, rfl, rfl⟩ := houter top rfl rfl
    exact .inr ⟨_, by simp [State.loop], rfl, .round nonempty (by simp) rfl rfl
      (by simp [State.deletes, top])⟩
  case gcErase top =>
    obtain ⟨rfl, rfl, rfl⟩ := houter top rfl rfl
    exact .inr ⟨_, by simp [State.loop], rfl, .erase (by simp) rfl
      (by simp [State.deletes, top])⟩
  case gcKeysDone top =>
    obtain ⟨rfl, rfl, rfl⟩ := houter top rfl rfl
    exact .inr ⟨_, by simp [State.loop], rfl, .next rfl (by simp [State.deletes, top])⟩
  case gcDelete entry mem =>
    have top := ‹s.stack _ = _›
    obtain ⟨rfl, rfl, rfl⟩ := houter top rfl rfl
    exact .inr ⟨_, by simp [State.loop], rfl, .delete entry mem rfl
      (by simp [State.deletes, top, entry, mem])⟩
  case gcUnlock top =>
    obtain ⟨rfl, rfl, rfl⟩ := houter top rfl rfl
    exact .inl (by simp [State.loop])
  all_goals first
    | exact absurd rfl (hl _ _)
    | cases (h.top hsound ‹s.stack _ = _›).2

/-- **Loop rule.**  What holds when a collection begins and is kept by the steps
of its loop and of the destructors holds wherever the loop is. -/
theorem During.loop_along [Inhabited K] {I : State K → Frame K → Prop}
    (h₀ : Runs.Reach (step p) Sequential initial s₀) (hidle : Idle s₀)
    (hstart : ∀ s₁, Step p s₀ (.start n .garbageCollect) s₁ → I s₁ .gcLock)
    (hstep : ∀ m l m' b b', During p s₀ n .garbageCollect m → During p s₀ n .garbageCollect m' →
      Running m l → Step p m l m' → LoopStep n m m' l b b' → I m b → I m' b')
    (h : During p s₀ n .garbageCollect s) : ∀ b, s.loop n = some b → b.collects ∧ I s b := by
  refine h.along (I := fun s => ∀ b, s.loop n = some b → b.collects ∧ I s b)
    (fun s₁ hs b hb => ?_) fun m l m' hm hm' hI hok hs b' hb' => ?_
  · have hI := hstart s₁ hs
    cases hs
    obtain rfl : Frame.gcLock = b := by simpa [State.loop] using hb
    exact ⟨rfl, hI⟩
  · have hsound := Reach.sound (hm.reach h₀ hidle)
    have hcollecting := hm.collecting h₀ hidle
    cases hb : m.loop n with
    | none =>
        have hempty : m.stack (.client n) = [] := by simpa [State.loop] using hb
        have hnone : ∀ {t f rest}, m.stack t = f :: rest → False := by
          intro t f rest top
          obtain ⟨rfl, -⟩ := hcollecting.top hsound top
          simp [hempty] at top
        cases hs.moves with
        | stays label | starts label => exact absurd label (hok _ _)
        | pushes _ top | leaves _ top | launches _ top => exact (hnone top).elim
    | some b =>
        obtain ⟨hcollects, hI⟩ := hI b hb
        rcases hs.loop_cases hsound hok hcollecting hb hcollects with
          hnone | ⟨b'', hb'', hcollects', hloop⟩
        · simp [hnone] at hb'
        · obtain rfl : b'' = b' := by simpa [hb''] using hb'
          exact ⟨hcollects', hstep m l m' b b'' hm hm' hok hs hloop hI⟩

/-- A destructor is called by a deletion. -/
theorem Step.dying_cases (hs : Step p s l s') (hl : Running s l) {v : Ptr} (h : Dying s' v) :
    Dying s v ∨ Deletes s l v := by
  obtain ⟨t, hjoin | hdrop⟩ := h
  · exact (hs.join_cases hjoin).imp (fun hold => ⟨t, .inl hold⟩) And.left
  · rcases hs.dropping_cases hl hdrop with hold | ⟨hjoin, -⟩
    · exact .inl ⟨t, .inr hold⟩
    · exact .inl ⟨t, .inl hjoin⟩

/-- What a collection releases was held by a value that is dying. -/
theorem Step.released_cases (hs : Step p s l s') (hl : Running s l) {x : Ptr}
    (h : Released s' x) : Released s x ∨ ∃ v, Dying s v ∧ (.value v, x) ∈ s.refs := by
  rcases h with ⟨t, f, hf, hpending⟩ | hdisposed
  · rcases hs.enters hf with hold | ⟨-, henters⟩ | hlaunches
    · exact .inl (.inl ⟨t, f, hold, hpending⟩)
    · cases henters with
      | startDrop label => exact absurd label (hl _ _)
      | dropRef _ top live =>
          cases hpending
          exact .inr ⟨_, ⟨t, .inr (by rw [top]; exact .head _)⟩, live⟩
      | unrefLocked top | unrefDelete top => exact .inl (.inl (.of_top top hpending))
      | _ => cases hpending
    · cases hlaunches
      cases hpending
  · rcases hs.disposed_sources hdisposed with hold | ⟨t, rest, -, top, -⟩
    · exact .inl (.inr hold)
    · exact .inl (.inl (.of_top top rfl))

omit [DecidableEq K] in
@[simp]
theorem mem_deletedBetween {o : Ptr} : o ∈ deletedBetween s₀ s ↔
    o < s₀.bound ∧ (s₀.singletons o).deleted = false ∧ (s.singletons o).deleted = true := by
  simp [deletedBetween]

/-- What is deleted stays so. -/
theorem During.deleted_kept (h : During p s₀ n op s) {o : Ptr} (ho : o < s₀.bound)
    (hdeleted : (s₀.singletons o).deleted = true) : (s.singletons o).deleted = true := by
  refine (h.along (I := fun s => o < s.bound ∧ (s.singletons o).deleted = true)
    (fun s₁ hs => ⟨ho.trans_le hs.bound_le, hs.deleted_kept ho hdeleted⟩)
    fun m l m' _ _ hI _ hs => ⟨hI.1.trans_le hs.bound_le, hs.deleted_kept hI.1 hI.2⟩).2

/-- A step that calls no destructor of a singleton deletes none. -/
theorem During.deletedBetween_same [Inhabited K]
    (h₀ : Runs.Reach (step p) Sequential initial s₀) (hidle : Idle s₀)
    (h : During p s₀ n .garbageCollect s) (hs : Step p s l s') (hnone : s.deletes l = none) :
    deletedBetween s₀ s' = deletedBetween s₀ s := by
  ext o
  simp only [mem_deletedBetween]
  refine and_congr_right fun ho => and_congr_right fun _ => ⟨fun hdeleted => ?_, fun hdeleted => ?_⟩
  · refine (hs.deleted_cases hdeleted).resolve_right fun hd => ?_
    simp [State.deletes_iff.mpr hd] at hnone
  · exact hs.deleted_kept ((h.collecting h₀ hidle).bound.symm ▸ ho) hdeleted

/-- A step that calls the destructor of a singleton deletes that one more. -/
theorem During.deletedBetween_insert [Inhabited K]
    (h₀ : Runs.Reach (step p) Sequential initial s₀) (hidle : Idle s₀)
    (h : During p s₀ n .garbageCollect s) (hs : Step p s l s') {o : Ptr}
    (hdeletes : s.deletes l = some o) : o ∉ deletedBetween s₀ s ∧
      deletedBetween s₀ s' = insert o (deletedBetween s₀ s) := by
  have hd := State.deletes_iff.mp hdeletes
  obtain ⟨hsound, -, htracked⟩ := Reach.tracked (Reach.orderly (h.reach h₀ hidle))
  have hbound := (h.collecting h₀ hidle).bound
  have halive := hd.alive htracked
  have ho : o < s₀.bound := hbound ▸ Retired.lt_bound hsound.allocated
    (hd.retired.elim (fun h => .inr (.inl h)) fun h => .inr (.inr (.inl h)))
  have hbefore : (s₀.singletons o).deleted = false := by
    by_contra hdeleted
    simp [h.deleted_kept ho (by simpa using hdeleted)] at halive
  refine ⟨by simp [halive], ?_⟩
  ext o'
  simp only [mem_deletedBetween, Finset.mem_insert]
  constructor
  · rintro ⟨ho', hbefore', hdeleted⟩
    rcases hs.deleted_cases hdeleted with hold | hd'
    · exact .inr ⟨ho', hbefore', hold⟩
    · exact .inl (Option.some.inj ((State.deletes_iff.mpr hd').symm.trans hdeletes))
  · rintro (rfl | ⟨ho', hbefore', hdeleted⟩)
    · exact ⟨ho, hbefore, hs.deletes_deleted hd⟩
    · exact ⟨ho', hbefore', hs.deleted_kept (hbound.symm ▸ ho') hdeleted⟩

end SingletonStorage
