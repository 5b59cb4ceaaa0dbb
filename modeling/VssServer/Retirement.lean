import VssServer.StorageDirectory

/-!
# Retired objects

An object is retired once its counter has come to zero and it is on its way
out: an `unref` has still to dispose or delete it, it waits in `m_disposed`, a
collection has taken its key, or it is deleted.  `Retired.gone` is what makes
deleting safe: nobody owns a `Ref` to a retired object, and no `get` has
determined it without having constructed its `Ref` yet.

The code keeps this only in runs that are `Apart`.  `unref` decrements and
disposes in two steps, and `get` recycles and increments in two steps; each of
the two leaves a window in which the other one must not act on the same object.

* `Retired`: an object is on its way out.
* `Gone`: nobody owns a `Ref` to it, or is about to have one.
* `Step.gone`: every `Apart` step keeps retired objects gone.
-/

namespace SingletonStorage

variable {K : Type}

/-- The object whose `Ref` a `get` has still to construct. -/
def Frame.handed : Frame K → Option Ptr
  | .getCreate _ o | .getInsert _ o | .getUnlock o | .getRef o => some o
  | _ => none

/-- The object whose counter an `unref` brought to zero and that it has not
disposed or deleted yet. -/
def Frame.pending : Frame K → Option Ptr
  | .unrefLock o | .unrefLocked o | .unrefDelete o => some o
  | _ => none

/-- A `get` has determined `o`, and recycled it if it was disposed, but has not
constructed its `Ref` yet. -/
def Handed (s : State K) (o : Ptr) : Prop :=
  ∃ t, ∃ f ∈ s.stack t, f.handed = some o

/-- The dispose or the delete of an `unref` of `o` by thread `t` is outstanding. -/
def PendingAt (s : State K) (t : Tid) (o : Ptr) : Prop :=
  ∃ f ∈ s.stack t, f.pending = some o

/-- The dispose or the delete of an `unref` of `o` is outstanding. -/
def Pending (s : State K) (o : Ptr) : Prop :=
  ∃ t, PendingAt s t o

/-- The only `Ref` to `o` is destroyed in this step. -/
def LastDrop (s : State K) (l : Label K) (o : Ptr) : Prop :=
  (s.singletons o).refCount = 1 ∧ ((∃ n, l = .start n (.drop o)) ∨
    ∃ t v rest, l = .pick t o ∧ s.stack t = .dropValue v :: rest)

/-- A `get` that found the entry `o` recycles it in this step. -/
def Recycles (s : State K) (l : Label K) (o : Ptr) : Prop :=
  ∃ t k rest, l = .next t ∧ s.stack t = .getRecycle k o :: rest

/-- The side condition on a step: no `get` recycles an object whose dispose or
delete is outstanding, and no object loses its last `Ref` while a `get` that
determined it has not constructed its own `Ref` yet. -/
structure Apart (s : State K) (l : Label K) : Prop where
  recycle : ∀ o, Recycles s l o → ¬Pending s o
  drop : ∀ o, LastDrop s l o → ¬Handed s o

variable {s s' : State K}

/-- What the frame on top is to dispose or delete. -/
theorem Pending.of_top {t : Tid} {f : Frame K} {rest : List (Frame K)} {o : Ptr}
    (top : s.stack t = f :: rest) (hf : f.pending = some o) : Pending s o :=
  ⟨t, f, by simp [top], hf⟩

/-- What the frame on top is handing out. -/
theorem Handed.of_top {t : Tid} {f : Frame K} {rest : List (Frame K)} {o : Ptr}
    (top : s.stack t = f :: rest) (hf : f.handed = some o) : Handed s o :=
  ⟨t, f, by simp [top], hf⟩

variable [DecidableEq K] {p : Program K} {l : Label K}

/-- A collection has taken the key of `o` out of `m_disposed`. -/
def Doomed (s : State K) (o : Ptr) : Prop :=
  ∃ t current keys n caller, .gcKeys current keys n caller ∈ s.stack t ∧
    ∃ k ∈ keys, s.children.lookup k = some o

/-- The object is on its way out, or deleted. -/
def Retired (s : State K) (o : Ptr) : Prop :=
  o ∈ s.disposed ∨ Pending s o ∨ Doomed s o ∨ (s.singletons o).deleted = true

/-- The destructor of `o` is called in this step, by a collection or by an
`unref` that found it detached. -/
def Deletes (s : State K) (l : Label K) (o : Ptr) : Prop :=
  (∃ t rest, l = .next t ∧ s.stack t = .unrefDelete o :: rest) ∨
    ∃ t k keys n caller rest, l = .pickKey t k ∧
      s.stack t = .gcKeys none keys n caller :: rest ∧ k ∈ keys ∧ s.children.lookup k = some o

/-- What the collection on top has still to delete. -/
theorem Doomed.of_top {t : Tid} {current : Option K} {keys : List K} {n : Nat} {caller : Caller}
    {rest : List (Frame K)} {k : K} {o : Ptr}
    (top : s.stack t = .gcKeys current keys n caller :: rest) (hk : k ∈ keys)
    (entry : s.children.lookup k = some o) : Doomed s o :=
  ⟨t, current, keys, n, caller, by simp [top], k, hk, entry⟩

/-- The keys a round takes are those of entries in `m_disposed`. -/
theorem State.mem_of_disposedKeys {k : K} (h : k ∈ s.disposedKeys) :
    ∃ o ∈ s.disposed, s.children.lookup k = some o := by
  obtain ⟨⟨k, o⟩, hmem, rfl⟩ := List.mem_map.mp (List.mem_of_mem_take h)
  obtain ⟨hmem, ho⟩ := List.mem_filter.mp hmem
  exact ⟨o, of_decide_eq_true ho, AList.mem_lookup_iff.mpr hmem⟩

/-- An outstanding dispose begins with a last drop by its thread. -/
theorem Step.pendingAt_cases (hs : Step p s l s') (hc : Counted s) {t : Tid} {o : Ptr}
    (h : PendingAt s' t o) : PendingAt s t o ∨ LastDrop s l o ∧ t = l.tid := by
  obtain ⟨f, hf, hpending⟩ := h
  have hlast : ∀ {holder o}, (holder, o) ∈ s.refs → ¬1 < (s.singletons o).refCount →
      (s.singletons o).refCount = 1 := by
    intro holder o live last
    have hpos : 0 < (s.singletons o).refCount := hc.pos live
    omega
  have htop : ∀ {f rest}, s.stack t = f :: rest → f.pending = some o → PendingAt s t o :=
    fun {f rest} top hf => ⟨f, by simp [top], hf⟩
  rcases hs.enters hf with hold | ⟨htid, henters⟩ | hlaunches
  · exact .inl ⟨f, hold, hpending⟩
  · cases henters with
    | startDrop label live last =>
        cases hpending
        exact .inr ⟨⟨hlast live last, .inl ⟨_, label⟩⟩, htid⟩
    | dropRef label top live last =>
        cases hpending
        exact .inr ⟨⟨hlast live last, .inr ⟨_, _, _, label, top⟩⟩, htid⟩
    | unrefLocked top => exact .inl (htop top hpending)
    | unrefDelete top _ => exact .inl (htop top hpending)
    | _ => cases hpending
  · cases hlaunches
    cases hpending

/-- What becomes pending has lost its last `Ref`. -/
theorem Step.pending_cases (hs : Step p s l s') (hc : Counted s) {o : Ptr}
    (h : Pending s' o) : Pending s o ∨ LastDrop s l o := by
  obtain ⟨t, h⟩ := h
  exact (hs.pendingAt_cases hc h).imp (fun hold => ⟨t, hold⟩) And.left

/-- A `get` hands out a new object or one it recycled. -/
theorem Step.handed_cases (hs : Step p s l s') {o : Ptr} (h : Handed s' o) :
    Handed s o ∨ Recycles s l o ∨ o = s.bound := by
  obtain ⟨t, f, hf, hhanded⟩ := h
  rcases hs.enters hf with hold | ⟨-, henters⟩ | hlaunches
  · exact .inl ⟨t, f, hold, hhanded⟩
  · cases henters with
    | recycled label top _ =>
        cases hhanded
        exact .inr (.inl ⟨_, _, _, label, top⟩)
    | getCreate top =>
        cases hhanded
        exact .inr (.inr rfl)
    | getInsert top | inserted top _ | getRef top => exact .inl (.of_top top hhanded)
    | _ => cases hhanded
  · cases hlaunches
    cases hhanded

/-- A recycled object is not in `m_disposed` any more. -/
theorem Step.recycled_disposed (hs : Step p s l s') {o : Ptr} (h : Recycles s l o) :
    o ∉ s'.disposed := by
  obtain ⟨t, k, rest, rfl, top⟩ := h
  cases hs with
  | getRecycle top' =>
      cases top.symm.trans top'
      simp
  | _ => cases top.symm.trans ‹s.stack t = _›

/-- Only an outstanding dispose adds to `m_disposed`. -/
theorem Step.disposed_cases (hs : Step p s l s') {o : Ptr} (h : o ∈ s'.disposed) :
    (o ∈ s.disposed ∧ ¬Recycles s l o) ∨ Pending s o := by
  have hrecycles : ¬Recycles s l o := fun hr => hs.recycled_disposed hr h
  cases hs.disposedChange with
  | same eq => exact .inl ⟨eq ▸ h, hrecycles⟩
  | dispose label top attached eq =>
      rw [eq] at h
      rcases Finset.mem_insert.mp h with rfl | hold
      · exact .inr (.of_top top rfl)
      · exact .inl ⟨hold, hrecycles⟩
  | recycle label top eq =>
      rw [eq] at h
      exact .inl ⟨Finset.mem_of_mem_erase h, hrecycles⟩
  | collect eq =>
      rw [eq] at h
      cases h

/-- What becomes deleted is deleted in this step. -/
theorem Step.deleted_cases (hs : Step p s l s') {o : Ptr}
    (h : (s'.singletons o).deleted = true) :
    (s.singletons o).deleted = true ∨ Deletes s l o := by
  cases hs.object o with
  | same eq => exact .inl (eq ▸ h)
  | new _ _ _ _ eq =>
      rw [eq] at h
      cases h
  | alters eq step =>
      rw [eq] at h
      cases step with
      | unrefDelete label top => exact .inr (.inl ⟨_, _, label, top⟩)
      | gcDelete label top entry mem => exact .inr (.inr ⟨_, _, _, _, _, _, label, top, mem, entry⟩)
      | _ => exact .inl h

/-- A `get` takes a counter away from zero only for the object it hands out. -/
theorem Step.refCount_cases (hs : Step p s l s') (hc : Counted s) {o : Ptr}
    (h : (s.singletons o).refCount = 0) :
    (s'.singletons o).refCount = 0 ∨ Handed s o := by
  cases hs.object o with
  | same eq => exact .inl (by rw [eq, h])
  | new _ _ _ _ eq => exact .inl (by rw [eq])
  | alters eq step =>
      rw [eq]
      cases step with
      | ref known =>
          rcases known with ⟨r, hr, rfl⟩ | ⟨t, rest, top⟩
          · exact absurd h (hc.pos hr).ne'
          · exact .inr (.of_top top rfl)
      | unref _ => exact .inl (by rw [h])
      | _ => exact .inl h

/-- A collection takes its keys from `m_disposed`. -/
theorem Step.doomed_cases (hs : Step p s l s') (hsound : Sound s) {o : Ptr} (h : Doomed s' o) :
    Doomed s o ∨ (o ∈ s.disposed ∧ s'.disposed = ∅ ∧ s.inside = some (.retiring none)) := by
  obtain ⟨t, current, keys, n, caller, hf, k, hk, hlookup⟩ := h
  have howned := hs.owned hsound.shaped hsound.owned
  have hshaped := hs.shaped hsound.shaped
  have hin : s'.inside = some (.retiring current) := State.inside_of_mem howned hshaped hf rfl
  have hentry : s.children.lookup k = some o := by
    cases hs
    case getInsert t' k' o' rest top =>
      -- the inserting thread owns the lock, so no collection is under way
      have hleaving := State.inside_of_mem howned hshaped
        (show .getUnlock o' ∈ _ by rw [State.goto_stack, Function.update_self]; exact .head _) rfl
      cases hin.symm.trans hleaving
    case clearChildren => cases hlookup
    case gcErase t' k' keys' n' caller' rest top =>
      have hne : k ≠ k' := by
        rintro rfl
        simp at hlookup
      rwa [AList.lookup_erase_ne hne] at hlookup
    all_goals exact hlookup
  rcases hs.enters hf with hold | ⟨-, henters⟩ | hlaunches
  · exact .inl ⟨t, current, keys, n, caller, hold, k, hk, hentry⟩
  · cases henters with
    | gcKeys top collected =>
        obtain ⟨o', hdisposed, hlookup'⟩ := State.mem_of_disposedKeys hk
        cases hentry.symm.trans hlookup'
        exact .inr ⟨hdisposed, collected, (State.inside_top hsound.owned top rfl).2⟩
    | gcErased top => exact .inl (.of_top top hk hentry)
    | gcDeleting _ top _ _ => exact .inl (.of_top top (List.mem_of_mem_erase hk) hentry)
  · cases hlaunches

/-- A collection with keys left is in the critical section. -/
theorem Doomed.inside (hsound : Sound s) {o : Ptr} (h : Doomed s o) :
    ∃ current, s.inside = some (.retiring current) := by
  obtain ⟨t, current, keys, n, caller, hf, -⟩ := h
  exact ⟨current, State.inside_of_mem hsound.owned hsound.shaped hf rfl⟩

/-- A `get` recycles living entries that no collection is about to delete. -/
theorem Recycles.alive (hsound : Sound s) {o : Ptr} (h : Recycles s l o) :
    (s.singletons o).deleted = false ∧ ¬Doomed s o ∧ s.inside ≠ some (.retiring none) := by
  obtain ⟨t, k, rest, -, top⟩ := h
  have hin : s.inside = some (.found k o) := (State.inside_top hsound.owned top rfl).2
  have hd := hsound.directory
  have hentry : s.directory.entry k = some o := hd.found k o hin
  refine ⟨?_, fun hdoomed => ?_, by simp [hin]⟩
  · have hattached := (hd.attached k o hentry).resolve_right (by simp [State.directory, hin])
    by_contra hdeleted
    have hphase := hd.alive k o hentry hattached (by simpa [State.directory] using hdeleted)
    simp [State.directory, hin] at hphase
  · obtain ⟨current, hretiring⟩ := hdoomed.inside hsound
    simp [hin] at hretiring

/-- What a destructor is called for is retired. -/
theorem Deletes.retired {o : Ptr} (h : Deletes s l o) : Pending s o ∨ Doomed s o := by
  rcases h with ⟨t, rest, -, top⟩ | ⟨t, k, keys, n, caller, rest, -, top, hk, entry⟩
  · exact .inl (.of_top top rfl)
  · exact .inr (.of_top top hk entry)

/-- Retired objects are allocated. -/
theorem Retired.lt_bound (ha : Allocated s) {o : Ptr} (h : Retired s o) : o < s.bound := by
  rcases h with hdisposed | ⟨t, f, hf, hpending⟩ | ⟨t, _, _, _, _, -, k, -, hlookup⟩ | hdeleted
  · exact ha.disposed o hdisposed
  · refine ha.frames t f hf o ?_
    cases f <;> simp_all [Frame.pending, Frame.pointers]
  · exact ha.children k o hlookup
  · by_contra hle
    simp [(ha.fresh o (not_lt.mp hle)).2] at hdeleted

/-- **Gone.**  Nobody owns a `Ref` to a retired object, or is about to. -/
def Gone (s : State K) : Prop :=
  ∀ o, Retired s o → (s.singletons o).refCount = 0 ∧ ¬Handed s o

/-- An object becomes retired when its last `Ref` is destroyed. -/
theorem Step.retired_cases (hs : Step p s l s') (hsound : Sound s) {o : Ptr}
    (h : Retired s' o) : Retired s o ∨ LastDrop s l o := by
  rcases h with hdisposed | hpending | hdoomed | hdeleted
  · rcases hs.disposed_cases hdisposed with ⟨hold, -⟩ | hold
    · exact .inl (.inl hold)
    · exact .inl (.inr (.inl hold))
  · exact (hs.pending_cases hsound.counted hpending).imp_left fun hold => .inr (.inl hold)
  · rcases hs.doomed_cases hsound hdoomed with hold | ⟨hold, -⟩
    · exact .inl (.inr (.inr (.inl hold)))
    · exact .inl (.inl hold)
  · rcases hs.deleted_cases hdeleted with hold | hdeletes
    · exact .inl (.inr (.inr (.inr hold)))
    · exact .inl (hdeletes.retired.elim (fun h => .inr (.inl h)) fun h => .inr (.inr (.inl h)))

/-- A recycled object is not retired any more. -/
theorem Step.not_retired_of_recycles (hs : Step p s l s') (hsound : Sound s) {o : Ptr}
    (h : Recycles s l o) (hpending : ¬Pending s o) : ¬Retired s' o := by
  obtain ⟨halive, hdoomed, hinside⟩ := h.alive hsound
  have hdrop : ¬LastDrop s l o := by
    rintro ⟨-, ⟨n, hl⟩ | ⟨t, v, rest, hl, -⟩⟩ <;> obtain ⟨_, _, _, hl', -⟩ := h <;>
      cases hl.symm.trans hl'
  rintro (h' | h' | h' | h')
  · exact (hs.disposed_cases h').elim (fun hold => hold.2 h) hpending
  · exact (hs.pending_cases hsound.counted h').elim hpending hdrop
  · exact (hs.doomed_cases hsound h').elim hdoomed fun hold => hinside hold.2.2
  · rcases hs.deleted_cases h' with hold | hdeletes
    · simp [halive] at hold
    · exact hdeletes.retired.elim hpending hdoomed

/-- The counter is zero after the last drop. -/
theorem LastDrop.refCount_eq_zero (hs : Step p s l s') (ha : Allocated s) {o : Ptr}
    (h : LastDrop s l o) : (s'.singletons o).refCount = 0 ∧ o < s.bound := by
  obtain ⟨hone, ⟨n, rfl⟩ | ⟨t, v, rest, rfl, top⟩⟩ := h
  · cases hs with
    | startDrop idle live => exact ⟨by simp [hone], ha.refs _ live⟩
  · cases hs with
    | dropRef _ live => exact ⟨by simp [hone], ha.refs _ live⟩
    | clearDetach top' _ _ | createValue top' _ _ _ => cases top.symm.trans top'

/-- **Retirement.**  A step that keeps drops and `get`s of one object apart
keeps retired objects gone. -/
theorem Step.gone (hs : Step p s l s') (hsound : Sound s) (hok : Apart s l) (h : Gone s) :
    Gone s' := by
  intro o hretired
  have hnew : ¬Recycles s l o := fun hrecycles =>
    hs.not_retired_of_recycles hsound hrecycles (hok.recycle o hrecycles) hretired
  rcases hs.retired_cases hsound hretired with hold | hdrop
  · obtain ⟨hcount, hhanded⟩ := h o hold
    refine ⟨(hs.refCount_cases hsound.counted hcount).resolve_right hhanded, fun hhanded' => ?_⟩
    rcases hs.handed_cases hhanded' with hh | hh | rfl
    · exact hhanded hh
    · exact hnew hh
    · exact absurd (hold.lt_bound hsound.allocated) (lt_irrefl _)
  · obtain ⟨hcount, hlt⟩ := hdrop.refCount_eq_zero hs hsound.allocated
    refine ⟨hcount, fun hhanded' => ?_⟩
    rcases hs.handed_cases hhanded' with hh | hh | hh
    · exact hok.drop o hdrop hh
    · exact hnew hh
    · exact hlt.ne hh

/-- Nothing has retired before the first call. -/
theorem gone_initial [Inhabited K] : Gone (initial (K := K)) := by
  rintro o (hdisposed | ⟨t, f, hf, -⟩ | ⟨t, _, _, _, _, hf, -⟩ | hdeleted)
  · simp [initial] at hdisposed
  · cases hf
  · cases hf
  · simp [initial] at hdeleted

/-- What has retired is gone in every history that keeps drops and `get`s apart. -/
theorem Reach.gone [Inhabited K] (h : Runs.Reach (step p) Apart initial s) :
    Sound s ∧ Gone s :=
  h.invariant (I := fun s => Sound s ∧ Gone s) ⟨sound_initial, gone_initial⟩
    fun _ _ _ hs hok hstep =>
      ⟨(step_cases hstep).sound hs.1, (step_cases hstep).gone hs.1 hok hs.2⟩

end SingletonStorage
