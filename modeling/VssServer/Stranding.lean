import VssServer.Deletion

/-!
# Nothing is stranded

The objects the storage is still responsible for are tracked: a living object
without `Ref`s is on its way through `get`, `unref`, `m_disposed` or a
collection, never lost.  This needs the runs to be `Apart`, and one condition
more, because `clear` takes only `m_childrenLock`: an `unref` that finds
`m_storage` still set while `clear` is detaching the other entries disposes
into a set that no later collection can empty, for the map is emptied next.

* `Tracked`: where an object can be.
* `Step.tracked`: an orderly step loses none.
* `nothing_stranded`: the next collection finds what is disposed.
* `clear_strands_singleton`: without the second condition it may not.
-/

namespace SingletonStorage

variable {K : Type} {s s' : State K}

/-- An `unref` puts `o` into `m_disposed` in this step. -/
def Disposes (s : State K) (l : Label K) (o : Ptr) : Prop :=
  ∃ t rest, l = .next t ∧ s.stack t = .unrefLocked o :: rest ∧
    (s.singletons o).storage = true

/-- The side condition on a step: drops and `get`s are apart, and nothing is
disposed while a `clear` detaches the entries that survived its collection. -/
structure Orderly (s : State K) (l : Label K) : Prop extends Apart s l where
  dispose : ∀ o, Disposes s l o → ∀ t remaining, .clearDetach remaining ∉ s.stack t

/-- What is pending is in the frame on top. -/
theorem Shape.pending_below {f : Frame K} {rest : List (Frame K)} (h : Shape (f :: rest))
    {o : Ptr} : ∀ g ∈ rest, g.pending ≠ some o := by
  intro g hg hpending
  have hbelow := h.below g hg
  cases g <;> simp_all [Frame.pending, Frame.deletes, Frame.waits]

/-- The keys to collect are different. -/
theorem State.disposedKeys_nodup (s : State K) : s.disposedKeys.Nodup :=
  ((List.take_sublist _ _).trans (List.filter_sublist.map Sigma.fst)).nodup s.children.nodupKeys

variable [DecidableEq K] {p : Program K} {l : Label K}

/-- Where the objects that have no `Ref` are, and that they are at one place. -/
structure Tracked (s : State K) : Prop where
  alone : ∀ t t' o, PendingAt s t o → PendingAt s t' o → t = t'
  pending : ∀ o, Pending s o → (s.singletons o).deleted = false
  doomed : ∀ o, Doomed s o → ¬Pending s o ∧ (s.singletons o).deleted = false
  disposed : ∀ o ∈ s.disposed, (¬Pending s o ∧ ¬Doomed s o) ∧
    ((s.singletons o).storage = true ∧ (s.singletons o).deleted = false) ∧
    s.children.lookup (s.singletons o).key = some o
  found : ∀ o < s.bound, (s.singletons o).deleted = false → 0 < (s.singletons o).refCount ∨
    Handed s o ∨ Pending s o ∨ o ∈ s.disposed ∨ Doomed s o
  detaching : ∀ t remaining, .clearDetach remaining ∈ s.stack t → s.disposed = ∅
  keys : ∀ t current keys n caller, .gcKeys current keys n caller ∈ s.stack t → keys.Nodup

/-- Only a `dispose` adds to the disposed ones. -/
theorem Step.disposed_sources (hs : Step p s l s') {o : Ptr} (h : o ∈ s'.disposed) :
    o ∈ s.disposed ∨ Disposes s l o := by
  cases hs.disposedChange with
  | same eq => exact .inl (eq ▸ h)
  | dispose label top attached eq =>
      rw [eq] at h
      rcases Finset.mem_insert.mp h with rfl | hold
      · exact .inr ⟨_, _, label, top, attached⟩
      · exact .inl hold
  | recycle _ _ eq =>
      rw [eq] at h
      exact .inl (Finset.mem_of_mem_erase h)
  | collect eq =>
      rw [eq] at h
      cases h

/-- The dispose of a last drop is outstanding. -/
theorem LastDrop.pending (hs : Step p s l s') {o : Ptr} (h : LastDrop s l o) : Pending s' o := by
  obtain ⟨hone, ⟨n, rfl⟩ | ⟨t, v, rest, rfl, top⟩⟩ := h
  · cases hs with
    | startDrop idle live => exact ⟨.client n, .unrefLock o, by simp [hone], rfl⟩
  · cases hs with
    | dropRef _ live => exact ⟨t, .unrefLock o, by simp [hone], rfl⟩
    | clearDetach top' _ _ | createValue top' _ _ _ => cases top.symm.trans top'

/-- A counter comes to zero in a last drop, whose dispose is then outstanding. -/
theorem Step.refCount_forward (hs : Step p s l s') {o : Ptr} (ho : o < s.bound)
    (h : 0 < (s.singletons o).refCount) :
    0 < (s'.singletons o).refCount ∨ Pending s' o := by
  cases hs.object o with
  | same eq => exact .inl (eq ▸ h)
  | new _ _ fresh _ _ => exact absurd fresh ho.ne
  | alters eq step =>
      rw [eq]
      cases step with
      | ref _ => exact .inl (Nat.succ_pos _)
      | unref drops =>
          by_cases hone : (s.singletons o).refCount = 1
          · exact .inr (LastDrop.pending hs ⟨hone, drops⟩)
          · exact .inl (Nat.sub_pos_of_lt (by omega))
      | _ => exact .inl h

/-- A `get` that has determined an object goes on to construct its `Ref`. -/
theorem Step.handed_forward (hs : Step p s l s') (hsound : Sound s) {o : Ptr}
    (h : Handed s o) :
    0 < (s'.singletons o).refCount ∨ Handed s' o := by
  obtain ⟨t, f, hf, hhanded⟩ := h
  rcases hs.leaves hsound hf with hkept | ⟨rest, frames, -, -, hstack, hleaves⟩
  · exact .inr ⟨t, f, hkept, hhanded⟩
  have hnext : ∀ g ∈ frames, g.handed = some o → Handed s' o := fun g hg h =>
    ⟨t, g, hstack ▸ List.mem_append_left rest hg, h⟩
  cases hleaves with
  | getCreate | getInsert | getUnlock => exact .inr (hnext _ (.head _) hhanded)
  | getRef counted =>
      cases hhanded
      exact .inl counted
  | _ => cases hhanded

/-- An outstanding dispose ends in `m_disposed` or with the deletion. -/
theorem Step.pending_forward (hs : Step p s l s') (hsound : Sound s) {o : Ptr}
    (h : Pending s o) :
    Pending s' o ∨ o ∈ s'.disposed ∨ (s'.singletons o).deleted = true := by
  obtain ⟨t, f, hf, hpending⟩ := h
  rcases hs.leaves hsound hf with hkept | ⟨rest, frames, -, -, hstack, hleaves⟩
  · exact .inl ⟨t, f, hkept, hpending⟩
  have hnext : ∀ g ∈ frames, g.pending = some o → Pending s' o := fun g hg h =>
    ⟨t, g, hstack ▸ List.mem_append_left rest hg, h⟩
  cases hleaves with
  | unrefLock | unrefDetached => exact .inl (hnext _ (.head _) hpending)
  | unrefDispose disposed =>
      cases hpending
      exact .inr (.inl disposed)
  | unrefDelete deleted =>
      cases hpending
      exact .inr (.inr deleted)
  | _ => cases hpending

/-- A disposed entry is recycled, or a collection takes its key. -/
theorem Step.disposed_forward (hs : Step p s l s') {o : Ptr} (h : o ∈ s.disposed)
    (hkey : (s.singletons o).key ∈ s.disposedKeys)
    (hentry : s.children.lookup (s.singletons o).key = some o) :
    o ∈ s'.disposed ∨ Handed s' o ∨ Doomed s' o := by
  cases hs
  case getRecycle t k o' rest top =>
    by_cases heq : o = o'
    · subst heq
      exact .inr (.inl ⟨t, .getUnlock o, by simp, rfl⟩)
    · exact .inl (by simp [heq, h])
  case gcEnd empty | clearCollected empty => simp [empty] at hkey
  case gcRound t n caller rest top nonempty =>
    exact .inr (.inr ⟨t, none, s.disposedKeys, n, caller, by simp, _, hkey, hentry⟩)
  all_goals first
    | exact .inl h
    | exact .inl (Finset.mem_insert_of_mem h)

/-- A collection deletes the objects whose keys it has taken. -/
theorem Step.doomed_forward (hs : Step p s l s') (hsound : Sound s) {o : Ptr} (h : Doomed s o)
    (halive : (s.singletons o).deleted = false) :
    Doomed s' o ∨ (s'.singletons o).deleted = true := by
  obtain ⟨t, current, keys, n, caller, hf, k, hk, hlookup⟩ := h
  have hin : s.inside = some (.retiring current) :=
    State.inside_of_mem hsound.owned hsound.shaped hf rfl
  have hentry : s'.children.lookup k = some o := by
    cases hs
    case getInsert top =>
      have hphase := (State.inside_top hsound.owned top rfl).2
      simp [hin, Frame.phase] at hphase
    case clearChildren top =>
      have hphase := (State.inside_top hsound.owned top rfl).2
      simp [hin, Frame.phase] at hphase
    case gcErase t' k' keys' n' caller' rest top =>
      have hphase := (State.inside_top hsound.owned top rfl).2
      have hne : k ≠ k' := by
        rintro rfl
        have hdeleted := hsound.directory.retiring k o hphase hlookup
        simp [State.directory, halive] at hdeleted
      simp [AList.lookup_erase_ne hne, hlookup]
    all_goals exact hlookup
  rcases hs.leaves hsound hf with hkept | ⟨rest, frames, -, -, hstack, hleaves⟩
  · exact .inl ⟨t, current, keys, n, caller, hkept, k, hk, hentry⟩
  cases hleaves with
  | gcErase => exact .inl ⟨t, none, keys, n, caller, by simp [hstack], k, hk, hentry⟩
  | gcKeysDone => cases hk
  | @gcDelete k' o' _ _ _ entry deleted =>
      by_cases heq : k = k'
      · subst heq
        obtain rfl : o' = o := Option.some.inj (entry.symm.trans hlookup)
        exact .inr deleted
      · exact .inl ⟨t, some k', keys.erase k', n, caller, by simp [hstack], k,
          (List.mem_erase_of_ne heq).mpr hk, hentry⟩

/-- A retired object has no `Ref` to drop. -/
theorem Gone.not_lastDrop (h : Gone s) {o : Ptr} (hr : Retired s o) : ¬LastDrop s l o := by
  rintro ⟨hone, -⟩
  simp [(h o hr).1] at hone

/-- An object is disposed or deleted by one thread. -/
theorem Step.alone (hs : Step p s l s') (hc : Counted s) (hgone : Gone s) (h : Tracked s)
    {t t' : Tid} {o : Ptr} (ht : PendingAt s' t o) (ht' : PendingAt s' t' o) : t = t' := by
  rcases hs.pendingAt_cases hc ht with hold | ⟨hdrop, htid⟩
  · rcases hs.pendingAt_cases hc ht' with hold' | ⟨hdrop, -⟩
    · exact h.alone t t' o hold hold'
    · exact absurd hdrop (hgone.not_lastDrop (.inr (.inl ⟨t, hold⟩)))
  · rcases hs.pendingAt_cases hc ht' with hold' | ⟨-, htid'⟩
    · exact absurd hdrop (hgone.not_lastDrop (.inr (.inl ⟨t', hold'⟩)))
    · rw [htid, htid']

/-- The thread whose dispose or delete is done has no other one outstanding. -/
theorem Step.not_pending_of_top (hs : Step p s l s') (hsound : Sound s) (hgone : Gone s)
    (h : Tracked s) {t : Tid} {f : Frame K} {o : Ptr} {rest frames : List (Frame K)}
    (top : s.stack t = f :: rest) (hf : f.pending = some o) (hstack : s'.stack t = frames)
    (hframes : ∀ g ∈ frames, g.pending = some o → g ∈ rest) : ¬Pending s' o := by
  rintro ⟨t', hp⟩
  have hat : PendingAt s t o := ⟨f, by simp [top], hf⟩
  have ht : t' = t := by
    rcases hs.pendingAt_cases hsound.counted hp with hold | ⟨hdrop, -⟩
    · exact h.alone t' t o hold hat
    · exact absurd hdrop (hgone.not_lastDrop (.inr (.inl ⟨t, hat⟩)))
  obtain ⟨g, hg, hgp⟩ := hp
  rw [ht, hstack] at hg
  exact (hsound.shaped.of_top top).pending_below g (hframes g hg hgp) hgp

/-- What is to be disposed or deleted is not deleted yet. -/
theorem Step.pending_alive (hs : Step p s l s') (hsound : Sound s) (hgone : Gone s)
    (h : Tracked s) {o : Ptr} (hp : Pending s' o) : (s'.singletons o).deleted = false := by
  by_contra hdeleted
  rw [Bool.not_eq_false] at hdeleted
  rcases hs.deleted_cases hdeleted with hold | hdeletes
  · rcases hs.pending_cases hsound.counted hp with hpold | hdrop
    · simp [h.pending o hpold] at hold
    · exact hgone.not_lastDrop (.inr (.inr (.inr hold))) hdrop
  · have hdrop : ¬LastDrop s l o := hgone.not_lastDrop
      (hdeletes.retired.elim (fun h => .inr (.inl h)) fun h => .inr (.inr (.inl h)))
    have hpold := (hs.pending_cases hsound.counted hp).resolve_right hdrop
    rcases hdeletes with ⟨t, rest, rfl, top⟩ | ⟨t, k, keys, n, caller, rest, -, top, hk, entry⟩
    · obtain ⟨_, hstack, ⟨⟩⟩ | ⟨_, -, ⟨⟩⟩ := hs.top_moves top
      refine hs.not_pending_of_top hsound hgone h top rfl hstack ?_ hp
      exact List.forall_mem_cons.mpr ⟨nofun, fun _ hg _ => hg⟩
    · exact (h.doomed o (.of_top top hk entry)).1 hpold

/-- The keys of a round are different. -/
theorem Step.keys_nodup (hs : Step p s l s') (h : Tracked s) {t current keys n caller}
    (hf : .gcKeys current keys n caller ∈ s'.stack t) : keys.Nodup := by
  have htop : ∀ {current keys n caller rest},
      s.stack t = .gcKeys current keys n caller :: rest → keys.Nodup :=
    fun {current keys n caller rest} top => h.keys t current keys n caller (by simp [top])
  rcases hs.enters hf with hold | ⟨-, henters⟩ | hlaunches
  · exact h.keys t current keys n caller hold
  · cases henters with
    | gcKeys _ _ => exact s.disposedKeys_nodup
    | gcErased top => exact htop top
    | gcDeleting _ top _ _ => exact (htop top).erase _
  · cases hlaunches

/-- `clear` detaches when nothing is disposed. -/
theorem Step.detaching (hs : Step p s l s') (hok : Orderly s l) (h : Tracked s) {t remaining}
    (hf : .clearDetach remaining ∈ s'.stack t) : s'.disposed = ∅ := by
  have hkept : ∀ {remaining}, .clearDetach remaining ∈ s.stack t → s'.disposed = ∅ := by
    intro remaining hmem
    have hnone := h.detaching t remaining hmem
    cases hs.disposedChange with
    | same eq => rw [eq, hnone]
    | dispose label top attached _ =>
        exact absurd hmem (hok.dispose _ ⟨_, _, label, top, attached⟩ t remaining)
    | recycle _ _ eq => rw [eq, hnone, Finset.erase_empty]
    | collect eq => exact eq
  rcases hs.enters hf with hold | ⟨-, henters⟩ | hlaunches
  · exact hkept hold
  · cases henters with
    | clearCollected _ collected => exact collected
    | clearDetach top => exact hkept (by rw [top]; exact .head _)
  · cases hlaunches

/-- What a collection is about to delete is not pending elsewhere. -/
theorem Step.doomed_apart (hs : Step p s l s') (hsound : Sound s) (hgone : Gone s)
    (h : Tracked s) {o : Ptr} (hd : Doomed s' o) :
    ¬Pending s' o ∧ (s'.singletons o).deleted = false := by
  have hold : Retired s o ∧ ¬Pending s o ∧ (s.singletons o).deleted = false := by
    rcases hs.doomed_cases hsound hd with hd | ⟨ho, -⟩
    · exact ⟨.inr (.inr (.inl hd)), h.doomed o hd⟩
    · exact ⟨.inl ho, (h.disposed o ho).1.1, (h.disposed o ho).2.1.2⟩
  obtain ⟨hretired, hpending, halive⟩ := hold
  refine ⟨fun hp => ?_, ?_⟩
  · rcases hs.pending_cases hsound.counted hp with hp | hdrop
    · exact hpending hp
    · exact hgone.not_lastDrop hretired hdrop
  · by_contra hdeleted
    rw [Bool.not_eq_false] at hdeleted
    rcases hs.deleted_cases hdeleted with hd | hdeletes
    · simp [halive] at hd
    · rcases hdeletes with ⟨t, rest, -, top⟩ | ⟨t, k, keys, n, caller, rest, rfl, top, hk, entry⟩
      · exact hpending (.of_top top rfl)
      · -- the collection has taken the only key of the object off its list
        obtain ⟨t', current, keys', n', caller', hf, k', hk', hlookup⟩ := hd
        have hnodup := h.keys t none keys n caller (by simp [top])
        have hunique : ∀ {t'' : Tid} {g : Frame K}, g ∈ s'.stack t'' → g.locked = true →
            t'' = t' ∧ g = .gcKeys current keys' n' caller' :=
          (hs.owned hsound.shaped hsound.owned).unique (hs.shaped hsound.shaped) hf rfl
        cases hs with
        | @gcDelete _ _ o' _ _ _ _ top' entry' mem =>
            cases top.symm.trans top'
            have hkey : k' = k := (hsound.directory.key k' o hlookup).symm.trans
              (hsound.directory.key k o entry)
            have hmem : Frame.gcKeys (some k) (keys.erase k) n caller ∈
                (s.delete t o' (.gcKeys (some k) (keys.erase k) n caller :: rest)).stack t := by
              simp
            obtain ⟨rfl, heq⟩ := hunique hmem rfl
            cases heq
            rw [hkey] at hk'
            exact hnodup.not_mem_erase hk'

/-- While `clear` detaches entries, `m_disposed` is empty. -/
theorem Tracked.not_detaching (h : Tracked s) {o : Ptr} (ho : o ∈ s.disposed)
    {remaining : List Ptr} :
    s.inside ≠ some (.detaching remaining) := by
  intro hin
  obtain ⟨t, -, f, hf, hphase⟩ := State.frame_of_inside hin
  cases f <;> cases hphase
  simp [h.detaching t _ hf] at ho

/-- A disposed object stays the entry of its key. -/
theorem Step.disposed_kept (hs : Step p s l s') (hsound : Sound s) (hgone : Gone s)
    (h : Tracked s) {o : Ptr} (hold : o ∈ s.disposed) (hnew : o ∈ s'.disposed) :
    (¬Pending s' o ∧ ¬Doomed s' o) ∧
    ((s'.singletons o).storage = true ∧ (s'.singletons o).deleted = false) ∧
    s'.children.lookup (s'.singletons o).key = some o := by
  obtain ⟨⟨hpending, hdoomed⟩, ⟨hstorage, halive⟩, hlookup⟩ := h.disposed o hold
  have hstep := hs.directory hsound.owned hsound.detached
  have hphase : ∀ remaining, s.inside ≠ some (.detaching remaining) :=
    fun _ => h.not_detaching hold
  refine ⟨⟨fun hp => ?_, fun hd => ?_⟩, ⟨?_, ?_⟩, ?_⟩
  · rcases hs.pending_cases hsound.counted hp with hp | hdrop
    · exact hpending hp
    · exact hgone.not_lastDrop (.inl hold) hdrop
  · rcases hs.doomed_cases hsound hd with hd | ⟨-, hempty, -⟩
    · exact hdoomed hd
    · simp [hempty] at hnew
  · exact (hstep.attached_kept (o := o) hstorage).resolve_right fun ⟨r, hr⟩ => hphase r hr
  · by_contra hdeleted
    rw [Bool.not_eq_false] at hdeleted
    rcases hs.deleted_cases hdeleted with hd | hdeletes
    · simp [halive] at hd
    · exact hdeletes.retired.elim hpending hdoomed
  · rw [hs.key_eq (hsound.allocated.disposed o hold)]
    rcases hstep.entry_kept hsound.directory hlookup with hkept | hremoved | ⟨r, hr⟩
    · exact hkept
    · have hdeleted := hsound.directory.retiring _ o hremoved hlookup
      simp [State.directory, halive] at hdeleted
    · exact absurd hr (hphase r)

/-- An `unref` disposes the entry of its key. -/
theorem Step.disposed_new (hs : Step p s l s') (hsound : Sound s) (hgone : Gone s)
    (h : Tracked s) {o : Ptr} (hnew : Disposes s l o) :
    (¬Pending s' o ∧ ¬Doomed s' o) ∧
    ((s'.singletons o).storage = true ∧ (s'.singletons o).deleted = false) ∧
    s'.children.lookup (s'.singletons o).key = some o := by
  obtain ⟨t, rest, rfl, top, hstorage⟩ := hnew
  have hpending : Pending s o := .of_top top rfl
  have halive := h.pending o hpending
  have hlt : o < s.bound := Retired.lt_bound hsound.allocated (.inr (.inl hpending))
  have hentry : s.children.lookup (s.singletons o).key = some o := by
    rcases hsound.directory.entered o hlt hstorage (by simp [State.directory, halive])
      with hentry | hphase
    · exact hentry
    · -- no `get` that is still creating an object has handed it out
      refine absurd ?_ (hgone o (.inr (.inl hpending))).2
      rcases hphase with hphase | hphase <;>
        obtain ⟨t', -, f, hf, hf'⟩ := State.frame_of_inside hphase <;>
        cases f <;> cases hf'
      · exact ⟨t', _, hf, rfl⟩
      · exact ⟨t', _, hf, rfl⟩
  have hdoomed : ¬Doomed s' o := fun hd => by
    rcases hs.doomed_cases hsound hd with hd | ⟨ho, -⟩
    · exact (h.doomed o hd).1 hpending
    · exact (h.disposed o ho).1.1 hpending
  obtain rfl : s' = (s.dispose o).goto t (.unrefUnlock o :: rest) := by
    cases hs with
    | unrefDispose top' _ => cases top.symm.trans top'; rfl
    | unrefDetached top' detached =>
        cases top.symm.trans top'
        simp [hstorage] at detached
    | _ => cases top.symm.trans ‹s.stack t = _›
  have hdone : ¬Pending _ o := hs.not_pending_of_top hsound hgone h top rfl
    (Function.update_self ..) (List.forall_mem_cons.mpr ⟨by simp [Frame.pending], fun _ hg _ => hg⟩)
  exact ⟨⟨hdone, hdoomed⟩, ⟨hstorage, halive⟩, hentry⟩

/-- If every disposed object is the entry of its key, the next round finds all
of them: `disposedCount` is `toBeDisposed`. -/
theorem State.disposedKeys_eq (hsound : Sound s)
    (h : ∀ o ∈ s.disposed, s.children.lookup (s.singletons o).key = some o) :
    s.disposedKeys = (s.children.entries.filter fun e => e.2 ∈ s.disposed).map Sigma.fst ∧
      s.disposedKeys.length = s.disposed.card := by
  set found := s.children.entries.filter fun e => e.2 ∈ s.disposed with hfound
  have hmem : ∀ e ∈ found, s.children.lookup e.1 = some e.2 ∧ e.2 ∈ s.disposed := fun e he => by
    obtain ⟨he, ho⟩ := List.mem_filter.mp he
    exact ⟨AList.mem_lookup_iff.mpr he, of_decide_eq_true ho⟩
  have hnodup : (found.map Sigma.snd).Nodup := by
    have hentries : found.Nodup :=
      (List.NodupKeys.nodup s.children.nodupKeys).sublist List.filter_sublist
    refine hentries.map_on fun e he e' he' heq => ?_
    have hkey := hsound.directory.key e.1 e.2 (hmem e he).1
    have hkey' := hsound.directory.key e'.1 e'.2 (hmem e' he').1
    have heq : e.2 = e'.2 := heq
    exact Sigma.ext (by rw [← hkey, ← hkey', heq]) (heq_of_eq heq)
  have hall : (found.map Sigma.snd).toFinset = s.disposed := by
    ext o
    simp only [List.mem_toFinset, List.mem_map]
    constructor
    · rintro ⟨e, he, rfl⟩
      exact (hmem e he).2
    · intro ho
      exact ⟨⟨_, o⟩, List.mem_filter.mpr ⟨AList.mem_lookup_iff.mp (h o ho), by simpa using ho⟩, rfl⟩
  have hlength : found.length = s.disposed.card := by
    rw [← hall, List.toFinset_card_of_nodup hnodup, List.length_map]
  have hkeys : s.disposedKeys = found.map Sigma.fst :=
    List.take_of_length_le (by rw [List.length_map]; exact hlength.le)
  exact ⟨hkeys, by simp [hkeys, hlength]⟩

/-- A step creates one object at most, and hands it to its `get`. -/
theorem Step.bound_cases (hs : Step p s l s') :
    s'.bound = s.bound ∨ (s'.bound = s.bound + 1 ∧ Handed s' s.bound) := by
  cases hs
  case getMissing t k rest top entry =>
    exact .inr ⟨rfl, t, .getCreate k s.bound, by simp, rfl⟩
  all_goals exact .inl rfl

/-- What is deleted stays so. -/
theorem Step.deleted_kept (hs : Step p s l s') {o : Ptr} (ho : o < s.bound)
    (h : (s.singletons o).deleted = true) : (s'.singletons o).deleted = true := by
  cases hs.object o with
  | same eq => rw [eq, h]
  | new _ _ fresh _ _ => exact absurd fresh ho.ne
  | alters eq step =>
      rw [eq]
      cases step <;> first | exact h | rfl

/-- What lives is found: by a counter, a `get`, an `unref`, or a collection. -/
theorem Step.found (hs : Step p s l s') (hsound : Sound s) (h : Tracked s) {o : Ptr}
    (ho : o < s'.bound) (halive : (s'.singletons o).deleted = false) :
    0 < (s'.singletons o).refCount ∨ Handed s' o ∨ Pending s' o ∨ o ∈ s'.disposed ∨
      Doomed s' o := by
  have hold : o < s.bound ∨ Handed s' o := by
    rcases hs.bound_cases with hb | ⟨hb, hnew⟩
    · exact .inl (hb ▸ ho)
    · rcases Nat.lt_succ_iff_lt_or_eq.mp (hb ▸ ho) with hlt | rfl
      · exact .inl hlt
      · exact .inr hnew
  rcases hold with hlt | hhanded
  swap
  · exact .inr (.inl hhanded)
  have halive' : (s.singletons o).deleted = false := by
    by_contra hdeleted
    simp [hs.deleted_kept hlt (by simpa using hdeleted)] at halive
  rcases h.found o hlt halive' with hcount | hhanded | hpending | hdisposed | hdoomed
  · exact (hs.refCount_forward hlt hcount).imp id fun hp => .inr (.inl hp)
  · exact (hs.handed_forward hsound hhanded).imp id .inl
  · rcases hs.pending_forward hsound hpending with hp | hd | hdeleted
    · exact .inr (.inr (.inl hp))
    · exact .inr (.inr (.inr (.inl hd)))
    · simp [halive] at hdeleted
  · have hentry := (h.disposed o hdisposed).2.2
    have hkey : (s.singletons o).key ∈ s.disposedKeys := by
      rw [(s.disposedKeys_eq hsound fun o ho => (h.disposed o ho).2.2).1]
      exact List.mem_map.mpr ⟨⟨_, o⟩, List.mem_filter.mpr
        ⟨AList.mem_lookup_iff.mp hentry, by simpa using hdisposed⟩, rfl⟩
    rcases hs.disposed_forward hdisposed hkey hentry with hd | hh | hd
    · exact .inr (.inr (.inr (.inl hd)))
    · exact .inr (.inl hh)
    · exact .inr (.inr (.inr (.inr hd)))
  · rcases hs.doomed_forward hsound hdoomed halive' with hd | hdeleted
    · exact .inr (.inr (.inr (.inr hd)))
    · simp [halive] at hdeleted

/-- **Tracking.**  An orderly step loses no object. -/
theorem Step.tracked (hs : Step p s l s') (hsound : Sound s) (hgone : Gone s)
    (hok : Orderly s l) (h : Tracked s) : Tracked s' where
  alone _ _ _ ht ht' := hs.alone hsound.counted hgone h ht ht'
  pending _ hp := hs.pending_alive hsound hgone h hp
  doomed _ hd := hs.doomed_apart hsound hgone h hd
  disposed _ ho := (hs.disposed_sources ho).elim
    (fun hold => hs.disposed_kept hsound hgone h hold ho)
    fun hnew => hs.disposed_new hsound hgone h hnew
  found _ ho halive := hs.found hsound h ho halive
  detaching _ _ hf := hs.detaching hok h hf
  keys _ _ _ _ _ hf := hs.keys_nodup h hf

/-- Nothing is lost sight of in an orderly history. -/
theorem Reach.tracked [Inhabited K] (h : Runs.Reach (step p) Orderly initial s) :
    Sound s ∧ Gone s ∧ Tracked s := by
  refine h.invariant (I := fun s => Sound s ∧ Gone s ∧ Tracked s)
    ⟨sound_initial, gone_initial, ?_⟩ fun _ _ _ ⟨hsound, hgone, htracked⟩ hok hstep =>
      have hs := step_cases hstep
      ⟨hs.sound hsound, hs.gone hsound hok.toApart hgone, hs.tracked hsound hgone hok htracked⟩
  constructor <;> simp [initial, PendingAt, Pending, Doomed]

omit [DecidableEq K] in
/-- Whoever is alone in an `unref` is not detaching. -/
theorem Releasing.not_detaching {n : Nat} (h : Releasing s n) (hshape : Shaped s) {t : Tid}
    {o : Ptr} {rest : List (Frame K)} (top : s.stack t = .unrefLocked o :: rest) :
    ∀ t' remaining, .clearDetach remaining ∉ s.stack t' := by
  intro t' remaining hf
  -- both frames are in the one busy stack, where `clearDetach` is never below another
  have hbusy : ∀ {t}, s.stack t ≠ [] → t = .client n := fun {t} hne => by
    by_contra ht
    exact hne (h.1 t ht)
  have ht : t' = t := (hbusy (List.ne_nil_of_mem hf)).trans (hbusy (by simp [top])).symm
  rw [ht, top] at hf
  rcases List.mem_cons.mp hf with heq | hrest
  · cases heq
  · simpa [Frame.deletes, Frame.waits] using (hshape.of_top top).below _ hrest

/-- Sequential histories are orderly. -/
theorem Reach.orderly [Inhabited K] (h : Runs.Reach (step p) Sequential initial s) :
    Runs.Reach (step p) Orderly initial s := by
  refine h.weaken (I := fun s => Shaped s ∧ Calm s)
    (fun s hs => ⟨(Reach.sound hs).shaped, Reach.calm hs⟩) fun s l _ ⟨hshape, hcalm⟩ hok _ => ?_
  refine ⟨hcalm.apart hok, ?_⟩
  rintro o ⟨t, rest, -, top, -⟩ t' remaining hf
  rcases hcalm with hgetting | ⟨n, hrel⟩
  · simpa [Frame.collects] using (hgetting t' _ hf).2
  · exact hrel.not_detaching hshape top t' remaining hf

/-- No thread is inside a storage function or an `unref`. -/
def Quiet (s : State K) : Prop :=
  ∀ t, ∀ f ∈ s.stack t, f.waits

/-- **Nothing is stranded.**  In every run whose steps are orderly, every
disposed singleton is the entry of its key, so the next collection finds as
many keys as there are disposed singletons; and while no thread is inside a
storage function, every living singleton is in `m_children`, or detached with
a `Ref` that will delete it. -/
theorem nothing_stranded [Inhabited K] (h : Runs.Reach (step p) Orderly initial s) :
    (∀ o ∈ s.disposed, s.children.lookup (s.singletons o).key = some o) ∧
    s.disposedKeys.length = s.pendingGarbageCollect ∧
    (Quiet s → ∀ o < s.bound, (s.singletons o).deleted = false →
      s.children.lookup (s.singletons o).key = some o ∨
      (s.singletons o).storage = false ∧ 0 < (s.singletons o).refCount) := by
  obtain ⟨hsound, hgone, htracked⟩ := Reach.tracked h
  have hentry := fun o ho => (htracked.disposed o ho).2.2
  refine ⟨hentry, (s.disposedKeys_eq hsound hentry).2, fun hquiet o ho halive => ?_⟩
  have hwaits : ∀ t, ∀ f ∈ s.stack t, f.handed = none ∧ f.pending = none ∧ f.phase = none := by
    intro t f hf
    have hw := hquiet t f hf
    cases f <;> first | exact ⟨rfl, rfl, rfl⟩ | cases hw
  rcases htracked.found o ho halive with hcount | ⟨t, f, hf, hh⟩ | ⟨t, f, hf, hp⟩ | hd |
      ⟨t, _, _, _, _, hf, -⟩
  · by_cases hattached : (s.singletons o).storage = true
    · left
      rcases hsound.directory.entered o ho hattached (by simp [State.directory, halive])
        with hentry | hphase
      · exact hentry
      · rcases hphase with hphase | hphase <;>
          obtain ⟨t, -, f, hf, hf'⟩ := State.frame_of_inside hphase <;>
          cases (hwaits t f hf).2.2.symm.trans hf'
    · exact .inr ⟨by simpa using hattached, hcount⟩
  · cases (hwaits t f hf).1.symm.trans hh
  · cases (hwaits t f hf).2.1.symm.trans hp
  · exact .inl (hentry o hd)
  · cases (hwaits t _ hf).2.2

/-- Client 0 gets a singleton and clears the storage. -/
def getClear : List (Label String) :=
  [.start 0 (.get "Speed"), .next (.client 0), .next (.client 0), .next (.client 0),
    .next (.client 0), .next (.client 0), .next (.client 0), .start 0 .clear,
    .next (.client 0), .next (.client 0), .pick (.client 0) 0, .next (.client 0),
    .next (.client 0)]

/-- What a client holds is detached by its `clear`. -/
theorem nothing_stranded_getClear :
    ∃ s, Runs.run (step independent) initial getClear = some s ∧
      (s.singletons 0).storage = false ∧ 0 < (s.singletons 0).refCount := by
  have hrun : Runs.run (step independent) initial getClear = some _ := rfl
  have hsolo : ∀ l ∈ getClear, l.tid = .client 0 := by decide
  have hreach := reach_of_solo (n := 0) independent_async hsolo (fun _ _ => rfl) hrun
  refine ⟨_, hrun, ((nothing_stranded (Reach.orderly hreach)).2.2 ?_ 0 ?_ rfl).resolve_left ?_⟩
  · intro t f hf
    rw [idle_of_solo independent_async hsolo (fun _ _ => rfl) hrun rfl t] at hf
    cases hf
  · decide
  · rintro ⟨⟩

/-- Client 0 drops the only `Ref` while client 1 clears: the dispose falls
between the collection of `clear` and the detaching. -/
def dropDuringClear : List (Label String) :=
  [.start 0 (.get "Speed"), .next (.client 0), .next (.client 0), .next (.client 0),
    .next (.client 0), .next (.client 0), .next (.client 0), .start 1 .clear,
    .next (.client 1), .next (.client 1), .start 0 (.drop 0), .next (.client 0),
    .next (.client 0), .next (.client 0), .pick (.client 1) 0, .next (.client 1),
    .next (.client 1)]

/-- Afterwards no thread is inside the storage, and the singleton is neither an
entry nor referenced, but still disposed: the next collection counts one
disposed singleton and finds no key for it. -/
theorem clear_strands_singleton :
    ∃ s, Runs.run (step independent) initial dropDuringClear = some s ∧ Quiet s ∧
      0 ∈ s.disposed ∧ s.children.lookup (s.singletons 0).key = none ∧
      (s.singletons 0).deleted = false ∧ (s.singletons 0).refCount = 0 ∧
      s.disposedKeys.length ≠ s.pendingGarbageCollect := by
  have hrun : Runs.run (step independent) initial dropDuringClear = some _ := rfl
  have hpair : ∀ l ∈ dropDuringClear, l.tid = .client 0 ∨ l.tid = .client 1 := by decide
  refine ⟨_, hrun, ?_, by decide, rfl, rfl, rfl, by decide⟩
  have hidle := idle_of_run (P := fun t => t = .client 0 ∨ t = .client 1)
    independent_async hpair (fun _ _ => rfl) hrun (by rintro _ (rfl | rfl) <;> rfl)
  intro t f hf
  rw [hidle t] at hf
  cases hf

end SingletonStorage
