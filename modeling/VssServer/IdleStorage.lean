import VssServer.Collection

/-!
# What is settled while every thread is idle

A lock that is taken and a creation that runs have a thread that attends to
them, a value that is gone has a thread that still drops its `Ref`s or owns
none, and a deleted object has a thread that still joins it or no longer shares
its value.  The first two hold in every run, the others in sequential ones; where
every thread is idle only their second halves are left.

* `Attended`: whatever a thread can wait for has a thread that attends to it.
* `Values`: the values and those who use them.
* `Reach.attended`, `Reach.values`: they are so in every history, or in every sequential one.
* `Idle.value_kept`: in an idle storage a value with a `Ref` lives.
-/

namespace SingletonStorage

variable {K : Type}

/-- Whatever a thread can wait for has a thread that attends to it. -/
structure Attended (s : State K) : Prop where
  lock : ∀ t, s.childrenLock = some t → ∃ f ∈ s.stack t, f.locked
  spinlock : ∀ o, (s.singletons o).spinlock = true →
    ∃ t, .unrefLocked o ∈ s.stack t ∨ .unrefUnlock o ∈ s.stack t
  running : ∀ o, (s.singletons o).future = .running → ∃ t, .creating o ∈ s.stack t

/-- The values of a sequential history and those who use them. -/
structure Values (s : State K) : Prop where
  waits : ∀ t, ∀ f ∈ s.stack t, f.waits → ∀ o ∈ f.pointers, (s.singletons o).deleted = false
  dropping : ∀ v, (s.singletons v).valueGone = true →
    (∃ t, .dropValue v ∈ s.stack t) ∨ ∀ r ∈ s.refs, r.1 ≠ .value v
  joining : ∀ v, (s.singletons v).deleted = true →
    (∃ t, .join v ∈ s.stack t) ∨ (s.singletons v).shared = false
  last : ∀ v, (s.singletons v).shared = false → (s.singletons v).pins = 0 →
    (s.singletons v).valueGone = true
  bound : ∀ v o, (.value v, o) ∈ s.refs → v < s.bound

variable [DecidableEq K] {p : Program K} {s s' : State K} {l : Label K}

/-- The end of a critical section frees the lock. -/
theorem Step.lock_freed (hs : Step p s l s') {t : Tid} {f : Frame K} {rest : List (Frame K)}
    (top : s.stack t = f :: rest) (htid : t = l.tid)
    (unlocks : (∃ o, f = .getUnlock o) ∨ (∃ n, f = .gcUnlock n) ∨ f = .clearUnlock) :
    s'.childrenLock = none := by
  cases hs
  case getUnlock | gcUnlock | clearUnlock => rfl
  all_goals
    subst htid
    first
    | cases top.symm.trans ‹s.stack _ = []›
    | cases top.symm.trans ‹s.stack _ = _›
      simp at unlocks

/-- The lock goes with a frame of the critical section. -/
theorem Step.lock_attended (hs : Step p s l s') (hsound : Sound s)
    (h : ∀ t, s.childrenLock = some t → ∃ f ∈ s.stack t, f.locked) (t : Tid)
    (hlock : s'.childrenLock = some t) : ∃ f ∈ s'.stack t, f.locked := by
  cases hs.lockChange with
  | takes top locks eq =>
      obtain rfl : t = l.tid := Option.some.inj (hlock.symm.trans eq)
      rcases hs.top_moves top with ⟨frames, hstack, hleaves⟩ | ⟨frames, -, hpushes⟩
      · rcases locks with ⟨k, rfl⟩ | rfl | rfl <;> cases hleaves <;>
          exact ⟨_, hstack ▸ List.mem_append_left _ (.head _), rfl⟩
      · rcases locks with ⟨k, rfl⟩ | rfl | rfl <;> cases hpushes
  | releases _ _ eq => cases eq.symm.trans hlock
  | same eq =>
      obtain ⟨f, hf, hlocked⟩ := h t (eq ▸ hlock)
      rcases hs.leaves hsound hf with hkept | ⟨rest, frames, top, htid, hstack, hleaves⟩
      · exact ⟨f, hkept, hlocked⟩
      subst htid
      have hfreed := fun unlocks => hs.lock_freed top rfl unlocks
      have hnext : ∀ g ∈ frames, g.locked → ∃ f ∈ s'.stack l.tid, f.locked := fun g hg hg' =>
        ⟨g, hstack ▸ List.mem_append_left rest hg, hg'⟩
      cases hleaves with
      | getFound | getMissing | getRecycle | getCreate | getInsert | gcEnd | clearCollected
      | gcRound | gcErase | gcKeysDone | clearDetach | clearChildren => exact hnext _ (.head _) rfl
      | gcDelete => exact hnext _ (.tail _ (.head _)) rfl
      | getUnlock => cases (hfreed (.inl ⟨_, rfl⟩)).symm.trans hlock
      | gcUnlock => cases (hfreed (.inr (.inl ⟨_, rfl⟩))).symm.trans hlock
      | clearUnlock => cases (hfreed (.inr (.inr rfl))).symm.trans hlock
      | _ => cases hlocked

/-- A spinlock is taken by the `unref` that is inside its critical section then. -/
theorem Step.spinlock_taken (hs : Step p s l s') {o : Ptr}
    (hfree : (s.singletons o).spinlock = false) (h : (s'.singletons o).spinlock = true) :
    ∃ t, .unrefLocked o ∈ s'.stack t := by
  have hmodify : ∀ {o' x'}, s'.singletons = Function.update s.singletons o' x' →
      x'.spinlock = (s.singletons o').spinlock ∨ x'.spinlock = false → False := by
    intro o' x' heq hx
    rw [heq] at h
    by_cases ho : o = o'
    · subst ho
      simp_all
    · simp [ho, hfree] at h
  cases hs
  case unrefLock t o' rest top free =>
    by_cases ho : o = o'
    · subst ho
      exact ⟨t, by simp⟩
    · simp [ho, hfree] at h
  case getMissing => exact (hmodify rfl (.inr rfl)).elim
  case unrefDetached | unrefUnlock => exact (hmodify rfl (.inr rfl)).elim
  case startReleaseLast | joinLast =>
    exact (hmodify (Function.update_idem ..) (.inl (by simp))).elim
  all_goals first
    | simp [hfree] at h; done
    | exact (hmodify rfl (.inl rfl)).elim

/-- The `unref` that leaves the critical section of a spinlock frees it. -/
theorem Step.spinlock_freed (hs : Step p s l s') {t : Tid} {f : Frame K} {rest : List (Frame K)}
    (top : s.stack t = f :: rest) (htid : t = l.tid) {o : Ptr}
    (unlocks : f = .unrefUnlock o ∨ f = .unrefLocked o ∧ (s.singletons o).storage = false) :
    (s'.singletons o).spinlock = false := by
  cases hs
  case unrefDetached top' _ =>
    subst htid
    cases top.symm.trans top'
    simp_all
  case unrefUnlock top' =>
    subst htid
    cases top.symm.trans top'
    simp_all
  all_goals
    subst htid
    first
    | cases top.symm.trans ‹s.stack _ = []›
    | cases top.symm.trans ‹s.stack _ = _›
      simp_all

/-- A spinlock that is taken is let go by an `unref`. -/
theorem Step.spinlock_attended (hs : Step p s l s') (hsound : Sound s)
    (h : ∀ o, (s.singletons o).spinlock = true →
      ∃ t, .unrefLocked o ∈ s.stack t ∨ .unrefUnlock o ∈ s.stack t)
    (o : Ptr) (hlocked : (s'.singletons o).spinlock = true) :
    ∃ t, .unrefLocked o ∈ s'.stack t ∨ .unrefUnlock o ∈ s'.stack t := by
  by_cases hold : (s.singletons o).spinlock = true
  swap
  · obtain ⟨t, ht⟩ := hs.spinlock_taken (by simpa using hold) hlocked
    exact ⟨t, .inl ht⟩
  obtain ⟨t, hf⟩ := h o hold
  rcases hf with hf | hf <;>
    rcases hs.leaves hsound hf with hkept | ⟨rest, frames, top, htid, hstack, hleaves⟩
  · exact ⟨t, .inl hkept⟩
  · refine ⟨t, ?_⟩
    cases hleaves with
    | unrefDispose => exact .inr (by simp [hstack])
    | unrefDetached =>
        have hdeletes : .unrefDelete o ∈ s'.stack t := by simp [hstack]
        rcases hs.enters hdeletes with hin | ⟨-, henters⟩ | hlaunches
        · rw [top] at hin
          simpa [Frame.deletes, Frame.waits] using
            (hsound.shaped.of_top top).below (.unrefDelete o) (by simpa using hin)
        · cases henters with
          | unrefDelete _ detached =>
              have hfreed := hs.spinlock_freed top htid (.inr ⟨rfl, detached⟩)
              cases hfreed.symm.trans hlocked
        · cases hlaunches
  · exact ⟨t, .inr hkept⟩
  · cases (hs.spinlock_freed top htid (.inl rfl)).symm.trans hlocked

/-- A creation that starts to run has a thread. -/
theorem Step.running_taken (hs : Step p s l s') (hsound : Sound s) {o : Ptr}
    (hidle : (s.singletons o).future ≠ .running) (h : (s'.singletons o).future = .running) :
    ∃ t, .creating o ∈ s'.stack t := by
  have hmodify : ∀ {o' x'}, s'.singletons = Function.update s.singletons o' x' →
      x'.future = (s.singletons o').future ∨ x'.future ≠ .running → False := by
    intro o' x' heq hx
    rw [heq] at h
    by_cases ho : o = o'
    · subst ho
      simp_all
    · simp [ho, hidle] at h
  cases hs
  case getCreate t k o' rest top =>
    by_cases ho : o = o'
    · subst ho
      have ht : Tid.task o ≠ t := by
        rintro rfl
        simp [hsound.task_idle top] at top
      by_cases hasync : p.async k
      · exact ⟨.task o, by simp [hasync, ht]⟩
      · simp [hasync] at h
    · simp [ho, hidle] at h
  case waitDeferred t o' keep rest top deferred =>
    by_cases ho : o = o'
    · subst ho
      exact ⟨t, by simp⟩
    · simp [ho, hidle] at h
  case getMissing | createDone => exact (hmodify rfl (.inr (by simp))).elim
  case startReleaseLast | joinLast =>
    exact (hmodify (Function.update_idem ..) (.inl (by simp))).elim
  all_goals first
    | exact (hidle h).elim
    | exact (hmodify rfl (.inl rfl)).elim

/-- A creation that has not finished stays in its thread. -/
theorem Step.creating_kept (hs : Step p s l s') (hsound : Sound s) {t : Tid} {o : Ptr}
    (h : .creating o ∈ s.stack t) (hrunning : (s'.singletons o).future = .running) :
    .creating o ∈ s'.stack t := by
  rcases hs.leaves hsound h with hkept | ⟨rest, frames, top, htid, hstack, hleaves⟩
  · exact hkept
  cases hleaves with
  | createDone =>
      cases hs
      case createDone top' _ =>
        subst htid
        cases top.symm.trans top'
        simp at hrunning
      case createGet top' _ | createValue top' _ _ _ =>
        subst htid
        cases top.symm.trans top'
        simp
      all_goals
        subst htid
        first
        | cases top.symm.trans ‹s.stack _ = []›
        | cases top.symm.trans ‹s.stack _ = _›

/-- Every step leaves whatever a thread can wait for attended to. -/
theorem Step.attended (hs : Step p s l s') (hsound : Sound s) (h : Attended s) :
    Attended s' where
  lock := hs.lock_attended hsound h.lock
  spinlock := hs.spinlock_attended hsound h.spinlock
  running o hrunning := by
    by_cases hold : (s.singletons o).future = .running
    · exact (h.running o hold).imp fun t ht => hs.creating_kept hsound ht hrunning
    · exact hs.running_taken hsound hold hrunning

/-- Whatever a thread waits for is attended to in every history. -/
theorem Reach.attended [Inhabited K] {ok : State K → Label K → Prop}
    (h : Runs.Reach (step p) ok initial s) : Attended s := by
  have hall : Sound s ∧ Attended s := by
    refine h.invariant (I := fun s => Sound s ∧ Attended s) ⟨sound_initial, ?_⟩
      fun _ _ _ ⟨hsound, hattended⟩ _ hstep =>
        ⟨(step_cases hstep).sound hsound, (step_cases hstep).attended hsound hattended⟩
    constructor <;> simp [initial]
  exact hall.2

/-- A deletion in a sequential history is by a client that is alone, so nobody waits. -/
theorem Step.deletes_unwatched (hs : Step p s l s') (hcalm : Calm s) {o : Ptr}
    (hd : Deletes s l o) : ∀ t, ∀ f ∈ s'.stack t, f.waits = false := by
  have htop : ∃ t f rest, s.stack t = f :: rest ∧ (f.destroys ∨ f.collects) := by
    rcases hd with ⟨t, rest, -, top⟩ | ⟨t, k, keys, n, caller, rest, -, top, -⟩
    · exact ⟨t, _, rest, top, .inl rfl⟩
    · exact ⟨t, _, rest, top, .inr rfl⟩
  obtain ⟨t, f, rest, top, hf⟩ := htop
  rcases hcalm with hgetting | ⟨n, hrel⟩
  · have hnone := hgetting t f (by simp [top])
    simp [hnone] at hf
  · have hgoes : ∀ n' op, l ≠ .start n' op := by
      rintro n' op rfl
      rcases hd with ⟨_, _, ⟨⟩, -⟩ | ⟨_, _, _, _, _, _, ⟨⟩, -⟩
    obtain ⟨hothers, hframes⟩ := hs.releasing hgoes hrel
    intro t f hf
    have ht : t = .client n := by
      by_contra ht
      simp [hothers t ht] at hf
    subst ht
    have := hframes f hf
    cases f <;> simp_all [Frame.waits, Frame.destroys, Frame.collects]

/-- Nobody waits for a value of a deleted singleton, if none is deleted under a wait. -/
theorem Step.waits_alive (hs : Step p s l s') (hsound : Sound s) (hgone : Gone s)
    (hunwatched : ∀ o, Deletes s l o → ∀ t, ∀ f ∈ s'.stack t, f.waits = false)
    (h : Values s) : ∀ t, ∀ f ∈ s'.stack t, f.waits →
      ∀ o ∈ f.pointers, (s'.singletons o).deleted = false := by
  intro t f hf hwaits o ho
  by_contra hdeleted
  rw [Bool.not_eq_false] at hdeleted
  have hcounted : 0 < (s.singletons o).refCount ∨ Handed s o →
      (s.singletons o).deleted = false := by
    intro hused
    by_contra hdeleted
    obtain ⟨hzero, hnot⟩ := hgone o (.inr (.inr (.inr (by simpa using hdeleted))))
    exact hused.elim hzero.not_gt hnot
  have halive : (s.singletons o).deleted = false := by
    rcases hs.enters hf with hold | ⟨-, henters⟩ | hlaunches
    · exact h.waits t f hold hwaits o ho
    · cases henters with
      | startValue _ live | createValue _ _ live =>
          obtain rfl := List.mem_singleton.mp ho
          exact hcounted (.inl (hsound.counted.pos live))
      | @waitDeferred _ keep _ top _ => exact h.waits t (.wait _ keep) (by simp [top]) rfl o ho
      | _ => cases hwaits
    · cases hlaunches with
      | creating _ top _ =>
          obtain rfl := List.mem_singleton.mp ho
          exact hcounted (.inr (.of_top top rfl))
  rcases hs.deleted_cases hdeleted with hold | hdeletes
  · simp [halive] at hold
  · cases hwaits.symm.trans (hunwatched o hdeletes t f hf)

/-- A `Ref` comes from a copy, or from a `get` of a client or of a creation. -/
theorem Step.refs_cases (hs : Step p s l s') {r : Holder × Ptr} (hr : r ∈ s'.refs) :
    r ∈ s.refs ∨ r.1 = .client ∨ ∃ t v, r.1 = .value v ∧ .creating v ∈ s.stack t := by
  cases hs
  case startCopy =>
    rcases List.mem_cons.mp hr with rfl | hold
    · exact .inr (.inl rfl)
    · exact .inl hold
  case getRef t o rest top =>
    rcases List.mem_cons.mp hr with rfl | hold
    · right
      rcases rest with _ | ⟨f, rest⟩
      · exact .inl rfl
      · cases f <;> first | exact .inl rfl | exact .inr ⟨t, _, rfl, by simp [top]⟩
    · exact .inl hold
  case startDrop | dropRef => exact .inl (List.mem_of_mem_erase hr)
  all_goals exact .inl hr

/-- A value that is gone is having its `Ref`s dropped, or owns none. -/
theorem Step.gone_dropping (hs : Step p s l s') (hsound : Sound s) (hvalues : ValuesOnce s)
    (h : Values s) {v : Ptr} (hgone : (s'.singletons v).valueGone = true) :
    (∃ t, .dropValue v ∈ s'.stack t) ∨ ∀ r ∈ s'.refs, r.1 ≠ .value v := by
  by_cases hold : (s.singletons v).valueGone = true
  · rcases h.dropping v hold with ⟨t, hdrop⟩ | hnone
    · exact (hs.dropping_kept hsound hdrop).imp_left fun hkept => ⟨t, hkept⟩
    · refine .inr fun r hr hv => ?_
      rcases hs.refs_cases hr with hin | hclient | ⟨t, v', hv', hcreating⟩
      · exact hnone r hin hv
      · cases hclient.symm.trans hv
      · cases hv'.symm.trans hv
        have halive := h.waits t _ hcreating rfl v (by simp [Frame.pointers])
        cases (hvalues.gone v hold).symm.trans (hvalues.alive v halive)
  · left
    cases hs.object v with
    | same eq => exact absurd (eq ▸ hgone) hold
    | new _ _ _ _ eq => simp [eq] at hgone
    | alters eq step =>
        rw [eq] at hgone
        cases step with
        | @releaseLast n label last =>
            subst label
            cases hs with
            | startRelease _ _ more => exact absurd last more
            | startReleaseLast => exact ⟨.client n, by simp⟩
        | @joinLast t _ label top last =>
            subst label
            obtain ⟨_, hstack, hleaves⟩ | ⟨_, -, hpushes⟩ := hs.top_moves top
            · cases hleaves with
              | joinLast =>
                  rw [Label.tid] at hstack
                  exact ⟨t, by simp [hstack]⟩
              | joinPinned pinned => exact absurd last pinned
            · cases hpushes
        | _ => exact absurd hgone hold

/-- A deletion goes on with the join. -/
theorem Step.deletes_join (hs : Step p s l s') {o : Ptr} (hd : Deletes s l o) :
    .join o ∈ s'.stack l.tid := by
  rcases hd with ⟨t, rest, rfl, top⟩ | ⟨t, k, keys, n, caller, rest, rfl, top, -, entry⟩
  · obtain ⟨_, hstack, hleaves⟩ | ⟨_, -, ⟨⟩⟩ := hs.top_moves top
    cases hleaves with
    | unrefDelete => rw [hstack]; exact .head _
  · cases hs with
    | gcDelete _ entry' _ =>
        cases entry.symm.trans entry'
        simp [Label.tid]

/-- The end of a join lets the value go, and destroys it if nobody else owns it. -/
theorem Step.join_ends (hs : Step p s l s') {t : Tid} {o : Ptr} {rest : List (Frame K)}
    (top : s.stack t = .join o :: rest) (htid : t = l.tid) :
    (s'.singletons o).shared = false ∧
      ((s.singletons o).pins = 0 → (s'.singletons o).valueGone = true) := by
  cases hs
  case joinLast top' _ _ =>
    subst htid
    cases top.symm.trans top'
    simp
  case joinPinned top' _ pinned =>
    subst htid
    cases top.symm.trans top'
    exact ⟨by simp, fun hpins => absurd hpins pinned⟩
  all_goals
    subst htid
    first
    | cases top.symm.trans ‹s.stack _ = []›
    | cases top.symm.trans ‹s.stack _ = _›

/-- The value of a deleted object is being joined, or not shared any more. -/
theorem Step.deleted_joining (hs : Step p s l s') (hsound : Sound s) (h : Values s) {v : Ptr}
    (hdeleted : (s'.singletons v).deleted = true) :
    (∃ t, .join v ∈ s'.stack t) ∨ (s'.singletons v).shared = false := by
  rcases hs.deleted_cases hdeleted with hold | hdeletes
  · rcases h.joining v hold with ⟨t, hjoin⟩ | hshared
    · rcases hs.leaves hsound hjoin with hkept | ⟨rest, -, top, htid, -⟩
      · exact .inl ⟨t, hkept⟩
      · exact .inr (hs.join_ends top htid).1
    · right
      rcases hs.object_shared v with heq | ⟨-, -, hfresh, -⟩ | ⟨t, rest, hl, top⟩
      · rw [heq, hshared]
      · simp [hfresh] at hdeleted
      · exact (hs.join_ends top (by rw [hl, Label.tid])).1
  · exact .inl ⟨_, hs.deletes_join hdeletes⟩

/-- The last owner of a value destroys it. -/
theorem Step.last_gone (hs : Step p s l s') (h : Values s) {v : Ptr}
    (hshared : (s'.singletons v).shared = false) (hpins : (s'.singletons v).pins = 0) :
    (s'.singletons v).valueGone = true := by
  cases hs.object v with
  | same eq =>
      rw [eq] at hshared hpins ⊢
      exact h.last v hshared hpins
  | new _ _ _ _ eq => simp [eq] at hshared
  | alters eq step =>
      have heq := eq
      rw [eq] at hshared hpins ⊢
      cases step with
      | release label pinned =>
          subst label
          cases hs with
          | startRelease _ _ more =>
              have hpins : (s.singletons v).pins - 1 = 0 := hpins
              exact absurd ⟨by omega, hshared⟩ more
          | startReleaseLast => simpa using heq
      | joinPinned label top =>
          rw [← heq]
          exact (hs.join_ends top (by rw [label, Label.tid])).2 hpins
      | waitReady => exact h.last v hshared (Nat.eq_zero_of_add_eq_zero_right hpins)
      | releaseLast | joinLast => rfl
      | _ => exact h.last v hshared hpins

/-- The value that has a `Ref` exists. -/
theorem Step.holders_bound (hs : Step p s l s') (hsound : Sound s) (h : Values s) {v o : Ptr}
    (hr : (.value v, o) ∈ s'.refs) : v < s'.bound := by
  refine lt_of_lt_of_le ?_ hs.bound_le
  rcases hs.refs_cases hr with hin | hclient | ⟨t, v', hv', hcreating⟩
  · exact h.bound v o hin
  · cases hclient
  · cases hv'
    exact hsound.allocated.frames t _ hcreating v (by simp [Frame.pointers])

/-- A step that deletes nothing while somebody waits keeps account of the values. -/
theorem Step.values (hs : Step p s l s') (hsound : Sound s) (hgone : Gone s)
    (hunwatched : ∀ o, Deletes s l o → ∀ t, ∀ f ∈ s'.stack t, f.waits = false)
    (hvalues : ValuesOnce s) (h : Values s) : Values s' where
  waits := hs.waits_alive hsound hgone hunwatched h
  dropping _ hgone := hs.gone_dropping hsound hvalues h hgone
  joining _ hdeleted := hs.deleted_joining hsound h hdeleted
  last _ hshared hpins := hs.last_gone h hshared hpins
  bound _ _ hr := hs.holders_bound hsound h hr

/-- The values and those who use them, in a sequential history. -/
theorem Reach.values [Inhabited K] (h : Runs.Reach (step p) Sequential initial s) : Values s := by
  refine h.along (I := Values) ?_ fun s l s' hs hvalues _ hstep => ?_
  · constructor <;> simp [initial]
  · obtain ⟨hsound, hgone, -⟩ := Reach.tracked (Reach.orderly hs)
    have hs' := step_cases hstep
    exact hs'.values hsound hgone (fun _ => hs'.deletes_unwatched (Reach.calm hs))
      (Reach.valuesOnce (Reach.orderly hs)) hvalues

omit [DecidableEq K] in
/-- In an idle storage a value that owns a `Ref` is kept by its singleton or by a
`shared_ptr` elsewhere. -/
theorem Idle.value_kept (h : Idle s) (hvalues : Values s) {v o : Ptr}
    (hr : (.value v, o) ∈ s.refs) :
    (s.singletons v).valueGone = false ∧
      (0 < (s.singletons v).pins ∨ (s.singletons v).deleted = false) := by
  have hheld : (s.singletons v).valueGone = false := by
    by_contra hgone
    rcases hvalues.dropping v (by simpa using hgone) with ⟨t, hdrop⟩ | hnone
    · simp [h t] at hdrop
    · exact hnone _ hr rfl
  refine ⟨hheld, ?_⟩
  by_cases hdeleted : (s.singletons v).deleted = true
  · left
    rcases hvalues.joining v hdeleted with ⟨t, hjoin⟩ | hshared
    · simp [h t] at hjoin
    · exact Nat.pos_of_ne_zero fun hpins => by simp [hvalues.last v hshared hpins] at hheld
  · exact .inr (by simpa using hdeleted)

end SingletonStorage
