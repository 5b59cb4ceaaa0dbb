import VssServer.StorageObjects

/-!
# Invariants of every run of the storage machine

The facts of this file need no assumption on the schedule.  `Shape` says which
functions can be below which in one thread: nothing but waiting or creating is
below a `get`, nothing is below a collection, and a destructor runs on its own,
or below the destructor of a value, or below the deletion of an entry.  From
it follows that only the owner of `m_childrenLock` is inside its critical
section, and only at one place of it (`Owned`).  `Allocated` keeps every
pointer below the allocation bound, `Counted` says that `m_refCount` counts
the live `Ref`s, and `Entries` relates `m_children` to the objects.

* `Step.shaped`: the frames of a thread stay nested.
* `Step.owned`: only the owner of the lock is inside.
* `Step.allocated`: pointers stay below the bound.
* `Step.counted`: counters count the `Ref`s.
-/

namespace SingletonStorage

variable {K : Type}

/-- Frames inside the critical section of `m_childrenLock`. -/
def Frame.locked : Frame K → Bool
  | .getFind _ | .getRecycle _ _ | .getCreate _ _ | .getInsert _ _ | .getUnlock _ => true
  | .gcRound _ _ | .gcKeys _ _ _ _ | .gcUnlock _ | .clearDetach _ | .clearUnlock => true
  | _ => false

/-- Frames that wait for a value or create one. -/
def Frame.waits : Frame K → Bool
  | .creating _ | .wait _ _ => true
  | _ => false

/-- Frames of `unref` and of destructors. -/
def Frame.destroys : Frame K → Bool
  | .unrefLock _ | .unrefLocked _ | .unrefUnlock _ | .unrefDelete _ => true
  | .join _ | .dropValue _ => true
  | _ => false

/-- Frames of `garbageCollect` and `clear`. -/
def Frame.collects : Frame K → Bool
  | .gcLock | .gcRound _ _ | .gcKeys _ _ _ _ | .gcUnlock _ => true
  | .clearLock | .clearDetach _ | .clearUnlock => true
  | _ => false

/-- Frames that have called a destructor. -/
def Frame.deletes : Frame K → Bool
  | .dropValue _ | .gcKeys (some _) _ _ _ => true
  | _ => false

/-- What can be below a frame. -/
def Frame.above (f : Frame K) (rest : List (Frame K)) : Prop :=
  if f.destroys then ∀ g ∈ rest.head?, g.deletes
  else if f.collects then rest = []
  else ∀ g ∈ rest, g.waits

/-- The frames of one thread are nested as the functions of the source are. -/
def Shape : List (Frame K) → Prop
  | [] => True
  | f :: rest => f.above rest ∧ Shape rest

/-- The objects a frame is about. -/
def Frame.pointers : Frame K → List Ptr
  | .getRecycle _ o | .getCreate _ o | .getInsert _ o | .getUnlock o | .getRef o => [o]
  | .unrefLock o | .unrefLocked o | .unrefUnlock o | .unrefDelete o => [o]
  | .join o | .dropValue o | .creating o | .wait o _ => [o]
  | .clearDetach remaining => remaining
  | _ => []

/-- Every thread's frames are nested properly. -/
def Shaped (s : State K) : Prop :=
  ∀ t, Shape (s.stack t)

/-- Only the owner of `m_childrenLock` is inside its critical section. -/
def Owned (s : State K) : Prop :=
  ∀ t, ∀ f ∈ s.stack t, f.locked → s.childrenLock = some t

/-- Replacing the frames of one thread keeps what holds of every thread. -/
theorem forall_update {P : Tid → List (Frame K) → Prop} {stack : Tid → List (Frame K)}
    (h : ∀ t, P t (stack t)) {t : Tid} {frames : List (Frame K)} (hnew : P t frames) :
    ∀ t', P t' (Function.update stack t frames t') := by
  intro t'
  by_cases ht : t' = t
  · subst ht; simpa using hnew
  · simpa [ht] using h t'

/-- Below the frame on top the stack has its shape too. -/
theorem Shape.tail {f : Frame K} {rest : List (Frame K)} (h : Shape (f :: rest)) :
    Shape rest :=
  h.2

/-- Nothing below a frame of the critical section belongs to it. -/
theorem Shape.locked_below {f : Frame K} {rest : List (Frame K)}
    (h : Shape (f :: rest)) (hf : f.locked) : ∀ g ∈ rest, g.locked = false := by
  intro g hg
  have hdestroys : f.destroys = false := by
    cases f <;> first | rfl | cases hf
  have habove := h.1
  simp only [Frame.above, hdestroys, Bool.false_eq_true, if_false] at habove
  split at habove
  · simp [habove] at hg
  · have hwaits := habove g hg
    cases g <;> first | rfl | cases hwaits

/-- A destructor is above the one frame that called it. -/
theorem Shape.deletes_below {f g : Frame K} {rest : List (Frame K)}
    (h : Shape (f :: g :: rest)) (hf : f.destroys) : g.deletes := by
  have habove := h.1
  simp only [Frame.above, hf, if_true] at habove
  exact habove g (by simp)

/-- What is below another frame has called a destructor, or waits. -/
theorem Shape.below {f : Frame K} {rest : List (Frame K)} (h : Shape (f :: rest)) :
    ∀ g ∈ rest, g.deletes ∨ g.waits := by
  induction rest generalizing f with
  | nil => simp
  | cons g rest ih =>
      intro g' hg'
      rcases List.mem_cons.mp hg' with rfl | hrest
      · by_cases hf : f.destroys
        · exact .inl (h.deletes_below hf)
        · have habove := h.1
          simp only [Frame.above, hf, Bool.false_eq_true, if_false] at habove
          split at habove
          · cases habove
          · exact .inr (habove g' (.head _))
      · exact ih h.tail g' hrest

variable {s : State K}

/-- So has a stack with the frame on top. -/
theorem Shaped.of_top (h : Shaped s) {t : Tid} {f : Frame K} {rest : List (Frame K)}
    (top : s.stack t = f :: rest) : Shape (f :: rest) := by
  simpa only [top] using h t

/-- A thread is at one place of the critical section. -/
theorem Shape.locked_unique {frames : List (Frame K)} (h : Shape frames) {f g : Frame K}
    (hf : f ∈ frames) (hg : g ∈ frames) (hlf : f.locked) (hlg : g.locked) : g = f := by
  induction frames with
  | nil => cases hf
  | cons top rest ih =>
      rcases List.mem_cons.mp hf with rfl | hfrest
      · rcases List.mem_cons.mp hg with rfl | hgrest
        · rfl
        · cases hlg.symm.trans (h.locked_below hlf g hgrest)
      · rcases List.mem_cons.mp hg with rfl | hgrest
        · cases hlf.symm.trans (h.locked_below hlg f hfrest)
        · exact ih h.tail hfrest hgrest

/-- The owner of the lock is at one place of the critical section. -/
theorem Owned.unique (h : Owned s) (hshape : Shaped s) {t t' : Tid} {f g : Frame K}
    (hf : f ∈ s.stack t) (hlf : f.locked) (hg : g ∈ s.stack t') (hlg : g.locked) :
    t' = t ∧ g = f := by
  have ht : t' = t := Option.some.inj ((h t' g hg hlg).symm.trans (h t f hf hlf))
  subst ht
  exact ⟨rfl, (hshape t').locked_unique hf hg hlf hlg⟩

/-- A frame that is replaced takes no lock but its own. -/
private theorem owned_update {t : Tid} {f : Frame K} {rest frames : List (Frame K)}
    (h : Owned s) (top : s.stack t = f :: rest)
    (hnew : ∀ g ∈ frames, g.locked → f.locked ∨ g ∈ rest) :
    ∀ t', ∀ g ∈ Function.update s.stack t frames t', g.locked → s.childrenLock = some t' := by
  refine forall_update
    (P := fun t frames => ∀ g ∈ frames, g.locked → s.childrenLock = some t) h ?_
  intro g hg hl
  rcases hnew g hg hl with hf | hrest
  · exact h t f (by simp [top]) hf
  · exact h t g (by simp [top, hrest]) hl

/-- The counter of every object is the number of live `Ref`s to it. -/
def Counted (s : State K) : Prop :=
  ∀ o, (s.singletons o).refCount = s.refs.countP (·.2 = o)

/-- What has a `Ref` has a counter above zero. -/
theorem Counted.pos (h : Counted s) {r : Holder × Ptr} (hr : r ∈ s.refs) :
    0 < (s.singletons r.2).refCount := by
  rw [h]
  exact List.countP_pos_iff.mpr ⟨r, hr, by simp⟩

/-- `unref` deletes an object itself only after it found it detached. -/
def DetachedUnref (s : State K) : Prop :=
  ∀ t o, .unrefDelete o ∈ s.stack t → (s.singletons o).storage = false

/-- The task of an object runs only after its `createFuture` was called. -/
def TasksStarted (s : State K) : Prop :=
  ∀ o, s.stack (.task o) ≠ [] → o < s.bound ∧ 0 < (s.singletons o).createCalls

variable [DecidableEq K] {p : Program K} {s' : State K} {l : Label K}

/-- **Nesting.**  Every step keeps the frames of every thread nested. -/
theorem Step.shaped (hs : Step p s l s') (h : Shaped s) : Shaped s' := by
  have hgoto : ∀ {t frames}, Shape frames →
      ∀ t', Shape (Function.update s.stack t frames t') :=
    forall_update (P := fun _ => Shape) h
  cases hs
  case startMove | startCopy | startRelease => exact h
  case startDrop => exact hgoto (by split <;> simp [Shape, Frame.above])
  case startGet | startValue | startCollect | startClear | startReleaseLast =>
    exact hgoto (by simp [Shape, Frame.above])
  case dropRef top _ =>
    have ht := h.of_top top
    refine hgoto ?_
    split
    · exact ht
    · exact ⟨by simp [Frame.above, Frame.destroys, Frame.deletes], ht⟩
  case getCreate t k o rest top =>
    have ht := h.of_top top
    refine forall_update (P := fun _ => Shape) ?_ ht
    simp only [State.createFuture]
    split
    · exact hgoto (by simp [Shape, Frame.above])
    · exact h
  case getRef top | unrefUnlock top | joinPinned top _ _ | dropDone top _ | gcUnlock top |
      clearUnlock top | createDone top _ | waitReady top _ =>
    exact hgoto (h.of_top top).tail
  all_goals
    have ht := h.of_top ‹s.stack _ = _›
    simp only [Shape, Frame.above, Frame.destroys, Frame.collects, Frame.deletes] at ht
    refine hgoto ?_
    simpa [Shape, Frame.above, Frame.destroys, Frame.collects, Frame.deletes,
      Frame.waits] using ht

/-- **Mutual exclusion.**  Every step keeps the critical section owned. -/
theorem Step.owned (hs : Step p s l s') (hshape : Shaped s) (h : Owned s) : Owned s' := by
  have hstart : ∀ {t : Tid} {frames : List (Frame K)}, (∀ g ∈ frames, g.locked = false) →
      ∀ t', ∀ g ∈ Function.update s.stack t frames t', g.locked →
        s.childrenLock = some t' := by
    intro t frames hframes
    exact forall_update
      (P := fun t frames => ∀ g ∈ frames, g.locked → s.childrenLock = some t) h
      (fun g hg hl => by rw [hframes g hg] at hl; cases hl)
  cases hs
  case startMove | startCopy | startRelease => exact h
  case startDrop => exact hstart (by split <;> simp [Frame.locked])
  case startGet | startValue | startCollect | startClear | startReleaseLast =>
    exact hstart (by simp [Frame.locked])
  case getLock t k rest top free | gcLock t rest top free | clearLock t rest top free =>
    -- the lock was free, so nobody else was inside
    refine forall_update (P := fun t' frames =>
      ∀ g ∈ frames, g.locked → some t = some t') ?_ (fun _ _ _ => rfl)
    intro t' g hg hl
    cases free.symm.trans (h t' g hg hl)
  case getUnlock t o rest top | gcUnlock t n rest top | clearUnlock t rest top =>
    -- nobody but `t` was inside, and `t` was nowhere else inside
    intro t' g hg hl
    by_cases ht : t' = t
    · subst ht
      have hbelow := (hshape.of_top top).locked_below rfl
      have hlower : g ∉ rest := fun hgrest => by cases (hbelow g hgrest).symm.trans hl
      simp only [State.goto_stack, Function.update_self] at hg
      first
      | exact absurd hg hlower
      | rcases List.mem_cons.mp hg with rfl | hgrest
        · cases hl
        · exact absurd hgrest hlower
    · simp only [State.goto_stack, Function.update_of_ne ht] at hg
      exact absurd (h.unique hshape (by rw [top]; exact .head _) rfl hg hl).1 ht
  case dropRef top _ => exact owned_update h top (by split <;> simp +contextual [Frame.locked])
  case getCreate t k o rest top =>
    have hlock := h t _ (by rw [top]; exact List.mem_cons_self) rfl
    refine forall_update
      (P := fun t frames => ∀ g ∈ frames, g.locked → s.childrenLock = some t) ?_
      (fun _ _ _ => hlock)
    simp only [State.createFuture]
    split
    · exact hstart (by simp [Frame.locked])
    · exact h
  all_goals
    have top := ‹s.stack _ = _›
    exact owned_update h top (by simp +contextual [Frame.locked])

/-- Every pointer in use is below the allocation bound. -/
structure Allocated (s : State K) : Prop where
  frames : ∀ t, ∀ f ∈ s.stack t, ∀ o ∈ f.pointers, o < s.bound
  refs : ∀ r ∈ s.refs, r.2 < s.bound
  disposed : ∀ o ∈ s.disposed, o < s.bound
  children : ∀ k o, s.children.lookup k = some o → o < s.bound
  fresh : ∀ o, s.bound ≤ o →
    (s.singletons o).pins = 0 ∧ (s.singletons o).deleted = false

/-- Objects are numbered on. -/
theorem Step.bound_le (hs : Step p s l s') : s.bound ≤ s'.bound := by
  cases hs <;> first | exact le_rfl | exact Nat.le_succ _

/-- The value type of an object never changes. -/
theorem Step.key_eq (hs : Step p s l s') {o : Ptr} (ho : o < s.bound) :
    (s'.singletons o).key = (s.singletons o).key := by
  cases hs.object o with
  | same eq => rw [eq]
  | alters eq step =>
      rw [eq]
      cases step <;> rfl
  | new _ _ fresh _ _ => exact absurd fresh ho.ne

/-- What is detached stays so. -/
theorem Step.detached_kept (hs : Step p s l s') {o : Ptr} (ho : o < s.bound)
    (h : (s.singletons o).storage = false) : (s'.singletons o).storage = false := by
  cases hs.object o with
  | same eq => rw [eq, h]
  | alters eq step =>
      rw [eq]
      cases step <;> first | exact h | rfl
  | new _ _ fresh _ _ => exact absurd fresh ho.ne

/-- `createFuture` is not called less often. -/
theorem Step.createCalls_le (hs : Step p s l s') {o : Ptr} (ho : o < s.bound) :
    (s.singletons o).createCalls ≤ (s'.singletons o).createCalls := by
  cases hs.object o with
  | same eq => rw [eq]
  | alters eq step =>
      rw [eq]
      cases step <;> first | exact le_rfl | exact Nat.le_succ _
  | new _ _ fresh _ _ => exact absurd fresh ho.ne

/-- The pointers a step puts into frames were in use before it. -/
theorem Step.allocated_frames (hs : Step p s l s') (h : Allocated s) :
    ∀ t, ∀ f ∈ s'.stack t, ∀ o ∈ f.pointers, o < s'.bound := by
  intro t f hf o ho
  have htop : ∀ {t f rest}, s.stack t = f :: rest → ∀ o ∈ f.pointers, o < s'.bound :=
    fun top o ho => (h.frames _ _ (by rw [top]; exact .head _) o ho).trans_le hs.bound_le
  rcases hs.enters hf with hold | ⟨-, henters⟩ | hlaunches
  · exact (h.frames t f hold o ho).trans_le hs.bound_le
  · cases henters with
    | getRecycle _ entry | gcJoin _ _ entry _ =>
        obtain rfl := List.mem_singleton.mp ho
        exact (h.children _ _ entry).trans_le hs.bound_le
    | getCreate _ bound =>
        obtain rfl := List.mem_singleton.mp ho
        exact bound
    | startDrop _ live _ | dropRef _ _ live _ | startValue _ live | createValue _ _ live =>
        obtain rfl := List.mem_singleton.mp ho
        exact (h.refs _ live).trans_le hs.bound_le
    | releaseLast _ last _ =>
        obtain rfl := List.mem_singleton.mp ho
        refine lt_of_lt_of_le ?_ hs.bound_le
        by_contra hle
        simp [h.fresh o (not_lt.mp hle)] at last
    | clearCollected _ _ =>
        obtain ⟨e, he, rfl⟩ := List.mem_map.mp ho
        exact (h.children e.1 e.2 (AList.mem_lookup_iff.mpr he)).trans_le hs.bound_le
    | clearDetach top => exact htop top o (List.mem_of_mem_erase ho)
    | getInsert top | recycled _ top _ | inserted top _ | getRef top | unrefLocked top
    | unrefUnlock top | unrefDelete top _ | unrefJoin _ top | joinLast top _
    | waitDeferred top _ => exact htop top o ho
    | _ => cases ho
  · cases hlaunches with
    | creating _ top _ => exact htop top o ho

/-- **Allocation.**  Every step keeps the pointers below the bound. -/
theorem Step.allocated (hs : Step p s l s') (h : Allocated s) : Allocated s' where
  frames := hs.allocated_frames h
  refs := by
    cases hs
    case startCopy r idle live => exact List.forall_mem_cons.mpr ⟨h.refs r live, h.refs⟩
    case getRef t o rest top =>
      have ho := h.frames t _ (by rw [top]; exact List.mem_cons_self) o (by simp [Frame.pointers])
      exact List.forall_mem_cons.mpr ⟨ho, h.refs⟩
    case startDrop | dropRef => exact fun r hr => h.refs r (List.mem_of_mem_erase hr)
    case getMissing => exact fun r hr => Nat.lt_succ_of_lt (h.refs r hr)
    all_goals exact h.refs
  disposed := by
    intro o ho
    refine lt_of_lt_of_le ?_ hs.bound_le
    cases hs.disposedChange with
    | same eq => exact h.disposed o (eq ▸ ho)
    | dispose _ top _ eq =>
        rcases Finset.mem_insert.mp (eq ▸ ho) with rfl | hold
        · exact h.frames _ _ (by rw [top]; exact .head _) o (by simp [Frame.pointers])
        · exact h.disposed o hold
    | recycle _ _ eq => exact h.disposed o (Finset.mem_of_mem_erase (eq ▸ ho))
    | collect eq => simp [eq] at ho
  children := by
    cases hs
    case getInsert t k o rest top =>
      have ho := h.frames t _ (by rw [top]; exact List.mem_cons_self) o (by simp [Frame.pointers])
      intro k' o' hk'
      by_cases hk : k' = k
      · subst hk
        simp only [AList.lookup_insert, Option.some.injEq] at hk'
        exact hk' ▸ ho
      · exact h.children k' o' (by rwa [AList.lookup_insert_ne hk] at hk')
    case gcErase t k keys n caller rest top =>
      intro k' o' hk'
      by_cases hk : k' = k
      · subst hk; simp at hk'
      · exact h.children k' o' (by rwa [AList.lookup_erase_ne hk] at hk')
    case clearChildren => simp
    case getMissing => exact fun k o hk => Nat.lt_succ_of_lt (h.children k o hk)
    all_goals exact h.children
  fresh := by
    intro o ho
    have hold := hs.bound_le.trans ho
    have hfresh := h.fresh o hold
    have hunused : ∀ {t f rest}, s.stack t = f :: rest → o ∉ f.pointers := by
      intro t f rest top hmem
      exact absurd (h.frames t f (by simp [top]) o hmem) (not_lt.mpr hold)
    cases hs.object o with
    | same eq => rwa [eq]
    | new _ _ fresh bound _ =>
        rw [bound] at ho
        exact absurd ho (Nat.not_succ_le_self _)
    | alters eq step =>
        rw [eq]
        cases step with
        | release _ pinned => exact absurd hfresh.1 pinned
        | releaseLast _ last => simp [hfresh.1] at last
        | unrefDelete _ top => exact absurd (by simp [Frame.pointers]) (hunused top)
        | gcDelete _ top entry mem => exact absurd (h.children _ o entry) (not_lt.mpr hold)
        | waitReady top => exact absurd (by simp [Frame.pointers]) (hunused top)
        | _ => exact hfresh

/-- **Counting.**  Every step keeps `m_refCount` the number of live `Ref`s. -/
theorem Step.counted (hs : Step p s l s') (ha : Allocated s) (h : Counted s) : Counted s' := by
  intro o
  have ho := h o
  cases hs
  case startCopy r idle live =>
    by_cases heq : o = r.2
    · simp [heq, h r.2]
    · simp [heq, ho, Ne.symm heq]
  case getRef t o' rest top =>
    by_cases heq : o = o'
    · simp [heq, h o']
    · simp [heq, ho, Ne.symm heq]
  case startDrop n o' idle live =>
    by_cases heq : o = o'
    · subst heq; simp [List.countP_erase, live, h o]
    · simp [List.countP_erase, live, heq, ho, Ne.symm heq]
  case dropRef t v o' rest top mem =>
    by_cases heq : o = o'
    · subst heq; simp [List.countP_erase, mem, h o]
    · simp [List.countP_erase, mem, heq, ho, Ne.symm heq]
  case getMissing t k rest top entry =>
    by_cases heq : o = s.bound
    · subst heq
      have hnone : s.refs.countP (·.2 = s.bound) = 0 :=
        List.countP_eq_zero.mpr fun r hr => by simpa using (ha.refs r hr).ne
      simp [hnone]
    · simp [heq, ho]
  all_goals first
    | exact ho
    | simp only [State.goto_singletons, State.modify_singletons, State.goto_refs,
        State.modify_refs, State.delete, State.destroyValue, State.createFuture,
        Function.update_apply]
      split
      · next heq => subst heq; exact ho
      · exact ho

/-- An `unref` that deletes has found its object detached. -/
theorem Step.detachedUnref (hs : Step p s l s') (ha : Allocated s) (h : DetachedUnref s) :
    DetachedUnref s' := by
  intro t o hmem
  have hkept : ∀ {f}, f ∈ s.stack t → o ∈ f.pointers → (s.singletons o).storage = false →
      (s'.singletons o).storage = false := by
    intro f hf ho hdetached
    exact hs.detached_kept (ha.frames t f hf o ho) hdetached
  rcases hs.enters hmem with hold | ⟨-, henters⟩ | hlaunches
  · exact hkept hold (by simp [Frame.pointers]) (h t o hold)
  · cases henters with
    | unrefDelete top detached =>
        exact hkept (by rw [top]; exact .head _) (by simp [Frame.pointers]) detached
  · cases hlaunches

/-- The task of an object starts with its creation. -/
theorem Step.tasksStarted (hs : Step p s l s') (ha : Allocated s) (h : TasksStarted s) :
    TasksStarted s' := by
  intro o hstack
  by_cases hold : s.stack (.task o) = []
  · obtain ⟨f, hf⟩ := List.exists_mem_of_ne_nil _ hstack
    rcases hs.enters hf with hmem | ⟨htid, henters⟩ | hlaunches
    · simp [hold] at hmem
    · cases henters
      case startGet label | startDrop label _ _ | releaseLast label _ _ | startCollect label
        | startClear label | startValue label _ =>
        rw [label] at htid
        cases htid
      all_goals
        have top := ‹s.stack _ = _›
        rw [hold] at top
        cases top
    · cases hlaunches with
      | creating _ top called =>
          have ho := ha.frames _ _ (by rw [top]; exact .head _) o (by simp [Frame.pointers])
          exact ⟨ho.trans_le hs.bound_le, called⟩
  · obtain ⟨ho, hcalled⟩ := h o hold
    exact ⟨ho.trans_le hs.bound_le, hcalled.trans_le (hs.createCalls_le ho)⟩

end SingletonStorage
