import VssServer.StorageInvariants

/-!
# The storage refines a directory

`m_children` and the critical section of `m_childrenLock` form a directory:
`State.directory` forgets counters, `Ref`s, spinlocks, `m_disposed` and the
threads that are not inside the critical section, and `Step.directory` says
that every step of every thread is a directory step or changes nothing.  So
the directory invariant holds in every reachable state, whatever the schedule.

* `State.directory`: the directory of a storage.
* `Step.directory`: every step of every thread is a directory step.
* `Reach.sound`: the invariants of every run.
-/

namespace SingletonStorage

variable {K : Type}

/-- The phase of the directory that a frame of the critical section stands for. -/
def Frame.phase : Frame K → Option (Directory.Phase K Ptr)
  | .getFind k => some (.lookup k)
  | .getRecycle k o => some (.found k o)
  | .getCreate k o => some (.creating k o)
  | .getInsert k o => some (.created k o)
  | .gcRound _ _ => some (.retiring none)
  | .gcKeys current _ _ _ => some (.retiring current)
  | .clearDetach remaining => some (.detaching remaining)
  | .getUnlock _ | .gcUnlock _ | .clearUnlock => some .leaving
  | _ => none

/-- What the owner of `m_childrenLock` is doing. -/
def State.inside (s : State K) : Option (Directory.Phase K Ptr) :=
  s.childrenLock.bind fun t => (s.stack t).findSome? Frame.phase

/-- The locked frames are those of the critical section. -/
theorem Frame.phase_isSome (f : Frame K) : f.phase.isSome = f.locked := by
  cases f <;> rfl

/-- Inside the critical section the phase is the one of the top frame. -/
theorem State.inside_top {s : State K} (h : Owned s) {t : Tid} {f : Frame K}
    {rest : List (Frame K)} (top : s.stack t = f :: rest) (hf : f.locked) :
    s.childrenLock = some t ∧ s.inside = f.phase := by
  have hlock : s.childrenLock = some t := h t f (by simp [top]) hf
  obtain ⟨ph, hph⟩ := Option.isSome_iff_exists.mp (f.phase_isSome.trans hf)
  exact ⟨hlock, by simp [State.inside, hlock, top, hph]⟩

/-- The one frame of the critical section in a stack gives the phase. -/
theorem Shape.findSome_phase {f : Frame K} (hf : f.locked) {frames : List (Frame K)}
    (h : Shape frames) (hmem : f ∈ frames) : frames.findSome? Frame.phase = f.phase := by
  induction frames with
  | nil => cases hmem
  | cons g rest ih =>
      by_cases hg : g.locked
      · have heq : g = f := by
          rcases List.mem_cons.mp hmem with rfl | hrest
          · rfl
          · cases hf.symm.trans (h.locked_below hg f hrest)
        subst heq
        obtain ⟨ph, hph⟩ := Option.isSome_iff_exists.mp (g.phase_isSome.trans hf)
        simp [hph]
      · have hnone : g.phase = none := by
          simpa [← g.phase_isSome] using hg
        have hrest : f ∈ rest := (List.mem_cons.mp hmem).resolve_left fun heq => hg (heq ▸ hf)
        rw [List.findSome?_cons, hnone]
        exact ih h.tail hrest

/-- The phase of the directory is that of the locked frame. -/
theorem State.inside_of_mem {s : State K} (h : Owned s) (hshape : Shaped s) {t : Tid}
    {f : Frame K} (hmem : f ∈ s.stack t) (hf : f.locked) : s.inside = f.phase := by
  rw [State.inside, h t f hmem hf]
  exact (hshape t).findSome_phase hf hmem

/-- A thread that neither enters nor leaves the critical section. -/
theorem State.inside_eq {s s' : State K} {t : Tid} {frames : List (Frame K)}
    (hlock : s'.childrenLock = s.childrenLock)
    (hstack : s'.stack = Function.update s.stack t frames)
    (hphase : frames.findSome? Frame.phase = (s.stack t).findSome? Frame.phase) :
    s'.inside = s.inside := by
  unfold State.inside
  rw [hlock]
  congr 1
  funext t'
  by_cases ht : t' = t
  · subst ht; simp [hstack, hphase]
  · simp [hstack, ht]

/-- The owner of the lock has a frame that stands for its phase. -/
theorem State.frame_of_inside {s : State K} {ph : Directory.Phase K Ptr} (h : s.inside = some ph) :
    ∃ t, s.childrenLock = some t ∧ ∃ f ∈ s.stack t, f.phase = some ph := by
  obtain ⟨t, hlock, hphase⟩ := Option.bind_eq_some_iff.mp h
  exact ⟨t, hlock, List.exists_of_findSome?_eq_some hphase⟩

/-- A change of one object that the directory does not see. -/
theorem State.objects_eq {s s' : State K} {o : Ptr} {x : Singleton K}
    (hchange : s'.singletons = Function.update s.singletons o x)
    (hx : x.key = (s.singletons o).key ∧ x.storage = (s.singletons o).storage ∧
      x.deleted = (s.singletons o).deleted ∧ x.createCalls = (s.singletons o).createCalls)
    (o' : Ptr) : (s'.singletons o').key = (s.singletons o').key ∧
      (s'.singletons o').storage = (s.singletons o').storage ∧
      (s'.singletons o').deleted = (s.singletons o').deleted ∧
      (s'.singletons o').createCalls = (s.singletons o').createCalls := by
  rw [hchange]
  by_cases ho : o' = o
  · subst ho
    rwa [Function.update_self]
  · rw [Function.update_of_ne ho]
    exact ⟨rfl, rfl, rfl, rfl⟩

variable [DecidableEq K]

/-- The directory that the storage implements. -/
def State.directory (s : State K) : Directory.State K Ptr where
  entry k := s.children.lookup k
  known := {o | o < s.bound}
  key o := (s.singletons o).key
  attached o := (s.singletons o).storage = true
  deleted o := (s.singletons o).deleted = true
  created o := (s.singletons o).createCalls
  phase := s.inside
  log := s.log

variable {p : Program K} {s s' : State K} {l : Label K}

/-- What a step leaves alone when the directory does not see it. -/
theorem State.directory_eq (hchildren : s'.children = s.children) (hbound : s'.bound = s.bound)
    (hlog : s'.log = s.log) (hinside : s'.inside = s.inside)
    (hobjects : ∀ o, (s'.singletons o).key = (s.singletons o).key ∧
      (s'.singletons o).storage = (s.singletons o).storage ∧
      (s'.singletons o).deleted = (s.singletons o).deleted ∧
      (s'.singletons o).createCalls = (s.singletons o).createCalls) :
    s'.directory = s.directory := by
  simp only [State.directory, hchildren, hbound, hlog, hinside, hobjects]

/-- **Simulation.**  Every step of every thread is a directory step. -/
theorem Step.directory (hs : Step p s l s') (howned : Owned s) (hd : DetachedUnref s) :
    Directory.Step s.directory s'.directory := by
  have hstay : s'.directory = s.directory → Directory.Step s.directory s'.directory :=
    fun h => h ▸ .stay
  cases hs
  case startMove => exact .stay
  case startCopy | startRelease =>
    exact hstay (State.directory_eq rfl rfl rfl rfl (State.objects_eq rfl ⟨rfl, rfl, rfl, rfl⟩))
  case startDrop idle _ =>
    refine hstay (State.directory_eq rfl rfl rfl (State.inside_eq rfl rfl ?_)
      (State.objects_eq rfl ⟨rfl, rfl, rfl, rfl⟩))
    split <;> simp [idle, Frame.phase]
  case startGet idle | startCollect idle | startClear idle | startValue idle _ =>
    refine hstay (State.directory_eq rfl rfl rfl (State.inside_eq rfl rfl ?_) fun _ => by simp)
    simp [idle, Frame.phase]
  case startReleaseLast idle _ =>
    refine hstay (State.directory_eq rfl rfl rfl (State.inside_eq rfl rfl ?_)
      (State.objects_eq (Function.update_idem _ _ _) (by simp)))
    simp [idle, Frame.phase]
  case getLock t k rest top free =>
    have hin : s.inside = none := by simp [State.inside, free]
    convert Directory.Step.lock (d := s.directory) hin (.inl ⟨k, rfl⟩) using 1
    simp [State.directory, State.inside, List.findSome?_cons, Frame.phase]
  case gcLock t rest top free | clearLock t rest top free =>
    have hin : s.inside = none := by simp [State.inside, free]
    convert Directory.Step.lock (d := s.directory) hin (.inr rfl) using 1
    simp [State.directory, State.inside, List.findSome?_cons, Frame.phase]
  case getFound t k o rest top entry =>
    have hin := State.inside_top howned top rfl
    convert Directory.Step.find (d := s.directory) hin.2 entry using 1
    simp [State.directory, State.inside, hin.1, List.findSome?_cons, Frame.phase]
  case getMissing t k rest top entry =>
    have hin := State.inside_top howned top rfl
    convert Directory.Step.allocate (d := s.directory) (o := s.bound) hin.2 entry
      (lt_irrefl s.bound) using 1
    refine Directory.State.ext rfl ?known ?_ ?_ ?_ ?_ ?phase rfl
    case known =>
      ext o
      exact Nat.lt_succ_iff_lt_or_eq.trans or_comm
    case phase => simp [State.directory, State.inside, hin.1, List.findSome?_cons, Frame.phase]
    all_goals ext o; by_cases h : o = s.bound <;> simp [State.directory, h]
  case getRecycle t k o rest top =>
    have hin := State.inside_top howned top rfl
    convert Directory.Step.recycle (d := s.directory) hin.2 using 1
    simp [State.directory, State.inside, hin.1, List.findSome?_cons, Frame.phase]
  case getCreate t k o rest top =>
    have hin := State.inside_top howned top rfl
    convert Directory.Step.create (d := s.directory) hin.2 using 1
    refine Directory.State.ext rfl rfl ?_ ?_ ?_ ?_ ?phase rfl
    case phase => simp [State.directory, State.inside, hin.1, List.findSome?_cons, Frame.phase]
    all_goals ext o'; by_cases h : o' = o <;> simp [State.directory, h]
  case getInsert t k o rest top =>
    have hin := State.inside_top howned top rfl
    convert Directory.Step.enter (d := s.directory) hin.2 using 1
    refine Directory.State.ext ?_ rfl rfl rfl rfl rfl ?_ rfl
    · ext k'; by_cases h : k' = k <;> simp [State.directory, h]
    · simp [State.directory, State.inside, hin.1, List.findSome?_cons, Frame.phase]
  case getUnlock t o rest top | gcUnlock t n rest top | clearUnlock t rest top =>
    have hin := State.inside_top howned top rfl
    exact .unlock hin.2
  case gcEnd t n rest top empty =>
    have hin := State.inside_top howned top rfl
    convert Directory.Step.retired (d := s.directory) hin.2 using 1
    simp [State.directory, State.inside, hin.1, List.findSome?_cons, Frame.phase]
  case clearCollected t n rest top empty =>
    have hin := State.inside_top howned top rfl
    have hall : ∀ k o, s.directory.entry k = some o → o ∈ s.children.entries.map Sigma.snd :=
      fun k o hentry => List.mem_map.mpr ⟨⟨k, o⟩, AList.mem_lookup_iff.mp hentry, rfl⟩
    convert Directory.Step.detachAll hin.2 hall using 1
    simp [State.directory, State.inside, hin.1, List.findSome?_cons, Frame.phase]
  case gcRound t n caller rest top _ | gcKeysDone t n caller rest top =>
    have hin := State.inside_top howned top rfl
    refine hstay (State.directory_eq rfl rfl rfl ?_ fun _ => by simp)
    rw [hin.2]
    simp [State.inside, hin.1, List.findSome?_cons, Frame.phase]
  case gcErase t k keys n caller rest top =>
    have hin := State.inside_top howned top rfl
    convert Directory.Step.remove (d := s.directory) hin.2 using 1
    refine Directory.State.ext ?_ rfl rfl rfl rfl rfl ?_ rfl
    · ext k'; by_cases h : k' = k <;> simp [State.directory, h]
    · simp [State.directory, State.inside, hin.1, List.findSome?_cons, Frame.phase]
  case gcDelete t k o keys n caller rest top entry mem =>
    have hin := State.inside_top howned top rfl
    convert Directory.Step.retire (d := s.directory) hin.2 entry using 1
    refine Directory.State.ext rfl rfl ?_ ?_ ?_ ?_ ?phase rfl
    case phase => simp [State.directory, State.inside, hin.1, List.findSome?_cons, Frame.phase]
    all_goals ext o'; by_cases h : o' = o <;> simp [State.directory, h]
  case clearDetach t o remaining rest top mem free =>
    have hin := State.inside_top howned top rfl
    convert Directory.Step.detach (d := s.directory) (o := o) hin.2 using 1
    refine Directory.State.ext rfl rfl ?_ ?_ ?_ ?_ ?phase rfl
    case phase => simp [State.directory, State.inside, hin.1, List.findSome?_cons, Frame.phase]
    all_goals ext o'; by_cases h : o' = o <;> simp [State.directory, h]
  case clearChildren t rest top =>
    have hin := State.inside_top howned top rfl
    convert Directory.Step.empty (d := s.directory) hin.2 using 1
    refine Directory.State.ext rfl rfl rfl rfl rfl rfl ?_ rfl
    simp [State.directory, State.inside, hin.1, List.findSome?_cons, Frame.phase]
  case unrefDelete t o rest top =>
    have hdetached : ¬s.directory.attached o := by
      simp [State.directory, hd t o (by simp [top])]
    convert Directory.Step.deleteDetached hdetached using 1
    refine Directory.State.ext rfl rfl ?_ ?_ ?_ ?_ ?phase rfl
    case phase => exact State.inside_eq rfl rfl (by simp [top, List.findSome?_cons, Frame.phase])
    all_goals ext o'; by_cases h : o' = o <;> simp [State.directory, h]
  case dropRef t v o rest top mem =>
    refine hstay (State.directory_eq rfl rfl rfl (State.inside_eq rfl rfl ?_)
      (State.objects_eq rfl ⟨rfl, rfl, rfl, rfl⟩))
    split <;> simp [top, List.findSome?_cons, Frame.phase]
  case joinLast top _ _ =>
    refine hstay (State.directory_eq rfl rfl rfl (State.inside_eq rfl rfl ?_)
      (State.objects_eq (Function.update_idem _ _ _) (by simp)))
    simp [top, List.findSome?_cons, Frame.phase]
  case dropDone top _ | unrefDispose top _ =>
    refine hstay (State.directory_eq rfl rfl rfl (State.inside_eq rfl rfl ?_)
      fun _ => ⟨rfl, rfl, rfl, rfl⟩)
    simp [top, List.findSome?_cons, Frame.phase]
  all_goals
    have top := ‹s.stack _ = _›
    refine hstay (State.directory_eq rfl rfl rfl (State.inside_eq rfl rfl ?_)
      (State.objects_eq rfl ⟨rfl, rfl, rfl, rfl⟩))
    simp [top, List.findSome?_cons, Frame.phase]

/-- Everything that holds in every reachable state, whatever the schedule. -/
structure Sound (s : State K) : Prop where
  shaped : Shaped s
  owned : Owned s
  allocated : Allocated s
  counted : Counted s
  detached : DetachedUnref s
  tasks : TasksStarted s
  directory : Directory.Valid s.directory

/-- Every step keeps the storage sound. -/
theorem Step.sound (hs : Step p s l s') (h : Sound s) : Sound s' where
  shaped := hs.shaped h.shaped
  owned := hs.owned h.shaped h.owned
  allocated := hs.allocated h.allocated
  counted := hs.counted h.allocated h.counted
  detached := hs.detachedUnref h.allocated h.detached
  tasks := hs.tasksStarted h.allocated h.tasks
  directory := (hs.directory h.owned h.detached).valid h.directory

/-- Without threads, objects and entries there is nothing to violate. -/
theorem sound_initial [Inhabited K] : Sound (initial (K := K)) where
  shaped _ := trivial
  owned _ _ hf := by cases hf
  allocated := by constructor <;> simp [initial]
  counted _ := rfl
  detached _ _ ho := by cases ho
  tasks _ h := absurd rfl h
  directory := Directory.valid_empty (by simp [State.directory, initial])
    (by simp [State.directory, initial]) rfl rfl

/-- The object of a constructor that has not called `createFuture`. -/
theorem Sound.not_called (h : Sound s) {t : Tid} {k : K} {o : Ptr} {rest : List (Frame K)}
    (top : s.stack t = .getCreate k o :: rest) : (s.singletons o).createCalls = 0 := by
  have hin : s.inside = some (.creating k o) := (State.inside_top h.owned top rfl).2
  have hnew := h.directory.pending k o (.inl hin)
  have hphase : s.directory.phase = some (.creating (s.directory.key o) o) := hnew.1 ▸ hin
  exact ((h.directory.created o hnew.2.2.1).resolve_left fun hone => hone.2 hphase).1

/-- The task of a new object has not started. -/
theorem Sound.task_idle (h : Sound s) {t : Tid} {k : K} {o : Ptr} {rest : List (Frame K)}
    (top : s.stack t = .getCreate k o :: rest) : s.stack (.task o) = [] := by
  by_contra hstack
  exact absurd (h.not_called top) (h.tasks o hstack).2.ne'

/-- A step takes away no frame but the top one of its thread. -/
theorem Step.leaves (hs : Step p s l s') (hsound : Sound s) {t : Tid} {f : Frame K}
    (hf : f ∈ s.stack t) : f ∈ s'.stack t ∨ ∃ rest frames, s.stack t = f :: rest ∧ t = l.tid ∧
      s'.stack t = frames ++ rest ∧ Leaves s s' f frames := by
  have hother : ∀ {t₀ frames}, s'.stack = Function.update s.stack t₀ frames → t ≠ t₀ →
      f ∈ s'.stack t := by
    intro t₀ frames hstack ht
    rwa [hstack, Function.update_of_ne ht]
  cases hs.moves with
  | stays _ _ eq => exact .inl (eq ▸ hf)
  | starts _ idle eq =>
      refine .inl (hother eq ?_)
      rintro rfl
      simp [idle] at hf
  | @pushes t₀ g rest frames _ top _ eq =>
      left
      by_cases ht : t = t₀
      · subst ht
        rw [eq, Function.update_self, ← top]
        exact List.mem_append_right _ hf
      · exact hother eq ht
  | @leaves t₀ g rest frames htid top hleaves eq =>
      by_cases ht : t = t₀
      · subst ht
        rw [eq, Function.update_self]
        rcases List.mem_cons.mp (top ▸ hf) with rfl | hrest
        · exact .inr ⟨rest, frames, top, htid, rfl, hleaves⟩
        · exact .inl (List.mem_append_right _ hrest)
      · exact .inl (hother eq ht)
  | @launches t₀ k o rest htid top eq =>
      have ho : t ≠ .task o := by
        rintro rfl
        simp [hsound.task_idle top] at hf
      by_cases ht : t = t₀
      · subst ht
        rw [eq, Function.update_self]
        rcases List.mem_cons.mp (top ▸ hf) with rfl | hrest
        · exact .inr ⟨rest, [.getInsert k o], top, htid, rfl, .getCreate⟩
        · exact .inl (.tail _ hrest)
      · rw [eq, Function.update_of_ne ht, Function.update_of_ne ho]
        exact .inl hf

/-- The storage is sound in every history. -/
theorem Reach.sound [Inhabited K] {ok : State K → Label K → Prop}
    (h : Runs.Reach (step p) ok initial s) : Sound s :=
  h.invariant sound_initial fun _ _ _ hs _ hstep => (step_cases hstep).sound hs

end SingletonStorage
