import VssServer.StorageSteps

/-!
# What one step does to one object and to one thread

`Alters` lists how a step can change an object that exists, `Enters` which frames
a thread can get, `Leaves` and `Pushes` what becomes of the top frame of the
thread that moves, each with what the step takes; `Moves` says that nothing else
happens to the stacks.  Invariants about objects, frames, `m_disposed` or the
lock are read off these lists, without a look at the rest of the machine.

* `Step.object`: what a step does to one object.
* `Step.enters`: which frames a thread gets.
* `Step.moves`: which thread moves, and how.
-/

namespace SingletonStorage

variable {K : Type} [DecidableEq K]

/-- How a step changes the object `o`. -/
inductive Alters (p : Program K) (s : State K) (l : Label K) (o : Ptr) : Singleton K → Prop
  | ref (known : (∃ r ∈ s.refs, r.2 = o) ∨ ∃ t rest, s.stack t = .getRef o :: rest) :
      Alters p s l o { s.singletons o with refCount := (s.singletons o).refCount + 1 }
  | unref (drops : (∃ n, l = .start n (.drop o)) ∨
        ∃ t v rest, l = .pick t o ∧ s.stack t = .dropValue v :: rest) :
      Alters p s l o { s.singletons o with refCount := (s.singletons o).refCount - 1 }
  | release {n} (label : l = .start n (.release o)) (pinned : (s.singletons o).pins ≠ 0) :
      Alters p s l o { s.singletons o with pins := (s.singletons o).pins - 1 }
  | releaseLast {n} (label : l = .start n (.release o))
      (last : (s.singletons o).pins = 1 ∧ (s.singletons o).shared = false) :
      Alters p s l o
        { s.singletons o with pins := (s.singletons o).pins - 1, valueGone := true }
  | lock {t rest} (top : s.stack t = .unrefLock o :: rest) :
      Alters p s l o { s.singletons o with spinlock := true }
  | unlock {t f rest} (top : s.stack t = f :: rest)
      (unrefs : f = .unrefLocked o ∨ f = .unrefUnlock o) :
      Alters p s l o { s.singletons o with spinlock := false }
  | unrefDelete {t rest} (label : l = .next t) (top : s.stack t = .unrefDelete o :: rest) :
      Alters p s l o { s.singletons o with deleted := true }
  | gcDelete {t k keys n caller rest} (label : l = .pickKey t k)
      (top : s.stack t = .gcKeys none keys n caller :: rest) (entry : s.children.lookup k = some o)
      (mem : k ∈ keys) : Alters p s l o { s.singletons o with deleted := true }
  | joinLast {t rest} (label : l = .next t) (top : s.stack t = .join o :: rest)
      (last : (s.singletons o).pins = 0) :
      Alters p s l o { s.singletons o with shared := false, valueGone := true }
  | joinPinned {t rest} (label : l = .next t) (top : s.stack t = .join o :: rest) :
      Alters p s l o { s.singletons o with shared := false }
  | createFuture {t k rest} (label : l = .next t) (top : s.stack t = .getCreate k o :: rest) :
      Alters p s l o
        { s.singletons o with
          createCalls := (s.singletons o).createCalls + 1
          future := if p.async k then .running else .deferred }
  | detach {t remaining rest} (label : l = .pick t o)
      (top : s.stack t = .clearDetach remaining :: rest) (mem : o ∈ remaining) :
      Alters p s l o { s.singletons o with storage := false }
  | createDone {t rest} (top : s.stack t = .creating o :: rest) :
      Alters p s l o { s.singletons o with future := .ready }
  | createCall {t call body rest} (top : s.stack t = .creating o :: rest)
      (calls : (s.singletons o).body = call :: body) :
      Alters p s l o { s.singletons o with body := body }
  | waitReady {t keep rest} (top : s.stack t = .wait o keep :: rest) :
      Alters p s l o
        { s.singletons o with pins := (s.singletons o).pins + if keep then 1 else 0 }
  | waitDeferred {t keep rest} (top : s.stack t = .wait o keep :: rest)
      (deferred : (s.singletons o).future = .deferred) :
      Alters p s l o { s.singletons o with future := .running }

/-- An object as a step leaves, alters or creates it. -/
inductive ObjectChange (p : Program K) (s : State K) (l : Label K) (s' : State K) (o : Ptr) : Prop
  | same (eq : s'.singletons o = s.singletons o)
  | alters {x'} (eq : s'.singletons o = x') (step : Alters p s l o x')
  | new {t k rest} (label : l = .next t) (top : s.stack t = .getFind k :: rest)
      (fresh : o = s.bound) (bound : s'.bound = o + 1)
      (eq : s'.singletons o = { key := k, body := p.create k })

/-- The frames that the thread which takes the step gets. -/
inductive Enters (s : State K) (l : Label K) (s' : State K) (t : Tid) : Frame K → Prop
  | startGet {n k} (label : l = .start n (.get k)) : Enters s l s' t (.getLock k)
  | createGet {o k body rest} (top : s.stack t = .creating o :: rest)
      (call : (s.singletons o).body = .get k :: body) : Enters s l s' t (.getLock k)
  | getFind {k rest} (top : s.stack t = .getLock k :: rest) (free : s.childrenLock = none) :
      Enters s l s' t (.getFind k)
  | getRecycle {k o rest} (top : s.stack t = .getFind k :: rest)
      (entry : s.children.lookup k = some o) : Enters s l s' t (.getRecycle k o)
  | getCreate {k rest} (top : s.stack t = .getFind k :: rest) (bound : s.bound < s'.bound) :
      Enters s l s' t (.getCreate k s.bound)
  | getInsert {k o rest} (top : s.stack t = .getCreate k o :: rest) :
      Enters s l s' t (.getInsert k o)
  | recycled {k o rest} (label : l = .next t) (top : s.stack t = .getRecycle k o :: rest)
      (logged : .got k o ∈ s'.log) : Enters s l s' t (.getUnlock o)
  | inserted {k o rest} (top : s.stack t = .getInsert k o :: rest) (logged : .got k o ∈ s'.log) :
      Enters s l s' t (.getUnlock o)
  | getRef {o rest} (top : s.stack t = .getUnlock o :: rest) : Enters s l s' t (.getRef o)
  | startDrop {n o} (label : l = .start n (.drop o)) (live : (.client, o) ∈ s.refs)
      (last : ¬1 < (s.singletons o).refCount) : Enters s l s' t (.unrefLock o)
  | dropRef {v o rest} (label : l = .pick t o) (top : s.stack t = .dropValue v :: rest)
      (live : (.value v, o) ∈ s.refs) (last : ¬1 < (s.singletons o).refCount) :
      Enters s l s' t (.unrefLock o)
  | unrefLocked {o rest} (top : s.stack t = .unrefLock o :: rest) : Enters s l s' t (.unrefLocked o)
  | unrefUnlock {o rest} (top : s.stack t = .unrefLocked o :: rest) :
      Enters s l s' t (.unrefUnlock o)
  | unrefDelete {o rest} (top : s.stack t = .unrefLocked o :: rest)
      (detached : (s.singletons o).storage = false) : Enters s l s' t (.unrefDelete o)
  | unrefJoin {o rest} (label : l = .next t) (top : s.stack t = .unrefDelete o :: rest) :
      Enters s l s' t (.join o)
  | gcJoin {k o keys n caller rest} (label : l = .pickKey t k)
      (top : s.stack t = .gcKeys none keys n caller :: rest) (entry : s.children.lookup k = some o)
      (mem : k ∈ keys) : Enters s l s' t (.join o)
  | releaseLast {n o} (label : l = .start n (.release o))
      (last : (s.singletons o).pins = 1 ∧ (s.singletons o).shared = false)
      (gone : (s'.singletons o).valueGone = true) : Enters s l s' t (.dropValue o)
  | joinLast {o rest} (top : s.stack t = .join o :: rest)
      (gone : (s'.singletons o).valueGone = true) : Enters s l s' t (.dropValue o)
  | startCollect {n} (label : l = .start n .garbageCollect) : Enters s l s' t .gcLock
  | startClear {n} (label : l = .start n .clear) : Enters s l s' t .clearLock
  | gcLock {rest} (top : s.stack t = .gcLock :: rest) (free : s.childrenLock = none) :
      Enters s l s' t (.gcRound 0 .garbageCollect)
  | clearLock {rest} (top : s.stack t = .clearLock :: rest) (free : s.childrenLock = none) :
      Enters s l s' t (.gcRound 0 .clear)
  | gcNext {n caller rest} (top : s.stack t = .gcKeys none [] n caller :: rest) :
      Enters s l s' t (.gcRound (n + 1) caller)
  | gcKeys {n caller rest} (top : s.stack t = .gcRound n caller :: rest)
      (collected : s'.disposed = ∅) : Enters s l s' t (.gcKeys none s.disposedKeys n caller)
  | gcErased {k keys n caller rest} (top : s.stack t = .gcKeys (some k) keys n caller :: rest) :
      Enters s l s' t (.gcKeys none keys n caller)
  | gcDeleting {k o keys n caller rest} (label : l = .pickKey t k)
      (top : s.stack t = .gcKeys none keys n caller :: rest) (entry : s.children.lookup k = some o)
      (mem : k ∈ keys) : Enters s l s' t (.gcKeys (some k) (keys.erase k) n caller)
  | gcUnlock {n rest} (top : s.stack t = .gcRound n .garbageCollect :: rest) :
      Enters s l s' t (.gcUnlock n)
  | clearCollected {n rest} (top : s.stack t = .gcRound n .clear :: rest)
      (collected : s'.disposed = ∅) :
      Enters s l s' t (.clearDetach (s.children.entries.map Sigma.snd))
  | clearDetach {o remaining rest} (top : s.stack t = .clearDetach remaining :: rest) :
      Enters s l s' t (.clearDetach (remaining.erase o))
  | clearUnlock {rest} (top : s.stack t = .clearDetach [] :: rest) : Enters s l s' t .clearUnlock
  | startValue {n o} (label : l = .start n (.value o)) (live : (.client, o) ∈ s.refs) :
      Enters s l s' t (.wait o true)
  | createValue {v o body rest} (top : s.stack t = .creating v :: rest)
      (call : (s.singletons v).body = .value (s.singletons o).key :: body)
      (live : (.value v, o) ∈ s.refs) : Enters s l s' t (.wait o false)
  | waitDeferred {o keep rest} (top : s.stack t = .wait o keep :: rest)
      (deferred : (s.singletons o).future = .deferred) : Enters s l s' t (.creating o)

/-- The frame of the task that `createFuture` starts. -/
inductive Launches (s : State K) (l : Label K) (s' : State K) : Tid → Frame K → Prop
  | creating {o t k rest} (label : l = .next t) (top : s.stack t = .getCreate k o :: rest)
      (called : 0 < (s'.singletons o).createCalls) : Launches s l s' (.task o) (.creating o)

/-- The frames that take the place of the top frame of a thread. -/
inductive Leaves (s s' : State K) : Frame K → List (Frame K) → Prop
  | getLock {k} : Leaves s s' (.getLock k) [.getFind k]
  | getFound {k o} (entry : s.children.lookup k = some o) :
      Leaves s s' (.getFind k) [.getRecycle k o]
  | getMissing {k} : Leaves s s' (.getFind k) [.getCreate k s.bound]
  | getRecycle {k o} : Leaves s s' (.getRecycle k o) [.getUnlock o]
  | getCreate {k o} : Leaves s s' (.getCreate k o) [.getInsert k o]
  | getInsert {k o} (entry : s'.children.lookup k = some o) :
      Leaves s s' (.getInsert k o) [.getUnlock o]
  | getUnlock {o} : Leaves s s' (.getUnlock o) [.getRef o]
  | getRef {o} (counted : 0 < (s'.singletons o).refCount) : Leaves s s' (.getRef o) []
  | unrefLock {o} : Leaves s s' (.unrefLock o) [.unrefLocked o]
  | unrefDispose {o} (disposed : o ∈ s'.disposed) : Leaves s s' (.unrefLocked o) [.unrefUnlock o]
  | unrefDetached {o} : Leaves s s' (.unrefLocked o) [.unrefDelete o]
  | unrefUnlock {o} : Leaves s s' (.unrefUnlock o) []
  | unrefDelete {o} (deleted : (s'.singletons o).deleted = true) :
      Leaves s s' (.unrefDelete o) [.join o]
  | joinLast {o} : Leaves s s' (.join o) [.dropValue o]
  | joinPinned {o} (pinned : (s.singletons o).pins ≠ 0) : Leaves s s' (.join o) []
  | dropDone {o} (none : ∀ r ∈ s'.refs, r.1 ≠ .value o) : Leaves s s' (.dropValue o) []
  | gcLock : Leaves s s' .gcLock [.gcRound 0 .garbageCollect]
  | clearLock : Leaves s s' .clearLock [.gcRound 0 .clear]
  | gcEnd {n} (emptied : s'.disposed = ∅) : Leaves s s' (.gcRound n .garbageCollect) [.gcUnlock n]
  | clearCollected {n remaining} : Leaves s s' (.gcRound n .clear) [.clearDetach remaining]
  | gcRound {n caller keys} : Leaves s s' (.gcRound n caller) [.gcKeys none keys n caller]
  | gcErase {k keys n caller} :
      Leaves s s' (.gcKeys (some k) keys n caller) [.gcKeys none keys n caller]
  | gcKeysDone {n caller} : Leaves s s' (.gcKeys none [] n caller) [.gcRound (n + 1) caller]
  | gcDelete {k o keys n caller} (entry : s.children.lookup k = some o)
      (deleted : (s'.singletons o).deleted = true) :
      Leaves s s' (.gcKeys none keys n caller)
        [.join o, .gcKeys (some k) (keys.erase k) n caller]
  | gcUnlock {n} : Leaves s s' (.gcUnlock n) []
  | clearDetach {o remaining} :
      Leaves s s' (.clearDetach remaining) [.clearDetach (remaining.erase o)]
  | clearChildren (empty : s'.children = ∅) : Leaves s s' (.clearDetach []) [.clearUnlock]
  | clearUnlock : Leaves s s' .clearUnlock []
  | createDone {o} : Leaves s s' (.creating o) []
  | waitReady {o keep} : Leaves s s' (.wait o keep) []

/-- The frames that a top frame gets above itself. -/
inductive Pushes : Frame K → List (Frame K) → Prop
  | createGet {o k} : Pushes (.creating o) [.getLock k]
  | createValue {v o} : Pushes (.creating v) [.wait o false]
  | waitDeferred {o keep} : Pushes (.wait o keep) [.creating o]
  | dropRef {v} : Pushes (.dropValue v) []
  | dropLast {v o} : Pushes (.dropValue v) [.unrefLock o]

/-- How a step changes the stacks. -/
inductive Moves (s : State K) (l : Label K) (s' : State K) : Prop
  | stays {n op} (label : l = .start n op) (idle : s.stack (.client n) = [])
      (eq : s'.stack = s.stack)
  | starts {n op f} (label : l = .start n op) (idle : s.stack (.client n) = [])
      (eq : s'.stack = Function.update s.stack (.client n) [f])
  | pushes {t f rest frames} (tid : t = l.tid) (top : s.stack t = f :: rest)
      (pushes : Pushes f frames) (eq : s'.stack = Function.update s.stack t (frames ++ f :: rest))
  | leaves {t f rest frames} (tid : t = l.tid) (top : s.stack t = f :: rest)
      (leaves : Leaves s s' f frames) (eq : s'.stack = Function.update s.stack t (frames ++ rest))
  | launches {t k o rest} (tid : t = l.tid) (top : s.stack t = .getCreate k o :: rest)
      (eq : s'.stack = Function.update (Function.update s.stack (.task o) [.creating o]) t
        (.getInsert k o :: rest))

/-- How a step changes `m_disposed`. -/
inductive DisposedChange (s : State K) (l : Label K) (s' : State K) : Prop
  | same (eq : s'.disposed = s.disposed)
  | dispose {t o rest} (label : l = .next t) (top : s.stack t = .unrefLocked o :: rest)
      (attached : (s.singletons o).storage = true) (eq : s'.disposed = insert o s.disposed)
  | recycle {t k o rest} (label : l = .next t) (top : s.stack t = .getRecycle k o :: rest)
      (eq : s'.disposed = s.disposed.erase o)
  | collect (eq : s'.disposed = ∅)

/-- How a step changes `m_childrenLock`. -/
inductive LockChange (s : State K) (l : Label K) (s' : State K) : Prop
  | same (eq : s'.childrenLock = s.childrenLock)
  | takes {f rest} (top : s.stack l.tid = f :: rest)
      (locks : (∃ k, f = .getLock k) ∨ f = .gcLock ∨ f = .clearLock)
      (eq : s'.childrenLock = some l.tid)
  | releases {f rest} (top : s.stack l.tid = f :: rest)
      (unlocks : (∃ o, f = .getUnlock o) ∨ (∃ n, f = .gcUnlock n) ∨ f = .clearUnlock)
      (eq : s'.childrenLock = none)

variable {p : Program K} {s s' : State K} {l : Label K}

/-- **One object.**  A step leaves an object as it is, alters it in one of the listed ways or
creates it. -/
theorem Step.object (hs : Step p s l s') (o : Ptr) : ObjectChange p s l s' o := by
  have hmodify : ∀ {o₀ x'}, s'.singletons = Function.update s.singletons o₀ x' →
      Alters p s l o₀ x' → ObjectChange p s l s' o := by
    intro o₀ x' hchange hx'
    by_cases ho : o = o₀
    · subst ho
      exact .alters (by rw [hchange, Function.update_self]) hx'
    · exact .same (by rw [hchange, Function.update_of_ne ho])
  cases hs
  case getMissing top _ =>
    by_cases ho : o = s.bound
    · subst ho
      exact .new rfl top rfl rfl (Function.update_self ..)
    · exact .same (Function.update_of_ne ho ..)
  case startCopy r idle live => exact hmodify rfl (.ref (.inl ⟨r, live, rfl⟩))
  case getRef top => exact hmodify rfl (.ref (.inr ⟨_, _, top⟩))
  case startDrop => exact hmodify rfl (.unref (.inl ⟨_, rfl⟩))
  case dropRef top _ => exact hmodify rfl (.unref (.inr ⟨_, _, _, rfl, top⟩))
  case startRelease pinned _ => exact hmodify rfl (.release rfl pinned)
  case startReleaseLast last =>
    refine hmodify (Function.update_idem _ _ _) ?_
    rw [State.modify_singletons, Function.update_self]
    exact .releaseLast rfl last
  case unrefLock top _ => exact hmodify rfl (.lock top)
  case unrefDetached top _ => exact hmodify rfl (.unlock top (.inl rfl))
  case unrefUnlock top => exact hmodify rfl (.unlock top (.inr rfl))
  case unrefDelete top => exact hmodify rfl (.unrefDelete rfl top)
  case gcDelete top entry mem => exact hmodify rfl (.gcDelete rfl top entry mem)
  case joinLast top _ last =>
    refine hmodify (Function.update_idem _ _ _) ?_
    rw [State.modify_singletons, Function.update_self]
    exact .joinLast rfl top last
  case joinPinned top _ _ => exact hmodify rfl (.joinPinned rfl top)
  case getCreate top => exact hmodify rfl (.createFuture rfl top)
  case clearDetach top mem _ => exact hmodify rfl (.detach rfl top mem)
  case createDone top _ => exact hmodify rfl (.createDone top)
  case createGet top call => exact hmodify rfl (.createCall top call)
  case createValue top call _ _ => exact hmodify rfl (.createCall top call)
  case waitReady top _ => exact hmodify rfl (.waitReady top)
  case waitDeferred top deferred => exact hmodify rfl (.waitDeferred top deferred)
  all_goals exact .same rfl

/-- **One thread.**  A frame was there before, the thread that takes the step has got it, or it
is the one of a task that the step starts. -/
theorem Step.enters (hs : Step p s l s') {t : Tid} {f : Frame K} (hf : f ∈ s'.stack t) :
    f ∈ s.stack t ∨ t = l.tid ∧ Enters s l s' t f ∨ Launches s l s' t f := by
  have hgoto : ∀ {t₀ frames}, s'.stack = Function.update s.stack t₀ frames → t₀ = l.tid →
      (∀ g ∈ frames, g ∈ s.stack t₀ ∨ Enters s l s' t₀ g) →
      f ∈ s.stack t ∨ t = l.tid ∧ Enters s l s' t f ∨ Launches s l s' t f := by
    intro t₀ frames hstack htid hframes
    by_cases ht : t = t₀
    · subst ht
      rw [hstack, Function.update_self] at hf
      exact (hframes f hf).imp_right fun henters => .inl ⟨htid, henters⟩
    · rw [hstack, Function.update_of_ne ht] at hf
      exact .inl hf
  have hstart : ∀ {t₀ g}, Enters s l s' t₀ g → ∀ h ∈ [g], h ∈ s.stack t₀ ∨ Enters s l s' t₀ h := by
    intro t₀ g hg h hh
    exact .inr (List.mem_singleton.mp hh ▸ hg)
  have hrest : ∀ {t₀ g rest}, s.stack t₀ = g :: rest →
      ∀ h ∈ rest, h ∈ s.stack t₀ ∨ Enters s l s' t₀ h := by
    intro t₀ g rest top h hh
    rw [top]
    exact .inl (.tail _ hh)
  have hstay : ∀ {t₀ g rest}, s.stack t₀ = g :: rest →
      ∀ h ∈ g :: rest, h ∈ s.stack t₀ ∨ Enters s l s' t₀ h := by
    intro t₀ g rest top h hh
    rw [top]
    exact .inl hh
  have hpush : ∀ {t₀ g frames}, Enters s l s' t₀ g →
      (∀ h ∈ frames, h ∈ s.stack t₀ ∨ Enters s l s' t₀ h) →
      ∀ h ∈ g :: frames, h ∈ s.stack t₀ ∨ Enters s l s' t₀ h := by
    intro t₀ g frames hg hframes
    exact List.forall_mem_cons.mpr ⟨.inr hg, hframes⟩
  cases hs
  case startMove | startCopy | startRelease => exact .inl hf
  case startGet => exact hgoto rfl rfl (hstart (.startGet rfl))
  case startValue live => exact hgoto rfl rfl (hstart (.startValue rfl live))
  case startReleaseLast last => exact hgoto rfl rfl (hstart (.releaseLast rfl last (by simp)))
  case startCollect => exact hgoto rfl rfl (hstart (.startCollect rfl))
  case startClear => exact hgoto rfl rfl (hstart (.startClear rfl))
  case startDrop live =>
    refine hgoto rfl rfl ?_
    split
    · exact nofun
    · exact hstart (.startDrop rfl live ‹_›)
  case dropRef top live =>
    refine hgoto rfl rfl ?_
    split
    · exact hstay top
    · exact hpush (.dropRef rfl top live ‹_›) (hstay top)
  case getCreate t₀ k o rest top =>
    by_cases ht : t = t₀
    · subst ht
      rw [State.goto_stack, Function.update_self] at hf
      exact (hpush (.getInsert top) (hrest top) f hf).imp_right fun henters => .inl ⟨rfl, henters⟩
    rw [State.goto_stack, Function.update_of_ne ht] at hf
    dsimp only [State.createFuture] at hf
    split at hf
    · by_cases htask : t = .task o
      · subst htask
        rw [Function.update_self] at hf
        rw [List.mem_singleton.mp hf]
        exact .inr (.inr (.creating rfl top (by simp)))
      · rw [Function.update_of_ne htask] at hf
        exact .inl hf
    · exact .inl hf
  case getLock top free => exact hgoto rfl rfl (hpush (.getFind top free) (hrest top))
  case getFound top entry => exact hgoto rfl rfl (hpush (.getRecycle top entry) (hrest top))
  case getMissing top _ =>
    exact hgoto rfl rfl (hpush (.getCreate top (Nat.lt_succ_self _)) (hrest top))
  case getRecycle top => exact hgoto rfl rfl (hpush (.recycled rfl top (by simp)) (hrest top))
  case getInsert top => exact hgoto rfl rfl (hpush (.inserted top (by simp)) (hrest top))
  case getUnlock top => exact hgoto rfl rfl (hpush (.getRef top) (hrest top))
  case unrefLock top _ => exact hgoto rfl rfl (hpush (.unrefLocked top) (hrest top))
  case unrefDispose top _ => exact hgoto rfl rfl (hpush (.unrefUnlock top) (hrest top))
  case unrefDetached top detached =>
    exact hgoto rfl rfl (hpush (.unrefDelete top detached) (hrest top))
  case unrefDelete top => exact hgoto rfl rfl (hpush (.unrefJoin rfl top) (hrest top))
  case joinLast top _ _ => exact hgoto rfl rfl (hpush (.joinLast top (by simp)) (hrest top))
  case gcLock top free => exact hgoto rfl rfl (hpush (.gcLock top free) (hrest top))
  case clearLock top free => exact hgoto rfl rfl (hpush (.clearLock top free) (hrest top))
  case gcEnd top _ => exact hgoto rfl rfl (hpush (.gcUnlock top) (hrest top))
  case clearCollected top _ => exact hgoto rfl rfl (hpush (.clearCollected top rfl) (hrest top))
  case gcRound top _ => exact hgoto rfl rfl (hpush (.gcKeys top rfl) (hrest top))
  case gcErase top => exact hgoto rfl rfl (hpush (.gcErased top) (hrest top))
  case gcKeysDone top => exact hgoto rfl rfl (hpush (.gcNext top) (hrest top))
  case gcDelete top entry mem =>
    exact hgoto rfl rfl (hpush (.gcJoin rfl top entry mem)
      (hpush (.gcDeleting rfl top entry mem) (hrest top)))
  case clearDetach top _ _ => exact hgoto rfl rfl (hpush (.clearDetach top) (hrest top))
  case clearChildren top => exact hgoto rfl rfl (hpush (.clearUnlock top) (hrest top))
  case createGet top call => exact hgoto rfl rfl (hpush (.createGet top call) (hstay top))
  case createValue top call live key =>
    exact hgoto rfl rfl (hpush (.createValue top (key ▸ call) live) (hstay top))
  case waitDeferred top deferred =>
    exact hgoto rfl rfl (hpush (.waitDeferred top deferred) (hstay top))
  all_goals exact hgoto rfl rfl (hrest ‹s.stack _ = _›)

/-- **All threads.**  A step moves one thread, and `createFuture` can start the one of a task. -/
theorem Step.moves (hs : Step p s l s') : Moves s l s' := by
  cases hs
  case startMove idle _ | startCopy idle _ | startRelease idle _ _ => exact .stays rfl idle rfl
  case startGet idle | startValue idle _ | startReleaseLast idle _ | startCollect idle
    | startClear idle => exact .starts rfl idle rfl
  case startDrop n o idle _ =>
    by_cases hmore : 1 < (s.singletons o).refCount
    · refine .stays rfl idle ?_
      simp only [State.unref, hmore, if_true]
      exact idle ▸ Function.update_eq_self ..
    · refine .starts rfl idle (f := .unrefLock o) ?_
      simp only [State.unref, hmore, if_false]
      rfl
  case getCreate t k o rest top =>
    by_cases hasync : p.async k
    · refine .launches rfl top ?_
      simp only [State.createFuture, hasync, if_true]
      rfl
    · refine .leaves rfl top .getCreate ?_
      simp only [State.createFuture, hasync]
      rfl
  case dropRef t v o rest top _ =>
    by_cases hmore : 1 < (s.singletons o).refCount
    · refine .pushes rfl top .dropRef ?_
      simp only [State.unref, hmore, if_true]
      rfl
    · refine .pushes rfl top (.dropLast (o := o)) ?_
      simp only [State.unref, hmore, if_false]
      rfl
  case createGet top _ => exact .pushes rfl top .createGet rfl
  case createValue top _ _ _ => exact .pushes rfl top .createValue rfl
  case waitDeferred top _ => exact .pushes rfl top .waitDeferred rfl
  case getLock top _ => exact .leaves rfl top .getLock rfl
  case getFound top entry => exact .leaves rfl top (.getFound entry) rfl
  case getMissing top _ => exact .leaves rfl top .getMissing rfl
  case getRecycle top => exact .leaves rfl top .getRecycle rfl
  case getInsert top => exact .leaves rfl top (.getInsert (AList.lookup_insert _)) rfl
  case getUnlock top => exact .leaves rfl top .getUnlock rfl
  case getRef top => exact .leaves rfl top (.getRef (by simp)) rfl
  case unrefLock top _ => exact .leaves rfl top .unrefLock rfl
  case unrefDispose top _ => exact .leaves rfl top (.unrefDispose (by simp)) rfl
  case unrefDetached top _ => exact .leaves rfl top .unrefDetached rfl
  case unrefUnlock top => exact .leaves rfl top .unrefUnlock rfl
  case unrefDelete top => exact .leaves rfl top (.unrefDelete (by simp)) rfl
  case joinLast top _ _ => exact .leaves rfl top .joinLast rfl
  case joinPinned top _ pinned => exact .leaves rfl top (.joinPinned pinned) rfl
  case dropDone top none =>
    exact .leaves rfl top (.dropDone fun r hr heq => none ⟨r, hr, heq⟩) rfl
  case gcLock top _ => exact .leaves rfl top .gcLock rfl
  case clearLock top _ => exact .leaves rfl top .clearLock rfl
  case gcEnd top _ => exact .leaves rfl top (.gcEnd rfl) rfl
  case clearCollected top _ => exact .leaves rfl top .clearCollected rfl
  case gcRound top _ => exact .leaves rfl top .gcRound rfl
  case gcErase top => exact .leaves rfl top .gcErase rfl
  case gcKeysDone top => exact .leaves rfl top .gcKeysDone rfl
  case gcDelete top entry _ => exact .leaves rfl top (.gcDelete entry (by simp)) rfl
  case gcUnlock top => exact .leaves rfl top .gcUnlock rfl
  case clearDetach top _ _ => exact .leaves rfl top .clearDetach rfl
  case clearChildren top => exact .leaves rfl top (.clearChildren rfl) rfl
  case clearUnlock top => exact .leaves rfl top .clearUnlock rfl
  case createDone top _ => exact .leaves rfl top .createDone rfl
  case waitReady top _ => exact .leaves rfl top .waitReady rfl

/-- The thread that takes a step leaves its top frame or calls from it. -/
theorem Step.top_moves (hs : Step p s l s') {f : Frame K} {rest : List (Frame K)}
    (top : s.stack l.tid = f :: rest) :
    (∃ frames, s'.stack l.tid = frames ++ rest ∧ Leaves s s' f frames) ∨
      ∃ frames, s'.stack l.tid = frames ++ f :: rest ∧ Pushes f frames := by
  cases hs.moves with
  | stays label idle _ | starts label idle _ =>
      subst label
      cases idle.symm.trans top
  | pushes tid top' hpushes eq =>
      subst tid
      cases top.symm.trans top'
      exact .inr ⟨_, by rw [eq, Function.update_self], hpushes⟩
  | leaves tid top' hleaves eq =>
      subst tid
      cases top.symm.trans top'
      exact .inl ⟨_, by rw [eq, Function.update_self], hleaves⟩
  | launches tid top' eq =>
      subst tid
      cases top.symm.trans top'
      exact .inl ⟨_, by rw [eq, Function.update_self]; rfl, .getCreate⟩

theorem Step.disposedChange (hs : Step p s l s') : DisposedChange s l s' := by
  cases hs
  case unrefDispose top attached => exact .dispose rfl top attached rfl
  case getRecycle top => exact .recycle rfl top rfl
  case gcEnd | clearCollected | gcRound => exact .collect rfl
  all_goals exact .same rfl

theorem Step.lockChange (hs : Step p s l s') : LockChange s l s' := by
  cases hs
  case getLock top _ => exact .takes top (.inl ⟨_, rfl⟩) rfl
  case gcLock top _ => exact .takes top (.inr (.inl rfl)) rfl
  case clearLock top _ => exact .takes top (.inr (.inr rfl)) rfl
  case getUnlock top => exact .releases top (.inl ⟨_, rfl⟩) rfl
  case gcUnlock top => exact .releases top (.inr (.inl ⟨_, rfl⟩)) rfl
  case clearUnlock top => exact .releases top (.inr (.inr rfl)) rfl
  all_goals exact .same rfl

end SingletonStorage
