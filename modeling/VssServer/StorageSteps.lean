import VssServer.SingletonStorage

/-!
# What one step of the storage machine can do

`Step` lists the steps of the machine once, with their guards and their
resulting states; `step_cases` reads it off the executable `step`.

* `Step`: the steps of the machine.
* `step_cases`: they are those of the executable `step`.
-/

namespace SingletonStorage

variable {K : Type} [DecidableEq K]

/-- The steps of the machine.  `rest` are the frames below the one that moves. -/
inductive Step (p : Program K) (s : State K) : Label K → State K → Prop
  | startGet {n k} (idle : s.stack (.client n) = []) :
      Step p s (.start n (.get k)) (s.goto (.client n) [.getLock k])
  | startCopy {n r} (idle : s.stack (.client n) = []) (live : r ∈ s.refs) :
      Step p s (.start n (.copy r)) (s.ref .client r.2)
  | startMove {n o} (idle : s.stack (.client n) = []) (live : (.client, o) ∈ s.refs) :
      Step p s (.start n (.move o)) s
  | startDrop {n o} (idle : s.stack (.client n) = []) (live : (.client, o) ∈ s.refs) :
      Step p s (.start n (.drop o)) (s.unref (.client n) .client o [])
  | startValue {n o} (idle : s.stack (.client n) = []) (live : (.client, o) ∈ s.refs) :
      Step p s (.start n (.value o)) (s.goto (.client n) [.wait o true])
  | startRelease {n o} (idle : s.stack (.client n) = []) (pinned : (s.singletons o).pins ≠ 0)
      (more : ¬((s.singletons o).pins = 1 ∧ (s.singletons o).shared = false)) :
      Step p s (.start n (.release o)) (s.modify o fun x => { x with pins := x.pins - 1 })
  | startReleaseLast {n o} (idle : s.stack (.client n) = [])
      (last : (s.singletons o).pins = 1 ∧ (s.singletons o).shared = false) :
      Step p s (.start n (.release o))
        ((s.modify o fun x => { x with pins := x.pins - 1 }).destroyValue (.client n) o [])
  | startCollect {n} (idle : s.stack (.client n) = []) :
      Step p s (.start n .garbageCollect) (s.goto (.client n) [.gcLock])
  | startClear {n} (idle : s.stack (.client n) = []) :
      Step p s (.start n .clear) (s.goto (.client n) [.clearLock])
  | getLock {t k rest} (top : s.stack t = .getLock k :: rest) (free : s.childrenLock = none) :
      Step p s (.next t) { s.goto t (.getFind k :: rest) with childrenLock := some t }
  | getFound {t k o rest} (top : s.stack t = .getFind k :: rest)
      (entry : s.children.lookup k = some o) :
      Step p s (.next t) (s.goto t (.getRecycle k o :: rest))
  | getMissing {t k rest} (top : s.stack t = .getFind k :: rest)
      (entry : s.children.lookup k = none) :
      Step p s (.next t) ((s.allocate p k).goto t (.getCreate k s.bound :: rest))
  | getRecycle {t k o rest} (top : s.stack t = .getRecycle k o :: rest) :
      Step p s (.next t)
        { (s.recycle o).goto t (.getUnlock o :: rest) with log := s.log ++ [.got k o] }
  | getCreate {t k o rest} (top : s.stack t = .getCreate k o :: rest) :
      Step p s (.next t) ((s.createFuture p k o).goto t (.getInsert k o :: rest))
  | getInsert {t k o rest} (top : s.stack t = .getInsert k o :: rest) :
      Step p s (.next t)
        { s.goto t (.getUnlock o :: rest) with
          children := s.children.insert k o
          log := s.log ++ [.got k o] }
  | getUnlock {t o rest} (top : s.stack t = .getUnlock o :: rest) :
      Step p s (.next t)
        { s.goto t (.getRef o :: rest) with childrenLock := none }
  | getRef {t o rest} (top : s.stack t = .getRef o :: rest) :
      Step p s (.next t) ((s.ref (holderOf rest) o).goto t rest)
  | unrefLock {t o rest} (top : s.stack t = .unrefLock o :: rest)
      (free : (s.singletons o).spinlock = false) :
      Step p s (.next t)
        ((s.modify o fun x => { x with spinlock := true }).goto t (.unrefLocked o :: rest))
  | unrefDispose {t o rest} (top : s.stack t = .unrefLocked o :: rest)
      (attached : (s.singletons o).storage = true) :
      Step p s (.next t) ((s.dispose o).goto t (.unrefUnlock o :: rest))
  | unrefDetached {t o rest} (top : s.stack t = .unrefLocked o :: rest)
      (detached : (s.singletons o).storage = false) :
      Step p s (.next t)
        ((s.modify o fun x => { x with spinlock := false }).goto t (.unrefDelete o :: rest))
  | unrefUnlock {t o rest} (top : s.stack t = .unrefUnlock o :: rest) :
      Step p s (.next t) ((s.modify o fun x => { x with spinlock := false }).goto t rest)
  | unrefDelete {t o rest} (top : s.stack t = .unrefDelete o :: rest) :
      Step p s (.next t) (s.delete t o rest)
  | joinLast {t o rest} (top : s.stack t = .join o :: rest)
      (done : ¬(p.async (s.singletons o).key ∧ (s.singletons o).future = .running))
      (last : (s.singletons o).pins = 0) :
      Step p s (.next t)
        ((s.modify o fun x => { x with shared := false }).destroyValue t o rest)
  | joinPinned {t o rest} (top : s.stack t = .join o :: rest)
      (done : ¬(p.async (s.singletons o).key ∧ (s.singletons o).future = .running))
      (pinned : (s.singletons o).pins ≠ 0) :
      Step p s (.next t) ((s.modify o fun x => { x with shared := false }).goto t rest)
  | dropDone {t o rest} (top : s.stack t = .dropValue o :: rest)
      (none : ¬∃ r ∈ s.refs, r.1 = Holder.value o) :
      Step p s (.next t) (s.goto t rest)
  | gcLock {t rest} (top : s.stack t = .gcLock :: rest) (free : s.childrenLock = none) :
      Step p s (.next t)
        { s.goto t (.gcRound 0 .garbageCollect :: rest) with childrenLock := some t }
  | clearLock {t rest} (top : s.stack t = .clearLock :: rest) (free : s.childrenLock = none) :
      Step p s (.next t) { s.goto t (.gcRound 0 .clear :: rest) with childrenLock := some t }
  | gcEnd {t n rest} (top : s.stack t = .gcRound n .garbageCollect :: rest)
      (empty : s.disposedKeys = []) :
      Step p s (.next t) { s.goto t (.gcUnlock n :: rest) with disposed := ∅ }
  | clearCollected {t n rest} (top : s.stack t = .gcRound n .clear :: rest)
      (empty : s.disposedKeys = []) :
      Step p s (.next t)
        { s.goto t (.clearDetach (s.children.entries.map Sigma.snd) :: rest) with
          disposed := ∅ }
  | gcRound {t n caller rest} (top : s.stack t = .gcRound n caller :: rest)
      (nonempty : s.disposedKeys ≠ []) :
      Step p s (.next t)
        { s.goto t (.gcKeys none s.disposedKeys n caller :: rest) with disposed := ∅ }
  | gcErase {t k keys n caller rest} (top : s.stack t = .gcKeys (some k) keys n caller :: rest) :
      Step p s (.next t)
        { s.goto t (.gcKeys none keys n caller :: rest) with
          children := s.children.erase k
          log := s.log ++ [.removed k] }
  | gcKeysDone {t n caller rest} (top : s.stack t = .gcKeys none [] n caller :: rest) :
      Step p s (.next t) (s.goto t (.gcRound (n + 1) caller :: rest))
  | gcDelete {t k o keys n caller rest} (top : s.stack t = .gcKeys none keys n caller :: rest)
      (entry : s.children.lookup k = some o) (mem : k ∈ keys) :
      Step p s (.pickKey t k)
        (s.delete t o (.gcKeys (some k) (keys.erase k) n caller :: rest))
  | gcUnlock {t n rest} (top : s.stack t = .gcUnlock n :: rest) :
      Step p s (.next t) { s.goto t rest with childrenLock := none }
  | clearDetach {t o remaining rest} (top : s.stack t = .clearDetach remaining :: rest)
      (mem : o ∈ remaining) (free : (s.singletons o).spinlock = false) :
      Step p s (.pick t o)
        ((s.modify o fun x => { x with storage := false }).goto t
          (.clearDetach (remaining.erase o) :: rest))
  | clearChildren {t rest} (top : s.stack t = .clearDetach [] :: rest) :
      Step p s (.next t)
        { s.goto t (.clearUnlock :: rest) with children := ∅, log := s.log ++ [.cleared] }
  | clearUnlock {t rest} (top : s.stack t = .clearUnlock :: rest) :
      Step p s (.next t) { s.goto t rest with childrenLock := none }
  | createDone {t o rest} (top : s.stack t = .creating o :: rest)
      (done : (s.singletons o).body = []) :
      Step p s (.next t) ((s.modify o fun x => { x with future := .ready }).goto t rest)
  | createGet {t o k body rest} (top : s.stack t = .creating o :: rest)
      (call : (s.singletons o).body = .get k :: body) :
      Step p s (.next t)
        ((s.modify o fun x => { x with body := body }).goto t
          (.getLock k :: .creating o :: rest))
  | createValue {t v k o body rest} (top : s.stack t = .creating v :: rest)
      (call : (s.singletons v).body = .value k :: body) (mem : (.value v, o) ∈ s.refs)
      (key : (s.singletons o).key = k) :
      Step p s (.pick t o)
        ((s.modify v fun x => { x with body := body }).goto t
          (.wait o false :: .creating v :: rest))
  | waitReady {t o keep rest} (top : s.stack t = .wait o keep :: rest)
      (ready : (s.singletons o).future = .ready) :
      Step p s (.next t)
        ((s.modify o fun x => { x with pins := x.pins + if keep then 1 else 0 }).goto t rest)
  | waitDeferred {t o keep rest} (top : s.stack t = .wait o keep :: rest)
      (deferred : (s.singletons o).future = .deferred) :
      Step p s (.next t)
        ((s.modify o fun x => { x with future := .running }).goto t
          (.creating o :: .wait o keep :: rest))
  | dropRef {t v o rest} (top : s.stack t = .dropValue v :: rest)
      (mem : (.value v, o) ∈ s.refs) :
      Step p s (.pick t o) (s.unref t (.value v) o (.dropValue v :: rest))

variable {p : Program K} {s s' : State K}

private theorem start_cases {n : Nat} {op : Op K} (idle : s.stack (.client n) = [])
    (h : start s (.client n) op = some s') : Step p s (.start n op) s' := by
  cases op with
  | get k => cases h; exact .startGet idle
  | copy r =>
      obtain ⟨live, h⟩ := Option.ite_none_right_eq_some.mp h
      cases h
      exact .startCopy idle live
  | move o =>
      obtain ⟨live, h⟩ := Option.ite_none_right_eq_some.mp h
      cases h
      exact .startMove idle live
  | drop o =>
      obtain ⟨live, h⟩ := Option.ite_none_right_eq_some.mp h
      cases h
      exact .startDrop idle live
  | value o =>
      obtain ⟨live, h⟩ := Option.ite_none_right_eq_some.mp h
      cases h
      exact .startValue idle live
  | release o =>
      obtain ⟨pinned, h⟩ := Option.ite_none_left_eq_some.mp h
      split at h
      · cases h; exact .startReleaseLast idle ‹_›
      · cases h; exact .startRelease idle pinned ‹_›
  | garbageCollect => cases h; exact .startCollect idle
  | clear => cases h; exact .startClear idle

private theorem next_cases {t : Tid} (h : next p s t = some s') :
    Step p s (.next t) s' := by
  unfold next at h
  split at h
  case h_1 top =>
    obtain ⟨free, h⟩ := Option.ite_none_right_eq_some.mp h
    cases h
    exact .getLock top free
  case h_2 top =>
    split at h
    · cases h; exact .getFound top ‹_›
    · cases h; exact .getMissing top ‹_›
  case h_3 top => cases h; exact .getRecycle top
  case h_4 top => cases h; exact .getCreate top
  case h_5 top => cases h; exact .getInsert top
  case h_6 top => cases h; exact .getUnlock top
  case h_7 top => cases h; exact .getRef top
  case h_8 top =>
    obtain ⟨free, h⟩ := Option.ite_none_left_eq_some.mp h
    cases h
    exact .unrefLock top (by simpa using free)
  case h_9 top =>
    split at h
    · cases h; exact .unrefDispose top ‹_›
    · cases h; exact .unrefDetached top (Bool.eq_false_of_not_eq_true ‹_›)
  case h_10 top => cases h; exact .unrefUnlock top
  case h_11 top => cases h; exact .unrefDelete top
  case h_12 top =>
    obtain ⟨done, h⟩ := Option.ite_none_left_eq_some.mp h
    split at h
    · cases h; exact .joinLast top done ‹_›
    · cases h; exact .joinPinned top done ‹_›
  case h_13 top =>
    obtain ⟨none, h⟩ := Option.ite_none_left_eq_some.mp h
    cases h
    exact .dropDone top none
  case h_14 top =>
    obtain ⟨free, h⟩ := Option.ite_none_right_eq_some.mp h
    cases h
    exact .gcLock top free
  case h_15 top =>
    obtain ⟨free, h⟩ := Option.ite_none_right_eq_some.mp h
    cases h
    exact .clearLock top free
  case h_16 caller _ top =>
    split at h
    · cases caller <;> cases h
      · exact .gcEnd top ‹_›
      · exact .clearCollected top ‹_›
    · cases h; exact .gcRound top ‹_›
  case h_17 top => cases h; exact .gcErase top
  case h_18 top => cases h; exact .gcKeysDone top
  case h_19 top => cases h; exact .gcUnlock top
  case h_20 top => cases h; exact .clearChildren top
  case h_21 top => cases h; exact .clearUnlock top
  case h_22 top =>
    split at h
    · cases h; exact .createDone top ‹_›
    · cases h; exact .createGet top ‹_›
    · cases h
  case h_23 top =>
    split at h
    · cases h; exact .waitReady top ‹_›
    · cases h; exact .waitDeferred top ‹_›
    · cases h
  case h_24 => cases h

private theorem pick_cases {t : Tid} {o : Ptr} (h : pick s t o = some s') :
    Step p s (.pick t o) s' := by
  unfold pick at h
  split at h
  case h_1 top =>
    obtain ⟨mem, h⟩ := Option.ite_none_right_eq_some.mp h
    cases h
    exact .dropRef top mem
  case h_2 top =>
    obtain ⟨⟨mem, free⟩, h⟩ := Option.ite_none_right_eq_some.mp h
    cases h
    exact .clearDetach top mem free
  case h_3 top =>
    split at h
    · obtain ⟨⟨mem, key⟩, h⟩ := Option.ite_none_right_eq_some.mp h
      cases h
      exact .createValue top ‹_› mem key
    · cases h
  case h_4 => cases h

/-- Every enabled step is one of the listed ones. -/
theorem step_cases {l : Label K} (h : step p s l = some s') : Step p s l s' := by
  cases l with
  | start n op =>
      obtain ⟨idle, h⟩ := Option.ite_none_right_eq_some.mp h
      exact start_cases idle h
  | next t => exact next_cases h
  | pickKey t k =>
      simp only [step, pickKey] at h
      split at h
      · split at h
        · obtain ⟨mem, h⟩ := Option.ite_none_right_eq_some.mp h
          cases h
          exact .gcDelete ‹_› ‹_› mem
        · cases h
      · cases h
  | pick t o => exact pick_cases h

end SingletonStorage
