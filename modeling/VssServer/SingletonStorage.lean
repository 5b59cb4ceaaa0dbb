import Mathlib.Data.List.AList
import Mathlib.Data.Finset.Basic
import Mathlib.Data.Finset.Card
import Mathlib.Tactic.Simps.Basic
import VssServer.Directory
import VssServer.Runs

/-!
# The singleton storage and the threads that use it

`SingletonStorage` keeps one reference-counted `Singleton` per value type.
This file is the machine of that component: its shared memory, what a thread
still has to do (a stack of `Frame`s, one frame for each function it is
inside), and `step`, which takes one atomic step of one thread.  The atomic
steps are the places where the source takes or releases a lock or touches an
atomic counter:

* `get` holds `m_childrenLock` from the lookup to the end of `recycle` or of
  the insertion, and constructs the `Ref` only after the unlock;
* `unref` decrements first and takes the object's spinlock only when the
  counter reached zero, to `dispose` the object or, once detached, to delete it;
* `garbageCollect` and `clear` hold `m_childrenLock` throughout, collect in
  rounds, and delete objects (which joins their creation task and destroys
  the `Ref`s of their value) while they hold it.

A critical section of `m_disposedLock` touches nothing but `m_disposed`, so
each one is a single step.  Assertions are not steps: a release build does not
have them, and whether they hold is what the theorems are about.  Memory of a
deleted object is never given to another one, so a `Ptr` names an instance.
-/

namespace SingletonStorage

/-- The address of a `BaseSingleton`. -/
abbrev Ptr := Nat

/-- Client threads, and the task that `std::async` starts to create the value
of one singleton. -/
inductive Tid
  | client (n : Nat)
  | task (o : Ptr)
  deriving DecidableEq

/-- The state of `m_future`: `createFuture` not called yet, a deferred
creation nobody has waited for, a creation under way, a value. -/
inductive Future
  | unset
  | deferred
  | running
  | ready
  deriving DecidableEq

/-- What the body of a `create(storage)` does with the storage: it gets a
dependency, or waits for the value of one it already got. -/
inductive Call (K : Type)
  | get (key : K)
  | value (key : K)
  deriving DecidableEq

/-- The value types: the calls of each type's `create`, and whether its
`createFuture` launches with `std::launch::async`. -/
structure Program (K : Type) where
  create : K → List (Call K)
  async : K → Bool

/-- One `Singleton`.  `storage` tells whether `m_storage` is non-null, `body`
is what the creation has still to do, `shared` whether `m_future` still shares
the value and `pins` how many other `shared_ptr`s to it exist; `valueGone` and
`deleted` record that the destructor of the value, or of the object, ran. -/
structure Singleton (K : Type) where
  key : K
  body : List (Call K)
  storage : Bool := true
  refCount : Nat := 0
  spinlock : Bool := false
  future : Future := .unset
  createCalls : Nat := 0
  shared : Bool := true
  pins : Nat := 0
  valueGone : Bool := false
  deleted : Bool := false

/-- Who owns a `Ref`: client code, or the value (finished or still being
created) of a singleton. -/
inductive Holder
  | client
  | value (o : Ptr)
  deriving DecidableEq

/-- The two callers of `garbageCollectUnlocked`. -/
inductive Caller
  | garbageCollect
  | clear
  deriving DecidableEq

/-- A function a thread is inside, at the point it has reached. -/
inductive Frame (K : Type)
  /-- `get`: about to lock `m_childrenLock`. -/
  | getLock (key : K)
  | getFind (key : K)
  /-- `get` found the entry and is about to `recycle` it. -/
  | getRecycle (key : K) (o : Ptr)
  /-- `get` is inside the constructor of a new `Singleton`. -/
  | getCreate (key : K) (o : Ptr)
  | getInsert (key : K) (o : Ptr)
  | getUnlock (o : Ptr)
  /-- `get` has released the lock and is about to construct the `Ref`. -/
  | getRef (o : Ptr)
  /-- `unref` brought the counter to zero; `m_spinlock` is next. -/
  | unrefLock (o : Ptr)
  | unrefLocked (o : Ptr)
  | unrefUnlock (o : Ptr)
  /-- `unref` found the object detached; `delete this` is next. -/
  | unrefDelete (o : Ptr)
  /-- `~Singleton`: `m_future` is being destroyed. -/
  | join (o : Ptr)
  /-- The destructor of a value drops its `Ref`s. -/
  | dropValue (o : Ptr)
  | gcLock
  | gcRound (count : Nat) (caller : Caller)
  /-- The loop over `deletedKeys`; `current` is the entry being deleted. -/
  | gcKeys (current : Option K) (keys : List K) (count : Nat) (caller : Caller)
  | gcUnlock (count : Nat)
  | clearLock
  | clearDetach (remaining : List Ptr)
  | clearUnlock
  /-- The creation of `o` runs in this thread. -/
  | creating (o : Ptr)
  /-- Waits for the value of `o`, to keep a `shared_ptr` to it if `keep`. -/
  | wait (o : Ptr) (keep : Bool)
  deriving DecidableEq

/-- Shared memory and threads.  `refs` are the live `Ref` objects; `log` is the
ghost history of the accesses to `m_children`. -/
structure State (K : Type) where
  singletons : Ptr → Singleton K
  bound : Ptr
  refs : List (Holder × Ptr)
  children : AList fun _ : K => Ptr
  childrenLock : Option Tid
  disposed : Finset Ptr
  stack : Tid → List (Frame K)
  log : List (Directory.Event K Ptr)

/-- What a client thread outside of any storage function may begin. -/
inductive Op (K : Type)
  | get (key : K)
  | copy (ref : Holder × Ptr)
  | move (o : Ptr)
  | drop (o : Ptr)
  | value (o : Ptr)
  | release (o : Ptr)
  | garbageCollect
  | clear
  deriving DecidableEq

/-- One step: a client begins an operation, or a thread goes on.  `pickKey`
and `pick` carry the choices the source leaves open, the iteration order of
`m_children` and the order in which a value's `Ref`s go. -/
inductive Label (K : Type)
  | start (n : Nat) (op : Op K)
  | next (t : Tid)
  | pickKey (t : Tid) (key : K)
  | pick (t : Tid) (o : Ptr)
  deriving DecidableEq

variable {K : Type}

/-- The thread that takes a step. -/
def Label.tid : Label K → Tid
  | .start n _ => .client n
  | .next t | .pickKey t _ | .pick t _ => t

/-- Replace the frames of thread `t`. -/
@[simps]
def State.goto (s : State K) (t : Tid) (frames : List (Frame K)) : State K :=
  { s with stack := Function.update s.stack t frames }

/-- Change the object at `o`. -/
@[simps]
def State.modify (s : State K) (o : Ptr) (f : Singleton K → Singleton K) : State K :=
  { s with singletons := Function.update s.singletons o (f (s.singletons o)) }

/-- `BaseSingleton::ref`, called by a constructor of a `Ref` for `holder`. -/
@[simp]
def State.ref (s : State K) (holder : Holder) (o : Ptr) : State K :=
  { s.modify o fun x => { x with refCount := x.refCount + 1 } with
    refs := (holder, o) :: s.refs }

/-- The start of `BaseSingleton::unref`, called by the destructor of the `Ref`
that `holder` owns: `m_refCount-- > 1` returns, otherwise the spinlock is next. -/
@[simp]
def State.unref (s : State K) (t : Tid) (holder : Holder) (o : Ptr)
    (rest : List (Frame K)) : State K :=
  { (s.modify o fun x => { x with refCount := x.refCount - 1 }).goto t
      (if (s.singletons o).refCount > 1 then rest else .unrefLock o :: rest) with
    refs := s.refs.erase (holder, o) }

/-- `SingletonStorage::dispose`. -/
@[simp]
def State.dispose (s : State K) (o : Ptr) : State K :=
  { s with disposed := insert o s.disposed }

/-- `SingletonStorage::recycle`. -/
@[simp]
def State.recycle (s : State K) (o : Ptr) : State K :=
  { s with disposed := s.disposed.erase o }

/-- `SingletonStorage::pendingGarbageCollect`. -/
def State.pendingGarbageCollect (s : State K) : Nat :=
  s.disposed.card

/-- The keys that `moveDisposedToDeleteKeysUnlocked` returns: those of the
disposed entries, until there are as many as disposed singletons. -/
def State.disposedKeys (s : State K) : List K :=
  ((s.children.entries.filter fun e => e.2 ∈ s.disposed).map Sigma.fst).take s.disposed.card

/-- The owner of the `Ref` that a `get` above `rest` constructs. -/
def holderOf : List (Frame K) → Holder
  | .creating o :: _ => .value o
  | _ => .client

/-- `delete o`: the lifetime of the object ends, then `m_future` goes. -/
@[simp]
def State.delete (s : State K) (t : Tid) (o : Ptr) (rest : List (Frame K)) : State K :=
  (s.modify o fun x => { x with deleted := true }).goto t (.join o :: rest)

/-- The last owner of a value of `o` lets it go. -/
@[simp]
def State.destroyValue (s : State K) (t : Tid) (o : Ptr) (rest : List (Frame K)) :
    State K :=
  (s.modify o fun x => { x with valueGone := true }).goto t (.dropValue o :: rest)

/-- A client thread outside of the storage begins an operation. -/
def start (s : State K) (t : Tid) : Op K → Option (State K)
  | .get k => some (s.goto t [.getLock k])
  | .copy r => if r ∈ s.refs then some (s.ref .client r.2) else none
  -- the moved-from `Ref` holds no pointer any more, the new one holds it
  | .move o => if (.client, o) ∈ s.refs then some s else none
  | .drop o => if (.client, o) ∈ s.refs then some (s.unref t .client o []) else none
  | .value o => if (.client, o) ∈ s.refs then some (s.goto t [.wait o true]) else none
  | .release o =>
      if (s.singletons o).pins = 0 then none
      else
        let s' := s.modify o fun x => { x with pins := x.pins - 1 }
        if (s.singletons o).pins = 1 ∧ (s.singletons o).shared = false then
          some (s'.destroyValue t o [])
        else some s'
  | .garbageCollect => some (s.goto t [.gcLock])
  | .clear => some (s.goto t [.clearLock])

variable [DecidableEq K]

/-- The constructor of the new `Singleton` has run up to `m_future`. -/
@[simp]
def State.allocate (s : State K) (p : Program K) (k : K) : State K :=
  { s with
    singletons := Function.update s.singletons s.bound { key := k, body := p.create k }
    bound := s.bound + 1 }

/-- `ResultValue::createFuture`: an asynchronous creation starts its task. -/
@[simp]
def State.createFuture (s : State K) (p : Program K) (k : K) (o : Ptr) : State K :=
  { s.modify o fun x =>
      { x with
        createCalls := x.createCalls + 1
        future := if p.async k then .running else .deferred } with
    stack :=
      if p.async k then Function.update s.stack (.task o) [.creating o] else s.stack }

/-- The next step of thread `t` where it has no choice. -/
def next (p : Program K) (s : State K) (t : Tid) : Option (State K) :=
  match s.stack t with
  | .getLock k :: rest =>
      if s.childrenLock = none then
        some { s.goto t (.getFind k :: rest) with childrenLock := some t }
      else none
  | .getFind k :: rest =>
      match s.children.lookup k with
      | some o => some (s.goto t (.getRecycle k o :: rest))
      | none => some ((s.allocate p k).goto t (.getCreate k s.bound :: rest))
  | .getRecycle k o :: rest =>
      some { (s.recycle o).goto t (.getUnlock o :: rest) with log := s.log ++ [.got k o] }
  | .getCreate k o :: rest => some ((s.createFuture p k o).goto t (.getInsert k o :: rest))
  | .getInsert k o :: rest =>
      some { s.goto t (.getUnlock o :: rest) with
        children := s.children.insert k o
        log := s.log ++ [.got k o] }
  | .getUnlock o :: rest =>
      some { s.goto t (.getRef o :: rest) with childrenLock := none }
  | .getRef o :: rest => some ((s.ref (holderOf rest) o).goto t rest)
  | .unrefLock o :: rest =>
      if (s.singletons o).spinlock then none
      else some ((s.modify o fun x => { x with spinlock := true }).goto t (.unrefLocked o :: rest))
  | .unrefLocked o :: rest =>
      if (s.singletons o).storage then some ((s.dispose o).goto t (.unrefUnlock o :: rest))
      else some ((s.modify o fun x => { x with spinlock := false }).goto t (.unrefDelete o :: rest))
  | .unrefUnlock o :: rest =>
      some ((s.modify o fun x => { x with spinlock := false }).goto t rest)
  | .unrefDelete o :: rest => some (s.delete t o rest)
  | .join o :: rest =>
      -- the last future of a `std::async` task blocks until the task is done
      if p.async (s.singletons o).key ∧ (s.singletons o).future = .running then none
      else
        let s' := s.modify o fun x => { x with shared := false }
        if (s.singletons o).pins = 0 then some (s'.destroyValue t o rest)
        else some (s'.goto t rest)
  | .dropValue o :: rest =>
      if ∃ r ∈ s.refs, r.1 = .value o then none else some (s.goto t rest)
  | .gcLock :: rest =>
      if s.childrenLock = none then
        some { s.goto t (.gcRound 0 .garbageCollect :: rest) with childrenLock := some t }
      else none
  | .clearLock :: rest =>
      if s.childrenLock = none then
        some { s.goto t (.gcRound 0 .clear :: rest) with childrenLock := some t }
      else none
  | .gcRound n caller :: rest =>
      -- an empty round ends the loop of `garbageCollectUnlocked`
      if s.disposedKeys = [] then
        let after := match caller with
          | .garbageCollect => .gcUnlock n
          | .clear => .clearDetach (s.children.entries.map Sigma.snd)
        some { s.goto t (after :: rest) with disposed := ∅ }
      else some { s.goto t (.gcKeys none s.disposedKeys n caller :: rest) with disposed := ∅ }
  | .gcKeys (some k) keys n caller :: rest =>
      some { s.goto t (.gcKeys none keys n caller :: rest) with
        children := s.children.erase k
        log := s.log ++ [.removed k] }
  | .gcKeys none [] n caller :: rest => some (s.goto t (.gcRound (n + 1) caller :: rest))
  | .gcUnlock _ :: rest => some { s.goto t rest with childrenLock := none }
  | .clearDetach [] :: rest =>
      some { s.goto t (.clearUnlock :: rest) with
        children := ∅
        log := s.log ++ [.cleared] }
  | .clearUnlock :: rest => some { s.goto t rest with childrenLock := none }
  | .creating o :: rest =>
      match (s.singletons o).body with
      | [] => some ((s.modify o fun x => { x with future := .ready }).goto t rest)
      | .get k :: body =>
          some ((s.modify o fun x => { x with body := body }).goto t
            (.getLock k :: .creating o :: rest))
      | .value _ :: _ => none
  | .wait o keep :: rest =>
      match (s.singletons o).future with
      | .ready =>
          some ((s.modify o fun x => { x with pins := x.pins + if keep then 1 else 0 }).goto t rest)
      | .deferred =>
          some ((s.modify o fun x => { x with future := .running }).goto t
            (.creating o :: .wait o keep :: rest))
      | _ => none
  | _ => none

/-- A collection goes on with the entry of the disposed key `k`. -/
def pickKey (s : State K) (t : Tid) (k : K) : Option (State K) :=
  match s.stack t with
  | .gcKeys none keys n caller :: rest =>
      match s.children.lookup k with
      | some o =>
          if k ∈ keys then
            some (s.delete t o (.gcKeys (some k) (keys.erase k) n caller :: rest))
          else none
      | none => none
  | _ => none

/-- The object a destructor, a detaching `clear` or a creation goes on with. -/
def pick (s : State K) (t : Tid) (o : Ptr) : Option (State K) :=
  match s.stack t with
  | .dropValue v :: rest =>
      if (.value v, o) ∈ s.refs then some (s.unref t (.value v) o (.dropValue v :: rest))
      else none
  | .clearDetach remaining :: rest =>
      if o ∈ remaining ∧ (s.singletons o).spinlock = false then
        some ((s.modify o fun x => { x with storage := false }).goto t
          (.clearDetach (remaining.erase o) :: rest))
      else none
  | .creating v :: rest =>
      match (s.singletons v).body with
      | .value k :: body =>
          if (.value v, o) ∈ s.refs ∧ (s.singletons o).key = k then
            some ((s.modify v fun x => { x with body := body }).goto t
              (.wait o false :: .creating v :: rest))
          else none
      | _ => none
  | _ => none

/-- One atomic step of one thread. -/
def step (p : Program K) (s : State K) : Label K → Option (State K)
  | .start n op => if s.stack (.client n) = [] then start s (.client n) op else none
  | .next t => next p s t
  | .pickKey t k => pickKey s t k
  | .pick t o => pick s t o

/-- A storage nobody has used yet. -/
def initial [Inhabited K] : State K where
  singletons _ := { key := default, body := [] }
  bound := 0
  refs := []
  children := ∅
  childrenLock := none
  disposed := ∅
  stack _ := []
  log := []

end SingletonStorage
