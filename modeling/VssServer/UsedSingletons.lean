import Mathlib.Data.List.AList
import Mathlib.Data.Fintype.Basic
import Mathlib.Tactic.Simps.Basic
import VssServer.Runs
import VssServer.SingletonStorage

/-!
# The singletons that an operation uses

The resolvers of a subscription get their singletons through
`GraphQLRequestState::getSingleton`, which keeps one `Ref` for each type and connects the
signal of an instance to `notify` once.  The map is looked up and filled under a lock;
waiting for the value, and connecting its signal, come after the lock is released, and only
the call that has inserted the type connects.

Which instance the storage has for a type at what time is up to the other operations and to
the collections, so it is in the label; whether its creation throws is fixed with the
instance.

* `Mapped`: the map is what the calls go by.
* `Connected`: who is connected was inserted.
* `used_once`: all calls for a type return one instance, with one connection.
* `returns_unconnected`: without the condition a call may return before the connection is
  made.
-/

namespace UsedSingletons

open SingletonStorage (Ptr)

/-- The value types: which have a signal, and which instances have failed to be created. -/
structure Types (κ : Type*) where
  hasSignal : κ → Bool
  throws : Ptr → Bool

/-- Where a thread is in `getSingleton`; `inserted` tells whether this call has inserted
the type. -/
inductive Call (κ : Type*)
  | idle
  | locking (k : κ)
  | finding (k : κ)
  /-- The type is there: its `Ref` is copied, the lock goes next. -/
  | found (k : κ) (o : Ptr)
  /-- In `m_singletonStorage.get`. -/
  | getting (k : κ)
  | inserting (k : κ) (o : Ptr)
  | inserted (k : κ) (o : Ptr)
  /-- In `ref.value()`. -/
  | waiting (k : κ) (o : Ptr) (inserted : Bool)
  /-- In `observe`. -/
  | connecting (k : κ) (o : Ptr)
  deriving DecidableEq

/-- `m_usedSingletonsLock`, the calls of the threads, `m_usedSingletons`, the signals that
are connected to `notify`, what calls have returned and how often `notify` was called. -/
structure State (θ κ : Type*) where
  lock : Option θ
  calls : θ → Call κ
  used : AList fun _ : κ => Ptr
  connections : List (κ × Ptr)
  returned : List (κ × Ptr)
  notified : Nat

/-- One step: a call begins, a thread goes on, `m_singletonStorage.get` returns or throws, an
instance emits its signal. -/
inductive Label (θ κ : Type*)
  | getSingleton (t : θ) (k : κ)
  | next (t : θ)
  | get (t : θ) (result : Option Ptr)
  | emit (k : κ) (o : Ptr)

variable {θ κ : Type*} [DecidableEq θ] [DecidableEq κ]

/-- The call has the lock. -/
def Call.locks : Call κ → Bool
  | .finding _ | .found _ _ | .getting _ | .inserting _ _ | .inserted _ _ => true
  | _ => false

/-- The type that the call has inserted, until it has connected the signal. -/
def Call.connects : Call κ → Option κ
  | .inserted k _ | .waiting k _ true | .connecting k _ => some k
  | _ => none

/-- The type that the call has not found. -/
def Call.misses : Call κ → Option κ
  | .getting k | .inserting k _ => some k
  | _ => none

/-- The type that the call has found, with the instance that it waits for. -/
def Call.finds : Call κ → Option (κ × Ptr)
  | .waiting k o false => some (k, o)
  | _ => none

/-- The type and the instance of the `Ref` that the call goes on with. -/
def Call.holds : Call κ → Option (κ × Ptr)
  | .found k o | .inserted k o | .waiting k o _ | .connecting k o => some (k, o)
  | _ => none

namespace State

@[simps]
def goto (s : State θ κ) (t : θ) (c : Call κ) : State θ κ :=
  { s with calls := Function.update s.calls t c }

@[simps]
def setLock (s : State θ κ) (lock : Option θ) : State θ κ :=
  { s with lock := lock }

/-- `m_usedSingletons.insert`. -/
@[simps]
def insert (s : State θ κ) (k : κ) (o : Ptr) : State θ κ :=
  { s with used := if (s.used.lookup k).isSome then s.used else s.used.insert k o }

/-- `observe`: `notify` is connected to the signal. -/
@[simps]
def observe (s : State θ κ) (k : κ) (o : Ptr) : State θ κ :=
  { s with connections := (k, o) :: s.connections }

/-- The slots that are connected to the signal of an instance call `notify`. -/
@[simps]
def emit (s : State θ κ) (k : κ) (o : Ptr) : State θ κ :=
  { s with notified := s.notified + s.connections.count (k, o) }

/-- The call returns. -/
@[simps]
def finish (s : State θ κ) (t : θ) (k : κ) (o : Ptr) : State θ κ :=
  { s.goto t .idle with returned := (k, o) :: s.returned }

omit [DecidableEq κ] in
/-- Where the threads are after one of them has gone on. -/
@[grind =]
theorem goto_call (s : State θ κ) (t t' : θ) (c : Call κ) :
    (s.goto t c).calls t' = if t' = t then c else s.calls t' := by
  simp [Function.update_apply]

omit [DecidableEq κ] in
/-- A call that returns is over; the others go on. -/
@[grind =]
theorem finish_call (s : State θ κ) (t t' : θ) (k : κ) (o : Ptr) :
    (s.finish t k o).calls t' = if t' = t then .idle else s.calls t' := by
  simp [Function.update_apply]

omit [DecidableEq θ] in
/-- `insert` leaves what the map has. -/
@[grind =]
theorem insert_lookup (s : State θ κ) (k k' : κ) (o : Ptr) :
    (s.insert k o).used.lookup k' =
      if k' = k then some ((s.used.lookup k).getD o) else s.used.lookup k' := by
  rw [insert_used]
  by_cases hk : k' = k
  · subst hk
    cases hlookup : s.used.lookup k' with
    | none => simp
    | some o' => simp [hlookup]
  · split <;> simp [hk]

attribute [grind =] goto_lock goto_used goto_connections goto_returned setLock_lock setLock_calls
  setLock_used setLock_connections setLock_returned insert_lock insert_calls insert_connections
  insert_returned observe_lock observe_calls observe_used observe_connections
  observe_returned emit_lock emit_calls emit_used emit_connections emit_returned finish_lock
  finish_used finish_connections finish_returned

end State

/-- A thread goes on in `getSingleton`. -/
def next (types : Types κ) (s : State θ κ) (t : θ) : Option (State θ κ) :=
  match s.calls t with
  | .locking k =>
      if s.lock = none then some ((s.setLock (some t)).goto t (.finding k)) else none
  | .finding k =>
      match s.used.lookup k with
      | some o => some (s.goto t (.found k o))
      | none => some (s.goto t (.getting k))
  | .found k o => some ((s.setLock none).goto t (.waiting k o false))
  | .inserting k o => some ((s.insert k o).goto t (.inserted k o))
  | .inserted k o => some ((s.setLock none).goto t (.waiting k o true))
  | .waiting k o inserted =>
      if types.throws o then some (s.goto t .idle)
      else if inserted ∧ types.hasSignal k then some (s.goto t (.connecting k o))
      else some (s.finish t k o)
  | .connecting k o => some ((s.observe k o).finish t k o)
  | _ => none

/-- One atomic step. -/
def step (types : Types κ) (s : State θ κ) : Label θ κ → Option (State θ κ)
  | .getSingleton t k => if s.calls t = .idle then some (s.goto t (.locking k)) else none
  | .next t => next types s t
  | .get t result =>
      match s.calls t, result with
      | .getting k, some o => some (s.goto t (.inserting k o))
      | .getting _, none => some ((s.setLock none).goto t .idle)
      | _, _ => none
  | .emit k o => some (s.emit k o)

/-- No resolver has got anything yet. -/
def initial : State θ κ where
  lock := none
  calls _ := .idle
  used := ∅
  connections := []
  returned := []
  notified := 0

/-- The side condition on a step: a call that has found its type, which has a signal, does
not return while the call that has inserted the type has still to connect. -/
def ConnectsFirst (types : Types κ) (s : State θ κ) : Label θ κ → Prop
  | .next t =>
      ∀ e ∈ (s.calls t).finds, types.throws e.2 = false → types.hasSignal e.1 = true →
        ∀ t', (s.calls t').connects ≠ some e.1
  | _ => True

instance [Fintype θ] (types : Types κ) (s : State θ κ) :
    ∀ l, Decidable (ConnectsFirst types s l)
  | .next t => inferInstanceAs (Decidable (∀ e ∈ (s.calls t).finds, _))
  | .getSingleton _ _ | .get _ _ | .emit _ _ => isTrue trivial

/-- What one step does, by where its thread was. -/
inductive Step (types : Types κ) (s : State θ κ) : Label θ κ → State θ κ → Prop
  | begin {t k} (at_ : s.calls t = .idle) :
      Step types s (.getSingleton t k) (s.goto t (.locking k))
  | lock {t k} (at_ : s.calls t = .locking k) (free : s.lock = none) :
      Step types s (.next t) ((s.setLock (some t)).goto t (.finding k))
  | find {t k o} (at_ : s.calls t = .finding k) (entry : s.used.lookup k = some o) :
      Step types s (.next t) (s.goto t (.found k o))
  | miss {t k} (at_ : s.calls t = .finding k) (entry : s.used.lookup k = none) :
      Step types s (.next t) (s.goto t (.getting k))
  | unlockFound {t k o} (at_ : s.calls t = .found k o) :
      Step types s (.next t) ((s.setLock none).goto t (.waiting k o false))
  | get {t k o} (at_ : s.calls t = .getting k) :
      Step types s (.get t (some o)) (s.goto t (.inserting k o))
  | getThrows {t k} (at_ : s.calls t = .getting k) :
      Step types s (.get t none) ((s.setLock none).goto t .idle)
  | insert {t k o} (at_ : s.calls t = .inserting k o) :
      Step types s (.next t) ((s.insert k o).goto t (.inserted k o))
  | unlockInserted {t k o} (at_ : s.calls t = .inserted k o) :
      Step types s (.next t) ((s.setLock none).goto t (.waiting k o true))
  | throw {t k o inserted} (at_ : s.calls t = .waiting k o inserted)
      (throws : types.throws o = true) : Step types s (.next t) (s.goto t .idle)
  | connect {t k o} (at_ : s.calls t = .waiting k o true) (signal : types.hasSignal k = true) :
      Step types s (.next t) (s.goto t (.connecting k o))
  | finish {t k o inserted} (at_ : s.calls t = .waiting k o inserted)
      (value : types.throws o = false) (last : inserted = false ∨ types.hasSignal k = false) :
      Step types s (.next t) (s.finish t k o)
  | finishConnected {t k o} (at_ : s.calls t = .connecting k o) :
      Step types s (.next t) ((s.observe k o).finish t k o)
  | emit {k o} : Step types s (.emit k o) (s.emit k o)

variable {types : Types κ} {s s' : State θ κ} {l : Label θ κ}

/-- What a thread does next. -/
private theorem next_cases {t : θ} (h : next types s t = some s') :
    Step types s (.next t) s' := by
  unfold next at h
  split at h
  case h_1 k hat =>
    obtain ⟨hfree, heq⟩ := Option.ite_none_right_eq_some.mp h
    cases heq
    exact .lock hat hfree
  case h_2 k hat =>
    split at h
    case h_1 o hentry =>
      cases h
      exact .find hat hentry
    case h_2 hentry =>
      cases h
      exact .miss hat hentry
  case h_3 k o hat =>
    cases h
    exact .unlockFound hat
  case h_4 k o hat =>
    cases h
    exact .insert hat
  case h_5 k o hat =>
    cases h
    exact .unlockInserted hat
  case h_6 k o inserted hat =>
    split at h
    case isTrue hthrows =>
      cases h
      exact .throw hat hthrows
    case isFalse hvalue =>
      split at h
      case isTrue hconnects =>
        cases h
        obtain ⟨rfl, hsignal⟩ := hconnects
        exact .connect hat hsignal
      case isFalse hlast =>
        cases h
        refine .finish hat (by simpa using hvalue) ?_
        cases inserted with
        | false => exact .inl rfl
        | true => exact .inr (by simpa using hlast)
  case h_7 k o hat =>
    cases h
    exact .finishConnected hat
  case h_8 => cases h

/-- What the steps can be. -/
theorem step_cases (h : step types s l = some s') : Step types s l s' := by
  cases l with
  | getSingleton t k =>
      obtain ⟨hat, heq⟩ := Option.ite_none_right_eq_some.mp h
      cases heq
      exact .begin hat
  | next t => exact next_cases h
  | get t result =>
      simp only [step] at h
      split at h
      case h_1 k o hat =>
        cases h
        exact .get hat
      case h_2 k hat =>
        cases h
        exact .getThrows hat
      case h_3 => cases h
  | emit k o =>
      cases h
      exact .emit

/-- The lock is with the call that is between its `lock` and its `unlock`. -/
def Locked (s : State θ κ) : Prop :=
  ∀ t, (s.calls t).locks = true → s.lock = some t

/-- The map is what the calls go by: what they hold is in it, what they miss is not. -/
structure Mapped (s : State θ κ) : Prop where
  held : ∀ t k o, (s.calls t).holds = some (k, o) → s.used.lookup k = some o
  missed : ∀ t k, (s.calls t).misses = some k → s.used.lookup k = none
  returned : ∀ k o, (k, o) ∈ s.returned → s.used.lookup k = some o

/-- A type is connected once, by the call that has inserted it. -/
structure Connected (types : Types κ) (s : State θ κ) : Prop where
  entry : ∀ k o, (k, o) ∈ s.connections → s.used.lookup k = some o
  once : (s.connections.map Prod.fst).Nodup
  inserter : ∀ t t' k, (s.calls t).connects = some k → (s.calls t').connects = some k → t = t'
  fresh : ∀ t k, (s.calls t).connects = some k → k ∉ s.connections.map Prod.fst
  present : ∀ k o, s.used.lookup k = some o → types.hasSignal k = true →
    types.throws o = false → (k, o) ∈ s.connections ∨ ∃ t, (s.calls t).connects = some k

/-- What has been returned is connected. -/
def Observed (types : Types κ) (s : State θ κ) : Prop :=
  ∀ k o, (k, o) ∈ s.returned → types.hasSignal k = true → (k, o) ∈ s.connections

omit [DecidableEq κ] in
/-- A call misses its type only while it has the lock. -/
@[grind →]
theorem Call.locks_of_misses {c : Call κ} {k : κ} (h : c.misses = some k) : c.locks = true := by
  cases c <;> first | rfl | cases h

omit [DecidableEq κ] in
/-- The call that connects the type holds its `Ref`. -/
@[grind →]
theorem Call.holds_of_connects {c : Call κ} {k : κ} (h : c.connects = some k) :
    ∃ o, c.holds = some (k, o) := by
  cases c with
  | inserted k' o | connecting k' o =>
      cases h
      exact ⟨o, rfl⟩
  | waiting k' o inserted =>
      cases inserted with
      | true =>
          cases h
          exact ⟨o, rfl⟩
      | false => cases h
  | _ => cases h

/-- The lock stays with the call between its `lock` and its `unlock`. -/
theorem Step.locked (hs : Step types s l s') (h : Locked s) : Locked s' := by
  unfold Locked at *
  cases hs <;> grind -linarith -ring [Call.locks]

/-- Entries stay. -/
theorem Step.keeps_entry (hs : Step types s l s') {k : κ} {o : Ptr}
    (h : s.used.lookup k = some o) : s'.used.lookup k = some o := by
  cases hs
  case insert t k' o' hat =>
    rw [State.goto_used, State.insert_lookup]
    split
    case isTrue hk =>
      subst hk
      rw [h]
      rfl
    case isFalse => exact h
  all_goals exact h

/-- What a call holds it has held before, or it has just looked it up or inserted it. -/
theorem Step.holds (hs : Step types s l s') (hm : Mapped s) {t : θ} {k : κ} {o : Ptr}
    (h : (s'.calls t).holds = some (k, o)) :
    (s.calls t).holds = some (k, o) ∨ s'.used.lookup k = some o := by
  have missed := hm.missed
  cases hs <;> grind -linarith -ring [Call.holds, Call.misses]

/-- A type that a call misses stays so: only the call that has the lock inserts. -/
theorem Step.misses (hs : Step types s l s') (hl : Locked s) (hm : Mapped s) {t : θ} {k : κ}
    (h : (s'.calls t).misses = some k) : s'.used.lookup k = none := by
  have missed := hm.missed
  unfold Locked at hl
  cases hs <;> grind -linarith -ring [Call.misses]

/-- What has been returned was returned before, or the call has held it. -/
theorem Step.returns (hs : Step types s l s') {k : κ} {o : Ptr} (h : (k, o) ∈ s'.returned) :
    (k, o) ∈ s.returned ∨ ∃ t, (s.calls t).holds = some (k, o) := by
  cases hs
  case finish t k' o' inserted hat hvalue hlast =>
    rcases List.mem_cons.mp h with heq | hold
    · cases heq
      exact .inr ⟨t, by rw [hat]; rfl⟩
    · exact .inl hold
  case finishConnected t k' o' hat =>
    rcases List.mem_cons.mp h with heq | hold
    · cases heq
      exact .inr ⟨t, by rw [hat]; rfl⟩
    · exact .inl hold
  all_goals exact .inl h

/-- The map stays what the calls go by. -/
theorem Step.mapped (hs : Step types s l s') (hl : Locked s) (h : Mapped s) : Mapped s' := by
  constructor
  case held =>
    intro t k o hholds
    rcases hs.holds h hholds with hold | hnew
    · exact hs.keeps_entry (h.held t k o hold)
    · exact hnew
  case missed =>
    intro t k hmisses
    exact hs.misses hl h hmisses
  case returned =>
    intro k o hreturned
    rcases hs.returns hreturned with hold | ⟨t, hholds⟩
    · exact hs.keeps_entry (h.returned k o hold)
    · exact hs.keeps_entry (h.held t k o hholds)

/-- Connections stay. -/
theorem Step.keeps (hs : Step types s l s') {k : κ} {o : Ptr} (h : (k, o) ∈ s.connections) :
    (k, o) ∈ s'.connections := by
  cases hs
  case finishConnected => exact List.mem_cons_of_mem _ h
  all_goals exact h

/-- A connection has been there before, or the call that was to make it has just done so. -/
theorem Step.connection (hs : Step types s l s') {k : κ} {o : Ptr}
    (h : (k, o) ∈ s'.connections) :
    (k, o) ∈ s.connections ∨
      ∃ t, (s.calls t).connects = some k ∧ (s.calls t).holds = some (k, o) ∧
        (s'.calls t).connects = none := by
  cases hs
  case finishConnected t k' o' hat =>
    rcases List.mem_cons.mp h with heq | hold
    · cases heq
      refine .inr ⟨t, by rw [hat]; rfl, by rw [hat]; rfl, ?_⟩
      rw [State.finish_call, if_pos rfl]
      rfl
    · exact .inl hold
  all_goals exact .inl h

/-- An entry has been there before, or its call has just inserted it. -/
theorem Step.entry (hs : Step types s l s') {k : κ} {o : Ptr} (h : s'.used.lookup k = some o) :
    s.used.lookup k = some o ∨ ∃ t, (s'.calls t).connects = some k := by
  cases hs
  case insert t k' o' hat =>
    by_cases hk : k = k'
    · refine .inr ⟨t, ?_⟩
      rw [State.goto_call, if_pos rfl, hk]
      rfl
    · left
      rwa [State.goto_used, State.insert_lookup, if_neg hk] at h
  all_goals exact .inl h

/-- A call that is to connect a type goes on to do so, unless its instance cannot be
created. -/
theorem Step.connects (hs : Step types s l s') (hm : Mapped s) {k : κ} {o : Ptr} {t : θ}
    (hentry : s.used.lookup k = some o) (hsignal : types.hasSignal k = true)
    (hvalue : types.throws o = false) (h : (s.calls t).connects = some k) :
    (s'.calls t).connects = some k ∨ (k, o) ∈ s'.connections := by
  have held := hm.held
  cases hs <;> grind -linarith -ring [Call.connects, Call.holds]

/-- A call that is to connect a type was so before, or it was about to insert it. -/
theorem Step.connects_back (hs : Step types s l s') {t : θ} {k : κ}
    (h : (s'.calls t).connects = some k) :
    (s.calls t).connects = some k ∨ (l = .next t ∧ (s.calls t).misses = some k) := by
  cases hs <;> grind -linarith -ring [Call.connects, Call.misses]

omit [DecidableEq θ] in
/-- A type that is to be connected is in the map. -/
theorem Mapped.not_missed (h : Mapped s) {t t' : θ} {k : κ} (hc : (s.calls t).connects = some k) :
    (s.calls t').misses ≠ some k := by
  intro hmisses
  obtain ⟨o, hholds⟩ := Call.holds_of_connects hc
  have hentry := h.held t k o hholds
  rw [h.missed t' k hmisses] at hentry
  cases hentry

/-- The call that has inserted a type is the only one to connect it. -/
theorem Step.inserter (hs : Step types s l s') (hm : Mapped s) (h : Connected types s)
    {t t' : θ} {k : κ} (ht : (s'.calls t).connects = some k)
    (ht' : (s'.calls t').connects = some k) : t = t' := by
  rcases hs.connects_back ht with hold | ⟨hl, hmisses⟩ <;>
    rcases hs.connects_back ht' with hold' | ⟨hl', hmisses'⟩
  · exact h.inserter t t' k hold hold'
  · exact absurd hmisses' (hm.not_missed hold)
  · exact absurd hmisses (hm.not_missed hold')
  · rw [hl] at hl'
    cases hl'
    rfl

/-- A type that is to be connected has no connection yet. -/
theorem Step.fresh (hs : Step types s l s') (hm : Mapped s) (h : Connected types s)
    {t : θ} {k : κ} {o : Ptr} (ht : (s'.calls t).connects = some k) :
    (k, o) ∉ s'.connections := by
  intro hconnected
  have hentry : s.used.lookup k = some o := by
    rcases hs.connection hconnected with hold | ⟨t', -, hholds, -⟩
    · exact h.entry k o hold
    · exact hm.held t' k o hholds
  rcases hs.connects_back ht with hbefore | ⟨-, hmisses⟩
  · rcases hs.connection hconnected with hold | ⟨t', hconnects, -, hdone⟩
    · exact h.fresh t k hbefore (List.mem_map_of_mem hold)
    · -- the call that has connected the type was the one that was to do so
      cases h.inserter t t' k hbefore hconnects
      rw [ht] at hdone
      cases hdone
  · rw [hm.missed t k hmisses] at hentry
    cases hentry

/-- What connects to an event has been inserted for it. -/
theorem Step.connected (hs : Step types s l s') (hm : Mapped s) (h : Connected types s) :
    Connected types s' := by
  constructor
  case entry =>
    intro k o hconnected
    rcases hs.connection hconnected with hold | ⟨t, -, hholds, -⟩
    · exact hs.keeps_entry (h.entry k o hold)
    · exact hs.keeps_entry (hm.held t k o hholds)
  case once =>
    cases hs
    case finishConnected t k o hat =>
      have hfresh := h.fresh t k (by rw [hat]; rfl)
      simpa [hfresh] using h.once
    all_goals exact h.once
  case inserter =>
    intro t t' k ht ht'
    exact hs.inserter hm h ht ht'
  case fresh =>
    intro t k ht hmem
    obtain ⟨⟨k', o⟩, hconnected, rfl⟩ := List.mem_map.mp hmem
    exact hs.fresh hm h ht hconnected
  case present =>
    intro k o hentry hsignal hvalue
    rcases hs.entry hentry with hold | hinserted
    · rcases h.present k o hold hsignal hvalue with hconnected | ⟨t, hconnects⟩
      · exact .inl (hs.keeps hconnected)
      · exact (hs.connects hm hold hsignal hvalue hconnects).symm.imp_right fun h => ⟨t, h⟩
    · exact .inr hinserted

/-- What a call returns is connected, if a call that has found its type waits for the one
that connects it. -/
theorem Step.observed (hs : Step types s l s') (hm : Mapped s) (hc : Connected types s)
    (hok : ConnectsFirst types s l) (h : Observed types s) : Observed types s' := by
  intro k o hreturned hsignal
  cases hs
  case finish t k' o' inserted hat hvalue hlast =>
    rcases List.mem_cons.mp hreturned with heq | hold
    · cases heq
      cases hlast with
      | inl hfound =>
          rw [hfound] at hat
          have hentry := hm.held t k o (by rw [hat]; rfl)
          rcases hc.present k o hentry hsignal hvalue with hconnected | ⟨t', hconnects⟩
          · exact hconnected
          · exact absurd hconnects (hok (k, o) (by rw [hat]; rfl) hvalue hsignal t')
      | inr hnone =>
          rw [hsignal] at hnone
          cases hnone
    · exact h k o hold hsignal
  case finishConnected t k' o' hat =>
    rcases List.mem_cons.mp hreturned with heq | hold
    · cases heq
      exact List.mem_cons_self
    · exact List.mem_cons_of_mem _ (h k o hold hsignal)
  all_goals exact h k o hreturned hsignal

/-- The map and the connections in every run. -/
theorem reach_connected (h : Runs.Reach (step types) Runs.always initial s) :
    Mapped s ∧ Connected types s := by
  have hinvariant : Locked s ∧ Mapped s ∧ Connected types s := by
    apply h.invariant (I := fun s => Locked s ∧ Mapped s ∧ Connected types s)
    · refine ⟨by simp [Locked, initial, Call.locks], ?_, ?_⟩
      · constructor <;> simp [initial, Call.holds, Call.misses]
      · constructor <;> simp [initial, Call.connects]
    · rintro s l s' ⟨hlocked, hmapped, hconnected⟩ _ hstep
      have hcases := step_cases hstep
      exact ⟨hcases.locked hlocked, hcases.mapped hlocked hmapped,
        hcases.connected hmapped hconnected⟩
  exact hinvariant.2

/-- **The singletons of an operation.**  As long as no call that has found its type returns
before the call that has inserted this type has connected it, all calls for a type return
the instance whose `Ref` the map has; a type is connected at most once, with this instance;
and what is returned and has a signal is connected, so that every later emission calls
`notify` once. -/
theorem used_once (h : Runs.Reach (step types) (ConnectsFirst types) initial s) :
    (∀ k o, (k, o) ∈ s.returned → s.used.lookup k = some o) ∧
    (∀ k o o', (k, o) ∈ s.returned → (k, o') ∈ s.returned → o = o') ∧
    (s.connections.map Prod.fst).Nodup ∧
    (∀ k o, (k, o) ∈ s.connections → s.used.lookup k = some o) ∧
    ∀ k o, (k, o) ∈ s.returned → types.hasSignal k = true →
      (k, o) ∈ s.connections ∧
        ∃ s', step types s (.emit k o) = some s' ∧ s'.notified = s.notified + 1 := by
  have halways : ∀ {s : State θ κ}, Runs.Reach (step types) (ConnectsFirst types) initial s →
      Runs.Reach (step types) Runs.always initial s := fun hreach =>
    hreach.weaken (fun s hs => hs) fun _ _ _ _ _ _ => trivial
  have hobserved : Observed types s := by
    apply h.along (I := Observed types)
    · intro k o hreturned
      cases hreturned
    · intro s l s' hreach hs hok hstep
      obtain ⟨hmapped, hconnected⟩ := reach_connected (halways hreach)
      exact (step_cases hstep).observed hmapped hconnected hok hs
  obtain ⟨hmapped, hconnected⟩ := reach_connected (halways h)
  refine ⟨hmapped.returned, ?_, hconnected.once, hconnected.entry, ?_⟩
  · intro k o o' ho ho'
    have hsame := (hmapped.returned k o ho).symm.trans (hmapped.returned k o' ho')
    exact Option.some.inj hsame
  · intro k o hreturned hsignal
    have hmem := hobserved k o hreturned hsignal
    have hcount : s.connections.count (k, o) = 1 :=
      List.count_eq_one_of_mem hconnected.once.of_map hmem
    exact ⟨hmem, _, rfl, by rw [State.emit_notified, hcount]⟩

/-- Every step that is left out returns an instance whose signal is not connected. -/
theorem returns_unconnected {t : θ} (h : Runs.Reach (step types) Runs.always initial s)
    (hok : ¬ ConnectsFirst types s (.next t)) (hstep : step types s (.next t) = some s') :
    ∃ k o, (k, o) ∈ s'.returned ∧ types.hasSignal k = true ∧ (k, o) ∉ s'.connections := by
  obtain ⟨⟨k, o⟩, hfinds, hvalue, hsignal, t', hconnects⟩ : ∃ e ∈ (s.calls t).finds,
      types.throws e.2 = false ∧ types.hasSignal e.1 = true ∧
        ∃ t', (s.calls t').connects = some e.1 := by
    simpa [ConnectsFirst] using hok
  have hat : s.calls t = .waiting k o false := by
    unfold Call.finds at hfinds
    split at hfinds
    case h_1 hat =>
      cases hfinds
      exact hat
    case h_2 => cases hfinds
  have hs' : s' = s.finish t k o := by
    simpa [step, next, hat, hvalue] using hstep.symm
  subst hs'
  have hfresh := (reach_connected h).2.fresh t' k hconnects
  refine ⟨k, o, List.mem_cons_self, hsignal, ?_⟩
  intro hconnected
  exact hfresh (List.mem_map_of_mem hconnected)

/-- Every type has a signal, and every instance can be created. -/
def observable : Types String where
  hasSignal _ := true
  throws _ := false

/-- Two resolvers ask for a type; the first one inserts it, connects its signal and
returns, and so does the second one then. -/
def getTwice : List (Label (Fin 2) String) :=
  [.getSingleton 0 "Speed", .next 0, .next 0, .get 0 (some 7), .next 0, .next 0,
    .getSingleton 1 "Speed", .next 1, .next 1, .next 1, .next 0, .next 0, .next 1]

/-- Two calls get the same singleton, with one connection. -/
theorem used_once_getTwice :
    ∃ s, Runs.run (step observable) initial getTwice = some s ∧
      s.returned = [("Speed", 7), ("Speed", 7)] ∧ s.connections = [("Speed", 7)] ∧
      ∃ s', step observable s (.emit "Speed" 7) = some s' ∧ s'.notified = 1 := by
  have hrun : Runs.run (step observable) initial getTwice = some _ := rfl
  have hreach := Runs.reach_of_run hrun
    (by decide : Runs.RunMeets _ (ConnectsFirst observable) _ _)
  obtain ⟨-, -, -, -, hobserved⟩ := used_once hreach
  exact ⟨_, hrun, rfl, rfl, (hobserved "Speed" 7 (by decide) rfl).2⟩

/-- The second resolver finds the type and returns before the first one has its value. -/
def returnEarly : List (Label (Fin 2) String) :=
  [.getSingleton 0 "Speed", .next 0, .next 0, .get 0 (some 7), .next 0, .next 0,
    .getSingleton 1 "Speed", .next 1, .next 1, .next 1, .next 1]

/-- A call has returned an instance whose signal is not connected, and a change notifies
nobody. -/
theorem returns_unobserved :
    ∃ s s', Runs.run (step observable) initial returnEarly = some s ∧
      s.returned = [("Speed", 7)] ∧ s.connections = [] ∧
      step observable s (.emit "Speed" 7) = some s' ∧ s'.notified = 0 :=
  ⟨_, _, rfl, rfl, rfl, rfl, rfl⟩

end UsedSingletons
