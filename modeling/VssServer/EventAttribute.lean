import Mathlib.Tactic.Simps.Basic
import VssServer.Runs

/-!
# Events during the construction and the destruction of an event attribute

The constructor of `CommonAPIEventSubscriptionProxyAttribute` subscribes, and the
members of the derived class are built after it; they are destroyed before the
destructor of the base class unsubscribes.  The handler of an event calls the virtual
`processEvent` of an object which may be at any point between the two.

* `Alive`: the object is complete where an event is handled.
* `Alive.step`: every step that meets the side condition keeps it so.
* `processes_when_complete`: events are stored and signalled while the object is complete
  only.
-/

namespace CommonAPI

variable {ε ν : Type*}

/-- What a derived class adds to `CommonAPIEventSubscriptionProxyAttribute`: its value as
it is built, and what `processEvent` makes of it. -/
structure EventClass (ε ν : Type*) where
  initial : ν
  processEvent : ν → ε → ν

/-- `CommonAPIBroadcastSubscriptionProxyAttribute`: the last event. -/
def broadcast : EventClass ε (Option ε) where
  initial := none
  processEvent _ event := some event

/-- The first event that `findPredicate` finds is replaced; without one, the new event is
put at the end. -/
def replaceOrAppend (findPredicate : ε → ε → Bool) (event : ε) : List ε → List ε
  | [] => [event]
  | other :: rest =>
      if findPredicate event other then event :: rest
      else other :: replaceOrAppend findPredicate event rest

/-- `CommonAPIAccumulativeUniqueEventSubscriptionProxyAttribute`. -/
def accumulativeUnique (findPredicate : ε → ε → Bool) : EventClass ε (List ε) where
  initial := []
  processEvent value event := replaceOrAppend findPredicate event value

/-- Where the object is in its life: in the constructor of the base class before and after
`subscribeChanges`, with the members of the derived class being built, complete, with
these members being destroyed, in the destructor of the base class before and after
`unsubscribeChanges`. -/
inductive Phase
  | constructing
  | subscribed
  | building
  | complete
  | destroying
  | unsubscribing
  | unsubscribed
  deriving DecidableEq

/-- CommonAPI has the handler. -/
def Phase.hasSubscription : Phase → Bool
  | .constructing | .unsubscribed => false
  | _ => true

/-- A virtual call reaches the derived class. -/
def Phase.isDerived : Phase → Bool
  | .building | .complete | .destroying => true
  | _ => false

/-- Where the thread of CommonAPI is in the handler. -/
inductive Handler (ε : Type*)
  | idle
  | entered (event : ε)
  | processing (event : ε)

/-- The thread is not in the handler. -/
def Handler.isIdle : Handler ε → Bool
  | .idle => true
  | _ => false

/-- `processEvent` of the base class, which has no body, is called; an event is stored into
members that are not alive. -/
inductive Fault
  | pureVirtual
  | deadMembers
  deriving DecidableEq

/-- The object, with its value while the members of the derived class are alive, the thread
of CommonAPI and the values that `signal` was called with. -/
structure EventAttribute (ε ν : Type*) where
  phase : Phase
  members : Option ν
  handler : Handler ε
  signalled : List ν
  fault : Option Fault

/-- The constructing or destroying thread goes on, an event arrives, and the handler calls
`processEvent`, which stores the event. -/
inductive EventLabel (ε : Type*)
  | next
  | arrive (event : ε)
  | processEvent
  | store

namespace EventAttribute

@[simps]
def enter (s : EventAttribute ε ν) (phase : Phase) (members : Option ν) : EventAttribute ε ν :=
  { s with phase := phase, members := members }

@[simps]
def handle (s : EventAttribute ε ν) (handler : Handler ε) : EventAttribute ε ν :=
  { s with handler := handler }

@[simps]
def setValue (s : EventAttribute ε ν) (value : ν) : EventAttribute ε ν :=
  { s with members := some value, signalled := s.signalled ++ [value] }

@[simps]
def fail (s : EventAttribute ε ν) (fault : Fault) : EventAttribute ε ν :=
  { s with fault := some fault }

/-- The next point of construction or destruction; an object that is gone has none. -/
def next (cls : EventClass ε ν) (s : EventAttribute ε ν) : Option (EventAttribute ε ν) :=
  match s.phase with
  | .constructing => some (s.enter .subscribed none)
  | .subscribed => some (s.enter .building none)
  | .building => some (s.enter .complete (some cls.initial))
  | .complete => some (s.enter .destroying none)
  | .destroying => some (s.enter .unsubscribing none)
  | .unsubscribing => some (s.enter .unsubscribed none)
  | .unsubscribed => none

/-- The handler calls `processEvent` through the object. -/
def dispatch (s : EventAttribute ε ν) (event : ε) : EventAttribute ε ν :=
  if s.phase.isDerived then s.handle (.processing event) else s.fail .pureVirtual

/-- `processEvent` of the derived class. -/
def store (cls : EventClass ε ν) (s : EventAttribute ε ν) (event : ε) : EventAttribute ε ν :=
  match s.members with
  | some value => (s.setValue (cls.processEvent value event)).handle .idle
  | none => s.fail .deadMembers

/-- What a label does. -/
def act (cls : EventClass ε ν) (s : EventAttribute ε ν) :
    EventLabel ε → Option (EventAttribute ε ν)
  | .next => s.next cls
  | .arrive event =>
      match s.phase.hasSubscription, s.handler with
      | true, .idle => some (s.handle (.entered event))
      | _, _ => none
  | .processEvent =>
      match s.handler with
      | .entered event => some (s.dispatch event)
      | _ => none
  | .store =>
      match s.handler with
      | .processing event => some (s.store cls event)
      | _ => none

/-- One atomic step; nothing comes after a fault. -/
def step (cls : EventClass ε ν) (s : EventAttribute ε ν) (l : EventLabel ε) :
    Option (EventAttribute ε ν) :=
  if s.fault = none then s.act cls l else none

/-- The constructor is called. -/
def start : EventAttribute ε ν where
  phase := .constructing
  members := none
  handler := .idle
  signalled := []
  fault := none

variable {cls : EventClass ε ν} {s s' : EventAttribute ε ν} {l : EventLabel ε}

/-- The side condition on a step: an event arrives when the object is complete, and the
destruction of a complete object does not begin while its handler is running. -/
def ArrivesAlive (s : EventAttribute ε ν) : EventLabel ε → Prop
  | .arrive _ => s.phase = .complete
  | .next => s.phase = .complete → s.handler.isIdle = true
  | _ => True

instance (s : EventAttribute ε ν) : ∀ l, Decidable (ArrivesAlive s l)
  | .arrive _ => inferInstanceAs (Decidable (s.phase = .complete))
  | .next => inferInstanceAs (Decidable (s.phase = .complete → s.handler.isIdle = true))
  | .processEvent | .store => isTrue trivial

/-- The handler runs in a complete object only, whose members are alive. -/
structure Alive (s : EventAttribute ε ν) : Prop where
  handling : s.handler.isIdle = false → s.phase = .complete
  members : s.phase = .complete → ∃ value, s.members = some value
  fault : s.fault = none

/-- An attribute that has failed takes no step. -/
theorem step_eq_some (hstep : s.step cls l = some s') : s.act cls l = some s' := by
  unfold step at hstep
  split at hstep
  · exact hstep
  · cases hstep

namespace Alive

/-- Between two points of construction or destruction the handler does not run. -/
theorem enter (h : Alive s) {phase : Phase} {members : Option ν}
    (hidle : s.handler.isIdle = true)
    (hmembers : phase = .complete → ∃ value, members = some value) :
    Alive (s.enter phase members) where
  handling := by
    intro hhandling
    rw [enter_handler, hidle] at hhandling
    cases hhandling
  members := hmembers
  fault := h.fault

/-- The thread that creates or destroys the attribute keeps it alive for its events. -/
theorem step_next (h : Alive s) (hok : ArrivesAlive s .next) (hstep : s.next cls = some s') :
    Alive s' := by
  have hidle : s.handler.isIdle = true := by
    by_contra hrunning
    have hhandling : s.handler.isIdle = false := by simpa using hrunning
    exact hrunning (hok (h.handling hhandling))
  unfold EventAttribute.next at hstep
  split at hstep
  case h_3 =>
    cases hstep
    exact h.enter hidle fun _ => ⟨cls.initial, rfl⟩
  case h_7 => cases hstep
  all_goals
    cases hstep
    exact h.enter hidle nofun

/-- In a complete object the handler goes on. -/
theorem handle (h : Alive s) {handler : Handler ε} (hphase : s.phase = .complete) :
    Alive (s.handle handler) where
  handling := fun _ => hphase
  members := h.members
  fault := h.fault

/-- So does a new value. -/
theorem setValue (h : Alive s) (value : ν) : Alive (s.setValue value) where
  handling := h.handling
  members := fun _ => ⟨value, rfl⟩
  fault := h.fault

/-- Every step that meets the side condition keeps the attribute alive for its events. -/
theorem step (h : Alive s) (hok : ArrivesAlive s l) (hstep : s.step cls l = some s') :
    Alive s' := by
  have hact := step_eq_some hstep
  cases l with
  | next => exact h.step_next hok hact
  | arrive event =>
      simp only [act] at hact
      split at hact <;> cases hact
      exact h.handle hok
  | processEvent =>
      simp only [act] at hact
      split at hact
      case h_1 event hentered =>
        have hphase : s.phase = .complete := h.handling (by rw [hentered]; rfl)
        rw [dispatch, hphase] at hact
        cases hact
        exact h.handle hphase
      case h_2 => cases hact
  | store =>
      simp only [act] at hact
      split at hact
      case h_1 event hprocessing =>
        have hphase : s.phase = .complete := h.handling (by rw [hprocessing]; rfl)
        obtain ⟨value, hvalue⟩ := h.members hphase
        rw [EventAttribute.store, hvalue] at hact
        cases hact
        exact (h.setValue _).handle hphase
      case h_2 => cases hact

/-- Who calls `processEvent`, or is in it, is the handler. -/
theorem calls (h : Alive s) (hl : l = .processEvent ∨ l = .store)
    (hstep : s.step cls l = some s') : s.phase = .complete := by
  have hact := step_eq_some hstep
  apply h.handling
  rcases hl with rfl | rfl
  all_goals
    simp only [act] at hact
    split at hact
    case h_1 event hhandler => rw [hhandler]; rfl
    case h_2 => cases hact

end Alive

/-- **Events reach a complete object.**  As long as events arrive at complete objects only
and no destruction begins under a running handler, `processEvent` is called and stores
its event only while the object is complete, and neither fault occurs. -/
theorem processes_when_complete (h : Runs.Reach (step cls) ArrivesAlive start s) :
    s.fault = none ∧
      ∀ l s', l = .processEvent ∨ l = .store → s.step cls l = some s' → s.phase = .complete := by
  have halive : Alive s := by
    apply h.invariant (I := Alive)
    · exact ⟨nofun, nofun, rfl⟩
    · intro s l s' hs hok hstep
      exact hs.step hok hstep
  refine ⟨halive.fault, ?_⟩
  intro l s' hl hstep
  exact halive.calls hl hstep

/-- Two events with the same key arrive at a complete object, which is then destroyed. -/
def replaceEvent : List (EventLabel (ℕ × ℕ)) :=
  [.next, .next, .next, .arrive (1, 5), .processEvent, .store, .arrive (1, 6), .processEvent,
    .store, .next, .next, .next]

/-- The events of `replaceEvent` have their key first. -/
def sameKey : EventClass (ℕ × ℕ) (List (ℕ × ℕ)) :=
  accumulativeUnique fun event other => event.1 == other.1

/-- A second event replaces the first one, and both are signalled. -/
theorem processes_when_complete_replaceEvent :
    ∃ s, Runs.run (step sameKey) start replaceEvent = some s ∧
      s.signalled = [[(1, 5)], [(1, 6)]] ∧ s.phase = .unsubscribed ∧ s.fault = none := by
  have hrun : Runs.run (step sameKey) start replaceEvent = some _ := rfl
  have hreach := Runs.reach_of_run hrun (by decide : Runs.RunMeets _ ArrivesAlive _ _)
  exact ⟨_, hrun, rfl, rfl, (processes_when_complete hreach).1⟩

/-- An event arrives right after the constructor of the base class has subscribed. -/
def arriveSubscribed : List (EventLabel ℕ) :=
  [.next, .arrive 5, .processEvent]

/-- The destruction begins while the handler of an event runs. -/
def destroyHandling : List (EventLabel ℕ) :=
  [.next, .next, .next, .arrive 5, .processEvent, .next, .store]

/-- An event that arrives too early calls the pure virtual function, and one whose handler
runs too late is stored into members that are not alive. -/
theorem processes_incomplete :
    (∃ s, Runs.run (step broadcast) start arriveSubscribed = some s ∧
      s.phase = .subscribed ∧ s.fault = some .pureVirtual) ∧
    ∃ s, Runs.run (step broadcast) start destroyHandling = some s ∧
      s.phase = .destroying ∧ s.fault = some .deadMembers :=
  ⟨⟨_, rfl, rfl, rfl⟩, ⟨_, rfl, rfl, rfl⟩⟩

end EventAttribute

end CommonAPI
