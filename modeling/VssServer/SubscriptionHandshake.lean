import Mathlib.Data.Nat.Notation
import Mathlib.Tactic.Simps.Basic
import VssServer.Runs

/-!
# The first event of a subscription

`subscribeChanges` subscribes and then joins a thread that waits on a local condition
variable for the first event, or for the timeout.  The handler of the events, which points
to this variable, sets a flag before it notifies; no mutex is held, and the wait has no
predicate.

* `Answered`, `Joined`, `Safe`: what the three threads know of each other.
* `handshake_safe`: when `subscribeChanges` throws, and that no handler notifies a condition
  that is gone.
* `disturbed_breaks`: the condition is needed.
-/

namespace CommonAPI

variable {ν : Type*}

/-- Where the constructing thread is in `subscribeChanges`: in `subscribe`, in `join`, at
its look at `subscriptionAnswered`, in `unsubscribeChanges`, or out of it. -/
inductive Subscriber
  | subscribing
  | joining
  | checking
  | unsubscribing
  | returned
  | thrown
  deriving DecidableEq

/-- The local variables of `subscribeChanges` are gone. -/
def Subscriber.hasLeft : Subscriber → Bool
  | .returned | .thrown => true
  | _ => false

/-- CommonAPI has the handler. -/
def Subscriber.hasSubscription : Subscriber → Bool
  | .thrown => false
  | _ => true

/-- Where the waiting thread is: before `wait_for`, in it, or done because of a
notification, of the timeout or of nothing at all.  `handled` is how many events were
handled when the time was up. -/
inductive Waiter
  | started
  | waiting
  | notified
  | timedOut (handled : ℕ)
  | wokenUp
  deriving DecidableEq

/-- The thread has ended. -/
def Waiter.isDone : Waiter → Bool
  | .started | .waiting => false
  | _ => true

/-- Where the thread of CommonAPI is in the handler of an event: about to look at
`subscriptionAnswered`, having found it unset, about to notify, in `setValue`. -/
inductive EventHandler (ν : Type*)
  | idle
  | entered (v : ν)
  | answering (v : ν)
  | notifying (v : ν)
  | storing (v : ν)

/-- The call of `subscribeChanges`, with the events that are handled and what they leave.
`deadCondition` tells whether the condition variable was used when it was gone. -/
structure Handshake (ν : Type*) where
  subscriber : Subscriber
  waiter : Waiter
  handler : EventHandler ν
  subscriptionAnswered : Bool
  value : Option ν
  signalled : List ν
  handled : ℕ
  deadCondition : Bool

/-- One step: the constructing thread goes on, the waiting thread begins to wait, its wait
ends by the timeout or by a spurious wakeup, an event arrives, its handler goes on. -/
inductive HandshakeLabel (ν : Type*)
  | subscriber
  | wait
  | timeout
  | wakeup
  | arrive (v : ν)
  | handler

namespace Handshake

@[simps]
def goto (s : Handshake ν) (subscriber : Subscriber) : Handshake ν :=
  { s with subscriber := subscriber }

@[simps]
def wait (s : Handshake ν) (waiter : Waiter) : Handshake ν :=
  { s with waiter := waiter }

@[simps]
def handle (s : Handshake ν) (handler : EventHandler ν) : Handshake ν :=
  { s with handler := handler }

@[simps]
def answer (s : Handshake ν) : Handshake ν :=
  { s with subscriptionAnswered := true }

/-- `setValue`, the end of the handler. -/
@[simps]
def setValue (s : Handshake ν) (v : ν) : Handshake ν :=
  { s with value := some v, signalled := s.signalled ++ [v], handled := s.handled + 1 }

@[simps]
def useDeadCondition (s : Handshake ν) : Handshake ν :=
  { s with deadCondition := true }

/-- `notify_one` wakes the waiting thread, if it waits; the condition variable may be
gone. -/
def notifyOne (s : Handshake ν) : Handshake ν :=
  if s.subscriber.hasLeft then s.useDeadCondition
  else if s.waiter = .waiting then s.wait .notified
  else s

/-- The constructing thread. -/
def subscriberStep (s : Handshake ν) : Option (Handshake ν) :=
  match s.subscriber with
  | .subscribing => some (s.goto .joining)
  | .joining => if s.waiter.isDone then some (s.goto .checking) else none
  | .checking => some (s.goto (if s.subscriptionAnswered then .returned else .unsubscribing))
  | .unsubscribing => some (s.goto .thrown)
  | .returned | .thrown => none

/-- The handler. -/
def handlerStep (s : Handshake ν) : Option (Handshake ν) :=
  match s.handler with
  | .idle => none
  | .entered v => some (s.handle (if s.subscriptionAnswered then .storing v else .answering v))
  | .answering v => some (s.answer.handle (.notifying v))
  | .notifying v => some (s.notifyOne.handle (.storing v))
  | .storing v => some ((s.setValue v).handle .idle)

/-- One atomic step. -/
def step (s : Handshake ν) : HandshakeLabel ν → Option (Handshake ν)
  | .subscriber => s.subscriberStep
  | .wait => if s.waiter = .started then some (s.wait .waiting) else none
  | .timeout => if s.waiter = .waiting then some (s.wait (.timedOut s.handled)) else none
  | .wakeup => if s.waiter = .waiting then some (s.wait .wokenUp) else none
  | .arrive v =>
      match s.subscriber.hasSubscription, s.handler with
      | true, .idle => some (s.handle (.entered v))
      | _, _ => none
  | .handler => s.handlerStep

/-- The waiting thread is created, `subscribe` is called. -/
def start : Handshake ν where
  subscriber := .subscribing
  waiter := .started
  handler := .idle
  subscriptionAnswered := false
  value := none
  signalled := []
  handled := 0
  deadCondition := false

/-- The handler that runs has still to notify: it has found the flag unset, or will. -/
def willNotify (s : Handshake ν) : Bool :=
  match s.handler with
  | .answering _ | .notifying _ => true
  | .entered _ => !s.subscriptionAnswered
  | _ => false

/-- With its next step `subscribeChanges` returns or throws. -/
def leaves (s : Handshake ν) : Bool :=
  match s.subscriber with
  | .checking => s.subscriptionAnswered
  | .unsubscribing => true
  | _ => false

/-- The side condition on a step: after a spurious wakeup the constructing thread finds the
flag set, and when `subscribeChanges` returns or throws no handler has still to notify. -/
def Undisturbed (s : Handshake ν) : HandshakeLabel ν → Prop
  | .subscriber =>
      (s.subscriber = .checking → s.waiter = .wokenUp → s.subscriptionAnswered = true) ∧
        (s.leaves = true → s.willNotify = false)
  | _ => True

instance (s : Handshake ν) : ∀ l, Decidable (Undisturbed s l)
  | .subscriber => inferInstanceAs (Decidable (_ ∧ _))
  | .wait | .timeout | .wakeup | .arrive _ | .handler => isTrue trivial

variable {s s' : Handshake ν} {l : HandshakeLabel ν}

/-- What the flag says about the handlers and about the end of the wait. -/
structure Answered (s : Handshake ν) : Prop where
  handled : 0 < s.handled → s.subscriptionAnswered = true
  handler : ∀ v, s.handler = .notifying v ∨ s.handler = .storing v →
    s.subscriptionAnswered = true
  notified : s.waiter = .notified → s.subscriptionAnswered = true
  timedOut : ∀ n, s.waiter = .timedOut n → n ≤ s.handled

/-- The constructing thread has joined the waiting one before it looks at the flag, and on
its way out by an exception it has found it unset after a timeout. -/
structure Joined (s : Handshake ν) : Prop where
  done : s.subscriber ≠ .subscribing → s.subscriber ≠ .joining → s.waiter.isDone = true
  failing : s.subscriber = .unsubscribing ∨ s.subscriber = .thrown → s.waiter = .timedOut 0
  returned : s.subscriber = .returned → s.subscriptionAnswered = true

/-- Once `subscribeChanges` has been left, no handler notifies. -/
structure Safe (s : Handshake ν) : Prop where
  silent : s.subscriber.hasLeft = true → s.willNotify = false
  alive : s.deadCondition = false

/-- What a step of the constructing thread does. -/
theorem subscriberStep_cases (h : s.subscriberStep = some s') :
    (s.subscriber = .subscribing ∧ s' = s.goto .joining) ∨
    (s.subscriber = .joining ∧ s.waiter.isDone = true ∧ s' = s.goto .checking) ∨
    (s.subscriber = .checking ∧ s.subscriptionAnswered = true ∧ s' = s.goto .returned) ∨
    (s.subscriber = .checking ∧ s.subscriptionAnswered = false ∧ s' = s.goto .unsubscribing) ∨
    (s.subscriber = .unsubscribing ∧ s' = s.goto .thrown) := by
  unfold subscriberStep at h
  split at h
  case h_1 hs => simp_all
  case h_2 hs =>
    obtain ⟨hdone, heq⟩ := Option.ite_none_right_eq_some.mp h
    exact .inr (.inl ⟨hs, hdone, (Option.some.inj heq).symm⟩)
  case h_3 hs => cases hflag : s.subscriptionAnswered <;> simp_all
  case h_4 hs => simp_all
  all_goals cases h

/-- What a step of the handler does. -/
theorem handlerStep_cases (h : s.handlerStep = some s') :
    (∃ v, s.handler = .entered v ∧ s.subscriptionAnswered = true ∧ s' = s.handle (.storing v)) ∨
    (∃ v, s.handler = .entered v ∧ s.subscriptionAnswered = false ∧
      s' = s.handle (.answering v)) ∨
    (∃ v, s.handler = .answering v ∧ s' = s.answer.handle (.notifying v)) ∨
    (∃ v, s.handler = .notifying v ∧ s' = s.notifyOne.handle (.storing v)) ∨
    ∃ v, s.handler = .storing v ∧ s' = (s.setValue v).handle .idle := by
  unfold handlerStep at h
  split at h
  case h_1 => cases h
  case h_2 v hs => cases hflag : s.subscriptionAnswered <;> simp_all
  all_goals simp_all

/-- What `notify_one` does. -/
theorem notifyOne_cases (s : Handshake ν) :
    (s.subscriber.hasLeft = true ∧ s.notifyOne = s.useDeadCondition) ∨
    (s.subscriber.hasLeft = false ∧ s.waiter = .waiting ∧ s.notifyOne = s.wait .notified) ∨
    (s.subscriber.hasLeft = false ∧ s.notifyOne = s) := by
  unfold notifyOne
  cases s.subscriber.hasLeft with
  | true => exact .inl ⟨rfl, rfl⟩
  | false =>
      by_cases hwaits : s.waiter = .waiting
      · exact .inr (.inl ⟨rfl, hwaits, by simp [hwaits]⟩)
      · exact .inr (.inr ⟨rfl, by simp [hwaits]⟩)

/-- A wait that begins or ends. -/
theorem step_wait (h : s.step l = some s')
    (hl : l = .wait ∨ l = .timeout ∨ l = .wakeup) :
    s.waiter.isDone = false ∧
      ((l = .wait ∧ s' = s.wait .waiting) ∨ (l = .timeout ∧ s' = s.wait (.timedOut s.handled)) ∨
        (l = .wakeup ∧ s' = s.wait .wokenUp)) := by
  rcases hl with rfl | rfl | rfl
  all_goals
    obtain ⟨hwaiter, heq⟩ := Option.ite_none_right_eq_some.mp h
    cases heq
    rw [hwaiter]
    simp [Waiter.isDone]

/-- An event arrives while there is a subscription and no other event is handled. -/
theorem step_arrive {v : ν} (h : s.step (.arrive v) = some s') :
    s.subscriber ≠ .thrown ∧ s.handler = .idle ∧ s' = s.handle (.entered v) := by
  simp only [step] at h
  split at h
  case h_1 hsubscription hidle =>
    cases h
    refine ⟨?_, hidle, rfl⟩
    intro hthrown
    rw [hthrown] at hsubscription
    cases hsubscription
  case h_2 => cases h

/-- The flag goes on saying what the handlers and the wait have seen. -/
theorem Answered.step (h : Answered s) (hstep : s.step l = some s') : Answered s' := by
  obtain ⟨hhandled, hhandler, hnotified, htimedOut⟩ := h
  cases l with
  | subscriber =>
      rcases subscriberStep_cases hstep with
        ⟨-, rfl⟩ | ⟨-, -, rfl⟩ | ⟨-, -, rfl⟩ | ⟨-, -, rfl⟩ | ⟨-, rfl⟩ <;>
      exact ⟨hhandled, hhandler, hnotified, htimedOut⟩
  | wait =>
      obtain ⟨-, ⟨-, rfl⟩ | ⟨hl, -⟩ | ⟨hl, -⟩⟩ := step_wait hstep (.inl rfl)
      · exact ⟨hhandled, hhandler, by simp, by simp⟩
      · cases hl
      · cases hl
  | timeout =>
      obtain ⟨-, ⟨hl, -⟩ | ⟨-, rfl⟩ | ⟨hl, -⟩⟩ := step_wait hstep (.inr (.inl rfl))
      · cases hl
      · exact ⟨hhandled, hhandler, by simp, by simp⟩
      · cases hl
  | wakeup =>
      obtain ⟨-, ⟨hl, -⟩ | ⟨hl, -⟩ | ⟨-, rfl⟩⟩ := step_wait hstep (.inr (.inr rfl))
      · cases hl
      · cases hl
      · exact ⟨hhandled, hhandler, by simp, by simp⟩
  | arrive v =>
      obtain ⟨-, -, rfl⟩ := step_arrive hstep
      exact ⟨hhandled, by simp, hnotified, htimedOut⟩
  | handler =>
      rcases handlerStep_cases hstep with ⟨v, hv, hflag, rfl⟩ | ⟨v, hv, -, rfl⟩ | ⟨v, hv, rfl⟩ |
        ⟨v, hv, rfl⟩ | ⟨v, hv, rfl⟩
      · exact ⟨hhandled, fun _ _ => hflag, hnotified, htimedOut⟩
      · exact ⟨hhandled, by simp, hnotified, htimedOut⟩
      · exact ⟨fun _ => rfl, fun _ _ => rfl, fun _ => rfl, htimedOut⟩
      · have hflag := hhandler v (.inl hv)
        rcases notifyOne_cases s with ⟨-, heq⟩ | ⟨-, -, heq⟩ | ⟨-, heq⟩ <;> rw [heq]
        · exact ⟨hhandled, fun _ _ => hflag, hnotified, htimedOut⟩
        · exact ⟨hhandled, fun _ _ => hflag, fun _ => hflag, by simp⟩
        · exact ⟨hhandled, fun _ _ => hflag, hnotified, htimedOut⟩
      · have hflag := hhandler v (.inr hv)
        refine ⟨fun _ => hflag, by simp, hnotified, ?_⟩
        intro n hn
        exact Nat.le_succ_of_le (htimedOut n hn)

/-- The flag found unset after the wait: it ended by the timeout, with no event handled. -/
theorem Answered.timedOut_zero (h : Answered s) (hdone : s.waiter.isDone = true)
    (hwoken : s.waiter ≠ .wokenUp) (hflag : s.subscriptionAnswered = false) :
    s.waiter = .timedOut 0 := by
  cases hwaiter : s.waiter with
  | timedOut n =>
      have hle := h.timedOut n hwaiter
      have hnone : s.handled = 0 := by
        by_contra hsome
        rw [h.handled (Nat.pos_of_ne_zero hsome)] at hflag
        cases hflag
      rw [hnone] at hle
      rw [Nat.le_zero.mp hle]
  | notified =>
      rw [h.notified hwaiter] at hflag
      cases hflag
  | wokenUp => exact absurd hwaiter hwoken
  | _ =>
      rw [hwaiter] at hdone
      cases hdone

/-- A wait that is done stays as it is. -/
theorem step_done (hdone : s.waiter.isDone = true) (hstep : s.step l = some s') :
    s'.waiter = s.waiter := by
  cases l with
  | wait | timeout | wakeup =>
      have hnot := (step_wait hstep (by simp)).1
      rw [hdone] at hnot
      cases hnot
  | subscriber =>
      rcases subscriberStep_cases hstep with
        ⟨-, rfl⟩ | ⟨-, -, rfl⟩ | ⟨-, -, rfl⟩ | ⟨-, -, rfl⟩ | ⟨-, rfl⟩ <;> rfl
  | arrive v =>
      obtain ⟨-, -, rfl⟩ := step_arrive hstep
      rfl
  | handler =>
      rcases handlerStep_cases hstep with ⟨v, hv, hflag, rfl⟩ | ⟨v, hv, -, rfl⟩ | ⟨v, hv, rfl⟩ |
        ⟨v, hv, rfl⟩ | ⟨v, hv, rfl⟩
      · rfl
      · rfl
      · rfl
      · rcases notifyOne_cases s with ⟨-, heq⟩ | ⟨-, hwaits, heq⟩ | ⟨-, heq⟩
        · rw [heq]
          rfl
        · rw [hwaits] at hdone
          cases hdone
        · rw [heq]
          rfl
      · rfl

/-- What is not a step of the constructing thread leaves it where it is, and the flag
set. -/
theorem step_frame (hl : l ≠ .subscriber) (hstep : s.step l = some s') :
    s'.subscriber = s.subscriber ∧
      (s.subscriptionAnswered = true → s'.subscriptionAnswered = true) := by
  cases l with
  | subscriber => exact absurd rfl hl
  | wait | timeout | wakeup =>
      obtain ⟨-, ⟨-, rfl⟩ | ⟨-, rfl⟩ | ⟨-, rfl⟩⟩ := step_wait hstep (by simp) <;> exact ⟨rfl, id⟩
  | arrive v =>
      obtain ⟨-, -, rfl⟩ := step_arrive hstep
      exact ⟨rfl, id⟩
  | handler =>
      rcases handlerStep_cases hstep with ⟨v, hv, hflag, rfl⟩ | ⟨v, hv, -, rfl⟩ | ⟨v, hv, rfl⟩ |
        ⟨v, hv, rfl⟩ | ⟨v, hv, rfl⟩
      · exact ⟨rfl, id⟩
      · exact ⟨rfl, id⟩
      · exact ⟨rfl, fun _ => rfl⟩
      · rcases notifyOne_cases s with ⟨-, heq⟩ | ⟨-, -, heq⟩ | ⟨-, heq⟩ <;> rw [heq] <;>
          exact ⟨rfl, id⟩
      · exact ⟨rfl, id⟩

/-- The constructing thread does not go on before it has joined the waiting one. -/
theorem Joined.step (h : Joined s) (ha : Answered s) (hok : Undisturbed s l)
    (hstep : s.step l = some s') : Joined s' := by
  by_cases hl : l = .subscriber
  · subst hl
    rcases subscriberStep_cases hstep with ⟨-, rfl⟩ | ⟨-, hdone, rfl⟩ | ⟨hat, hflag, rfl⟩ |
      ⟨hat, hflag, rfl⟩ | ⟨hat, rfl⟩
    · exact ⟨by simp, by simp, by simp⟩
    · exact ⟨fun _ _ => hdone, by simp, by simp⟩
    · exact ⟨fun _ _ => h.done (by simp [hat]) (by simp [hat]), by simp, fun _ => hflag⟩
    · have hdone := h.done (by simp [hat]) (by simp [hat])
      have hwoken : s.waiter ≠ .wokenUp := by
        intro hwoken
        rw [hok.1 hat hwoken] at hflag
        cases hflag
      exact ⟨fun _ _ => hdone, fun _ => ha.timedOut_zero hdone hwoken hflag, by simp⟩
    · exact ⟨fun _ _ => h.done (by simp [hat]) (by simp [hat]), fun _ => h.failing (.inl hat),
        by simp⟩
  · obtain ⟨hsame, hflag⟩ := step_frame hl hstep
    refine ⟨?_, ?_, ?_⟩
    · intro hsubscribing hjoining
      rw [hsame] at hsubscribing hjoining
      have hdone := h.done hsubscribing hjoining
      rw [step_done hdone hstep]
      exact hdone
    · intro hfailing
      rw [hsame] at hfailing
      have hwaiter := h.failing hfailing
      rw [step_done (by rw [hwaiter]; rfl) hstep]
      exact hwaiter
    · intro hreturned
      rw [hsame] at hreturned
      exact hflag (h.returned hreturned)

/-- Undisturbed, no handler notifies a condition that is gone. -/
theorem Safe.step (h : Safe s) (hj : Joined s) (hok : Undisturbed s l)
    (hstep : s.step l = some s') : Safe s' := by
  obtain ⟨hsilent, halive⟩ := h
  cases l with
  | subscriber =>
      rcases subscriberStep_cases hstep with ⟨hat, rfl⟩ | ⟨hat, -, rfl⟩ | ⟨hat, hflag, rfl⟩ |
        ⟨hat, -, rfl⟩ | ⟨hat, rfl⟩
      · exact ⟨by simp [Subscriber.hasLeft], halive⟩
      · exact ⟨by simp [Subscriber.hasLeft], halive⟩
      · exact ⟨fun _ => hok.2 (by simp [leaves, hat, hflag]), halive⟩
      · exact ⟨by simp [Subscriber.hasLeft], halive⟩
      · exact ⟨fun _ => hok.2 (by simp [leaves, hat]), halive⟩
  | wait | timeout | wakeup =>
      obtain ⟨-, ⟨-, rfl⟩ | ⟨-, rfl⟩ | ⟨-, rfl⟩⟩ := step_wait hstep (by simp) <;>
        exact ⟨hsilent, halive⟩
  | arrive v =>
      obtain ⟨hthrown, -, rfl⟩ := step_arrive hstep
      refine ⟨?_, halive⟩
      -- an event that arrives after the return finds the flag set
      intro hleft
      have hreturned : s.subscriber = .returned := by
        rw [handle_subscriber] at hleft
        cases hat : s.subscriber <;> simp_all [Subscriber.hasLeft]
      simp [willNotify, hj.returned hreturned]
  | handler =>
      rcases handlerStep_cases hstep with ⟨v, hv, hflag, rfl⟩ | ⟨v, hv, hflag, rfl⟩ |
        ⟨v, hv, rfl⟩ | ⟨v, hv, rfl⟩ | ⟨v, hv, rfl⟩
      · exact ⟨fun _ => rfl, halive⟩
      · refine ⟨?_, halive⟩
        intro hleft
        have hnever := hsilent hleft
        simp [willNotify, hv, hflag] at hnever
      · refine ⟨?_, halive⟩
        intro hleft
        have hnever := hsilent hleft
        simp [willNotify, hv] at hnever
      · rcases notifyOne_cases s with ⟨hleft, -⟩ | ⟨-, -, heq⟩ | ⟨-, heq⟩
        · have hnever := hsilent hleft
          simp [willNotify, hv] at hnever
        · rw [heq]
          exact ⟨fun _ => rfl, halive⟩
        · rw [heq]
          exact ⟨fun _ => rfl, halive⟩
      · exact ⟨fun _ => rfl, halive⟩

/-- **The handshake.**  As long as an event has been answered when a spurious wakeup has ended
the wait, and no handler has still to notify when `subscribeChanges` is left, it throws only
when the time was up with no event handled, and no handler uses the condition variable after
it. -/
theorem handshake_safe (h : Runs.Reach step Undisturbed start s) :
    (s.subscriber = .thrown → s.waiter = .timedOut 0) ∧
      (∀ v, s.handler = .notifying v → s.subscriber.hasLeft = false) ∧
      s.deadCondition = false := by
  have hinvariant : Answered s ∧ Joined s ∧ Safe s := by
    apply h.invariant (I := fun s : Handshake ν => Answered s ∧ Joined s ∧ Safe s)
    · exact ⟨⟨nofun, by simp [start], by simp [start], by simp [start]⟩,
        ⟨by simp [start], by simp [start], by simp [start]⟩, ⟨nofun, rfl⟩⟩
    · rintro s l s' ⟨hanswered, hjoined, hsafe⟩ hok hstep
      exact ⟨hanswered.step hstep, hjoined.step hanswered hok hstep,
        hsafe.step hjoined hok hstep⟩
  obtain ⟨-, hjoined, hsafe⟩ := hinvariant
  refine ⟨fun hthrown => hjoined.failing (.inr hthrown), ?_, hsafe.alive⟩
  intro v hv
  rw [Bool.eq_false_iff]
  intro hleft
  have hnever := hsafe.silent hleft
  simp [willNotify, hv] at hnever

/-- A handler that has still to notify when the call is over uses the condition variable
then. -/
theorem notifies_dead (hleft : s.subscriber.hasLeft = true) (hnotify : s.willNotify = true) :
    ∃ ls s', Runs.run step s ls = some s' ∧ s'.deadCondition = true := by
  have hdead : ∀ s : Handshake ν, s.subscriber.hasLeft = true →
      s.notifyOne.deadCondition = true := by
    intro s hleft
    rw [notifyOne, if_pos hleft]
    rfl
  unfold willNotify at hnotify
  split at hnotify
  case h_1 v hat =>
    have hrun : Runs.run step s [.handler, .handler] =
        some ((s.answer.handle (.notifying v)).notifyOne.handle (.storing v)) := by
      simp [Runs.run, step, handlerStep, hat]
    exact ⟨_, _, hrun, hdead _ hleft⟩
  case h_2 v hat =>
    have hrun : Runs.run step s [.handler] = some (s.notifyOne.handle (.storing v)) := by
      simp [Runs.run, step, handlerStep, hat]
    exact ⟨_, _, hrun, hdead _ hleft⟩
  case h_3 v hat =>
    have hflag : s.subscriptionAnswered = false := by simpa using hnotify
    have hrun : Runs.run step s [.handler, .handler, .handler] =
        some (((s.handle (.answering v)).answer.handle (.notifying v)).notifyOne.handle
          (.storing v)) := by
      simp [Runs.run, step, handlerStep, hat, hflag]
    exact ⟨_, _, hrun, hdead _ hleft⟩
  case h_4 => cases hnotify

/-- Every step that is left out goes wrong: the exception follows a spurious wakeup, or the
condition variable can be used when it is gone. -/
theorem disturbed_breaks (hok : ¬ Undisturbed s l) (hstep : s.step l = some s') :
    ∃ ls s'', Runs.run step s' ls = some s'' ∧
      ((s''.subscriber = .thrown ∧ s''.waiter = .wokenUp) ∨ s''.deadCondition = true) := by
  cases l with
  | subscriber =>
      rcases not_and_or.mp hok with hfound | hleaves
      · obtain ⟨hat, hwoken, hflag⟩ : s.subscriber = .checking ∧ s.waiter = .wokenUp ∧
            s.subscriptionAnswered = false := by simpa using hfound
        have hs' : s' = s.goto .unsubscribing := by
          simpa [step, subscriberStep, hat, hflag] using hstep.symm
        subst hs'
        exact ⟨[.subscriber], _, rfl, .inl ⟨rfl, hwoken⟩⟩
      · obtain ⟨hleaves, hnotify⟩ : s.leaves = true ∧ s.willNotify = true := by
          simpa using hleaves
        have hs' : s'.subscriber.hasLeft = true ∧ s'.willNotify = s.willNotify := by
          rcases subscriberStep_cases hstep with ⟨hat, rfl⟩ | ⟨hat, -, rfl⟩ | ⟨hat, -, rfl⟩ |
            ⟨hat, hflag, rfl⟩ | ⟨hat, rfl⟩
          · simp [leaves, hat] at hleaves
          · simp [leaves, hat] at hleaves
          · exact ⟨rfl, rfl⟩
          · simp [leaves, hat, hflag] at hleaves
          · exact ⟨rfl, rfl⟩
        obtain ⟨ls, s'', hrun, hdead⟩ := notifies_dead hs'.1 (hs'.2.trans hnotify)
        exact ⟨ls, s'', hrun, .inr hdead⟩
  | _ => exact absurd trivial hok

/-- The first event arrives while the thread waits. -/
def answerFirst : List (HandshakeLabel ℕ) :=
  [.wait, .subscriber, .arrive 5, .handler, .handler, .handler, .handler, .subscriber, .subscriber]

/-- The answer comes in time and the constructor returns. -/
theorem handshake_safe_answerFirst :
    ∃ s, Runs.run step start answerFirst = some s ∧ s.subscriber = .returned ∧
      s.value = some 5 ∧ s.deadCondition = false := by
  have hrun : Runs.run step start answerFirst = some _ := rfl
  have hreach := Runs.reach_of_run hrun (by decide : Runs.RunMeets _ Undisturbed _ _)
  exact ⟨_, hrun, rfl, rfl, (handshake_safe hreach).2.2⟩

/-- Nothing has happened yet when the waiting thread wakes up. -/
def wakeEarly : List (HandshakeLabel ℕ) :=
  [.wait, .subscriber, .wakeup, .subscriber, .subscriber, .subscriber]

/-- The time is up between the store to the flag and the notification. -/
def notifyLate : List (HandshakeLabel ℕ) :=
  [.wait, .subscriber, .arrive 5, .handler, .handler, .timeout, .subscriber, .subscriber, .handler]

/-- A spurious wakeup makes `subscribeChanges` throw before its time is up, and a handler
notifies a condition variable that is gone. -/
theorem handshake_broken :
    (∃ s, Runs.run step start wakeEarly = some s ∧ s.subscriber = .thrown ∧
      s.waiter = .wokenUp) ∧
    ∃ s, Runs.run step start notifyLate = some s ∧ s.subscriber = .returned ∧
      s.deadCondition = true :=
  ⟨⟨_, rfl, rfl, rfl⟩, ⟨_, rfl, rfl, rfl⟩⟩

end Handshake

end CommonAPI
