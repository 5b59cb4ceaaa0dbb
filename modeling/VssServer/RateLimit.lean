import Mathlib.Algebra.Order.Ring.Int
import Mathlib.Tactic.Linarith
import VssServer.Histories
import VssServer.Server

/-!
# How often a subscription is delivered

`onFutureSubscription` keeps the last response that was accepted for a subscription and
arms a timer, unless one is set already; `dispatchPendingDelivery` hands the response to
the thread of the operation and remembers the time.  `RateLimit` has the four fields that
these functions, `stop` and `setSubscriptionmIntervalBetweenDeliveries` share, and the
clock.  A handler reads the interval once, so a handler that arms a timer is one step; the
clock may go on between its two readings.

Everything follows from the invariant `Limited`: a set timer has a response to deliver, and
does not expire before the interval has passed since the last delivery.

* `Limited.step`: every step keeps the invariant.
* `Limited.fate`: what becomes of an accepted response.
* `delivery_limited`: how often, when and with which responses a subscription is delivered.
-/

namespace GraphQLServer

open Histories (Lawful)

/-- Ticks of `steady_clock`, nanoseconds. -/
abbrev Ticks := ℤ

def milliseconds (n : ℤ) : Ticks := 1000000 * n

/-- What happens to the responses of a subscription; `interval` is what
`m_intervalBetweenDeliveries` was when the timer of the dispatch was armed. -/
inductive DeliveryEvent (ρ : Type*)
  | accepted (response : ρ)
  | dispatched (future : Option ρ) (time interval : Ticks)
  | stopped

/-- A subscription operation, as far as its deliveries are concerned.  A future without a
state is `none`.  `handlers` are the handlers of expired timers that are queued,
`resolutions` the futures that were handed to its thread.  `armedInterval` and `log` are
ghosts. -/
structure RateLimit (ρ : Type*) where
  now : Ticks
  stopped : Bool
  intervalBetweenDeliveries : Ticks
  lastDelivery : Ticks
  deliveryTimer : Timer
  expiry : Ticks
  pendingDelivery : Option ρ
  handlers : ℕ
  resolutions : List (Option ρ)
  armedInterval : Ticks
  log : List (DeliveryEvent ρ)

/-- One step: time passes, a resolver changes the interval, a response with the key of the
operation is delivered (`elapsed` passes before its timer is armed), the timer expires, its
handler runs, the operation is stopped. -/
inductive RateLabel (ρ : Type*)
  | wait (elapsed : ℕ)
  | setSubscriptionmIntervalBetweenDeliveries (interval : ℤ)
  | onFutureSubscription (futureResponse : ρ) (elapsed : ℕ)
  | expire
  | dispatchPendingDelivery
  | stop

namespace RateLimit

variable {ρ : Type*}

/-- After `start`, which was called at the time `now`. -/
def start (now : Ticks) : RateLimit ρ where
  now := now
  stopped := false
  intervalBetweenDeliveries := milliseconds 5000
  lastDelivery := 0
  deliveryTimer := .unset
  expiry := 0
  pendingDelivery := none
  handlers := 0
  resolutions := []
  armedInterval := 0
  log := []

/-- `calculateTimeRemainingToDeliver`. -/
def calculateTimeRemainingToDeliver (s : RateLimit ρ) : Ticks :=
  let timeSinceLastDelivery := s.now - s.lastDelivery
  max 0 (s.intervalBetweenDeliveries - timeSinceLastDelivery)

/-- `onFutureSubscription` of a response that it does not ignore. -/
def onFutureSubscription (s : RateLimit ρ) (futureResponse : ρ) (elapsed : ℕ) : RateLimit ρ :=
  if s.stopped then s
  else
    let timeRemainingToDeliver := s.calculateTimeRemainingToDeliver
    let s :=
      { s with
        pendingDelivery := some futureResponse
        now := s.now + elapsed
        log := s.log ++ [.accepted futureResponse] }
    -- already scheduled, or it may never expire
    if s.deliveryTimer ≠ .unset then s
    else
      { s with
        deliveryTimer := .armed
        expiry := s.now + timeRemainingToDeliver
        armedInterval := s.intervalBetweenDeliveries }

/-- `dispatchPendingDelivery`. -/
def dispatchPendingDelivery (s : RateLimit ρ) : RateLimit ρ :=
  if s.stopped then s
  else
    { s with
      lastDelivery := s.now
      deliveryTimer := .unset
      pendingDelivery := none
      resolutions := s.resolutions ++ [s.pendingDelivery]
      log := s.log ++ [.dispatched s.pendingDelivery s.now s.armedInterval] }

/-- `stop`. -/
def stop (s : RateLimit ρ) : RateLimit ρ :=
  if s.stopped then s
  else
    { s with
      stopped := true
      deliveryTimer := .unset
      pendingDelivery := none
      log := s.log ++ [.stopped] }

def step (s : RateLimit ρ) : RateLabel ρ → Option (RateLimit ρ)
  | .wait elapsed => some { s with now := s.now + elapsed }
  | .setSubscriptionmIntervalBetweenDeliveries interval =>
      some { s with intervalBetweenDeliveries := milliseconds interval }
  | .onFutureSubscription futureResponse elapsed =>
      some (s.onFutureSubscription futureResponse elapsed)
  | .expire =>
      if s.deliveryTimer = .armed ∧ s.expiry ≤ s.now then
        some { s with deliveryTimer := .expired, handlers := s.handlers + 1 }
      else none
  | .dispatchPendingDelivery =>
      if 0 < s.handlers then some { s with handlers := s.handlers - 1 }.dispatchPendingDelivery
      else none
  | .stop => some s.stop

/-- The last delivery was dispatched at the time `t`. -/
def LastDispatch (log : List (DeliveryEvent ρ)) (t : Ticks) : Prop :=
  ∃ before future interval after, log = before ++ .dispatched future t interval :: after ∧
    ∀ f t' i, .dispatched f t' i ∉ after

/-- What may happen after `before`: nothing once the operation is stopped; a response is
dispatched right after it was accepted, and not before the interval has passed since the
last dispatch. -/
inductive Allowed (before : List (DeliveryEvent ρ)) : DeliveryEvent ρ → Prop
  | accepted {response} (running : .stopped ∉ before) : Allowed before (.accepted response)
  | dispatched {response time interval} (running : .stopped ∉ before)
      (latest : ∃ earlier, before = earlier ++ [.accepted response])
      (spaced : ∀ t, LastDispatch before t → t + interval ≤ time) :
      Allowed before (.dispatched (some response) time interval)
  | stopped (running : .stopped ∉ before) : Allowed before .stopped

/-- The pending response and the timer belong together, and the timer is late enough. -/
structure Limited (s : RateLimit ρ) : Prop where
  running : s.stopped = false → .stopped ∉ s.log
  valid : s.stopped = false → (s.pendingDelivery.isSome ↔ s.deliveryTimer ≠ .unset)
  handlers : s.stopped = false → s.handlers = if s.deliveryTimer = .expired then 1 else 0
  due : s.deliveryTimer = .expired → s.expiry ≤ s.now
  spaced : s.deliveryTimer ≠ .unset → s.lastDelivery + s.armedInterval ≤ s.expiry
  last : ∀ t, LastDispatch s.log t → t = s.lastDelivery
  latest : ∀ response, s.pendingDelivery = some response ↔
    ∃ earlier, s.log = earlier ++ [.accepted response]
  resolutions : ∀ future ∈ s.resolutions, future.isSome
  lawful : Lawful Allowed s.log

variable {s s' : RateLimit ρ} {l : RateLabel ρ} {log : List (DeliveryEvent ρ)}

/-- The last dispatch is the new event, or was the last one before. -/
theorem LastDispatch.concat {e : DeliveryEvent ρ} {t : Ticks} (h : LastDispatch (log ++ [e]) t) :
    (∃ future interval, e = .dispatched future t interval) ∨
      (∀ f t' i, e ≠ .dispatched f t' i) ∧ LastDispatch log t := by
  obtain ⟨before, future, interval, after, hlog, hnone⟩ := h
  rcases Histories.concat_split hlog with ⟨-, he, -⟩ | ⟨rest, rfl, hrest⟩
  · exact .inl ⟨future, interval, he⟩
  · refine .inr ⟨?_, before, future, interval, rest, hrest, ?_⟩
    · rintro f t' i rfl
      exact hnone f t' i (by simp)
    · intro f t' i hmem
      exact hnone f t' i (List.mem_append_left _ hmem)

/-- A timer that is armed now does not expire before the interval has passed. -/
theorem remaining_spaced (s : RateLimit ρ) (elapsed : ℕ) :
    s.lastDelivery + s.intervalBetweenDeliveries ≤
      s.now + elapsed + s.calculateTimeRemainingToDeliver := by
  have hremaining : s.intervalBetweenDeliveries - (s.now - s.lastDelivery) ≤
      s.calculateTimeRemainingToDeliver := le_max_right _ _
  linarith [Int.natCast_nonneg elapsed]

/-- A response is accepted. -/
theorem Limited.onFutureSubscription (h : s.Limited) (futureResponse : ρ) (elapsed : ℕ) :
    (s.onFutureSubscription futureResponse elapsed).Limited := by
  unfold RateLimit.onFutureSubscription
  by_cases hstopped : s.stopped
  · rwa [if_pos hstopped]
  rw [if_neg hstopped]
  have hrunning : s.stopped = false := by simpa using hstopped
  have hlog : .stopped ∉ s.log ++ [.accepted futureResponse] := by simpa using h.running hrunning
  have hlast : ∀ t, LastDispatch (s.log ++ [.accepted futureResponse]) t → t = s.lastDelivery := by
    intro t ht
    rcases ht.concat with ⟨future, interval, he⟩ | ⟨-, hold⟩
    · cases he
    · exact h.last t hold
  have hlatest : ∀ response, some futureResponse = some response ↔
      ∃ earlier, s.log ++ [.accepted futureResponse] = earlier ++ [.accepted response] := by
    intro response
    constructor
    · rintro ⟨⟩
      exact ⟨s.log, rfl⟩
    · rintro ⟨earlier, hlog⟩
      cases (List.append_inj' hlog rfl).2
      rfl
  have hlawful : Lawful Allowed (s.log ++ [.accepted futureResponse]) :=
    h.lawful.concat (.accepted (h.running hrunning))
  dsimp only
  by_cases hset : s.deliveryTimer = .unset
  · rw [if_neg (not_not.mpr hset)]
    have hspaced := s.remaining_spaced elapsed
    have hhandlers := h.handlers hrunning
    rw [hset] at hhandlers
    exact ⟨fun _ => hlog, fun _ => iff_of_true rfl nofun, fun _ => hhandlers, nofun,
      fun _ => hspaced, hlast, hlatest, h.resolutions, hlawful⟩
  · rw [if_pos hset]
    have hdue : s.deliveryTimer = .expired → s.expiry ≤ s.now + elapsed := by
      intro hexpired
      linarith [h.due hexpired, Int.natCast_nonneg elapsed]
    exact ⟨fun _ => hlog, fun _ => iff_of_true rfl hset, h.handlers, hdue, h.spaced, hlast,
      hlatest, h.resolutions, hlawful⟩

/-- The pending response is dispatched. -/
theorem Limited.dispatch (h : s.Limited) (hhandlers : 0 < s.handlers) :
    ({ s with handlers := s.handlers - 1 }.dispatchPendingDelivery).Limited := by
  unfold dispatchPendingDelivery
  by_cases hstopped : s.stopped
  · rw [if_pos hstopped]
    exact ⟨h.running, h.valid, fun hrunning => absurd hstopped (by simpa using hrunning), h.due,
      h.spaced, h.last, h.latest, h.resolutions, h.lawful⟩
  rw [if_neg hstopped]
  have hrunning : s.stopped = false := by simpa using hstopped
  have hcount := h.handlers hrunning
  have hexpired : s.deliveryTimer = .expired := by
    by_contra hnot
    rw [if_neg hnot] at hcount
    omega
  have hset : s.deliveryTimer ≠ .unset := by
    rw [hexpired]
    exact nofun
  obtain ⟨response, hpending⟩ := Option.isSome_iff_exists.mp ((h.valid hrunning).mpr hset)
  have hallowed : Allowed s.log (.dispatched (some response) s.now s.armedInterval) := by
    refine .dispatched (h.running hrunning) ((h.latest response).mp hpending) ?_
    intro t ht
    rw [h.last t ht]
    linarith [h.spaced hset, h.due hexpired]
  refine ⟨fun _ => ?_, fun _ => iff_of_false nofun (not_not.mpr rfl), fun _ => ?_, nofun,
    fun hnone => absurd rfl hnone, ?_, ?_, ?_, ?_⟩
  · simpa using h.running hrunning
  · rw [if_pos hexpired] at hcount
    simp [hcount]
  · intro t ht
    rcases ht.concat with ⟨future, interval, he⟩ | ⟨hother, -⟩
    · cases he
      rfl
    · exact absurd rfl (hother _ _ _)
  · intro response
    refine iff_of_false nofun ?_
    rintro ⟨earlier, hlog⟩
    cases (List.append_inj' hlog rfl).2
  · intro future hmem
    rcases List.mem_append.mp hmem with hmem | hlast
    · exact h.resolutions future hmem
    · rw [List.mem_singleton.mp hlast, hpending]
      rfl
  · exact h.lawful.concat (hpending ▸ hallowed)

/-- What is pending is discarded. -/
theorem Limited.stop (h : s.Limited) : s.stop.Limited := by
  unfold RateLimit.stop
  by_cases hstopped : s.stopped
  · rwa [if_pos hstopped]
  rw [if_neg hstopped]
  refine ⟨nofun, nofun, nofun, nofun, fun hnone => absurd rfl hnone, ?_, ?_, h.resolutions,
    h.lawful.concat (.stopped (h.running (by simpa using hstopped)))⟩
  · intro t ht
    rcases ht.concat with ⟨future, interval, he⟩ | ⟨-, hold⟩
    · cases he
    · exact h.last t hold
  · intro response
    refine iff_of_false nofun ?_
    rintro ⟨earlier, hlog⟩
    cases (List.append_inj' hlog rfl).2

/-- The timer expires. -/
theorem Limited.expire (h : s.Limited) (harmed : s.deliveryTimer = .armed)
    (hdue : s.expiry ≤ s.now) :
    Limited { s with deliveryTimer := .expired, handlers := s.handlers + 1 } := by
  have hset : s.deliveryTimer ≠ .unset := by
    rw [harmed]
    exact nofun
  refine ⟨h.running, ?_, ?_, fun _ => hdue, fun _ => h.spaced hset, h.last, h.latest,
    h.resolutions, h.lawful⟩
  · intro hrunning
    exact iff_of_true ((h.valid hrunning).mpr hset) nofun
  · intro hrunning
    simp [h.handlers hrunning, harmed]

/-- Time goes by. -/
theorem Limited.wait (h : s.Limited) (elapsed : ℕ) : Limited { s with now := s.now + elapsed } := by
  refine ⟨h.running, h.valid, h.handlers, ?_, h.spaced, h.last, h.latest, h.resolutions, h.lawful⟩
  intro hexpired
  exact (h.due hexpired).trans (by simp)

/-- Every step keeps the deliveries limited. -/
theorem Limited.step (h : s.Limited) (hs : s.step l = some s') : s'.Limited := by
  cases l with
  | wait elapsed => cases hs; exact h.wait elapsed
  | setSubscriptionmIntervalBetweenDeliveries interval =>
      cases hs
      exact ⟨h.running, h.valid, h.handlers, h.due, h.spaced, h.last, h.latest, h.resolutions,
        h.lawful⟩
  | onFutureSubscription futureResponse elapsed =>
      cases hs
      exact h.onFutureSubscription futureResponse elapsed
  | expire =>
      obtain ⟨⟨harmed, hdue⟩, hs⟩ := Option.ite_none_right_eq_some.mp hs
      cases hs
      exact h.expire harmed hdue
  | dispatchPendingDelivery =>
      obtain ⟨hhandlers, hs⟩ := Option.ite_none_right_eq_some.mp hs
      cases hs
      exact h.dispatch hhandlers
  | stop => cases hs; exact h.stop

/-- Nothing has been delivered yet. -/
theorem start_limited (now : Ticks) : (start now : RateLimit ρ).Limited where
  running _ := List.not_mem_nil
  valid _ := iff_of_false nofun (not_not.mpr rfl)
  handlers _ := rfl
  due := nofun
  spaced hset := absurd rfl hset
  last := by
    rintro t ⟨before, future, interval, after, hlog, -⟩
    simp [start] at hlog
  latest response := iff_of_false nofun (by simp [start])
  resolutions := nofun
  lawful := Histories.lawful_nil

/-- The deliveries are limited in every run. -/
theorem Reach.limited {now : Ticks} (h : Runs.Reach step Runs.always (start now) s) :
    s.Limited :=
  h.invariant (start_limited now) fun _ _ _ hs _ hstep => hs.step hstep

/-- What became of a response that was accepted: it waits, a later one took its place, it
was dispatched next, or `stop` discarded it. -/
inductive Fate (s : RateLimit ρ) (response : ρ) : List (DeliveryEvent ρ) → Prop
  | pending (waits : s.pendingDelivery = some response) : Fate s response []
  | superseded {later after} : Fate s response (.accepted later :: after)
  | dispatched {time interval after} :
      Fate s response (.dispatched (some response) time interval :: after)
  | discarded : Fate s response [.stopped]

/-- What was accepted waits, was superseded or dispatched, or `stop` has discarded it. -/
theorem Limited.fate (h : s.Limited) {before after : List (DeliveryEvent ρ)} {response : ρ}
    (hlog : s.log = before ++ .accepted response :: after) : Fate s response after := by
  cases after with
  | nil => exact .pending ((h.latest response).mpr ⟨before, hlog⟩)
  | cons e after =>
      have hallowed := h.lawful (before ++ [.accepted response]) e after (by simp [hlog])
      cases hallowed with
      | accepted running => exact .superseded
      | @dispatched response' time interval running latest spaced =>
          obtain ⟨earlier, hlatest⟩ := latest
          cases (List.append_inj' hlatest rfl).2
          exact .dispatched
      | stopped running =>
          cases after with
          | nil => exact .discarded
          | cons e' after =>
              have hnext := h.lawful (before ++ [.accepted response, .stopped]) e' after
                (by simp [hlog])
              cases hnext <;> simp_all

/-- **The rate limit.**  While the operation runs, a response is pending exactly if the
timer is set, so only valid futures are handed to its thread; an accepted response waits, is
superseded by the next one, dispatched as the next thing that happens, or discarded by
`stop`; a dispatch delivers the response that was accepted last, and comes no earlier after
the previous dispatch than the interval that its timer was armed with. -/
theorem delivery_limited {now : Ticks} (h : Runs.Reach step Runs.always (start now) s) :
    (s.stopped = false → (s.pendingDelivery.isSome ↔ s.deliveryTimer ≠ .unset)) ∧
    (∀ future ∈ s.resolutions, future.isSome) ∧
    (∀ before response after, s.log = before ++ .accepted response :: after →
      Fate s response after) ∧
    ∀ before future time interval after,
      s.log = before ++ .dispatched future time interval :: after →
        (∃ earlier response, before = earlier ++ [.accepted response] ∧
          future = some response) ∧
        ∀ t, LastDispatch before t → t + interval ≤ time := by
  have hlimited := Reach.limited h
  refine ⟨hlimited.valid, hlimited.resolutions, ?_, ?_⟩
  · intro before response after hlog
    exact hlimited.fate hlog
  · intro before future time interval after hlog
    cases hlimited.lawful before _ after hlog with
    | dispatched running latest spaced =>
        obtain ⟨earlier, hlatest⟩ := latest
        exact ⟨⟨earlier, _, hlatest, rfl⟩, spaced⟩

/-- Two deliveries; the first one takes the second response, the interval changes before the
timer of the other is armed. -/
def deliverTwice : List (RateLabel ℕ) :=
  [.onFutureSubscription 1 3, .onFutureSubscription 2 0, .expire, .dispatchPendingDelivery,
    .setSubscriptionmIntervalBetweenDeliveries 100, .onFutureSubscription 3 5, .wait 100000000,
    .expire, .dispatchPendingDelivery]

/-- The second delivery waits for the interval of the first one. -/
theorem delivery_limited_deliverTwice :
    ∃ s, Runs.run step (start (milliseconds 60000)) deliverTwice = some s ∧
      s.resolutions = [some 2, some 3] ∧ s.deliveryTimer = .unset ∧
      (s.pendingDelivery.isSome ↔ s.deliveryTimer ≠ .unset) := by
  have hrun : Runs.run step (start (milliseconds 60000)) deliverTwice = some _ := rfl
  have hreach := Runs.reach_of_run hrun Runs.runMeets_always
  exact ⟨_, hrun, rfl, rfl, (delivery_limited hreach).1 rfl⟩

end RateLimit

end GraphQLServer
