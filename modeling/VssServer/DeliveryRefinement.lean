import VssServer.RateLimit
import VssServer.Subscriptions

/-!
# The server delivers at a limited rate

The server of `Server.lean` has no clock: its delivery timers expire at any time.
`Deliveries` is the part of its state that is about the deliveries of one subscription,
`DeliveryStep` what a step of the server can do to it, and `Represents` relates it to a
`RateLimit`.  So every subscription of the server goes through the deliveries of one that
is limited, at times that the server leaves open, and the futures that it binds to the
tasks of its thread are valid.

* `Step.deliveries`: every step of the server is one of the rate limiter for each
  subscription.
* `Represents.step`: the rate limiter follows it.
* `rateLimit_represents`: every subscription is a limited one.
* `futures_valid`: the futures that are bound to the tasks of its thread are valid.
-/

namespace GraphQLServer

variable {env : Environment} {s s' : State} {l : Label} {o : OperationId}

/-- The handler of the expired delivery timer of `o`. -/
def Task.dispatches (o : OperationId) : Task → Bool
  | .dispatchPendingDelivery o' => o' = o
  | _ => false

/-- Whether the future that is bound to the task has a state. -/
def ThreadTask.future : ThreadTask → Option Bool
  | .resolveSubscription valid => some valid
  | _ => none

/-- The part of the server that `RateLimit` is about. -/
structure Deliveries where
  stopped : Bool
  deliveryTimer : Timer
  pendingDelivery : Bool
  futures : List Bool
  handlers : ℕ

def Operation.deliveries (x : Operation) (handlers : ℕ) : Deliveries where
  stopped := x.stopped
  deliveryTimer := x.deliveryTimer
  pendingDelivery := x.pendingDelivery
  futures := x.tasks.filterMap ThreadTask.future
  handlers := handlers

def State.deliveries (s : State) (o : OperationId) : Deliveries :=
  (s.operations o).deliveries (s.queue.countP (Task.dispatches o))

/-- What a step of the server does to the deliveries of a subscription. -/
inductive DeliveryStep (v : Deliveries) : Deliveries → Prop
  | take {futures} (rest : futures <:+ v.futures) : DeliveryStep v { v with futures := futures }
  | schedule (running : v.stopped = false) :
      DeliveryStep v
        { v with
          pendingDelivery := true
          deliveryTimer := if v.deliveryTimer = .unset then .armed else v.deliveryTimer }
  | expire (armed : v.deliveryTimer = .armed) :
      DeliveryStep v { v with deliveryTimer := .expired, handlers := v.handlers + 1 }
  | dispatch {handlers} (queued : v.handlers = handlers + 1) (running : v.stopped = false) :
      DeliveryStep v
        { v with
          deliveryTimer := .unset
          pendingDelivery := false
          futures := v.futures ++ [v.pendingDelivery]
          handlers := handlers }
  | dispatchStopped {handlers} (queued : v.handlers = handlers + 1) (stopped : v.stopped = true) :
      DeliveryStep v { v with handlers := handlers }
  | stop (running : v.stopped = false) :
      DeliveryStep v
        { v with stopped := true, deliveryTimer := .unset, pendingDelivery := false }

/-- Most steps leave the deliveries of an operation alone. -/
theorem DeliveryStep.same {v : Deliveries} : DeliveryStep v v :=
  .take (List.suffix_refl _)

/-- A delivery is pending, or its timer is set. -/
def Operation.Scheduled (x : Operation) : Prop :=
  x.pendingDelivery = true ∨ x.deliveryTimer ≠ .unset

/-- Only a call of the main thread schedules a delivery. -/
theorem OperationStep.scheduled {e : Effects} {x x' : Operation} (hs : OperationStep e x x')
    (h : x'.Scheduled) : x.Scheduled ∨ e.called := by
  cases hs
  case stopSubscription | dispatch => simp [Operation.Scheduled] at h
  case schedule hcalled running => exact .inr hcalled
  case expire hdispatches armed => exact .inl (.inr (by simp [armed]))
  case subscribeFailed =>
    left
    right
    simpa [Operation.Scheduled] using h
  all_goals exact .inl h

/-- Who is called by the main thread has subscribed. -/
structure CalledBack (s : State) : Prop where
  registered : ∀ r ∈ s.registrations, (s.operations r.operation).subscribed = true
  called : ∀ o, Called s o → (s.operations o).subscribed = true
  scheduled : ∀ o, (s.operations o).Scheduled → (s.operations o).subscribed = true

/-- Nothing else is registered, called or scheduled than what has subscribed. -/
theorem CalledBack.step (h : CalledBack s) (hw : Wired s) (hs : Step env s l s') :
    CalledBack s' where
  registered := by
    intro r hr
    rcases hs.registrations with heq | ⟨o, key, name, -, -, hsubscribed, -, -, heq⟩ |
      ⟨o, -, -, -, heq⟩
    · exact (hw.subscribed_stays hs (h.registered r (heq ▸ hr))).1
    · rw [heq] at hr
      rcases List.mem_cons.mp hr with rfl | hr
      · exact hsubscribed
      · exact (hw.subscribed_stays hs (h.registered r hr)).1
    · rw [heq] at hr
      exact (hw.subscribed_stays hs (h.registered r (List.mem_of_mem_filter hr))).1
  called := by
    intro o ho
    suffices hbefore : (s.operations o).subscribed = true from (hw.subscribed_stays hs hbefore).1
    rcases hs.called ho with hcalled | harmed | ⟨r, hr, rfl⟩
    · exact h.called o hcalled
    · exact h.scheduled o (.inr (by rw [harmed]; exact nofun))
    · exact h.registered r hr
  scheduled := by
    intro o hscheduled
    rcases hs.operation o with heq | hchange | ⟨-, -, id, c, permissions, sub, key, heq, -⟩
    · rw [heq] at hscheduled ⊢
      exact h.scheduled o hscheduled
    · apply And.left
      apply hw.subscribed_stays hs
      rcases hchange.scheduled hscheduled with hbefore | hcalled
      · exact h.scheduled o hbefore
      · exact h.called o hcalled
    · rw [heq] at hscheduled
      simp [Operation.Scheduled, newOperation] at hscheduled

/-- This holds in every run. -/
theorem Reach.calledBack {ok : State → Label → Prop} (h : Runs.Reach (step env) ok initial s) :
    CalledBack s := by
  apply h.along (I := CalledBack)
  · refine ⟨nofun, ?_, ?_⟩
    · rintro o (hqueue | ⟨keys, remaining, hframe, -⟩)
      · cases hqueue
      · cases hframe
    · intro o hscheduled
      simp [Operation.Scheduled, initial] at hscheduled
  · intro s l s' hreach hs _ hstep
    exact hs.step (Reach.wired hreach) (step_cases hstep)

section Frames

variable {o' : OperationId} {t : Task} {queue : List Task}

/-- What leaves the deliveries of every operation alone. -/
theorem modified_deliveries {x' : Operation}
    (hchange : s'.operations = Function.update s.operations o' x') (hqueue : s'.queue = s.queue)
    (hx' : ∀ n, x'.deliveries n = (s.operations o').deliveries n) :
    s'.deliveries o = s.deliveries o := by
  unfold State.deliveries
  rw [hchange, hqueue]
  by_cases ho : o = o'
  · subst ho
    rw [Function.update_self, hx']
  · rw [Function.update_of_ne ho]

/-- A change of one operation that leaves the queue of the main thread. -/
theorem modified_step {x' : Operation}
    (hchange : s'.operations = Function.update s.operations o' x') (hqueue : s'.queue = s.queue)
    (hx' : o = o' → ∀ n, DeliveryStep ((s.operations o).deliveries n) (x'.deliveries n)) :
    DeliveryStep (s.deliveries o) (s'.deliveries o) := by
  unfold State.deliveries
  rw [hchange, hqueue]
  by_cases ho : o = o'
  · subst ho
    rw [Function.update_self]
    exact hx' rfl _
  · rw [Function.update_of_ne ho]
    exact .same

/-- Other tasks do not count. -/
theorem State.defer_deliveries (ht : t.dispatches o = false) :
    (s.defer t).deliveries o = s.deliveries o := by
  simp [State.deliveries, ht]

/-- Nor do other tasks that are taken. -/
theorem State.dequeue_deliveries (hnext : s.queue = t :: queue) (ht : t.dispatches o = false) :
    (s.dequeue queue).deliveries o = s.deliveries o := by
  simp [State.deliveries, hnext, ht]

/-- A reply is no dispatch. -/
theorem Answers.not_dispatches {c : ConnectionId} (h : Answers s c t) :
    t.dispatches o = false := by
  cases t
  case dispatchPendingDelivery o' => exact absurd rfl (h.not_dispatch o')
  all_goals rfl

/-- `stop` is the stop of the rate limiter. -/
theorem Stops.deliveries (h : Stops s o' s') (hw : (s.operations o).isSubscription = true) :
    DeliveryStep (s.deliveries o) (s'.deliveries o) := by
  by_cases ho : o = o'
  · subst ho
    cases h
    case already => exact .same
    case regular running kind =>
      rw [hw] at kind
      cases kind
    case subscription running kind =>
      have hstop := DeliveryStep.stop (v := s.deliveries o) running
      simpa [State.deliveries, Operation.deliveries, List.filterMap_cons, ThreadTask.future]
        using hstop
  · have hsame : s'.deliveries o = s.deliveries o := by
      unfold State.deliveries
      cases h <;> simp [ho]
    rw [hsame]
    exact .same

/-- A new operation does not change the others. -/
theorem State.addConnectionOperation_deliveries (h : o ≠ s.operationBound) (c : ConnectionId)
    (id : String) (sub : Bool) (key : SubscriptionKey) :
    (s.addConnectionOperation env c id sub key).deliveries o = s.deliveries o := by
  simp [State.deliveries, State.addConnectionOperation, Function.update_of_ne h]

/-- The thread takes its next task. -/
theorem Operation.take_deliveries {x x' : Operation} {t : ThreadTask} {n : ℕ}
    (hnext : x.tasks = t :: x'.tasks) (hstopped : x'.stopped = x.stopped)
    (htimer : x'.deliveryTimer = x.deliveryTimer)
    (hpending : x'.pendingDelivery = x.pendingDelivery) :
    DeliveryStep (x.deliveries n) (x'.deliveries n) := by
  have hrest : x'.tasks.filterMap ThreadTask.future <:+ x.tasks.filterMap ThreadTask.future := by
    rw [hnext]
    exact (List.suffix_cons _ _).filterMap _
  have htake := DeliveryStep.take (v := x.deliveries n) hrest
  unfold Operation.deliveries at htake ⊢
  rwa [hstopped, htimer, hpending]

/-- The handlers of a timer are the dispatches of its operation. -/
theorem Task.dispatches_iff : t.dispatches o = true ↔ t = .dispatchPendingDelivery o := by
  cases t <;> simp [Task.dispatches]

/-- Those of another operation do not count. -/
theorem Task.dispatches_other (h : o ≠ o') :
    (Task.dispatchPendingDelivery o').dispatches o = false := by
  simpa [Task.dispatches] using Ne.symm h

/-- A dispatch that is next is counted. -/
theorem State.dequeue_handlers (hnext : s.queue = .dispatchPendingDelivery o :: queue) :
    (s.deliveries o).handlers = queue.countP (Task.dispatches o) + 1 := by
  simp [State.deliveries, Operation.deliveries, hnext, Task.dispatches]

/-- A delivery timer expires. -/
theorem expired_step (armed : (s.operations o').deliveryTimer = .armed) :
    DeliveryStep (s.deliveries o)
      (((s.modify o' fun x => { x with deliveryTimer := .expired }).defer
        (.dispatchPendingDelivery o')).deliveries o) := by
  by_cases ho : o = o'
  · subst ho
    have hexpire := DeliveryStep.expire (v := s.deliveries o) armed
    simpa [State.deliveries, Operation.deliveries, Task.dispatches] using hexpire
  · rw [State.defer_deliveries (Task.dispatches_other ho)]
    exact modified_step rfl rfl fun heq => absurd heq ho

/-- The handler of a delivery timer runs, and its subscription has been stopped. -/
theorem dispatchedStopped_step (hnext : s.queue = .dispatchPendingDelivery o' :: queue)
    (stopped : (s.operations o').stopped = true) :
    DeliveryStep (s.deliveries o) ((s.dequeue queue).deliveries o) := by
  by_cases ho : o = o'
  · subst ho
    exact .dispatchStopped (State.dequeue_handlers hnext) stopped
  · rw [State.dequeue_deliveries hnext (Task.dispatches_other ho)]
    exact .same

/-- The handler of a delivery timer runs, and dispatches what is pending. -/
theorem dispatched_step (hnext : s.queue = .dispatchPendingDelivery o' :: queue)
    (running : (s.operations o').stopped = false) :
    DeliveryStep (s.deliveries o)
      (((s.dequeue queue).modify o' fun x =>
        { x with
          deliveryTimer := .unset
          pendingDelivery := false
          tasks := x.tasks ++ [.resolveSubscription x.pendingDelivery] }).deliveries o) := by
  by_cases ho : o = o'
  · subst ho
    have hdispatch := DeliveryStep.dispatch (State.dequeue_handlers hnext) running
    simpa [State.deliveries, Operation.deliveries, List.filterMap_cons, ThreadTask.future]
      using hdispatch
  · have hdequeue := State.dequeue_deliveries hnext (Task.dispatches_other ho)
    rw [← hdequeue]
    exact modified_step rfl rfl fun heq => absurd heq ho

end Frames

/-- **The server limits its deliveries.**  Every step is one of the rate limiter for each
subscription. -/
theorem Step.deliveries (hs : Step env s l s') (hw : Wired s) (hc : CalledBack s)
    (ho : (s.operations o).isSubscription = true) :
    DeliveryStep (s.deliveries o) (s'.deliveries o) := by
  have hsame : s'.deliveries o = s.deliveries o →
      DeliveryStep (s.deliveries o) (s'.deliveries o) := fun heq => heq ▸ .same
  have hknown := (hw.known ho).ne
  cases hs
  case messageStop stops | stopNext stops => exact stops.deliveries ho
  case forceStop idle next stops =>
    have hstop := stops.deliveries (o := o) ho
    rwa [State.dequeue_deliveries next rfl] at hstop
  case httpStarted =>
    apply hsame
    rw [State.addConnectionOperation_deliveries]
    · rfl
    · exact hknown
  case messageStart => exact hsame (State.addConnectionOperation_deliveries hknown ..)
  case expireDelivery armed => exact expired_step armed
  case dispatchStopped next stopped => exact dispatchedStopped_step next stopped
  case dispatch next running => exact dispatched_step next running
  case callback running key =>
    refine modified_step rfl rfl fun heq n => ?_
    subst heq
    exact .schedule running
  case takeStopped next stopped kind =>
    refine modified_step rfl rfl fun heq n => ?_
    subst heq
    exact Operation.take_deliveries next rfl rfl rfl
  case takeResolve next running | takeSubscribe next running | takeDelivery next running
    | takeUnsubscribe next =>
    refine modified_step rfl rfl fun heq n => ?_
    subst heq
    exact Operation.take_deliveries next rfl rfl rfl
  case subscribeFailed o' errors w copies subscribing next =>
    refine modified_step rfl rfl fun heq n => ?_
    subst heq
    have hpending : (s.operations o).pendingDelivery = false := by
      by_contra hpending
      have hsubscribed := hc.scheduled o (.inl (by simpa using hpending))
      have hfresh := ((hw.valid o).fresh (.inr subscribing)).1
      rw [hsubscribed] at hfresh
      cases hfresh
    have hnone := DeliveryStep.same (v := (s.operations o).deliveries n)
    unfold Operation.deliveries at hnone ⊢
    rwa [hpending] at hnone ⊢
  case complete o' completed =>
    refine modified_step rfl rfl fun heq n => ?_
    subst heq
    have hregular := ((hw.valid o).subscription ho).1
    rw [completed] at hregular
    cases hregular
  case messageAnswered answers | messageAuthorized answers =>
    apply hsame
    exact State.defer_deliveries answers.not_dispatches
  case replyData answers | replyComplete answers | replyDelivery answers =>
    apply hsame
    rw [State.defer_deliveries answers.not_dispatches]
    exact modified_deliveries rfl rfl fun _ => rfl
  case notifyInitial | deliveryFailed =>
    apply hsame
    rw [State.defer_deliveries rfl]
    exact modified_deliveries rfl rfl fun _ => rfl
  case httpUnauthorized | httpFailed | messageTerminate | expireNotify | slot =>
    apply hsame
    simp [State.deliveries, Operation.notification, Task.dispatches]
  case runNotify idle next | runDeliver idle next | sendHttp idle next | sendWebSocket idle next
    | terminate idle next => exact hsame (State.dequeue_deliveries next rfl)
  case validate | observe | resolvedStopped | resolved | deliveryResolved | httpComplete
    | deliveryPassed | subscribed | unsubscribe | signal =>
    exact hsame (modified_deliveries rfl rfl fun _ => rfl)
  all_goals exact .same

namespace RateLimit

/-- The server has the timer of the limited subscription, and knows of its futures whether
they have a state. -/
structure Represents (r : RateLimit Unit) (v : Deliveries) : Prop where
  stopped : v.stopped = r.stopped
  timer : v.deliveryTimer = r.deliveryTimer
  pending : v.pendingDelivery = r.pendingDelivery.isSome
  futures : v.futures <:+ r.resolutions.map Option.isSome
  handlers : v.handlers = r.handlers

variable {r : RateLimit Unit} {v v' : Deliveries}

/-- `onFutureSubscription` on both sides. -/
theorem Represents.schedule (h : r.Represents v) (running : v.stopped = false) :
    (r.onFutureSubscription () 0).Represents
      { v with
        pendingDelivery := true
        deliveryTimer := if v.deliveryTimer = .unset then .armed else v.deliveryTimer } := by
  obtain ⟨hstopped, htimer, hpending, hfutures, hhandlers⟩ := h
  have hrunning : ¬ r.stopped = true := by rw [← hstopped, running]; exact nofun
  unfold RateLimit.onFutureSubscription
  rw [if_neg hrunning]
  by_cases hset : r.deliveryTimer = .unset
  · rw [if_neg (not_not.mpr hset)]
    exact ⟨hstopped, if_pos (htimer.trans hset), rfl, hfutures, hhandlers⟩
  · rw [if_pos hset]
    refine ⟨hstopped, ?_, rfl, hfutures, hhandlers⟩
    exact (if_neg (htimer ▸ hset)).trans htimer

/-- `dispatchPendingDelivery` on both sides. -/
theorem Represents.dispatch (h : r.Represents v) {handlers : ℕ}
    (running : v.stopped = false) :
    ({ r with handlers := handlers }.dispatchPendingDelivery).Represents
      { v with
        deliveryTimer := .unset
        pendingDelivery := false
        futures := v.futures ++ [v.pendingDelivery]
        handlers := handlers } := by
  obtain ⟨hstopped, htimer, hpending, ⟨before, hfutures⟩, hhandlers⟩ := h
  have hrunning : ¬ r.stopped = true := by rw [← hstopped, running]; exact nofun
  unfold dispatchPendingDelivery
  rw [if_neg hrunning]
  refine ⟨hstopped, rfl, rfl, ⟨before, ?_⟩, rfl⟩
  rw [List.map_append, ← hfutures, List.append_assoc, hpending]
  rfl

/-- Time passes until the timer is due, and it expires. -/
theorem Represents.expire (h : r.Represents v) (armed : v.deliveryTimer = .armed) :
    ∃ r', Runs.Reach RateLimit.step Runs.always r r' ∧
      r'.Represents { v with deliveryTimer := .expired, handlers := v.handlers + 1 } := by
  obtain ⟨hstopped, htimer, hpending, hfutures, hhandlers⟩ := h
  have hdue : r.expiry ≤ r.now + (r.expiry - r.now).toNat := by
    linarith [Int.self_le_toNat (r.expiry - r.now)]
  have hwait : RateLimit.step r (.wait (r.expiry - r.now).toNat) = some _ := rfl
  refine ⟨_, (Runs.Reach.refl.tail trivial hwait).tail (l := .expire) trivial
    (if_pos ⟨htimer ▸ armed, hdue⟩), ?_⟩
  exact ⟨hstopped, rfl, hpending, hfutures, congrArg (· + 1) hhandlers⟩

/-- **Simulation.**  The rate limiter follows every step of the subscription. -/
theorem Represents.step (h : r.Represents v) (hs : DeliveryStep v v') :
    ∃ r', Runs.Reach RateLimit.step Runs.always r r' ∧ r'.Represents v' := by
  have hone : ∀ {l : RateLabel Unit} {r' : RateLimit Unit}, RateLimit.step r l = some r' →
      Runs.Reach RateLimit.step Runs.always r r' := fun hnext => .tail .refl trivial hnext
  cases hs
  case take futures rest =>
    exact ⟨r, .refl, h.stopped, h.timer, h.pending, rest.trans h.futures, h.handlers⟩
  case schedule running =>
    exact ⟨_, hone (l := .onFutureSubscription () 0) rfl, h.schedule running⟩
  case expire armed => exact h.expire armed
  case dispatch handlers queued running =>
    have hqueued : r.handlers = handlers + 1 := h.handlers ▸ queued
    refine ⟨_, hone (l := .dispatchPendingDelivery) (if_pos (by omega)), ?_⟩
    rw [hqueued]
    exact h.dispatch running
  case dispatchStopped handlers queued stopped =>
    have hqueued : r.handlers = handlers + 1 := h.handlers ▸ queued
    refine ⟨_, hone (l := .dispatchPendingDelivery) (if_pos (by omega)), ?_⟩
    unfold dispatchPendingDelivery
    rw [if_pos (h.stopped ▸ stopped)]
    exact ⟨h.stopped, h.timer, h.pending, h.futures, by simp [hqueued]⟩
  case stop running =>
    refine ⟨_, hone (l := .stop) rfl, ?_⟩
    unfold RateLimit.stop
    rw [if_neg (by rw [← h.stopped, running]; exact nofun)]
    exact ⟨rfl, rfl, rfl, h.futures, h.handlers⟩

end RateLimit

/-- A subscription that has just been created. -/
theorem CalledBack.created (h : CalledBack s) {now : Ticks} {id : String} {c : ConnectionId}
    {permissions : Option Permissions.ClientPermissions} {key : SubscriptionKey}
    (hnew : s.operations o = newOperation env id c permissions true key) :
    (RateLimit.start now).Represents (s.deliveries o) := by
  have hnone : s.queue.countP (Task.dispatches o) = 0 := by
    apply List.countP_eq_zero.mpr
    intro t hmem hdispatches
    have hsubscribed := h.called o (.inl (Task.dispatches_iff.mp hdispatches ▸ hmem))
    rw [hnew] at hsubscribed
    cases hsubscribed
  unfold State.deliveries
  rw [hnew, hnone]
  exact ⟨rfl, rfl, rfl, List.suffix_refl _, rfl⟩

/-- **Refinement.**  Whatever the server does, the deliveries of each of its subscriptions
are those of a limited one. -/
theorem rateLimit_represents {ok : State → Label → Prop} (now : Ticks)
    (h : Runs.Reach (step env) ok initial s) (ho : (s.operations o).isSubscription = true) :
    ∃ r : RateLimit Unit, Runs.Reach RateLimit.step Runs.always (RateLimit.start now) r ∧
      r.Represents (s.deliveries o) := by
  revert ho
  apply h.along (I := fun s => (s.operations o).isSubscription = true →
    ∃ r : RateLimit Unit, Runs.Reach RateLimit.step Runs.always (RateLimit.start now) r ∧
      r.Represents (s.deliveries o))
  · intro ho
    cases ho
  · intro s l s' hreach hrepresents hok hstep ho
    have hs := step_cases hstep
    by_cases hold : (s.operations o).isSubscription = true
    · obtain ⟨r, hr, hv⟩ := hrepresents hold
      obtain ⟨r', hnext, hv'⟩ :=
        hv.step (hs.deliveries (Reach.wired hreach) (Reach.calledBack hreach) hold)
      exact ⟨r', hr.trans hnext, hv'⟩
    · rcases hs.operation o with heq | hchange | ⟨-, -, id, c, permissions, sub, key, heq, -⟩
      · exact absurd (heq ▸ ho) hold
      · exact absurd (hchange.fixed.2.2 ▸ ho) hold
      · have hkind : sub = true := by
          rw [heq] at ho
          exact ho
        rw [hkind] at heq
        exact ⟨_, .refl, (Reach.calledBack (hreach.tail hok hstep)).created heq⟩

/-- The futures that are bound to the tasks of a subscription which refines a limited one are
valid, and as long as it runs there is one to come exactly if its timer is set. -/
theorem RateLimit.Represents.valid {now : Ticks} {r : RateLimit Unit}
    (hr : Runs.Reach RateLimit.step Runs.always (RateLimit.start now) r)
    (hv : r.Represents (s.deliveries o)) :
    .resolveSubscription false ∉ (s.operations o).tasks ∧
      ((s.operations o).stopped = false →
        ((s.operations o).pendingDelivery = true ↔
          (s.operations o).deliveryTimer ≠ .unset)) := by
  have hlimited := RateLimit.Reach.limited hr
  constructor
  · intro hmem
    have hfuture : false ∈ (s.deliveries o).futures :=
      List.mem_filterMap.mpr ⟨_, hmem, rfl⟩
    obtain ⟨future, hresolution, hnone⟩ := List.mem_map.mp (hv.futures.mem hfuture)
    rw [hlimited.resolutions future hresolution] at hnone
    cases hnone
  · intro hrunning
    have hvalid := hlimited.valid (hv.stopped ▸ hrunning)
    rwa [← hv.pending, ← hv.timer] at hvalid

/-- **The server's subscriptions are rate limited.**  In every reached state a subscription
refines a state of the rate limiter, whenever this was started; so the futures that are bound
to the tasks of its thread are valid, and as long as it runs there is one to come exactly if
its timer is set. -/
theorem futures_valid {ok : State → Label → Prop} (h : Runs.Reach (step env) ok initial s)
    (ho : (s.operations o).isSubscription = true) :
    (∀ now, ∃ r : RateLimit Unit,
      Runs.Reach RateLimit.step Runs.always (RateLimit.start now) r ∧
        r.Represents (s.deliveries o)) ∧
      .resolveSubscription false ∉ (s.operations o).tasks ∧
      ((s.operations o).stopped = false →
        ((s.operations o).pendingDelivery = true ↔
          (s.operations o).deliveryTimer ≠ .unset)) := by
  obtain ⟨r, hr, hv⟩ := rateLimit_represents 0 h ho
  exact ⟨fun now => rateLimit_represents now h ho, hv.valid hr⟩

set_option maxRecDepth 4000 in
/-- The first delivery of the first client is dispatched. -/
theorem futures_valid_dispatchFirst :
    ∃ s, Runs.run (step vehicle) initial (connectSubscribe ++ .worker 0 :: dispatchFirst) =
        some s ∧
      (s.operations 0).tasks = [.resolveSubscription true] ∧
      .resolveSubscription false ∉ (s.operations 0).tasks ∧
      ((s.operations 0).stopped = false →
        ((s.operations 0).pendingDelivery = true ↔
          (s.operations 0).deliveryTimer ≠ .unset)) := by
  have hrun : Runs.run (step vehicle) initial (connectSubscribe ++ .worker 0 :: dispatchFirst) =
    some _ := rfl
  have hreach := Runs.reach_of_run hrun Runs.runMeets_always
  exact ⟨_, hrun, rfl, (futures_valid hreach rfl).2⟩

end GraphQLServer
