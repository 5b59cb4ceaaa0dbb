import VssServer.Subscriptions

/-!
# No change is lost

A change that a subscription observes goes from hand to hand until its thread
resolves the query again: the signal slot posts a notification, the main thread
collects notifications by name until a timer expires, calls the callbacks of each
name back, and a second timer limits how often an operation is dispatched.  Each
of them posts nothing new when something of its kind is on its way already.

`Waiting` is where a change may lie between these steps, `Carried` where it is in
the middle of one.  The lemmas before `no_change_lost` follow it from one place
to the next.

* `Timers`: a timer that has expired has posted its handler.
* `InFlight.step`: a change stays in flight until it is delivered.
* `no_change_lost`: wherever a run leads, no change is lost.
-/

namespace GraphQLServer

open Response Permissions

/-- Something of `o` is still in flight. -/
inductive Waiting (s : State) (o : OperationId) : Prop
  /-- A `notifyInMainThread` task with its key is queued. -/
  | deferred {keys}
      (queued : .notifyInMainThread (s.operations o).subscriptionName keys ∈ s.queue)
      (mem : (s.operations o).subscriptionKey ∈ keys)
  /-- Its key is in `m_pendingNotifyTriggers` under its name, `m_notifyTimer` is set. -/
  | coalesced {keys}
      (pending : s.pendingNotifyTriggers.lookup (s.operations o).subscriptionName = some keys)
      (mem : (s.operations o).subscriptionKey ∈ keys) (set : s.notifyTimer ≠ .unset)
  /-- `m_deliveryTimer` is set and `m_pendingDelivery` is valid. -/
  | limited (pending : (s.operations o).pendingDelivery = true)
      (set : (s.operations o).deliveryTimer ≠ .unset)
  /-- `resolveSubscriptionInAThread` is queued on its thread. -/
  | dispatched (queued : .resolveSubscription true ∈ (s.operations o).tasks)

/-- A signal slot of `o` has begun, or the main thread is in `deliverNotifications`
and has the callback of `o` still to call. -/
inductive Carried (s : State) (o : OperationId) : Prop
  | slot (mem : o ∈ s.slots)
  | names {triggers keys} (frame : .deliverNames triggers ∈ s.frames)
      (pending : ((s.operations o).subscriptionName, keys) ∈ triggers)
      (mem : (s.operations o).subscriptionKey ∈ keys)
  | callback {keys remaining} (frame : .deliver keys remaining ∈ s.frames) (left : o ∈ remaining)
      (mem : (s.operations o).subscriptionKey ∈ keys)

/-- The handler of an expired timer is queued. -/
structure Timers (s : State) : Prop where
  notify : s.notifyTimer = .expired → .deliverNotifications ∈ s.queue
  delivery : ∀ o, (s.operations o).stopped = false → (s.operations o).deliveryTimer = .expired →
    .dispatchPendingDelivery o ∈ s.queue

section Operations

variable {e : Effects} {x x' : Operation}

/-- A delivery timer expires only if its handler is queued. -/
theorem OperationStep.expired (hs : OperationStep e x x') (hrunning : x'.stopped = false)
    (h : x'.deliveryTimer = .expired) : x.deliveryTimer = .expired ∨ e.dispatches := by
  cases hs
  case expire hdispatches armed => exact .inr hdispatches
  case schedule hcalled running =>
    unfold Operation.schedule at h
    by_cases htimer : x.deliveryTimer = .unset
    · simp [htimer] at h
    · exact .inl (by simpa [htimer] using h)
  case dispatch => cases h
  case stopSubscription => cases h
  all_goals exact .inl h

/-- A pending delivery stays until it is dispatched. -/
theorem OperationStep.limited (hs : OperationStep e x x') (hvalid : x.Valid)
    (hsub : x.subscribed = true) (hrunning : x'.stopped = false)
    (hpending : x.pendingDelivery = true) (hset : x.deliveryTimer ≠ .unset) :
    (x'.pendingDelivery = true ∧ x'.deliveryTimer ≠ .unset) ∨
      .resolveSubscription true ∈ x'.tasks := by
  cases hs
  case stopSubscription => cases hrunning
  case expire => exact .inl ⟨hpending, nofun⟩
  case dispatch => exact .inr (by simp [hpending])
  case schedule => exact .inl ⟨rfl, by simp [Operation.schedule, hset]⟩
  case subscribeFailed subscribing next =>
    have hfresh := (hvalid.fresh (.inr subscribing)).1
    simp [hsub] at hfresh
  all_goals exact .inl ⟨hpending, hset⟩

/-- A dispatched delivery stays queued until it is resolved. -/
theorem OperationStep.dispatched (hs : OperationStep e x x') (hrunning : x'.stopped = false)
    (hdirty : x'.dirty = true) (h : .resolveSubscription true ∈ x.tasks) :
    .resolveSubscription true ∈ x'.tasks := by
  cases hs
  case takeStopped stopped _ _ => simp [stopped] at hrunning
  case takeDelivery => cases hdirty
  all_goals simp_all [Operation.schedule]

/-- What makes an operation dirty is on its way. -/
theorem OperationStep.dirties (hs : OperationStep e x x') (hvalid : x.Valid)
    (hsub : x'.subscribed = true) (hdirty : x'.dirty = true) :
    (x.subscribed = true ∧ x.dirty = true) ∨ e.signals ∨
      e.notifies ∧ x'.notification = x.notification := by
  cases hs
  case signal hsignals observed => exact .inr (.inl hsignals)
  case notifyInitial hnotifies notifying => exact .inr (.inr ⟨hnotifies, rfl⟩)
  case subscribed hregisters subscribing =>
    have hfresh := (hvalid.fresh (.inr subscribing)).2.1
    simp [hfresh] at hdirty
  case takeStopped clears => exact .inl ⟨hsub, clears hdirty⟩
  case takeDelivery => cases hdirty
  all_goals exact .inl ⟨hsub, hdirty⟩

end Operations

variable {env : Environment} {s s' : State} {l : Label}

/-- A notification stays queued until its keys are collected. -/
theorem Step.deferred (hs : Step env s l s') {name : SubscriptionName}
    {keys : Finset SubscriptionKey} (h : .notifyInMainThread name keys ∈ s.queue) :
    .notifyInMainThread name keys ∈ s'.queue ∨
      s'.notifyTimer ≠ .unset ∧
        ∃ keys', s'.pendingNotifyTriggers.lookup name = some keys' ∧ keys ⊆ keys' := by
  rcases hs.task h with hstay | ⟨-, hrun⟩
  · exact .inl hstay
  · right
    rw [hrun]
    refine ⟨?_, _, AList.lookup_insert _, Finset.subset_union_right⟩
    simp only [State.run, State.notifyInMainThread]
    split
    · simp
    · assumption

/-- `stop` leaves the notifications alone. -/
theorem Stops.timer {o : OperationId} (h : Stops s o s') :
    s'.notifyTimer = s.notifyTimer ∧ s'.pendingNotifyTriggers = s.pendingNotifyTriggers ∧
      s'.slots = s.slots := by
  cases h <;> exact ⟨rfl, rfl, rfl⟩

/-- Collected keys stay collected until the main thread delivers them. -/
theorem Step.coalesced (hs : Step env s l s') {name : SubscriptionName}
    {keys : Finset SubscriptionKey} (h : s.pendingNotifyTriggers.lookup name = some keys)
    (hset : s.notifyTimer ≠ .unset) :
    (s'.notifyTimer ≠ .unset ∧
        ∃ keys', s'.pendingNotifyTriggers.lookup name = some keys' ∧ keys ⊆ keys') ∨
      ∃ triggers, .deliverNames triggers ∈ s'.frames ∧ (name, keys) ∈ triggers := by
  cases hs
  case messageStop stops | forceStop stops | stopNext stops =>
    obtain ⟨htimer, htriggers, -⟩ := stops.timer
    left
    rw [htimer, htriggers]
    exact ⟨hset, keys, h, subset_rfl⟩
  case expireNotify armed => exact .inl ⟨nofun, keys, h, subset_rfl⟩
  case runNotify name' keys' queue idle next =>
    refine .inl ⟨by simp [State.notifyInMainThread, hset], ?_⟩
    by_cases hname : name = name'
    · subst hname
      refine ⟨_, AList.lookup_insert _, ?_⟩
      rw [State.dequeue_pendingNotifyTriggers, h]
      exact Finset.subset_union_left
    · exact ⟨keys, (AList.lookup_insert_ne hname).trans h, subset_rfl⟩
  case runDeliver queue idle next =>
    refine .inr ⟨_, .head _, ?_⟩
    exact List.mem_map.mpr ⟨⟨name, keys⟩, AList.mem_lookup_iff.mp h, rfl⟩
  all_goals exact .inl ⟨hset, keys, h, subset_rfl⟩

/-- A slot that has begun posts its notification. -/
theorem Step.slots (hs : Step env s l s') {o : OperationId} (h : o ∈ s.slots) :
    o ∈ s'.slots ∨ (s.operations o).notification ∈ s'.queue := by
  cases hs
  case messageStop stops | forceStop stops | stopNext stops =>
    rw [stops.timer.2.2]
    exact .inl h
  case signal => exact .inl (.tail _ h)
  case slot o' mem =>
    by_cases ho : o = o'
    · subst ho
      exact .inr (by simp)
    · exact .inl ((List.mem_erase_of_ne ho).mpr h)
  all_goals exact .inl h

/-- A timer that has expired has posted its handler. -/
theorem Timers.step (h : Timers s) (hs : Step env s l s') : Timers s' where
  notify := by
    intro hexpired
    have hold : s.notifyTimer = .expired → .deliverNotifications ∈ s'.queue := by
      intro hs'
      rcases hs.task (h.notify hs') with hstay | ⟨-, hrun⟩
      · exact hstay
      · rw [hrun] at hexpired
        cases hexpired
    cases hs
    case messageStop stops | forceStop stops | stopNext stops =>
      exact hold (stops.timer.1.symm.trans hexpired)
    case expireNotify armed => exact List.mem_append_right _ (.head _)
    case runDeliver => cases hexpired
    case runNotify idle next =>
      apply hold
      unfold State.notifyInMainThread at hexpired
      by_cases hset : s.notifyTimer = .unset
      · simp [hset] at hexpired
      · simpa [hset] using hexpired
    all_goals exact hold hexpired
  delivery := by
    intro o hrunning hexpired
    have hold : (s.operations o).stopped = false → (s.operations o).deliveryTimer = .expired →
        .dispatchPendingDelivery o ∈ s'.queue := by
      intro hrunning' hexpired'
      rcases hs.task (h.delivery o hrunning' hexpired') with hstay | ⟨-, hrun⟩
      · exact hstay
      · rw [hrun] at hexpired
        simp [State.run, State.dispatchPendingDelivery, hrunning'] at hexpired
    rcases hs.operation o with heq | hchange | ⟨-, -, id, c, permissions, sub, key, heq, -⟩
    · rw [heq] at hrunning hexpired
      exact hold hrunning hexpired
    · rcases hchange.expired hrunning hexpired with hexpired' | hdispatches
      · exact hold (hchange.running hrunning) hexpired'
      · exact hdispatches
    · rw [heq] at hexpired
      cases hexpired

/-- Between the main thread's steps a change waits somewhere. -/
theorem Carried.busy {o : OperationId} (h : Carried s o) : s.frames ≠ [] ∨ o ∈ s.slots := by
  cases h
  case slot mem => exact .inr mem
  case names frame pending mem => exact .inl (List.ne_nil_of_mem frame)
  case callback frame left mem => exact .inl (List.ne_nil_of_mem frame)

/-- A subscribed operation keeps its key and its name. -/
theorem Wired.subscription_stays {o : OperationId} (hw : Wired s) (hs : Step env s l s')
    (hsub : (s.operations o).subscribed = true) :
    (s'.operations o).subscriptionKey = (s.operations o).subscriptionKey ∧
      (s'.operations o).subscriptionName = (s.operations o).subscriptionName := by
  obtain ⟨-, hreg⟩ := hw.subscribed_stays hs hsub
  exact ⟨congrArg Registration.key hreg, congrArg Registration.name hreg⟩

/-- A change that waits goes on waiting, or the main thread takes it. -/
theorem Waiting.step {o : OperationId} (h : Waiting s o) (hs : Step env s l s') (hw : Wired s)
    (hsub : (s.operations o).subscribed = true) (hrunning : (s'.operations o).stopped = false)
    (hdirty : (s'.operations o).dirty = true) : Waiting s' o ∨ Carried s' o := by
  obtain ⟨hkey, hname⟩ := hw.subscription_stays hs hsub
  cases h
  case deferred keys queued mem =>
    left
    rcases hs.deferred queued with hstay | ⟨hset, keys', hpending, hsubset⟩
    · exact .deferred (hname ▸ hstay) (hkey ▸ mem)
    · exact .coalesced (hname ▸ hpending) (hkey ▸ hsubset mem) hset
  case coalesced keys pending mem set =>
    rcases hs.coalesced pending set with ⟨hset, keys', hpending, hsubset⟩ | ⟨triggers, hframe, hmem⟩
    · exact .inl (.coalesced (hname ▸ hpending) (hkey ▸ hsubset mem) hset)
    · exact .inr (.names hframe (hname ▸ hmem) (hkey ▸ mem))
  case limited pending set =>
    left
    rcases hw.change hs hsub with heq | hchange
    · exact .limited (heq ▸ pending) (heq ▸ set)
    · rcases hchange.limited (hw.valid o) hsub hrunning pending set with ⟨hpending, hset⟩ | hqueued
      · exact .limited hpending hset
      · exact .dispatched hqueued
  case dispatched queued =>
    left
    rcases hw.change hs hsub with heq | hchange
    · exact .dispatched (heq ▸ queued)
    · exact .dispatched (hchange.dispatched hrunning hdirty queued)

/-- A change that is carried is handed over to where it waits. -/
theorem Carried.step {o : OperationId} (h : Carried s o) (hs : Step env s l s') (hw : Wired s)
    (hr : Registered s) (hsub : (s.operations o).subscribed = true)
    (hrunning : (s.operations o).stopped = false) : Waiting s' o ∨ Carried s' o := by
  obtain ⟨hkey, hname⟩ := hw.subscription_stays hs hsub
  cases h
  case slot mem =>
    rcases hs.slots mem with hstay | hposted
    · exact .inr (.slot hstay)
    · unfold Operation.notification at hposted
      exact .inl (.deferred (hname ▸ hposted) (hkey ▸ Finset.mem_singleton_self _))
  case names triggers keys frame pending mem =>
    right
    rcases hs.frame frame with hstay | hleaves
    · exact .names hstay (hname ▸ pending) (hkey ▸ mem)
    · cases hleaves with
      | deliverNames delivers =>
          rcases delivers _ _ pending with ⟨triggers', hframe, hmem⟩ | hdeliver
          · exact .names hframe (hname ▸ hmem) (hkey ▸ mem)
          · refine .callback hdeliver ?_ (hkey ▸ mem)
            have hactive := hr.active o ⟨hsub, by simp [hrunning]⟩
            exact List.mem_map.mpr ⟨_, List.mem_filter.mpr ⟨hactive, decide_eq_true rfl⟩, rfl⟩
  case callback keys remaining frame left mem =>
    rcases hs.frame frame with hstay | hleaves
    · exact .inr (.callback hstay left (hkey ▸ mem))
    · cases hleaves with
      | deliver calls =>
          rcases calls o left with ⟨remaining', hframe, hmem⟩ | hignored | hscheduled
          · exact .inr (.callback hframe hmem (hkey ▸ mem))
          · rcases hignored with hstopped | hnone
            · simp [hrunning] at hstopped
            · exact absurd mem hnone
          · left
            refine .limited (by rw [hscheduled]; rfl) ?_
            rw [hscheduled]
            unfold Operation.schedule
            by_cases hset : (s.operations o).deliveryTimer = .unset <;> simp [hset]

/-- What `no_change_lost` says of one operation. -/
def InFlight (s : State) (o : OperationId) : Prop :=
  (s.operations o).subscribed = true → (s.operations o).stopped = false →
    (s.operations o).dirty = true → Waiting s o ∨ Carried s o

/-- A change waits for its delivery, or is on its way to wait for it. -/
theorem InFlight.step {o : OperationId} (h : InFlight s o) (hs : Step env s l s') (hw : Wired s)
    (hr : Registered s) : InFlight s' o := by
  intro hsub hrunning hdirty
  have hold : (s.operations o).subscribed = true → (s.operations o).stopped = false →
      (s.operations o).dirty = true → Waiting s' o ∨ Carried s' o := by
    intro hsub' hrunning' hdirty'
    rcases h hsub' hrunning' hdirty' with hwaiting | hcarried
    · exact hwaiting.step hs hw hsub' hrunning hdirty
    · exact hcarried.step hs hw hr hsub' hrunning'
  rcases hs.operation o with heq | hchange | ⟨-, -, id, c, permissions, sub, key, heq, -⟩
  · rw [heq] at hsub hrunning hdirty
    exact hold hsub hrunning hdirty
  · rcases hchange.dirties (hw.valid o) hsub hdirty with ⟨hsub', hdirty'⟩ | hsignals |
      ⟨hnotifies, hsame⟩
    · exact hold hsub' (hchange.running hrunning) hdirty'
    · exact .inr (.slot hsignals)
    · have hposted : (s'.operations o).notification ∈ s'.queue := hsame ▸ hnotifies
      exact .inl (.deferred hposted (Finset.mem_singleton_self _))
  · rw [heq] at hsub
    cases hsub

/-- **No lost change.**  As long as no operation unsubscribes under the key of
another one, a change that a running subscription has not begun to deliver waits
in one of the four places, or is carried between them; when the main thread is
between its tasks and no signal slot of it has begun, it waits. -/
theorem no_change_lost (h : Runs.Reach (step env) OwnKey initial s) {o : OperationId}
    (hsub : (s.operations o).subscribed = true) (hrunning : (s.operations o).stopped = false)
    (hdirty : (s.operations o).dirty = true) :
    Timers s ∧ (Waiting s o ∨ Carried s o) ∧ (s.frames = [] → o ∉ s.slots → Waiting s o) := by
  have htimers : Timers s := by
    apply h.invariant (I := Timers)
    · constructor
      · intro hexpired
        cases hexpired
      · intro o _ hexpired
        cases hexpired
    · intro s l s' hs _ hstep
      exact hs.step (step_cases hstep)
  have hflight : ∀ o, InFlight s o := by
    apply h.along (I := fun s => ∀ o, InFlight s o)
    · intro o hnone
      cases hnone
    · intro s l s' hreach hs _ hstep o
      exact (hs o).step (step_cases hstep) (Reach.wired hreach) (Reach.registered hreach)
  refine ⟨htimers, hflight o hsub hrunning hdirty, ?_⟩
  intro hidle hslot
  rcases hflight o hsub hrunning hdirty with hwaiting | hcarried
  · exact hwaiting
  · exact absurd hcarried.busy (by simp [hidle, hslot])

set_option maxRecDepth 4000 in
/-- The change during the first delivery waits for the next one. -/
theorem no_change_lost_signalFirst :
    ∃ s, Runs.run (step vehicle) initial
        (connectSubscribe ++ .worker 0 :: (deliverFirst ++ signalFirst)) = some s ∧
      (s.operations 0).dirty = true ∧ Waiting s 0 := by
  have hrun : Runs.run (step vehicle) initial
      (connectSubscribe ++ .worker 0 :: (deliverFirst ++ signalFirst)) = some _ := rfl
  have hreach := Runs.reach_of_run hrun (by decide : Runs.RunMeets _ OwnKey _ _)
  exact ⟨_, hrun, rfl, (no_change_lost hreach rfl rfl rfl).2.2 rfl nofun⟩

set_option maxRecDepth 4000 in
/-- An operation that never subscribed cancels the subscription of the first client;
the notification that follows the initial one finds nobody to call. -/
theorem loses_change :
    ∃ s, Runs.run (step vehicle) initial
        (connectSubscribe ++ .worker 0 :: (stopSecond ++
          [.worker 1, .main, .main, .main, .expireNotify, .main, .deliverName "vehicle", .main,
            .main])) = some s ∧
      (s.operations 0).subscribed = true ∧ (s.operations 0).stopped = false ∧
      (s.operations 0).dirty = true ∧ ¬Waiting s 0 ∧ ¬Carried s 0 := by
  refine ⟨_, rfl, rfl, rfl, rfl, ?_, ?_⟩
  · intro h
    cases h
    case deferred queued mem => cases queued
    case coalesced pending mem set => cases pending
    case limited pending set => cases pending
    case dispatched queued => cases queued
  · intro h
    rcases h.busy with hframes | hslot
    · exact hframes rfl
    · cases hslot

end GraphQLServer
