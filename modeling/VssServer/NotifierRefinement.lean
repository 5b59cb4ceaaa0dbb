import VssServer.Deliveries
import VssServer.MainThread
import VssServer.Notifications

/-!
# The server notifies like a notifier

The server of `Server.lean` carries the keys of a notification by value; `Notifier`
has the objects.  `Notifications` is the part of the server's state that is about
notifications, `NotifierStep` what a step of the server can do to it, and
`Represents` relates it to a notifier.  So what is proved of every notifier holds of
the server: an operation is scheduled only if its key was notified under the name
that is being delivered.

* `Step.notifications`: a step of the server is one of the notifier, or none for it.
* `Represents.step`: the notifier follows it.
* `notifier_represents`: the notifications of the server are those of a notifier.
* `schedule_notified`: who is called back was notified.
-/

namespace GraphQLServer

variable {env : Environment} {s s' : State} {l : Label} {n : Notifier}

/-- The tasks of the main thread that concern notifications. -/
def Task.notifies : Task → Bool
  | .notifyInMainThread _ _ | .deliverNotifications => true
  | _ => false

/-- The frames of `deliverNotifications`. -/
def Frame.ofDelivery : Frame → Bool
  | .deliverNames _ | .deliver _ _ => true
  | _ => false

/-- The part of the server that `Notifier` is about. -/
structure Notifications where
  notifyTimer : Timer
  pendingNotifyTriggers : AList fun _ : SubscriptionName => Finset SubscriptionKey
  queue : List Task
  frames : List Frame

def State.notifications (s : State) : Notifications where
  notifyTimer := s.notifyTimer
  pendingNotifyTriggers := s.pendingNotifyTriggers
  queue := s.queue.filter Task.notifies
  frames := s.frames.filter Frame.ofDelivery

/-- A reply is no task of the notifier. -/
theorem Answers.not_notifies {c : ConnectionId} {t : Task} (h : Answers s c t) :
    t.notifies = false := by
  unfold Answers at h
  split at h
  · obtain ⟨code, body, rfl⟩ := h
    rfl
  · obtain ⟨body, rfl⟩ := h
    rfl

/-- `stop` leaves the notifications alone. -/
theorem Stops.notifications {o : OperationId} (h : Stops s o s') :
    s'.notifications = s.notifications := by
  cases h <;> rfl

/-- A notification that is posted comes last. -/
theorem State.defer_notifications (s : State) {t : Task} (h : t.notifies = true) :
    (s.defer t).notifications =
      { s.notifications with queue := s.notifications.queue ++ [t] } := by
  simp [State.notifications, h]

/-- What a step of the server does to its notifications. -/
inductive NotifierStep (v : Notifications) : Notifications → Prop
  | same : NotifierStep v v
  | notify {name keys} :
      NotifierStep v { v with queue := v.queue ++ [.notifyInMainThread name keys] }
  | expireNotify (armed : v.notifyTimer = .armed) :
      NotifierStep v
        { v with notifyTimer := .expired, queue := v.queue ++ [.deliverNotifications] }
  | runNotify {name keys queue} (idle : v.frames = [])
      (next : v.queue = .notifyInMainThread name keys :: queue) :
      NotifierStep v
        { v with
          pendingNotifyTriggers := v.pendingNotifyTriggers.insert name
            ((v.pendingNotifyTriggers.lookup name).getD ∅ ∪ keys)
          notifyTimer := if v.notifyTimer = .unset then .armed else v.notifyTimer
          queue := queue }
  | runDeliver {queue} (idle : v.frames = []) (next : v.queue = .deliverNotifications :: queue) :
      NotifierStep v
        { notifyTimer := .unset
          pendingNotifyTriggers := ∅
          queue := queue
          frames := [.deliverNames (v.pendingNotifyTriggers.entries.map fun e => (e.1, e.2))] }
  | namesDone (top : v.frames = [.deliverNames []]) : NotifierStep v { v with frames := [] }
  | deliverName {name keys triggers remaining} (top : v.frames = [.deliverNames triggers])
      (mem : (name, keys) ∈ triggers) :
      NotifierStep v
        { v with
          frames := [.deliver keys remaining, .deliverNames (triggers.erase (name, keys))] }
  | callback {keys remaining remaining' triggers}
      (top : v.frames = [.deliver keys remaining, .deliverNames triggers]) :
      NotifierStep v { v with frames := [.deliver keys remaining', .deliverNames triggers] }
  | callbacksDone {keys remaining triggers}
      (top : v.frames = [.deliver keys remaining, .deliverNames triggers]) :
      NotifierStep v { v with frames := [.deliverNames triggers] }

/-- **The server notifies.**  Every step of the server is one of the notifier, or none at all
for it. -/
theorem Step.notifications (hs : Step env s l s') (hstack : Stack s.frames) :
    NotifierStep s.notifications s'.notifications := by
  have hsame : s'.notifications = s.notifications →
      NotifierStep s.notifications s'.notifications := fun heq => heq ▸ .same
  cases hs
  case expireNotify armed =>
    have hqueue : (s.defer .deliverNotifications).notifications.queue =
        s.notifications.queue ++ [.deliverNotifications] := by
      rw [s.defer_notifications rfl]
    have hnext := NotifierStep.expireNotify (v := s.notifications) armed
    rwa [← hqueue] at hnext
  case runNotify idle next =>
    exact .runNotify (by simp [State.notifications, idle]) (by simp [State.notifications, next]; rfl)
  case runDeliver idle next =>
    have hnext := NotifierStep.runDeliver (v := s.notifications)
      (by simp [State.notifications, idle]) (by simp [State.notifications, next]; rfl)
    simpa [State.notifications, State.deliverNotifications, List.filter_cons, Frame.ofDelivery, idle]
      using hnext
  case namesDone top =>
    rw [top] at hstack
    cases hstack
    exact .namesDone (by simp [State.notifications, top, List.filter_cons, Frame.ofDelivery])
  case callbacksDone top =>
    rw [top] at hstack
    cases hstack
    exact .callbacksDone (by simp [State.notifications, top]; rfl)
  case deliverName top mem =>
    rw [top] at hstack
    cases hstack
    exact .deliverName (by simp [State.notifications, top, List.filter_cons, Frame.ofDelivery]) mem
  case callbackIgnored top mem _ | callback top mem _ _ =>
    rw [top] at hstack
    cases hstack
    exact .callback (by simp [State.notifications, top]; rfl)
  case notifyInitial | slot =>
    rw [State.defer_notifications _ rfl]
    exact .notify
  case messageStop idle _ _ stops | forceStop idle next stops | stopNext top mem stops =>
    apply hsame
    rw [stops.notifications]
    simp_all [State.notifications, Frame.ofDelivery, Task.notifies]
  case messageAnswered answers | messageAuthorized answers | replyData answers
    | replyComplete answers | replyDelivery answers =>
    apply hsame
    simp [State.notifications, answers.not_notifies]
  case joined top _ _ | allStopped top | tearDown top | erase top =>
    apply hsame
    simp [State.notifications, top, Frame.ofDelivery]
  case dispatchStopped next _ | dispatch next _ | sendWebSocket next | terminate next =>
    apply hsame
    simp [State.notifications, next, Task.notifies]
  case sendHttp idle next =>
    apply hsame
    simp [State.notifications, State.onConnectionDone, next, Task.notifies, Frame.ofDelivery]
  case closed idle _ =>
    apply hsame
    simp [State.notifications, State.onConnectionDone, Frame.ofDelivery]
  all_goals
    apply hsame
    first
      | rfl
      | simp [State.notifications, Task.notifies]

/-- A posted task, as the server has it. -/
def NotifierTask.task : NotifierTask → Task
  | .notifyInMainThread _ name keys => .notifyInMainThread name keys
  | .deliverNotifications => .deliverNotifications

namespace Notifier

/-- The loop of the server has the names and the keys that `triggers` points to. -/
structure Lists (keysOf : TriggersId → Finset SubscriptionKey)
    (triggers : AList fun _ : SubscriptionName => TriggersId)
    (names : List (SubscriptionName × Finset SubscriptionKey)) : Prop where
  nodup : (names.map Prod.fst).Nodup
  mem : ∀ name keys, (name, keys) ∈ names ↔ (triggers.lookup name).map keysOf = some keys

/-- The frames of the server are where the main thread is. -/
inductive Shows (keysOf : TriggersId → Finset SubscriptionKey) (current : Option TriggersId) :
    Delivering → List Frame → Prop
  | idle : Shows keysOf current .idle []
  | names {triggers names} (lists : Lists keysOf triggers names) :
      Shows keysOf current (.names triggers) [.deliverNames names]
  | deliver {name triggers names t remaining} (lists : Lists keysOf triggers names)
      (points : current = some t) :
      Shows keysOf current (.deliver name triggers)
        [.deliver (keysOf t) remaining, .deliverNames names]

/-- The server has the values of the notifier's objects. -/
structure Represents (n : Notifier) (v : Notifications) : Prop where
  timer : v.notifyTimer = n.notifyTimer
  pending : ∀ name, v.pendingNotifyTriggers.lookup name = n.tables.pending name
  queue : v.queue = n.queue.map NotifierTask.task
  frames : Shows n.keysOf n.currentNotificationTrigger n.delivering v.frames

variable {v v' : Notifications} {name : SubscriptionName} {keys : Finset SubscriptionKey}
  {triggers : AList fun _ : SubscriptionName => TriggersId}
  {names : List (SubscriptionName × Finset SubscriptionKey)}
  {keysOf keysOf' : TriggersId → Finset SubscriptionKey}

/-- Without a frame the notifier delivers nothing. -/
theorem Shows.idle_of_nil {current : Option TriggersId} {delivering : Delivering}
    (h : Shows keysOf current delivering []) : delivering = .idle := by
  cases h
  rfl

/-- In the loop over the names the notifier has the rest of its triggers. -/
theorem Shows.of_names {current : Option TriggersId} {delivering : Delivering}
    (h : Shows keysOf current delivering [.deliverNames names]) :
    ∃ triggers, delivering = .names triggers ∧ Lists keysOf triggers names := by
  cases h with
  | names lists => exact ⟨_, rfl, lists⟩

/-- In the loop over the callbacks of a name the notifier has its trigger. -/
theorem Shows.of_deliver {current : Option TriggersId} {delivering : Delivering}
    {remaining : List OperationId}
    (h : Shows keysOf current delivering [.deliver keys remaining, .deliverNames names]) :
    ∃ name triggers t, delivering = .deliver name triggers ∧ keys = keysOf t ∧
      Lists keysOf triggers names ∧ current = some t := by
  cases h with
  | deliver lists points => exact ⟨_, _, _, rfl, rfl, lists, points⟩

/-- Triggers without names are none. -/
theorem Lists.empty (h : Lists keysOf triggers []) : triggers = ∅ := by
  apply AList.ext
  apply List.eq_nil_iff_forall_not_mem.mpr
  rintro ⟨name, t⟩ hmem
  have hlookup : triggers.lookup name = some t := AList.mem_lookup_iff.mpr hmem
  have hnone := (h.mem name (keysOf t)).mpr (by rw [hlookup]; rfl)
  cases hnone

/-- What the triggers list depends on their keys alone. -/
theorem Lists.congr (h : Lists keysOf triggers names)
    (hkeys : ∀ name t, triggers.lookup name = some t → keysOf' t = keysOf t) :
    Lists keysOf' triggers names := by
  refine ⟨h.nodup, ?_⟩
  intro name keys
  rw [h.mem, Option.map_congr fun t ht => hkeys name t ht]

/-- The loop drops the name that it calls `deliver` with. -/
theorem Lists.erase (h : Lists keysOf triggers names) (hmem : (name, keys) ∈ names) :
    Lists keysOf (triggers.erase name) (names.erase (name, keys)) where
  nodup := h.nodup.sublist (List.erase_sublist.map _)
  mem := by
    intro name' keys'
    have hnodup : names.Nodup := List.Nodup.of_map _ h.nodup
    rw [hnodup.mem_erase_iff, h.mem]
    by_cases hname : name' = name
    · subst hname
      rw [AList.lookup_erase, (h.mem name' keys).mp hmem]
      simp [eq_comm]
    · simp [AList.lookup_erase_ne hname, hname]

/-- A new trigger changes nothing of the delivery that is going on. -/
theorem Sound.notify_shows (h : n.Sound) {frames : List Frame}
    (hframes : Shows n.keysOf n.currentNotificationTrigger n.delivering frames) :
    Shows (n.notify name keys).keysOf n.currentNotificationTrigger n.delivering frames := by
  have hold : ∀ t, t < n.bound → (n.notify name keys).keysOf t = n.keysOf t := by
    intro t ht
    exact congrArg GraphQLNotifyTriggers.subscriptionKeys (notify_old ht)
  have hremaining := h.remaining
  have hannounces := h.announces
  unfold Announces at hannounces
  generalize n.delivering = delivering at hframes hremaining hannounces
  cases hframes with
  | idle => exact .idle
  | names lists => exact .names (lists.congr fun name t ht => hold t (hremaining name t ht).1)
  | deliver lists points =>
      obtain ⟨-, -, -, t, -, -, hcurrent, hbound, -⟩ := hannounces _ _ rfl
      obtain rfl := Option.some.inj (points.symm.trans hcurrent)
      rw [← hold _ hbound]
      exact .deliver (lists.congr fun name t ht => hold t (hremaining name t ht).1) points

/-- The notifier takes a notification. -/
theorem main_notify {t : TriggersId} {queue : List NotifierTask} (hidle : n.delivering = .idle)
    (hqueue : n.queue = .notifyInMainThread t name keys :: queue) :
    n.main = some { { n with queue := queue }.notifyInMainThread t with
      log := n.log ++ [.add name keys] } := by
  cases n
  cases hidle
  cases hqueue
  rfl

/-- The notifier begins a delivery. -/
theorem main_deliver {queue : List NotifierTask} (hidle : n.delivering = .idle)
    (hqueue : n.queue = .deliverNotifications :: queue) :
    n.main = some { { n with queue := queue }.deliverNotifications with
      log := n.log ++ [.take] } := by
  cases n
  cases hidle
  cases hqueue
  rfl

/-- A delivery without names is over. -/
theorem main_names (hnames : n.delivering = .names triggers) (hempty : triggers = ∅) :
    n.main = some { n with currentNotificationTrigger := none, delivering := .idle } := by
  cases n
  cases hnames
  exact if_pos hempty

/-- The notifier is done with a name. -/
theorem main_delivered (hdeliver : n.delivering = .deliver name triggers) :
    n.main = some { n with delivering := .names triggers } := by
  cases n
  cases hdeliver
  rfl

/-- The notifier takes the next name. -/
theorem deliverName_names {t : TriggersId} (hnames : n.delivering = .names triggers)
    (hlookup : triggers.lookup name = some t) :
    n.deliverName name = some { n with
      currentNotificationTrigger := some t
      delivering := .deliver name (triggers.erase name)
      log := n.log ++ [.hand name (n.keysOf t)] } := by
  cases n
  cases hnames
  simp only [Notifier.deliverName, hlookup]
  rfl

/-- The next task of the server is the next one of the notifier. -/
theorem Represents.next (h : n.Represents v) {task : Task} {queue : List Task}
    (idle : v.frames = []) (next : v.queue = task :: queue) :
    n.delivering = .idle ∧ ∃ head rest, n.queue = head :: rest ∧ head.task = task ∧
      rest.map NotifierTask.task = queue :=
  ⟨(idle ▸ h.frames).idle_of_nil, List.map_eq_cons_iff.mp (h.queue.symm.trans next)⟩

/-- A notification is posted on both sides. -/
theorem Represents.notify (h : n.Represents v) (hn : n.Sound) :
    (n.notify name keys).Represents
      { v with queue := v.queue ++ [.notifyInMainThread name keys] } where
  timer := h.timer
  pending name' := hn.notify_tables ▸ h.pending name'
  queue := by simp [Notifier.notify, h.queue, NotifierTask.task]
  frames := hn.notify_shows h.frames

/-- A notification is merged on both sides. -/
theorem Represents.runNotify (h : n.Represents v) (hn : n.Sound) {queue : List Task}
    (idle : v.frames = []) (next : v.queue = .notifyInMainThread name keys :: queue) :
    ∃ n', n.main = some n' ∧ n'.Represents
      { v with
        pendingNotifyTriggers := v.pendingNotifyTriggers.insert name
          ((v.pendingNotifyTriggers.lookup name).getD ∅ ∪ keys)
        notifyTimer := if v.notifyTimer = .unset then .armed else v.notifyTimer
        queue := queue } := by
  obtain ⟨hidle, head, rest, hrest, hhead, rfl⟩ := h.next idle next
  cases head with
  | deliverNotifications => cases hhead
  | notifyInMainThread t name' keys' =>
      cases hhead
      have hm := hn.merged hrest
      have htables := hn.merged_tables hidle hrest hm
      refine ⟨_, main_notify hidle hrest, ?_, ?_, ?_, ?_⟩
      · exact h.timer ▸ hm.timer.symm
      · intro name'
        refine Eq.trans ?_ (congrFun (congrArg Batches.Tables.pending htables) name').symm
        by_cases hname : name' = name
        · subst hname
          rw [AList.lookup_insert, h.pending]
          exact (Function.update_self name' _ n.tables.pending).symm
        · rw [AList.lookup_insert_ne hname, h.pending]
          exact (Function.update_of_ne hname _ n.tables.pending).symm
      · exact congrArg (List.map NotifierTask.task) hm.queue.symm
      · have hnow := hm.delivering.trans hidle
        exact idle ▸ hnow ▸ .idle

/-- A delivery begins on both sides. -/
theorem Represents.runDeliver (h : n.Represents v) {queue : List Task}
    (idle : v.frames = []) (next : v.queue = .deliverNotifications :: queue) :
    ∃ n', n.main = some n' ∧ n'.Represents
      { notifyTimer := .unset
        pendingNotifyTriggers := ∅
        queue := queue
        frames := [.deliverNames (v.pendingNotifyTriggers.entries.map fun e => (e.1, e.2))] } := by
  obtain ⟨hidle, head, rest, hrest, hhead, rfl⟩ := h.next idle next
  cases head with
  | notifyInMainThread t name keys => cases hhead
  | deliverNotifications =>
      refine ⟨_, main_deliver hidle hrest, rfl, ?_, rfl, .names ⟨?_, ?_⟩⟩
      · intro name
        rfl
      · rw [List.map_map]
        exact v.pendingNotifyTriggers.nodupKeys
      · intro name keys
        refine Iff.trans ?_ (iff_of_eq (congrArg (· = some keys) (h.pending name)))
        rw [List.mem_map]
        constructor
        · rintro ⟨⟨name', keys'⟩, hmem, heq⟩
          cases heq
          exact AList.mem_lookup_iff.mpr hmem
        · intro hlookup
          exact ⟨⟨name, keys⟩, AList.mem_lookup_iff.mp hlookup, rfl⟩

/-- **Simulation.**  What the server does around its notifications the notifier does, or it does
nothing. -/
theorem Represents.step (h : n.Represents v) (hn : n.Sound) (hs : NotifierStep v v') :
    n.Represents v' ∨ ∃ l n', n.step l = some n' ∧ n'.Represents v' := by
  cases hs
  case same => exact .inl h
  case notify name keys => exact .inr ⟨.notify name keys, _, rfl, h.notify hn⟩
  case expireNotify armed =>
    refine .inr ⟨.expireNotify, _, if_pos (h.timer ▸ armed), rfl, h.pending, ?_, h.frames⟩
    simp [h.queue, NotifierTask.task]
  case runNotify idle next => exact .inr ⟨.main, h.runNotify hn idle next⟩
  case runDeliver idle next => exact .inr ⟨.main, h.runDeliver idle next⟩
  case namesDone top =>
    obtain ⟨triggers, hnames, lists⟩ := (top ▸ h.frames).of_names
    refine .inr ⟨.main, _, main_names hnames (lists.empty), h.timer, h.pending, h.queue, .idle⟩
  case deliverName top mem =>
    obtain ⟨triggers, hnames, lists⟩ := (top ▸ h.frames).of_names
    obtain ⟨t, hlookup, rfl⟩ := Option.map_eq_some_iff.mp ((lists.mem _ _).mp mem)
    exact .inr ⟨.deliverName _, _, deliverName_names hnames hlookup, h.timer, h.pending, h.queue,
      .deliver (lists.erase mem) rfl⟩
  case callback top =>
    obtain ⟨name, triggers, t, hdeliver, rfl, lists, points⟩ := (top ▸ h.frames).of_deliver
    exact .inl ⟨h.timer, h.pending, h.queue, hdeliver ▸ .deliver lists points⟩
  case callbacksDone top =>
    obtain ⟨name, triggers, t, hdeliver, rfl, lists, points⟩ := (top ▸ h.frames).of_deliver
    exact .inr ⟨.main, _, main_delivered hdeliver, h.timer, h.pending, h.queue, .names lists⟩

end Notifier

/-- **Refinement.**  Whatever the server does, its notifications are those of a
notifier's run. -/
theorem notifier_represents {ok : State → Label → Prop}
    (h : Runs.Reach (GraphQLServer.step env) ok GraphQLServer.initial s) :
    ∃ n, Runs.Reach Notifier.step Runs.always Notifier.initial n ∧ n.Represents s.notifications := by
  apply h.along (I := fun s => ∃ n, Runs.Reach Notifier.step Runs.always Notifier.initial n ∧
    n.Represents s.notifications)
  · exact ⟨_, .refl, rfl, fun _ => rfl, rfl, .idle⟩
  · rintro s l s' hreach ⟨n, hn, hrepresents⟩ _ hstep
    have hs := (step_cases hstep).notifications (Reach.stack hreach)
    rcases hrepresents.step (Notifier.Reach.sound hn) hs with hsame | ⟨m, n', hnext, hn'⟩
    · exact ⟨n, hn, hsame⟩
    · exact ⟨n', hn.tail trivial hnext, hn'⟩

/-- An operation is scheduled only if the current triggers have its key. -/
theorem Notifier.Represents.scheduled {n : Notifier} {o : OperationId}
    (hrepresents : n.Represents s.notifications) (hstack : Stack s.frames)
    (hs : GraphQLServer.Step env s (.onFutureSubscription o) s')
    (hchange : s'.operations o ≠ s.operations o) :
    n.shouldDispatchCurrentDelivery (s.operations o).subscriptionKey = .ok true := by
  cases hs
  case aborts => exact absurd rfl hchange
  case callbackIgnored => exact absurd rfl hchange
  case callback keys remaining frames top mem running key =>
    rw [top] at hstack
    cases hstack with
    | @deliver _ _ names
    have hframes : s.notifications.frames = [.deliver keys remaining, .deliverNames names] := by
      simp [State.notifications, top, List.filter_cons, Frame.ofDelivery]
    obtain ⟨name, triggers, t, -, rfl, -, hcurrent⟩ := (hframes ▸ hrepresents.frames).of_deliver
    rw [Notifier.shouldDispatchCurrentDelivery, Notifier.currentNotificationTriggers, hcurrent]
    exact congrArg Except.ok (decide_eq_true key)

/-- **The server refines the notifier.**  Every reached state represents a state that the
notifier reaches, and a callback changes its operation only where this state's current
triggers have the operation's key. -/
theorem schedule_notified {ok : State → Label → Prop}
    (h : Runs.Reach (GraphQLServer.step env) ok GraphQLServer.initial s) :
    ∃ n, Runs.Reach Notifier.step Runs.always Notifier.initial n ∧
      n.Represents s.notifications ∧
      ∀ o s', GraphQLServer.step env s (.onFutureSubscription o) = some s' →
        s'.operations o ≠ s.operations o →
        n.shouldDispatchCurrentDelivery (s.operations o).subscriptionKey = .ok true := by
  obtain ⟨n, hn, hrepresents⟩ := notifier_represents h
  refine ⟨n, hn, hrepresents, fun o s' hstep hchange => ?_⟩
  exact hrepresents.scheduled (Reach.stack h) (step_cases hstep) hchange

/-- The first notification is about to call the callback of the first operation. -/
def deliverVehicle : List Label :=
  connectSubscribe ++ [.worker 0, .main, .expireNotify, .main, .deliverName "vehicle"]

set_option maxRecDepth 4000 in
/-- The first client is called for the signal of its vehicle. -/
theorem schedule_notified_deliverVehicle :
    ∃ s n, Runs.run (GraphQLServer.step vehicle) GraphQLServer.initial deliverVehicle = some s ∧
      Runs.Reach Notifier.step Runs.always Notifier.initial n ∧ n.Represents s.notifications ∧
        n.shouldDispatchCurrentDelivery (s.operations 0).subscriptionKey = .ok true := by
  have hrun : Runs.run (GraphQLServer.step vehicle) GraphQLServer.initial deliverVehicle =
    some _ := rfl
  have hreach := Runs.reach_of_run hrun Runs.runMeets_always
  obtain ⟨n, hn, hrepresents, hscheduled⟩ := schedule_notified hreach
  refine ⟨_, n, hrun, hn, hrepresents, hscheduled 0 _ rfl fun heq => ?_⟩
  have hpending := congrArg Operation.pendingDelivery heq
  cases hpending

end GraphQLServer
