import VssServer.Server

/-!
# What one step of the server can do

`Step` lists the steps of the server once, with what they depend on and their
resulting states; `step_cases` reads it off the executable `step`.  The contents
of replies and error texts do not matter to what follows, so a reply is any task
that answers the connection.

* `Stops`, `Answers`: the effect of `stop`, and the task of a reply.
* `step_cases`: what the steps of the server can be.
* `State.onGraphQLMessage_kept`: a message whose handling throws has changed nothing.
-/

namespace GraphQLServer

open Response Permissions

/-- A task that answers the connection `c`. -/
def Answers (s : State) (c : ConnectionId) (t : Task) : Prop :=
  if (s.connections c).http then ∃ code body, t = .sendHttp c code body
  else ∃ body, t = .sendWebSocket c body

/-- A message or a close can come from the connection `c`. -/
structure Connected (s : State) (c : ConnectionId) : Prop where
  known : c < s.connectionBound
  socket : (s.connections c).http = false
  live : (s.connections c).live = true

/-- The effect of `stop`. -/
inductive Stops (s : State) (o : OperationId) : State → Prop
  | already (stopped : (s.operations o).stopped = true) : Stops s o s
  | subscription (running : (s.operations o).stopped = false)
      (kind : (s.operations o).isSubscription = true) :
      Stops s o
        ((s.modify o fun x =>
          { x with
            stopped := true
            deliveryTimer := .unset
            pendingDelivery := false
            tasks := x.tasks ++ [.unsubscribe] }).goto (.join o :: s.frames))
  | regular (running : (s.operations o).stopped = false)
      (kind : (s.operations o).isSubscription = false) :
      Stops s o (s.modify o fun x => { x with stopped := true })

/-- `stop` does what `Stops` lists. -/
theorem State.stops (s : State) (o : OperationId) : Stops s o (s.stop o) := by
  unfold State.stop
  by_cases hstopped : (s.operations o).stopped
  · simp only [hstopped, if_true]
    exact .already hstopped
  · by_cases hkind : (s.operations o).isSubscription
    · simp only [hstopped, hkind, if_true]
      exact .subscription (by simpa using hstopped) hkind
    · simp only [hstopped, hkind]
      exact .regular (by simpa using hstopped) (by simpa using hkind)

/-- The message asks for this. -/
def Asks (message : Option Value) (type id : String) (payload : Value) : Prop :=
  ∃ m, message = some m ∧ toMessageParts m = .ok ⟨type, id, payload⟩

/-- The steps of the server. -/
inductive Step (env : Environment) (s : State) : Label → State → Prop
  | aborts {l} : Step env s l s.abort
  | opened (idle : s.frames = []) : Step env s .onWebSocketOpen (s.onConnectionStart false)
  | httpMalformed {authorization key} (idle : s.frames = []) :
      Step env s (.onHttp authorization none key) (s.onConnectionStart true).abort
  | httpUnauthorized {authorization payload key code body} (idle : s.frames = []) :
      Step env s (.onHttp authorization payload key)
        ((s.onConnectionStart true).defer (.sendHttp s.connectionBound code body))
  | httpFailed {authorization payload key p code body} (idle : s.frames = []) :
      Step env s (.onHttp authorization payload key)
        (((s.onConnectionStart true).change s.connectionBound fun x =>
          { x with permissions := p }).defer (.sendHttp s.connectionBound code body))
  | httpStarted {authorization payload key p sub} (made : make env payload = .ok sub)
      (idle : s.frames = []) : Step env s (.onHttp authorization (some payload) key)
        (((s.onConnectionStart true).change s.connectionBound fun x =>
          { x with permissions := p }).addConnectionOperation env s.connectionBound "0"
            sub key)
  | messageIgnored {c message key} (idle : s.frames = []) (connected : Connected s c) :
      Step env s (.onWebSocketMessage c message key) s
  | messageAnswered {c message key t} (idle : s.frames = []) (connected : Connected s c)
      (answers : Answers s c t) : Step env s (.onWebSocketMessage c message key) (s.defer t)
  | messageUnanswered {c message key p} (idle : s.frames = []) (connected : Connected s c)
      (torn : (s.connections c).handlers = false) :
      Step env s (.onWebSocketMessage c message key)
        (s.change c fun x => { x with permissions := p })
  | messageAuthorized {c message key p t} (idle : s.frames = []) (connected : Connected s c)
      (answers : Answers s c t) :
      Step env s (.onWebSocketMessage c message key)
        ((s.change c fun x => { x with permissions := p }).defer t)
  | messageTerminate {c message key} (idle : s.frames = []) (connected : Connected s c) :
      Step env s (.onWebSocketMessage c message key) (s.defer (.terminate c))
  | messageStart {c message key id payload sub} (asks : Asks message GQL_START id payload)
      (made : make env payload = .ok sub) (idle : s.frames = []) (connected : Connected s c)
      (absent : (s.connections c).operations.lookup id = none) :
      Step env s (.onWebSocketMessage c message key) (s.addConnectionOperation env c id sub key)
  | messageStop {c message key id payload o s'} (asks : Asks message GQL_STOP id payload)
      (idle : s.frames = []) (connected : Connected s c)
      (entry : (s.connections c).operations.lookup id = some o)
      (stops : Stops (s.goto [.erase c id]) o s') :
      Step env s (.onWebSocketMessage c message key) s'
  | closed {c} (idle : s.frames = []) (connected : Connected s c) :
      Step env s (.onWebSocketClose c) (s.onConnectionDone c)
  | expireNotify (armed : s.notifyTimer = .armed) :
      Step env s .expireNotify { s.defer .deliverNotifications with notifyTimer := .expired }
  | expireDelivery {o} (armed : (s.operations o).deliveryTimer = .armed) :
      Step env s (.expireDelivery o)
        ((s.modify o fun x => { x with deliveryTimer := .expired }).defer
          (.dispatchPendingDelivery o))
  | joined {o frames} (top : s.frames = .join o :: frames)
      (drained : (s.operations o).tasks = []) (idle : (s.operations o).worker = .idle) :
      Step env s .main (s.goto frames)
  | allStopped {frames} (top : s.frames = .stopOperations [] :: frames) :
      Step env s .main (s.goto frames)
  | tearDown {c frames} (top : s.frames = .tearDown c :: frames) :
      Step env s .main
        ((s.change c fun x => { x with permissions := none, handlers := false }).goto frames)
  | erase {c id frames} (top : s.frames = .erase c id :: frames) :
      Step env s .main
        ((s.change c fun x => { x with operations := x.operations.erase id }).goto frames)
  | namesDone {frames} (top : s.frames = .deliverNames [] :: frames) :
      Step env s .main (s.goto frames)
  | callbacksDone {keys frames} (top : s.frames = .deliver keys [] :: frames) :
      Step env s .main (s.goto frames)
  | runNotify {name keys queue} (idle : s.frames = [])
      (next : s.queue = .notifyInMainThread name keys :: queue) :
      Step env s .main ((s.dequeue queue).notifyInMainThread name keys)
  | runDeliver {queue} (idle : s.frames = []) (next : s.queue = .deliverNotifications :: queue) :
      Step env s .main ((s.dequeue queue).deliverNotifications)
  | dispatchStopped {o queue} (idle : s.frames = [])
      (next : s.queue = .dispatchPendingDelivery o :: queue)
      (stopped : (s.operations o).stopped = true) : Step env s .main (s.dequeue queue)
  | dispatch {o queue} (idle : s.frames = [])
      (next : s.queue = .dispatchPendingDelivery o :: queue)
      (running : (s.operations o).stopped = false) :
      Step env s .main
        ((s.dequeue queue).modify o fun x =>
          { x with
            deliveryTimer := .unset
            pendingDelivery := false
            tasks := x.tasks ++ [.resolveSubscription x.pendingDelivery] })
  | sendHttp {c code body queue} (idle : s.frames = [])
      (next : s.queue = .sendHttp c code body :: queue) :
      Step env s .main
        (((s.dequeue queue).change c fun x =>
          { x with sent := x.sent + 1 }).onConnectionDone c)
  | sendWebSocket {c body queue} (idle : s.frames = [])
      (next : s.queue = .sendWebSocket c body :: queue) : Step env s .main (s.dequeue queue)
  | terminate {c queue} (idle : s.frames = []) (next : s.queue = .terminate c :: queue) :
      Step env s .main (s.dequeue queue)
  | forceStop {o queue s'} (idle : s.frames = []) (next : s.queue = .stop o :: queue)
      (stops : Stops (s.dequeue queue) o s') : Step env s .main s'
  | stopNext {o remaining frames s'} (top : s.frames = .stopOperations remaining :: frames)
      (mem : o ∈ remaining)
      (stops : Stops (s.goto (.stopOperations (remaining.erase o) :: frames)) o s') :
      Step env s (.stopNext o) s'
  | deliverName {name keys triggers frames} (top : s.frames = .deliverNames triggers :: frames)
      (mem : (name, keys) ∈ triggers) :
      Step env s (.deliverName name)
        (s.goto (.deliver keys ((s.registrations.filter fun r => r.name = name).map
          Registration.operation) :: .deliverNames (triggers.erase (name, keys)) :: frames))
  | callbackIgnored {o keys remaining frames} (top : s.frames = .deliver keys remaining :: frames)
      (mem : o ∈ remaining)
      (ignored : (s.operations o).stopped = true ∨ (s.operations o).subscriptionKey ∉ keys) :
      Step env s (.onFutureSubscription o) (s.goto (.deliver keys (remaining.erase o) :: frames))
  | callback {o keys remaining frames} (top : s.frames = .deliver keys remaining :: frames)
      (mem : o ∈ remaining) (running : (s.operations o).stopped = false)
      (key : (s.operations o).subscriptionKey ∈ keys) :
      Step env s (.onFutureSubscription o)
        ((s.goto (.deliver keys (remaining.erase o) :: frames)).modify o Operation.schedule)
  | takeStopped {o t tasks} (idle : (s.operations o).worker = .idle)
      (next : (s.operations o).tasks = t :: tasks) (stopped : (s.operations o).stopped = true)
      (kind : t ≠ .unsubscribe) :
      Step env s (.take o)
        (s.modify o fun x =>
          { x with
            tasks := tasks
            dirty :=
              if t = .resolve ∨ t = .subscribe then (s.operations o).dirty else false })
  | takeResolve {o tasks} (idle : (s.operations o).worker = .idle)
      (next : (s.operations o).tasks = .resolve :: tasks)
      (running : (s.operations o).stopped = false) :
      Step env s (.take o)
        (s.modify o fun x =>
          { x with
            tasks := tasks
            dirty := (s.operations o).dirty
            worker := .resolving (s.connections (s.operations o).connection).handlers })
  | takeSubscribe {o tasks} (idle : (s.operations o).worker = .idle)
      (next : (s.operations o).tasks = .subscribe :: tasks)
      (running : (s.operations o).stopped = false) :
      Step env s (.take o)
        (s.modify o fun x =>
          { x with tasks := tasks, dirty := (s.operations o).dirty, worker := .subscribing })
  | takeDelivery {o tasks} (idle : (s.operations o).worker = .idle)
      (next : (s.operations o).tasks = .resolveSubscription true :: tasks)
      (running : (s.operations o).stopped = false) :
      Step env s (.take o)
        (s.modify o fun x =>
          { x with
            tasks := tasks
            dirty := false
            worker := .delivering (s.connections (s.operations o).connection).handlers none })
  | takeUnsubscribe {o tasks} (idle : (s.operations o).worker = .idle)
      (next : (s.operations o).tasks = .unsubscribe :: tasks) :
      Step env s (.take o)
        (s.modify o fun x => { x with tasks := tasks, signals := 0, worker := .unsubscribing })
  | validate {o permission rest} (resolves : (s.operations o).worker.resolves = true) :
      Step env s (.validate o permission rest)
        (s.modify o fun x =>
          { x with
            request := (x.request.validate permission rest).2
            checked :=
              if x.request.didPermissionsCheck then x.checked
              else permission :: rest ++ x.checked })
  | observe {o} (resolves : (s.operations o).worker.resolves = true)
      (kind : (s.operations o).isSubscription = true) :
      Step env s (.observe o) (s.modify o fun x => { x with signals := x.signals + 1 })
  | resolvedStopped {o response}
      (resolving : (∃ b, (s.operations o).worker = .resolving b) ∨
        ∃ b document, (s.operations o).worker = .delivering b document)
      (stopped : (s.operations o).stopped = true) :
      Step env s (.resolved o response) (s.modify o fun x => { x with worker := .idle })
  | resolved {o response onReply} (resolving : (s.operations o).worker = .resolving onReply)
      (running : (s.operations o).stopped = false) :
      Step env s (.resolved o response)
        (s.modify o fun x => { x with worker := .replying onReply response })
  | deliveryResolved {o response onReply document response'}
      (delivering : (s.operations o).worker = .delivering onReply document)
      (running : (s.operations o).stopped = false) :
      Step env s (.resolved o response)
        (s.modify o fun x => { x with worker := .deliveryReplying onReply response' })
  | subscribed {o key name} (subscribing : (s.operations o).worker = .subscribing)
      (fresh : ∀ r ∈ s.registrations, r.key ≠ key) :
      Step env s (.subscribe o (.ok (key, name)))
        { s.modify o fun x =>
            { x with
              subscriptionKey := key
              subscriptionName := name
              subscribed := true
              worker := .notifying } with
          registrations := ⟨key, name, o⟩ :: s.registrations }
  | subscribeFailed {o errors w}
      (copies : ∀ b document, w = .delivering b document →
        b = (s.connections (s.operations o).connection).handlers)
      (subscribing : (s.operations o).worker = .subscribing)
      (next : w = .idle ∨ ∃ b document, w = .delivering b (some document)) :
      Step env s (.subscribe o (.error errors))
        (s.modify o fun x => { x with pendingDelivery := false, worker := w })
  | replyData {o onReply response t} (replying : (s.operations o).worker = .replying onReply response)
      (answers : Answers s (s.operations o).connection t) :
      Step env s (.worker o)
        ((s.modify o fun x => { x with worker := .completing onReply }).defer t)
  | replyComplete {o onReply t} (completing : (s.operations o).worker = .completing onReply)
      (socket : (s.connections (s.operations o).connection).http = false)
      (answers : Answers s (s.operations o).connection t) :
      Step env s (.worker o)
        ((s.modify o fun x => { x with worker := .completed, completeSent := true }).defer t)
  | httpComplete {o onReply} (completing : (s.operations o).worker = .completing onReply)
      (http : (s.connections (s.operations o).connection).http = true) :
      Step env s (.worker o)
        (s.modify o fun x => { x with worker := .completed, completeSent := true })
  | complete {o} (completed : (s.operations o).worker = .completed) :
      Step env s (.worker o) (s.modify o fun x => { x with stopped := true, worker := .idle })
  | notifyInitial {o} (notifying : (s.operations o).worker = .notifying) :
      Step env s (.worker o)
        ((s.modify o fun x => { x with worker := .idle, dirty := true }).defer
          (s.operations o).notification)
  | replyDelivery {o onReply response t}
      (replying : (s.operations o).worker = .deliveryReplying onReply response)
      (answers : Answers s (s.operations o).connection t) :
      Step env s (.worker o) ((s.modify o fun x => { x with worker := .delivered }).defer t)
  | deliveryFailed {o} (delivered : (s.operations o).worker = .delivered)
      (failed : (s.operations o).request.failedPermissionsCheck = true) :
      Step env s (.worker o) ((s.modify o fun x => { x with worker := .idle }).defer (.stop o))
  | deliveryPassed {o} (delivered : (s.operations o).worker = .delivered)
      (passed : (s.operations o).request.failedPermissionsCheck = false) :
      Step env s (.worker o)
        (s.modify o fun x => { x with worker := .idle, request := x.request.finishDelivery })
  | unsubscribe {o} (unsubscribing : (s.operations o).worker = .unsubscribing) :
      Step env s (.worker o)
        { s.modify o fun x => { x with worker := .idle } with
          registrations :=
            s.registrations.filter fun r => r.key ≠ (s.operations o).subscriptionKey }
  | signal {o} (observed : 0 < (s.operations o).signals) :
      Step env s (.signal o)
        { s.modify o fun x => { x with dirty := true } with slots := o :: s.slots }
  | slot {o} (mem : o ∈ s.slots) :
      Step env s (.slot o)
        ({ s with slots := s.slots.erase o }.defer (s.operations o).notification)

variable {env : Environment} {s s' : State}

/-- What `onReply` does with a created reply. -/
theorem State.onReply_createResponse (s : State) (c : ConnectionId) {type : String}
    (htype : type.isEmpty = false) (id : String) (payload : Value) :
    ((s.connections c).http = true ∧ type = GQL_COMPLETE ∧
      s.onReply c (createResponse type id payload) = s) ∨
    ∃ t, ((s.connections c).http = false ∨ type ≠ GQL_COMPLETE) ∧ Answers s c t ∧
      s.onReply c (createResponse type id payload) = s.defer t := by
  unfold State.onReply Answers
  by_cases hhttp : (s.connections c).http
  · obtain ⟨p, hparts, rfl, -⟩ := toMessageParts_createResponse htype id payload
    simp only [hhttp, hparts, if_true]
    by_cases hcomplete : p.first = GQL_COMPLETE
    · exact .inl ⟨trivial, hcomplete, if_pos hcomplete⟩
    · exact .inr ⟨_, .inr hcomplete, ⟨_, _, rfl⟩, if_neg hcomplete⟩
  · simp only [hhttp]
    exact .inr ⟨_, .inl trivial, ⟨_, rfl⟩, rfl⟩

/-- A reply other than `complete` answers the connection, unless it is torn down. -/
theorem State.reply_cases (s : State) (c : ConnectionId) {type : String}
    (htype : type.isEmpty = false ∧ type ≠ GQL_COMPLETE) (id : String) (payload : Value) :
    ((s.connections c).handlers = false ∧ s.reply c (createResponse type id payload) = s) ∨
      ((s.connections c).handlers = true ∧
        ∃ t, Answers s c t ∧ s.reply c (createResponse type id payload) = s.defer t) := by
  unfold State.reply
  by_cases hhandlers : (s.connections c).handlers
  · simp only [hhandlers, if_true]
    rcases s.onReply_createResponse c htype.1 id payload with ⟨-, heq, -⟩ | ⟨t, -, ht, hreply⟩
    · exact absurd heq htype.2
    · exact .inr ⟨trivial, t, ht, hreply⟩
  · simp only [hhandlers]
    exact .inl ⟨trivial, rfl⟩

/-- An error is sent if the connection has its handlers, and dropped otherwise. -/
private theorem createErrorResponse_answers (s : State) (c : ConnectionId) {type : String}
    (htype : type = GQL_CONNECTION_ERROR ∨ type = GQL_ERROR) (id e : String) :
    ((s.connections c).handlers = false ∧ s.reply c (createErrorResponse type id e) = s) ∨
      ((s.connections c).handlers = true ∧
        ∃ t, Answers s c t ∧ s.reply c (createErrorResponse type id e) = s.defer t) := by
  unfold createErrorResponse
  apply s.reply_cases
  rcases htype with rfl | rfl <;> decide

/-- What the main thread can do without a choice. -/
private theorem main_cases (h : main s = some s') : Step env s .main s' := by
  unfold main at h
  split at h
  case h_1 top =>
    split at h
    · cases h
      exact .joined top ‹_› ‹_›
    · cases h
  case h_2 top => cases h; exact .allStopped top
  case h_3 top => cases h; exact .tearDown top
  case h_4 top => cases h; exact .erase top
  case h_5 top => cases h; exact .namesDone top
  case h_6 top => cases h; exact .callbacksDone top
  case h_7 idle =>
    split at h
    · cases h
    · rename_i t queue next
      cases h
      cases t with
      | notifyInMainThread name keys => exact .runNotify idle next
      | deliverNotifications => exact .runDeliver idle next
      | dispatchPendingDelivery o =>
          unfold State.run State.dispatchPendingDelivery
          by_cases hstopped : (s.operations o).stopped
          · simp only [State.dequeue_operations, hstopped, if_true]
            exact .dispatchStopped idle next hstopped
          · simp only [State.dequeue_operations, hstopped]
            exact .dispatch idle next (by simpa using hstopped)
      | sendHttp c code body => exact .sendHttp idle next
      | sendWebSocket c body => exact .sendWebSocket idle next
      | terminate c => exact .terminate idle next
      | stop o => exact .forceStop idle next ((s.dequeue queue).stops o)
  case h_8 => cases h

/-- The loop of `stop` stops an operation. -/
private theorem stopNext_cases {o : OperationId} (h : stopNext s o = some s') :
    Step env s (.stopNext o) s' := by
  unfold stopNext at h
  split at h
  · obtain ⟨mem, h⟩ := Option.ite_none_right_eq_some.mp h
    cases h
    exact .stopNext ‹_› mem (State.stops _ o)
  · cases h

/-- The loop over the names takes one of them. -/
private theorem deliverName_cases {name : SubscriptionName} (h : deliverName s name = some s') :
    Step env s (.deliverName name) s' := by
  unfold deliverName at h
  split at h
  · rename_i triggers frames top
    split at h
    · rename_i t hfind
      obtain ⟨key, keys⟩ := t
      obtain rfl : key = name := by simpa using List.find?_some hfind
      cases h
      exact .deliverName top (List.mem_of_find?_eq_some hfind)
    · cases h
  · cases h

/-- The loop over the callbacks calls one of them. -/
private theorem callback_cases {o : OperationId} (h : onFutureSubscription s o = some s') :
    Step env s (.onFutureSubscription o) s' := by
  unfold onFutureSubscription at h
  split at h
  · rename_i keys remaining frames top
    obtain ⟨mem, h⟩ := Option.ite_none_right_eq_some.mp h
    dsimp only at h
    split at h
    · cases h
      exact .callbackIgnored top mem (.inl ‹_›)
    · unfold State.invoke at h
      split at h
      · split at h
        · cases h
          exact .callback top mem (by simp_all) ‹_›
        · cases h
          exact .callbackIgnored top mem (.inr ‹_›)
      · cases h
        exact .aborts
  · cases h

/-- A thread takes its next task. -/
private theorem take_cases {o : OperationId} (h : take s o = some s') :
    Step env s (.take o) s' := by
  unfold take at h
  split at h
  case h_1 idle next => cases h; exact .takeUnsubscribe idle next
  case h_2 t tasks kind idle next =>
    dsimp only at h
    split at h
    · cases h
      exact .takeStopped idle next ‹_› kind
    · have running : (s.operations o).stopped = false := by simp_all
      split at h
      · cases h; exact .takeResolve idle next running
      · cases h; exact .takeSubscribe idle next running
      · cases h; exact .takeDelivery idle next running
      · cases h; exact .aborts
  case h_3 => cases h

/-- A resolution is done. -/
private theorem resolved_cases {o : OperationId} {response : Value}
    (h : resolved s o response = some s') : Step env s (.resolved o response) s' := by
  unfold resolved at h
  dsimp only at h
  by_cases hstopped : (s.operations o).stopped
  · simp only [hstopped, if_true] at h
    split at h
    · cases h; exact .resolvedStopped (.inl ⟨_, ‹_›⟩) hstopped
    · cases h; exact .resolvedStopped (.inr ⟨_, _, ‹_›⟩) hstopped
    · cases h
  · simp only [hstopped] at h
    have running : (s.operations o).stopped = false := by simpa using hstopped
    split at h
    · cases h; exact .resolved ‹_› running
    · cases h; exact .deliveryResolved ‹_› running
    · cases h

/-- `Request::subscribe` returns or throws. -/
private theorem subscribe_cases {o : OperationId}
    {result : Except Value (SubscriptionKey × SubscriptionName)}
    (h : subscribe s o result = some s') : Step env s (.subscribe o result) s' := by
  cases result with
  | ok r =>
      obtain ⟨key, name⟩ := r
      simp only [subscribe] at h
      split at h
      · obtain ⟨fresh, h⟩ := Option.ite_none_right_eq_some.mp h
        cases h
        exact .subscribed ‹_› fresh
      · cases h
  | error errors =>
      simp only [subscribe] at h
      split at h
      · cases h
        refine .subscribeFailed ?_ ‹_› ?_ <;>
          by_cases hstopped : (s.operations o).stopped <;> simp [hstopped]
      · cases h

/-- A thread goes on where it has no choice. -/
private theorem worker_cases {o : OperationId} (h : worker s o = some s') :
    Step env s (.worker o) s' := by
  have hinvoke : ∀ {b : Bool} {t : State}, some (s.invoke b t) = some s' →
      Step env s (.worker o) s' ∨ t = s' := by
    intro b t ht
    unfold State.invoke at ht
    cases b
    · cases ht; exact .inl .aborts
    · exact .inr (Option.some.inj ht)
  have hdata : GQL_DATA.isEmpty = false ∧ GQL_DATA ≠ GQL_COMPLETE := by decide
  have hcomplete : GQL_COMPLETE.isEmpty = false := by decide
  unfold worker at h
  dsimp only at h
  split at h
  case h_1 onReply response hw =>
    rcases hinvoke h with hs | rfl
    · exact hs
    · rcases State.onReply_createResponse _ _ hdata.1 _ _ with ⟨-, heq, -⟩ | ⟨t, -, ht, hreply⟩
      · exact absurd heq hdata.2
      · rw [hreply]
        exact .replyData hw ht
  case h_2 onReply hw =>
    rcases hinvoke h with hs | rfl
    · exact hs
    · rcases State.onReply_createResponse _ _ hcomplete _ _ with ⟨hhttp, -, hreply⟩ |
        ⟨t, hsocket, ht, hreply⟩
      · rw [hreply]
        exact .httpComplete hw hhttp
      · rw [hreply]
        exact .replyComplete hw (hsocket.resolve_right fun h => h rfl) ht
  case h_3 hw => cases h; exact .complete hw
  case h_4 hw =>
    rcases hinvoke h with hs | rfl
    · exact hs
    · exact .notifyInitial hw
  case h_5 onReply response hw =>
    rcases hinvoke h with hs | rfl
    · exact hs
    · rcases State.onReply_createResponse _ _ hdata.1 _ _ with ⟨-, heq, -⟩ | ⟨t, -, ht, hreply⟩
      · exact absurd heq hdata.2
      · rw [hreply]
        exact .replyDelivery hw ht
  case h_6 hw =>
    split at h
    · rcases hinvoke h with hs | rfl
      · exact hs
      · exact .deliveryFailed hw ‹_›
    · cases h; exact .deliveryPassed hw (by simp_all)
  case h_7 hw => cases h; exact .unsubscribe hw
  case h_8 => cases h

/-- A `start` message that succeeds is ignored, or adds its operation. -/
private theorem onGraphQLStart_cases {c : ConnectionId} {id : String} {payload : Value}
    {key : SubscriptionKey} (h : s.onGraphQLStart env c id payload key = .ok () s') :
    (s' = s ∧ (s.connections c).operations.lookup id ≠ none) ∨
      ∃ sub, make env payload = .ok sub ∧ (s.connections c).operations.lookup id = none ∧
        s' = s.addConnectionOperation env c id sub key := by
  unfold State.onGraphQLStart at h
  split at h
  · cases h
  · split at h
    · cases h
      exact .inl ⟨rfl, by simp_all⟩
    · split at h
      · cases h
      · cases h
        exact .inr ⟨_, ‹_›, ‹_›, rfl⟩

/-- An exception leaves `onGraphQLStart` before it has changed anything. -/
theorem State.onGraphQLStart_kept {c : ConnectionId} {id : String} {payload : Value}
    {key : SubscriptionKey} {e : String}
    (h : s.onGraphQLStart env c id payload key = .error e s') : s' = s := by
  unfold State.onGraphQLStart at h
  split at h
  · cases h
    rfl
  · split at h
    · cases h
    · split at h
      · cases h
        rfl
      · cases h

/-- An exception leaves `onGraphQLConnectionInit` before it has changed anything: the
permissions are assigned when the authorizer has returned. -/
theorem State.onGraphQLConnectionInit_kept {c : ConnectionId} {payload : Value} {e : String}
    (h : s.onGraphQLConnectionInit env c payload = .error e s') : s' = s := by
  unfold State.onGraphQLConnectionInit at h
  dsimp only at h
  split at h
  · split at h
    · cases h
    · split at h
      · cases h
        rfl
      · cases h
    · cases h
      rfl
  · cases h
    rfl

/-- **Exceptions.**  The handling of a message that throws has changed nothing. -/
theorem State.onGraphQLMessage_kept {c : ConnectionId} {type id : String} {payload : Value}
    {key : SubscriptionKey} {e : String}
    (h : s.onGraphQLMessage env c type id payload key = .error e s') : s' = s := by
  unfold State.onGraphQLMessage at h
  split at h
  · exact State.onGraphQLConnectionInit_kept h
  · split at h
    · cases h
    · split at h
      · exact State.onGraphQLStart_kept h
      · split at h
        · cases h
        · cases h
          rfl

/-- An error reply to a new HTTP connection. -/
private theorem reply_http {c : ConnectionId} (e : String)
    (hc : (s.connections c).handlers = true ∧ (s.connections c).http = true) :
    ∃ code body, s.reply c (createErrorResponse GQL_CONNECTION_ERROR "0" e) =
      s.defer (.sendHttp c code body) := by
  rcases createErrorResponse_answers s c (.inl rfl) "0" e with ⟨hnone, -⟩ | ⟨-, t, ht, hreply⟩
  · simp [hc.1] at hnone
  · unfold Answers at ht
    rw [if_pos hc.2] at ht
    obtain ⟨code, body, rfl⟩ := ht
    exact ⟨code, body, hreply⟩

/-- A request is rejected, fails or starts its operation. -/
private theorem http_cases {authorization : String} {payload : Value} {key : SubscriptionKey}
    (idle : s.frames = []) :
    Step env s (.onHttp authorization (some payload) key)
      ((s.onConnectionStart true).onHttp env s.connectionBound authorization payload key) := by
  unfold State.onHttp
  split
  · rename_i e _
    obtain ⟨code, body, heq⟩ :=
      reply_http (s := s.onConnectionStart true) (c := s.connectionBound) e (by simp)
    rw [heq]
    exact .httpUnauthorized idle
  · rename_i p hp
    dsimp only
    rw [State.onGraphQLMessage_start]
    split
    · rename_i s₁ hs₁
      rcases onGraphQLStart_cases hs₁ with ⟨-, hentry⟩ | ⟨sub, made, -, rfl⟩
      · simp at hentry
      · exact .httpStarted made idle
    · rename_i e s₁ hs₁
      rw [State.onGraphQLStart_kept hs₁]
      obtain ⟨code, body, heq⟩ :=
        reply_http (s := (s.onConnectionStart true).change s.connectionBound
          fun x => { x with permissions := p }) (c := s.connectionBound) e (by simp)
      rw [heq]
      exact .httpFailed idle

/-- A `connection_init` message that succeeds is acknowledged or dropped. -/
private theorem init_cases {c : ConnectionId} {message : Option Value} {payload : Value}
    {key : SubscriptionKey} (idle : s.frames = []) (connected : Connected s c)
    (h : s.onGraphQLConnectionInit env c payload = .ok () s') :
    Step env s (.onWebSocketMessage c message key) s' := by
  have hack : GQL_CONNECTION_ACK.isEmpty = false ∧ GQL_CONNECTION_ACK ≠ GQL_COMPLETE := by decide
  unfold State.onGraphQLConnectionInit at h
  dsimp only at h
  split at h
  · split at h
    · cases h
      rcases s.reply_cases c hack "" .null with ⟨-, heq⟩ | ⟨-, t, ht, heq⟩
      · rw [heq]; exact .messageIgnored idle connected
      · rw [heq]; exact .messageAnswered idle connected ht
    · split at h
      · cases h
      · rename_i p _
        cases h
        rcases State.reply_cases (s.change c fun x => { x with permissions := p }) c hack ""
          .null with ⟨hnone, heq⟩ | ⟨-, t, ht, heq⟩
        · rw [heq]
          exact .messageUnanswered idle connected (by simpa using hnone)
        · rw [heq]
          refine .messageAuthorized idle connected ?_
          simpa [Answers] using ht
    · cases h
  · cases h

/-- A message is handled, or answered with its error. -/
private theorem message_cases {c : ConnectionId} {message : Value} {key : SubscriptionKey}
    (idle : s.frames = []) (connected : Connected s c) :
    Step env s (.onWebSocketMessage c (some message) key) (s.onWebSocketMessage env c message key) := by
  have herror : ∀ {type : String}, type = GQL_CONNECTION_ERROR ∨ type = GQL_ERROR → ∀ id e,
      Step env s (.onWebSocketMessage c (some message) key)
        (s.reply c (createErrorResponse type id e)) := by
    intro type htype id e
    rcases createErrorResponse_answers s c htype id e with ⟨-, heq⟩ | ⟨-, t, ht, heq⟩
    · rw [heq]; exact .messageIgnored idle connected
    · rw [heq]; exact .messageAnswered idle connected ht
  unfold State.onWebSocketMessage
  split
  · exact herror (.inl rfl) _ _
  · rename_i parts hparts
    have hasks : ∀ {type}, parts.first = type →
        Asks (some message) type parts.second parts.value := by
      rintro _ rfl
      exact ⟨message, rfl, hparts⟩
    split
    · rename_i s' hs'
      unfold State.onGraphQLMessage at hs'
      split at hs'
      · exact init_cases idle connected hs'
      · split at hs'
        · cases hs'
          unfold State.onGraphQLConnectionTerminate
          split
          · exact .messageTerminate idle connected
          · exact .messageIgnored idle connected
        · split at hs'
          · rcases onGraphQLStart_cases hs' with ⟨rfl, -⟩ | ⟨sub, made, absent, rfl⟩
            · exact .messageIgnored idle connected
            · exact .messageStart (hasks ‹_›) made idle connected absent
          · split at hs'
            · cases hs'
              unfold State.onGraphQLStop
              split
              · exact .messageIgnored idle connected
              · rename_i o entry
                rw [idle]
                exact .messageStop (hasks ‹_›) idle connected entry (State.stops _ o)
            · cases hs'
    · rename_i hs'
      rw [State.onGraphQLMessage_kept hs']
      apply herror
      split
      · exact .inl rfl
      · exact .inr rfl

/-- Every enabled step is one of the listed ones. -/
theorem step_cases {l : Label} (h : step env s l = some s') : Step env s l s' := by
  obtain ⟨-, h⟩ := Option.ite_none_left_eq_some.mp h
  cases l with
  | onWebSocketOpen =>
      obtain ⟨idle, h⟩ := Option.ite_none_right_eq_some.mp h
      cases h
      exact .opened idle
  | onHttp authorization payload key =>
      obtain ⟨idle, h⟩ := Option.ite_none_right_eq_some.mp h
      cases payload with
      | none => cases h; exact .httpMalformed idle
      | some payload => cases h; exact http_cases idle
  | onWebSocketMessage c message key =>
      obtain ⟨⟨idle, known, socket, live⟩, h⟩ := Option.ite_none_right_eq_some.mp h
      cases message with
      | none => cases h; exact .aborts
      | some message => cases h; exact message_cases idle ⟨known, socket, live⟩
  | onWebSocketClose c =>
      obtain ⟨⟨idle, known, socket, live⟩, h⟩ := Option.ite_none_right_eq_some.mp h
      cases h
      exact .closed idle ⟨known, socket, live⟩
  | expireNotify =>
      obtain ⟨armed, h⟩ := Option.ite_none_right_eq_some.mp h
      cases h
      exact .expireNotify armed
  | expireDelivery o =>
      obtain ⟨armed, h⟩ := Option.ite_none_right_eq_some.mp h
      cases h
      exact .expireDelivery armed
  | main => exact main_cases h
  | stopNext o => exact stopNext_cases h
  | deliverName name => exact deliverName_cases h
  | onFutureSubscription o => exact callback_cases h
  | take o => exact take_cases h
  | validate o permission rest =>
      obtain ⟨resolves, h⟩ := Option.ite_none_right_eq_some.mp h
      cases h
      exact .validate resolves
  | observe o =>
      obtain ⟨⟨resolves, kind⟩, h⟩ := Option.ite_none_right_eq_some.mp h
      cases h
      exact .observe resolves kind
  | resolved o response => exact resolved_cases h
  | subscribe o result => exact subscribe_cases h
  | worker o => exact worker_cases h
  | signal o =>
      obtain ⟨observed, h⟩ := Option.ite_none_right_eq_some.mp h
      cases h
      exact .signal observed
  | slot o =>
      obtain ⟨mem, h⟩ := Option.ite_none_right_eq_some.mp h
      dsimp only [State.invoke] at h
      split at h
      · cases h; exact .slot mem
      · cases h; exact .aborts

end GraphQLServer
