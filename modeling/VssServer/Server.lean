import Mathlib.Data.List.AList
import Mathlib.Data.Finset.Basic
import Mathlib.Tactic.Simps.Basic
import VssServer.Permissions
import VssServer.Response
import VssServer.Runs

/-!
# The server and its threads

`GraphQLServer`, its connections and their operations, as one machine.  The
main thread runs one handler or task after the other; a handler that stops
subscriptions waits for their threads, so what it has still to do is a stack of
`Frame`s.  Every operation has a thread of its own: a subscription a pool of
one, a query or mutation the worker its resolution is offloaded to.  The atomic
steps of a thread lie between its accesses to what another thread uses:
`m_stopped`, the handlers, the tables of the schema.

What is outside of the repository is in the labels or in the `Environment`:
messages, when timers expire and signals fire, what the executable schema
answers, which calls its resolvers make.  An exception that leaves a `noexcept`
function, as from an empty handler, ends the process: `aborted`.
-/

namespace GraphQLServer

open Response Permissions

/-- The address of a `GraphQLConnectionOperation`. -/
abbrev OperationId := Nat

/-- The address of a connection. -/
abbrev ConnectionId := Nat

abbrev SubscriptionKey := Nat

abbrev SubscriptionName := String

/-- What the server is built and configured with: the authorizer (which may return a null
pointer), the grammar behind `decideIsSubscription` (a parse error is thrown), and what the
accessor of a response value says about a value of another type. -/
structure Environment where
  disablePermissions : Bool
  authorize : String → Except String (Option ClientPermissions)
  decideIsSubscription : String → Except String Bool
  wrongType : String

/-- A `unique_ptr` to a timer: unset, waiting, or expired with its handler queued. -/
inductive Timer
  | unset
  | armed
  | expired
  deriving DecidableEq

/-- Work posted to the thread of an operation; `valid` tells whether the bound
future has a state. -/
inductive ThreadTask
  | resolve
  | subscribe
  | resolveSubscription (valid : Bool)
  | unsubscribe
  deriving DecidableEq

/-- Where the thread of an operation is.  `onReply` tells whether the copied
handler is callable. -/
inductive Worker
  | idle
  /-- A query or mutation is in `Request::resolve`. -/
  | resolving (onReply : Bool)
  /-- It has passed the second check of `m_stopped`. -/
  | replying (onReply : Bool) (response : Value)
  | completing (onReply : Bool)
  /-- Both replies are handed over, `m_stopped = true` is next. -/
  | completed
  /-- In `Request::subscribe`. -/
  | subscribing
  /-- Subscribed; the initial `notify` is next. -/
  | notifying
  /-- In `get` of the delivered future: a deferred one, which runs resolvers, or
  the document of a failed `subscribe`. -/
  | delivering (onReply : Bool) (document : Option Value)
  /-- A delivery has passed the second check of `m_stopped`. -/
  | deliveryReplying (onReply : Bool) (response : Value)
  /-- The reply is handed over, the permission flags are next. -/
  | delivered
  /-- The signal connections are cleared, `Request::unsubscribe` is next. -/
  | unsubscribing

/-- A `GraphQLConnectionOperation`.  `subscribed`, `dirty`, `checked` and
`completeSent` are ghosts: `subscribe` returned, something was signalled since the
last resolution began, the permissions that `validate` has checked so far, and
`complete` was handed over. -/
structure Operation where
  id : String
  connection : ConnectionId
  isSubscription : Bool
  request : RequestState
  stopped : Bool := false
  tasks : List ThreadTask := []
  worker : Worker := .idle
  subscriptionKey : SubscriptionKey
  subscriptionName : SubscriptionName := ""
  signals : Nat := 0
  deliveryTimer : Timer := .unset
  pendingDelivery : Bool := false
  subscribed : Bool := false
  dirty : Bool := false
  checked : List Permissions.Key := []
  completeSent : Bool := false

/-- A `GraphQLConnection`: `live` while it is in `m_connections`, `handlers` until
`tearDown` has emptied them; `sent` counts the `send_http_response` calls. -/
structure Connection where
  http : Bool
  live : Bool := true
  handlers : Bool := true
  permissions : Option ClientPermissions := none
  operations : AList fun _ : String => OperationId := ∅
  sent : Nat := 0

/-- Work posted to the main thread. -/
inductive Task
  | notifyInMainThread (name : SubscriptionName) (keys : Finset SubscriptionKey)
  | deliverNotifications
  | dispatchPendingDelivery (o : OperationId)
  | sendHttp (c : ConnectionId) (statusCode : Int) (body : Value)
  | sendWebSocket (c : ConnectionId) (body : Value)
  | terminate (c : ConnectionId)
  | stop (o : OperationId)

/-- What the main thread has still to do in its handler. -/
inductive Frame
  /-- `m_thread.join()` in `stop`. -/
  | join (o : OperationId)
  /-- The loop of `GraphQLConnection::stop`. -/
  | stopOperations (remaining : List OperationId)
  /-- The rest of `tearDown`. -/
  | tearDown (c : ConnectionId)
  /-- `onGraphQLStop` has stopped the operation. -/
  | erase (c : ConnectionId) (id : String)
  /-- The loop of `deliverNotifications`. -/
  | deliverNames (triggers : List (SubscriptionName × Finset SubscriptionKey))
  /-- `deliver` calls the callbacks of one name; `keys` is
  `currentNotificationTriggers`. -/
  | deliver (keys : Finset SubscriptionKey) (remaining : List OperationId)
  deriving DecidableEq

/-- A subscription registered in the schema, with the operation its callback is
bound to. -/
structure Registration where
  key : SubscriptionKey
  name : SubscriptionName
  operation : OperationId
  deriving DecidableEq

/-- The server.  `slots` are the signal slots that have begun and not yet called
`notify`. -/
structure State where
  connections : ConnectionId → Connection
  connectionBound : ConnectionId
  operations : OperationId → Operation
  operationBound : OperationId
  registrations : List Registration
  slots : List OperationId
  notifyTimer : Timer
  pendingNotifyTriggers : AList fun _ : SubscriptionName => Finset SubscriptionKey
  queue : List Task
  frames : List Frame
  aborted : Bool

/-- One step.  `onHttp` and `onWebSocketMessage` carry the parsed JSON, if it
parses, and the value that an unassigned `m_subscriptionKey` happens to have. -/
inductive Label
  | onWebSocketOpen
  | onHttp (authorization : String) (payload : Option Value) (key : SubscriptionKey)
  | onWebSocketMessage (c : ConnectionId) (message : Option Value) (key : SubscriptionKey)
  | onWebSocketClose (c : ConnectionId)
  | expireNotify
  | expireDelivery (o : OperationId)
  /-- The main thread goes on, in its handler or with the next task. -/
  | main
  | stopNext (o : OperationId)
  | deliverName (name : SubscriptionName)
  | onFutureSubscription (o : OperationId)
  /-- The thread of `o` takes its next task. -/
  | take (o : OperationId)
  | validate (o : OperationId) (permission : Permissions.Key) (rest : List Permissions.Key)
  | observe (o : OperationId)
  | resolved (o : OperationId) (response : Value)
  | subscribe (o : OperationId) (result : Except Value (SubscriptionKey × SubscriptionName))
  /-- The thread of `o` goes on where it has no choice. -/
  | worker (o : OperationId)
  | signal (o : OperationId)
  | slot (o : OperationId)

/-- Change the operation `o`. -/
@[simps]
def State.modify (s : State) (o : OperationId) (f : Operation → Operation) : State :=
  { s with operations := Function.update s.operations o (f (s.operations o)) }

/-- Change the connection `c`. -/
@[simps]
def State.change (s : State) (c : ConnectionId) (f : Connection → Connection) : State :=
  { s with connections := Function.update s.connections c (f (s.connections c)) }

/-- `GraphQLServer::defer`. -/
@[simps]
def State.defer (s : State) (t : Task) : State :=
  { s with queue := s.queue ++ [t] }

/-- The main thread takes a task off its queue. -/
@[simps]
def State.dequeue (s : State) (queue : List Task) : State :=
  { s with queue := queue }

/-- What the main thread has still to do. -/
@[simps]
def State.goto (s : State) (frames : List Frame) : State :=
  { s with frames := frames }

/-- `std::terminate`. -/
@[simps]
def State.abort (s : State) : State :=
  { s with aborted := true }

/-- A `noexcept` function calls a handler and goes on to `s'`, unless the handler
is an empty function. -/
def State.invoke (s : State) (handler : Bool) (s' : State) : State :=
  if handler then s' else s.abort

/-- `onConnectionStart`. -/
@[simps]
def State.onConnectionStart (s : State) (http : Bool) : State :=
  { s with
    connections := Function.update s.connections s.connectionBound { http := http }
    connectionBound := s.connectionBound + 1 }

/-- `onHttpReply` and `onWebSocketReply`, as the connection `c` is set up. -/
def State.onReply (s : State) (c : ConnectionId) (response : Value) : State :=
  if (s.connections c).http then
    match toMessageParts response with
    | .error _ => s.abort
    | .ok parts =>
        if parts.first = GQL_COMPLETE then s
        else s.defer (.sendHttp c (httpStatusCode parts.first parts.value) parts.value)
  else s.defer (.sendWebSocket c response)

/-- `GraphQLConnection::reply`. -/
def State.reply (s : State) (c : ConnectionId) (response : Value) : State :=
  if (s.connections c).handlers then s.onReply c response else s

/-- `GraphQLConnectionOperationSubscription::notify` hands this to the server. -/
def Operation.notification (x : Operation) : Task :=
  .notifyInMainThread x.subscriptionName {x.subscriptionKey}

/-- `stop` of an operation; a subscription goes on to join its thread. -/
def State.stop (s : State) (o : OperationId) : State :=
  let x := s.operations o
  if x.stopped then s
  else if x.isSubscription then
    (s.modify o fun x =>
      { x with
        stopped := true
        deliveryTimer := .unset
        pendingDelivery := false
        tasks := x.tasks ++ [.unsubscribe] }).goto (.join o :: s.frames)
  else s.modify o fun x => { x with stopped := true }

/-- `GraphQLConnectionOperation::make`: whether it is a subscription. -/
def make (env : Environment) (payload : Value) : Except String Bool :=
  match toOperationDefinitionParts payload with
  | .error e => .error e
  | .ok parts =>
      if parts.first.isEmpty then .error (InvalidPayload "Missing query")
      else env.decideIsSubscription parts.first

/-- The operation that `make` constructs and `start` posts the first task of. -/
def newOperation (env : Environment) (id : String) (c : ConnectionId)
    (permissions : Option ClientPermissions) (isSubscription : Bool) (key : SubscriptionKey) :
    Operation where
  id := id
  connection := c
  isSubscription := isSubscription
  request := { permissions := permissions, didPermissionsCheck := env.disablePermissions }
  subscriptionKey := key
  tasks := [if isSubscription then .subscribe else .resolve]

/-- `addConnectionOperation`, once `make` has succeeded. -/
def State.addConnectionOperation (s : State) (env : Environment) (c : ConnectionId) (id : String)
    (isSubscription : Bool) (key : SubscriptionKey) : State :=
  { s.change c fun x => { x with operations := x.operations.insert id s.operationBound } with
    operations := Function.update s.operations s.operationBound
      (newOperation env id c (s.connections c).permissions isSubscription key)
    operationBound := s.operationBound + 1 }

/-- How a handler of a message ends: it returns, or an exception leaves it, and either way
the server is as the handler has left it. -/
abbrev Outcome :=
  EStateM.Result String State Unit

/-- `onGraphQLStart`. -/
def State.onGraphQLStart (s : State) (env : Environment) (c : ConnectionId) (id : String)
    (payload : Value) (key : SubscriptionKey) : Outcome :=
  if id.isEmpty then .error (InvalidPayload "missing 'id'") s
  else
    match (s.connections c).operations.lookup id with
    | some _ => .ok () s
    | none =>
        match make env payload with
        | .error e => .error e s
        | .ok isSubscription => .ok () (s.addConnectionOperation env c id isSubscription key)

/-- `onGraphQLStop`. -/
def State.onGraphQLStop (s : State) (c : ConnectionId) (id : String) : State :=
  match (s.connections c).operations.lookup id with
  | none => s
  | some o => (s.goto (.erase c id :: s.frames)).stop o

/-- The value of the member that the loop of `onGraphQLConnectionInit` stops at. -/
def authorizationOf : Value → Option Value :=
  Value.find GQL_AUTHORIZATION

/-- `onGraphQLConnectionInit`. -/
def State.onGraphQLConnectionInit (s : State) (env : Environment) (c : ConnectionId)
    (payload : Value) : Outcome :=
  let acknowledge (s : State) := s.reply c (createResponse GQL_CONNECTION_ACK "" .null)
  if payload.isMap then
    match authorizationOf payload with
    | none => .ok () (acknowledge s)
    | some (.string token) =>
        match env.authorize token with
        | .error e => .error e s
        | .ok permissions =>
            .ok () (acknowledge (s.change c fun x => { x with permissions := permissions }))
    | some _ => .error env.wrongType s
  else .error (InvalidPayload "Connection init payload is not an object") s

/-- `onGraphQLConnectionTerminate`. -/
def State.onGraphQLConnectionTerminate (s : State) (c : ConnectionId) : State :=
  if (s.connections c).handlers then s.defer (.terminate c) else s

/-- `onGraphQLMessage`. -/
def State.onGraphQLMessage (s : State) (env : Environment) (c : ConnectionId)
    (type id : String) (payload : Value) (key : SubscriptionKey) : Outcome :=
  if type = GQL_CONNECTION_INIT then s.onGraphQLConnectionInit env c payload
  else if type = GQL_CONNECTION_TERMINATE then .ok () (s.onGraphQLConnectionTerminate c)
  else if type = GQL_START then s.onGraphQLStart env c id payload key
  else if type = GQL_STOP then .ok () (s.onGraphQLStop c id)
  else .error (InvalidPayload ("Invalid message type: " ++ type)) s

/-- A `start` message starts an operation. -/
theorem State.onGraphQLMessage_start (s : State) (env : Environment) (c : ConnectionId)
    (id : String) (payload : Value) (key : SubscriptionKey) :
    s.onGraphQLMessage env c GQL_START id payload key = s.onGraphQLStart env c id payload key := by
  unfold State.onGraphQLMessage
  rw [if_neg (by decide), if_neg (by decide), if_pos rfl]

/-- `GraphQLConnection::onWebSocketMessage`. -/
def State.onWebSocketMessage (s : State) (env : Environment) (c : ConnectionId)
    (message : Value) (key : SubscriptionKey) : State :=
  match toMessageParts message with
  | .error e => s.reply c (createErrorResponse GQL_CONNECTION_ERROR "" e)
  | .ok parts =>
      match s.onGraphQLMessage env c parts.first parts.second parts.value key with
      | .ok _ s' => s'
      | .error e s' =>
          s'.reply c (createErrorResponse
            (if parts.second.isEmpty then GQL_CONNECTION_ERROR else GQL_ERROR) parts.second e)

/-- `GraphQLConnection::onHttp`. -/
def State.onHttp (s : State) (env : Environment) (c : ConnectionId) (authorization : String)
    (payload : Value) (key : SubscriptionKey) : State :=
  match env.authorize authorization with
  | .error e => s.reply c (createErrorResponse GQL_CONNECTION_ERROR "0" e)
  | .ok permissions =>
      let s := s.change c fun x => { x with permissions := permissions }
      match s.onGraphQLMessage env c GQL_START "0" payload key with
      | .ok _ s' => s'
      | .error e s' => s'.reply c (createErrorResponse GQL_CONNECTION_ERROR "0" e)

/-- `onConnectionDone`: the rest of it is up to the frames. -/
def State.onConnectionDone (s : State) (c : ConnectionId) : State :=
  (s.change c fun x => { x with live := false, operations := ∅ }).goto
    (.stopOperations ((s.connections c).operations.entries.map Sigma.snd) :: .tearDown c ::
      s.frames)

/-- `notifyInMainThread`. -/
def State.notifyInMainThread (s : State) (name : SubscriptionName)
    (keys : Finset SubscriptionKey) : State :=
  { s with
    pendingNotifyTriggers := s.pendingNotifyTriggers.insert name
      ((s.pendingNotifyTriggers.lookup name).getD ∅ ∪ keys)
    notifyTimer := if s.notifyTimer = .unset then .armed else s.notifyTimer }

/-- `deliverNotifications`, up to its loop. -/
def State.deliverNotifications (s : State) : State :=
  { s.goto (.deliverNames (s.pendingNotifyTriggers.entries.map fun e => (e.1, e.2)) :: s.frames) with
    notifyTimer := .unset
    pendingNotifyTriggers := ∅ }

/-- `dispatchPendingDelivery`. -/
def State.dispatchPendingDelivery (s : State) (o : OperationId) : State :=
  if (s.operations o).stopped then s
  else s.modify o fun x =>
    { x with
      deliveryTimer := .unset
      pendingDelivery := false
      tasks := x.tasks ++ [.resolveSubscription x.pendingDelivery] }

/-- `onFutureSubscription`, once it has decided to dispatch the delivery. -/
def Operation.schedule (x : Operation) : Operation :=
  { x with
    pendingDelivery := true
    deliveryTimer := if x.deliveryTimer = .unset then .armed else x.deliveryTimer }

/-- The main thread runs a task. -/
def State.run (s : State) : Task → State
  | .notifyInMainThread name keys => s.notifyInMainThread name keys
  | .deliverNotifications => s.deliverNotifications
  | .dispatchPendingDelivery o => s.dispatchPendingDelivery o
  | .sendHttp c _ _ => (s.change c fun x => { x with sent := x.sent + 1 }).onConnectionDone c
  -- what `send` and `close` do is up to the WebSocket library
  | .sendWebSocket _ _ | .terminate _ => s
  | .stop o => s.stop o

/-- The main thread goes on with its handler, or with the next task. -/
def main (s : State) : Option State :=
  match s.frames with
  | .join o :: frames =>
      match (s.operations o).tasks, (s.operations o).worker with
      | [], .idle => some (s.goto frames)
      | _, _ => none
  | .stopOperations [] :: frames => some (s.goto frames)
  | .tearDown c :: frames =>
      some ((s.change c fun x => { x with permissions := none, handlers := false }).goto frames)
  | .erase c id :: frames =>
      some ((s.change c fun x => { x with operations := x.operations.erase id }).goto frames)
  | .deliverNames [] :: frames | .deliver _ [] :: frames => some (s.goto frames)
  | [] =>
      match s.queue with
      | [] => none
      | t :: queue => some ((s.dequeue queue).run t)
  | _ => none

/-- A choice that a loop of the main thread leaves open. -/
def stopNext (s : State) (o : OperationId) : Option State :=
  match s.frames with
  | .stopOperations remaining :: frames =>
      if o ∈ remaining then
        some ((s.goto (.stopOperations (remaining.erase o) :: frames)).stop o)
      else none
  | _ => none

def deliverName (s : State) (name : SubscriptionName) : Option State :=
  match s.frames with
  | .deliverNames triggers :: frames =>
      match triggers.find? fun t => t.1 = name with
      | some t =>
          some (s.goto (.deliver t.2 ((s.registrations.filter fun r => r.name = name).map
            Registration.operation) :: .deliverNames (triggers.erase t) :: frames))
      | none => none
  | _ => none

/-- `onFutureSubscription`, called back by `deliver` while
`currentNotificationTriggers` has `keys`. -/
def onFutureSubscription (s : State) (o : OperationId) : Option State :=
  match s.frames with
  | .deliver keys remaining :: frames =>
      if o ∈ remaining then
        let x := s.operations o
        let s' := s.goto (.deliver keys (remaining.erase o) :: frames)
        if x.stopped then some s'
        else
          some (s.invoke (s.connections x.connection).handlers
            (if x.subscriptionKey ∈ keys then s'.modify o Operation.schedule else s'))
      else none
  | _ => none

/-- The start of a task on the thread of `o`; all but `unsubscribeInAThread` first
look at `m_stopped`. -/
def take (s : State) (o : OperationId) : Option State :=
  match (s.operations o).worker, (s.operations o).tasks with
  | .idle, .unsubscribe :: tasks =>
      some (s.modify o fun x =>
        { x with tasks := tasks, signals := 0, worker := .unsubscribing })
  | .idle, t :: tasks =>
      let dirty := if t = .resolve ∨ t = .subscribe then (s.operations o).dirty else false
      if (s.operations o).stopped then
        some (s.modify o fun x => { x with tasks := tasks, dirty := dirty })
      else
        let onReply := (s.connections (s.operations o).connection).handlers
        let go (w : Worker) := s.modify o fun x =>
          { x with tasks := tasks, dirty := dirty, worker := w }
        match t with
        | .resolve => some (go (.resolving onReply))
        | .subscribe => some (go .subscribing)
        | .resolveSubscription true => some (go (.delivering onReply none))
        | _ => some s.abort
  | _, _ => none

/-- Resolvers run while a query is resolved or a deferred future is waited for. -/
def Worker.resolves : Worker → Bool
  | .resolving _ | .delivering _ none => true
  | _ => false

/-- The resolution is done; a document that was ready is the response itself. -/
def resolved (s : State) (o : OperationId) (response : Value) : Option State :=
  let go (w : Worker) := some (s.modify o fun x =>
    { x with worker := if (s.operations o).stopped then .idle else w })
  match (s.operations o).worker with
  | .resolving onReply => go (.replying onReply response)
  | .delivering onReply document => go (.deliveryReplying onReply (document.getD response))
  | _ => none

/-- `Request::subscribe` returns a new key, or throws a `schema_exception`, whose
document is then resolved in the same task. -/
def subscribe (s : State) (o : OperationId) :
    Except Value (SubscriptionKey × SubscriptionName) → Option State
  | .ok (key, name) =>
      match (s.operations o).worker with
      | .subscribing =>
          if ∀ r ∈ s.registrations, r.key ≠ key then
            some { s.modify o fun x =>
                { x with
                  subscriptionKey := key
                  subscriptionName := name
                  subscribed := true
                  worker := .notifying } with
              registrations := ⟨key, name, o⟩ :: s.registrations }
          else none
      | _ => none
  | .error errors =>
      match (s.operations o).worker with
      | .subscribing =>
          let onReply := (s.connections (s.operations o).connection).handlers
          let document := .map [(GQL_DATA, .null), ("errors", errors)]
          let next :=
            if (s.operations o).stopped then .idle else .delivering onReply (some document)
          some (s.modify o fun x => { x with pendingDelivery := false, worker := next })
      | _ => none

/-- The steps of a thread without a choice. -/
def worker (s : State) (o : OperationId) : Option State :=
  let x := s.operations o
  match x.worker with
  | .replying onReply response =>
      some (s.invoke onReply
        ((s.modify o fun x => { x with worker := .completing onReply }).onReply x.connection
          (createResponse GQL_DATA x.id response)))
  | .completing onReply =>
      some (s.invoke onReply
        ((s.modify o fun x => { x with worker := .completed, completeSent := true }).onReply
          x.connection (createResponse GQL_COMPLETE x.id .null)))
  | .completed => some (s.modify o fun x => { x with stopped := true, worker := .idle })
  | .notifying =>
      some (s.invoke (s.connections x.connection).handlers
        ((s.modify o fun x => { x with worker := .idle, dirty := true }).defer x.notification))
  | .deliveryReplying onReply response =>
      some (s.invoke onReply
        ((s.modify o fun x => { x with worker := .delivered }).onReply x.connection
          (createResponse GQL_DATA x.id response)))
  | .delivered =>
      if x.request.failedPermissionsCheck then
        some (s.invoke (s.connections x.connection).handlers
          ((s.modify o fun x => { x with worker := .idle }).defer (.stop o)))
      else
        some (s.modify o fun x =>
          { x with worker := .idle, request := x.request.finishDelivery })
  | .unsubscribing =>
      some { s.modify o fun x => { x with worker := .idle } with
        registrations := s.registrations.filter fun r => r.key ≠ x.subscriptionKey }
  | _ => none

/-- One atomic step. -/
def step (env : Environment) (s : State) (l : Label) : Option State :=
  if s.aborted then none
  else
    match l with
    | .onWebSocketOpen =>
        if s.frames = [] then some (s.onConnectionStart false) else none
    | .onHttp authorization payload key =>
        if s.frames = [] then
          let s' := s.onConnectionStart true
          match payload with
          | some payload => some (s'.onHttp env s.connectionBound authorization payload key)
          -- `parseJSON` throws, with the connection set up
          | none => some s'.abort
        else none
    | .onWebSocketMessage c message key =>
        if s.frames = [] ∧ c < s.connectionBound ∧ (s.connections c).http = false ∧
            (s.connections c).live then
          match message with
          | some message => some (s.onWebSocketMessage env c message key)
          | none => some s.abort
        else none
    | .onWebSocketClose c =>
        if s.frames = [] ∧ c < s.connectionBound ∧ (s.connections c).http = false ∧
            (s.connections c).live then some (s.onConnectionDone c)
        else none
    | .expireNotify =>
        if s.notifyTimer = .armed then
          some { s.defer .deliverNotifications with notifyTimer := .expired }
        else none
    | .expireDelivery o =>
        if (s.operations o).deliveryTimer = .armed then
          some ((s.modify o fun x => { x with deliveryTimer := .expired }).defer
            (.dispatchPendingDelivery o))
        else none
    | .main => main s
    | .stopNext o => stopNext s o
    | .deliverName name => deliverName s name
    | .onFutureSubscription o => onFutureSubscription s o
    | .take o => take s o
    | .validate o permission rest =>
        if (s.operations o).worker.resolves then
          some (s.modify o fun x =>
            { x with
              request := (x.request.validate permission rest).2
              checked :=
                if x.request.didPermissionsCheck then x.checked
                else permission :: rest ++ x.checked })
        else none
    | .observe o =>
        if (s.operations o).worker.resolves ∧ (s.operations o).isSubscription then
          some (s.modify o fun x => { x with signals := x.signals + 1 })
        else none
    | .resolved o response => resolved s o response
    | .subscribe o result => subscribe s o result
    | .worker o => worker s o
    | .signal o =>
        if 0 < (s.operations o).signals then
          some { s.modify o fun x => { x with dirty := true } with slots := o :: s.slots }
        else none
    | .slot o =>
        if o ∈ s.slots then
          let x := s.operations o
          some (s.invoke (s.connections x.connection).handlers
            ({ s with slots := s.slots.erase o }.defer x.notification))
        else none

/-- The server before its first connection. -/
def initial : State where
  connections _ := { http := false, live := false, handlers := false }
  connectionBound := 0
  operations _ :=
    { id := "", connection := 0, isSubscription := false,
      request := { permissions := none, didPermissionsCheck := false }, subscriptionKey := 0 }
  operationBound := 0
  registrations := []
  slots := []
  notifyTimer := .unset
  pendingNotifyTriggers := ∅
  queue := []
  frames := []
  aborted := false

/-- A server to try runs on: its clients hold the permission 1, and its queries
are `subscription` or something else. -/
def vehicle : Environment where
  disablePermissions := false
  authorize _ := .ok (some ⟨{1}⟩)
  decideIsSubscription query := .ok (query = "subscription")
  wrongType := "Invalid call to Value::get for StringType"

/-- The payload of a `start` message, and of an HTTP request. -/
def queryPayload (query : String) : Value :=
  .map [(GQL_QUERY, .string query)]

def startMessage (id query : String) : Value :=
  .map [(GQL_TYPE, .string GQL_START), (GQL_ID, .string id), (GQL_PAYLOAD, queryPayload query)]

def stopMessage (id : String) : Value :=
  .map [(GQL_TYPE, .string GQL_STOP), (GQL_ID, .string id)]

def initMessage : Value :=
  .map [(GQL_TYPE, .string GQL_CONNECTION_INIT),
    (GQL_PAYLOAD, .map [(GQL_AUTHORIZATION, .string "token")])]

/-- The first client connects, authorizes itself and subscribes. -/
def connectSubscribe : List Label :=
  [.onWebSocketOpen, .onWebSocketMessage 0 (some initMessage) 0, .main,
    .onWebSocketMessage 0 (some (startMessage "1" "subscription")) 7, .take 0,
    .subscribe 0 (.ok (1, "vehicle"))]

/-- A notification makes its way to the tasks of the first operation. -/
def dispatchFirst : List Label :=
  [.main, .expireNotify, .main, .deliverName "vehicle", .onFutureSubscription 0, .main, .main,
    .expireDelivery 0, .main]

/-- Its thread begins to deliver. -/
def deliverFirst : List Label :=
  dispatchFirst ++ [.take 0]

/-- A signal fires while the delivery is resolved. -/
def signalFirst : List Label :=
  [.observe 0, .signal 0, .slot 0]

end GraphQLServer
