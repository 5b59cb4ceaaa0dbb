import VssServer.TearDown

/-!
# What a message of a WebSocket client does

A message whose handling throws has changed nothing yet: `onWebSocketMessage`
catches the exception and replies once.  The permissions of a connection are those
that the authorizer has returned last, and an operation keeps the ones that its
connection has when it is created.

* `lastAuthorized`: the permissions that the authorizer has returned last for a connection.
* `authorized_of_run`: they are those of the connection, and those of its operations when they
  started.
* `messages_handled`: what a message does whose handling throws, and what permissions an
  operation has.
-/

namespace GraphQLServer

open Response Permissions

/-- The text of the exception that the handling of a message throws. -/
def State.thrown (s : State) (env : Environment) (c : ConnectionId) (message : Value)
    (key : SubscriptionKey) : Option String :=
  match toMessageParts message with
  | .error e => some e
  | .ok parts =>
      match s.onGraphQLMessage env c parts.first parts.second parts.value key with
      | .error e _ => some e
      | .ok _ _ => none

/-- The reply to a message that is rejected: an `error` with the id that the message
carries, or else a `connection_error`. -/
def rejection (message : Value) (e : String) : Value :=
  match message.carried GQL_ID with
  | some id => createErrorResponse GQL_ERROR id e
  | none => createErrorResponse GQL_CONNECTION_ERROR "" e

/-- What the authorizer returns for a message, if it is asked and does not throw. -/
def authorizes (env : Environment) (message : Value) : Option (Option ClientPermissions) :=
  match toMessageParts message with
  | .error _ => none
  | .ok parts =>
      if parts.first = GQL_CONNECTION_INIT ∧ parts.value.isMap then
        match authorizationOf parts.value with
        | some (.string token) => (env.authorize token).toOption
        | _ => none
      else none

/-- What the authorizer returns with a step for the connection `c`. -/
def Label.authorizes (env : Environment) (c : ConnectionId) :
    Label → Option (Option ClientPermissions)
  | .onWebSocketMessage c' (some message) _ =>
      if c' = c then GraphQLServer.authorizes env message else none
  | _ => none

/-- The permissions that the last successful `authorize` of the run has returned for the
connection `c`, or null. -/
def lastAuthorized (env : Environment) (c : ConnectionId) (ls : List Label) :
    Option ClientPermissions :=
  ls.foldl (fun permissions l => (l.authorizes env c).getD permissions) none

variable {env : Environment} {s s' : State} {l : Label}

/-- The last message counts, if it authorizes the connection. -/
theorem lastAuthorized_concat (c : ConnectionId) (ls : List Label) (l : Label) :
    lastAuthorized env c (ls ++ [l]) = (l.authorizes env c).getD (lastAuthorized env c ls) := by
  simp [lastAuthorized]

/-- A message is handled between the other handlers, while its connection is live. -/
theorem message_enabled {c : ConnectionId} {message : Option Value} {key : SubscriptionKey}
    (h : step env s (.onWebSocketMessage c message key) = some s') :
    s.frames = [] ∧ Connected s c ∧
      s' = message.elim s.abort fun m => s.onWebSocketMessage env c m key := by
  unfold step at h
  obtain ⟨-, h⟩ := Option.ite_none_left_eq_some.mp h
  obtain ⟨⟨hidle, known, socket, live⟩, h⟩ := Option.ite_none_right_eq_some.mp h
  refine ⟨hidle, ⟨known, socket, live⟩, ?_⟩
  cases message <;> exact (Option.some.inj h).symm

/-- The main thread handles a message when it is idle. -/
theorem step_message {c : ConnectionId} (hruns : s.aborted = false) (hidle : s.frames = [])
    (h : Connected s c) (message : Value) (key : SubscriptionKey) :
    step env s (.onWebSocketMessage c (some message) key) =
      some (s.onWebSocketMessage env c message key) := by
  simp [step, hruns, hidle, h.known, h.socket, h.live]

/-- A message that is rejected is answered, and nothing else. -/
theorem State.onWebSocketMessage_thrown {c : ConnectionId} (hsocket : (s.connections c).http = false)
    (hhandlers : (s.connections c).handlers = true) {message : Value} {key : SubscriptionKey}
    {e : String} (h : s.thrown env c message key = some e) :
    s.onWebSocketMessage env c message key = s.defer (.sendWebSocket c (rejection message e)) := by
  have hreply : ∀ response, s.reply c response = s.defer (.sendWebSocket c response) := by
    intro response
    simp [State.reply, State.onReply, hhandlers, hsocket]
  unfold State.thrown at h
  unfold State.onWebSocketMessage rejection
  cases hparts : toMessageParts message with
  | error e' =>
      rw [hparts] at h
      cases h
      simp only [carried_of_error hparts, hreply]
  | ok parts =>
      rw [hparts] at h
      simp only at h ⊢
      cases hmessage : s.onGraphQLMessage env c parts.first parts.second parts.value key with
      | ok _ s' => simp [hmessage] at h
      | error e' s' =>
          rw [hmessage] at h
          cases h
          rw [toMessageParts_second hparts, State.onGraphQLMessage_kept hmessage]
          cases hcarried : message.carried GQL_ID with
          | none => simp [hreply]
          | some id => simp [hreply, Value.carried_nonempty hcarried]

/-- A reply changes no connection. -/
theorem State.reply_connections (s : State) (c : ConnectionId) (response : Value) :
    (s.reply c response).connections = s.connections := by
  unfold State.reply State.onReply
  split
  · split
    · split
      · rfl
      · split <;> rfl
    · rfl
  · rfl

/-- What is no `connection_init` leaves the permissions as they are. -/
theorem State.onGraphQLMessage_permissions {c : ConnectionId} {type id : String} {payload : Value}
    {key : SubscriptionKey} (htype : type ≠ GQL_CONNECTION_INIT)
    (h : s.onGraphQLMessage env c type id payload key = .ok () s') :
    (s'.connections c).permissions = (s.connections c).permissions := by
  unfold State.onGraphQLMessage at h
  rw [if_neg htype] at h
  split at h
  · cases h
    unfold State.onGraphQLConnectionTerminate
    split <;> rfl
  · split at h
    · unfold State.onGraphQLStart at h
      split at h
      · cases h
      · split at h
        · cases h
          rfl
        · split at h
          · cases h
          · cases h
            simp [State.addConnectionOperation]
    · split at h
      · cases h
        unfold State.onGraphQLStop
        split
        · rfl
        · rw [(State.stops _ _).connections]
          rfl
      · cases h

/-- A `connection_init` takes over what the authorizer returns. -/
theorem State.onGraphQLConnectionInit_permissions {c : ConnectionId} {payload : Value}
    (h : s.onGraphQLConnectionInit env c payload = .ok () s') :
    (s'.connections c).permissions =
      (match authorizationOf payload with
        | some (.string token) => (env.authorize token).toOption
        | _ => none).getD (s.connections c).permissions ∧ payload.isMap = true := by
  unfold State.onGraphQLConnectionInit at h
  split at h
  case isTrue hmap =>
    refine ⟨?_, hmap⟩
    split at h
    case h_1 hnone =>
      cases h
      simp [hnone, State.reply_connections]
    case h_2 token htoken =>
      rw [htoken]
      split at h
      case h_1 => cases h
      case h_2 permissions hauthorize =>
        cases h
        simp [hauthorize, State.reply_connections, Except.toOption]
    case h_3 => cases h
  case isFalse => cases h

/-- A `connection_init` that is rejected has not got any permissions. -/
theorem State.onGraphQLConnectionInit_rejected {c : ConnectionId} {payload : Value} {e : String}
    (hmap : payload.isMap = true) (h : s.onGraphQLConnectionInit env c payload = .error e s') :
    (match authorizationOf payload with
      | some (.string token) => (env.authorize token).toOption
      | _ => none) = none := by
  unfold State.onGraphQLConnectionInit at h
  rw [if_pos hmap] at h
  split at h
  case h_1 => cases h
  case h_2 token htoken =>
    rw [htoken]
    split at h
    case h_1 e' hauthorize => simp [hauthorize, Except.toOption]
    case h_2 => cases h
  case h_3 v hstring hsome =>
    rw [hsome]
    cases v with
    | string token => exact absurd rfl (hstring token)
    | _ => rfl

/-- Only the authorizer changes the permissions of the connection that has sent a
message. -/
theorem State.onWebSocketMessage_permissions {c : ConnectionId} (message : Value)
    (key : SubscriptionKey) :
    ((s.onWebSocketMessage env c message key).connections c).permissions =
      (authorizes env message).getD (s.connections c).permissions := by
  unfold State.onWebSocketMessage authorizes
  cases hparts : toMessageParts message with
  | error e => simp [State.reply_connections]
  | ok parts =>
      simp only
      cases hmessage : s.onGraphQLMessage env c parts.first parts.second parts.value key with
      | ok _ s' =>
          simp only
          by_cases hinit : parts.first = GQL_CONNECTION_INIT
          · unfold State.onGraphQLMessage at hmessage
            rw [if_pos hinit] at hmessage
            obtain ⟨hpermissions, hmap⟩ := State.onGraphQLConnectionInit_permissions hmessage
            rw [if_pos ⟨hinit, hmap⟩]
            exact hpermissions
          · rw [if_neg (fun h => hinit h.1), Option.getD_none]
            exact State.onGraphQLMessage_permissions hinit hmessage
      | error e s' =>
          simp only [State.reply_connections, State.onGraphQLMessage_kept hmessage]
          by_cases hinit : parts.first = GQL_CONNECTION_INIT ∧ parts.value.isMap
          · unfold State.onGraphQLMessage at hmessage
            rw [if_pos hinit.1] at hmessage
            rw [if_pos hinit, State.onGraphQLConnectionInit_rejected hinit.2 hmessage,
              Option.getD_none]
          · rw [if_neg hinit, Option.getD_none]

/-- The permissions of a WebSocket connection change with a message of its client or when
it is torn down. -/
theorem Step.permissions (hs : Step env s l s') (hh : Handled s) {c : ConnectionId}
    (hlive : (s'.connections c).live = true) (hsocket : (s'.connections c).http = false) :
    ((s'.connections c).permissions = (s.connections c).permissions ∧
      (s.connections c).live = true ∧ (s.connections c).http = false) ∨
      (∃ message key, l = .onWebSocketMessage c message key) ∨
      c = s.connectionBound ∧ (s'.connections c).permissions = none ∧ l = .onWebSocketOpen := by
  cases hs.touches c with
  | leaves eq =>
      rw [eq] at hlive hsocket ⊢
      exact .inl ⟨rfl, hlive, hsocket⟩
  | opens label new _ eq => exact .inr (.inr ⟨new, by rw [eq], label⟩)
  | rejects _ _ eq | starts _ _ _ eq =>
      rw [eq] at hsocket
      cases hsocket
  | permits label _ | inserts label _ _ _ _ => exact .inr (.inl ⟨_, _, label⟩)
  | erases _ eq =>
      rw [eq] at hlive hsocket ⊢
      exact .inl ⟨rfl, hlive, hsocket⟩
  | ends _ eq =>
      rw [eq] at hlive
      cases hlive
  | tearsDown _ top eq =>
      rw [eq] at hlive
      have hdone := hh.tearing c (by rw [top]; exact .head _)
      simp [hdone] at hlive

/-- The permissions of an operation that a message has created are those of its connection. -/
theorem Step.creates_message (hs : Step env s l s') (h : s'.operationBound ≠ s.operationBound)
    (hsocket : (s'.connections (s'.operations s.operationBound).connection).http = false) :
    ∃ message key, l = .onWebSocketMessage (s'.operations s.operationBound).connection message key ∧
      (s'.operations s.operationBound).request.permissions =
        (s.connections (s'.operations s.operationBound).connection).permissions := by
  cases hs
  case httpStarted => simp [State.addConnectionOperation, newOperation] at hsocket
  case messageStart c message key id payload sub asks made idle connected absent =>
    refine ⟨message, key, ?_, ?_⟩ <;> simp [State.addConnectionOperation, newOperation]
  case messageStop stops | forceStop stops | stopNext stops => exact absurd stops.bounds.1 h
  all_goals exact absurd rfl h

/-- What an operation may do stays. -/
theorem OperationStep.permissions {e : Effects} {x x' : Operation} (hs : OperationStep e x x') :
    x'.request.permissions = x.request.permissions := by
  cases hs
  case validate => exact (x.request.validate_fields _ _).1
  case deliveryPassed =>
    unfold RequestState.finishDelivery
    split <;> rfl
  all_goals rfl

/-- The operation `o` was created by a message of its client, and has the permissions of the
last successful `authorize` before it. -/
def Granted (env : Environment) (ls : List Label) (s : State) (o : OperationId) : Prop :=
  ∃ before message key after s₀,
    ls = before ++ .onWebSocketMessage (s.operations o).connection message key :: after ∧
      Runs.run (step env) initial before = some s₀ ∧ s₀.operationBound = o ∧
      (s.operations o).request.permissions = lastAuthorized env (s.operations o).connection before

/-- What the authorizer has returned so far, as the connections and operations have it. -/
structure Authorized (env : Environment) (ls : List Label) (s : State) : Prop where
  unknown : ∀ c, s.connectionBound ≤ c → lastAuthorized env c ls = none
  permitted : ∀ c, (s.connections c).live = true → (s.connections c).http = false →
    (s.connections c).permissions = lastAuthorized env c ls
  granted : ∀ o, o < s.operationBound →
    (s.connections (s.operations o).connection).http = false → Granted env ls s o

namespace Authorized

variable {ls : List Label}

/-- A connection that does not exist yet was not authorized. -/
theorem step_unknown (h : Authorized env ls s) (hstep : step env s l = some s') :
    ∀ c, s'.connectionBound ≤ c → lastAuthorized env c (ls ++ [l]) = none := by
  intro c hc
  have hbefore := (step_cases hstep).bounds.2.trans hc
  rw [lastAuthorized_concat, h.unknown c hbefore]
  cases l with
  | onWebSocketMessage c' message key =>
      have hknown := (message_enabled hstep).2.1.known
      have hne : c' ≠ c := fun heq => absurd hbefore (not_le.mpr (heq ▸ hknown))
      cases message <;> simp [Label.authorizes, hne]
  | _ => rfl

/-- A connection has the permissions that it was given last. -/
theorem step_permitted (h : Authorized env ls s) (hh : Handled s)
    (hstep : step env s l = some s') :
    ∀ c, (s'.connections c).live = true → (s'.connections c).http = false →
      (s'.connections c).permissions = lastAuthorized env c (ls ++ [l]) := by
  intro c hlive hsocket
  rw [lastAuthorized_concat]
  by_cases hmessage : ∃ message key, l = .onWebSocketMessage c (some message) key
  · obtain ⟨message, key, rfl⟩ := hmessage
    obtain ⟨-, hconnected, heq⟩ := message_enabled hstep
    rw [heq, ← h.permitted c hconnected.live hconnected.socket]
    simpa [Label.authorizes] using State.onWebSocketMessage_permissions message key
  · have hnone : l.authorizes env c = none := by
      cases l with
      | onWebSocketMessage c' message key =>
          cases message with
          | none => rfl
          | some message =>
              have hne : c' ≠ c := fun heq => hmessage ⟨message, key, by rw [heq]⟩
              simp [Label.authorizes, hne]
      | _ => rfl
    rw [hnone, Option.getD_none]
    rcases (step_cases hstep).permissions hh hlive hsocket with
      ⟨heq, hlive', hsocket'⟩ | ⟨message, key, rfl⟩ | ⟨rfl, heq, -⟩
    · exact heq.trans (h.permitted c hlive' hsocket')
    · cases message with
      | none =>
          obtain ⟨-, hconnected, heq⟩ := message_enabled hstep
          rw [heq]
          exact h.permitted c hconnected.live hconnected.socket
      | some message => exact absurd ⟨message, key, rfl⟩ hmessage
    · rw [heq, h.unknown _ le_rfl]

/-- An operation has the permissions that its connection had when it started. -/
theorem step_granted (h : Authorized env ls s) (he : Entries s)
    (hrun : Runs.run (GraphQLServer.step env) initial ls = some s) (hstep : step env s l = some s') :
    ∀ o, o < s'.operationBound → (s'.connections (s'.operations o).connection).http = false →
      Granted env (ls ++ [l]) s' o := by
  intro o ho hsocket
  have hs := step_cases hstep
  by_cases hold : o < s.operationBound
  · obtain ⟨hconnection, hpermissions⟩ : (s'.operations o).connection = (s.operations o).connection ∧
        (s'.operations o).request.permissions = (s.operations o).request.permissions := by
      refine ⟨(hs.fixed hold).2.1, ?_⟩
      rcases hs.operation o with heq | hchange | ⟨rfl, -⟩
      · rw [heq]
      · exact hchange.permissions
      · exact absurd hold (lt_irrefl _)
    rw [hconnection, hs.http (he.known o hold)] at hsocket
    obtain ⟨before, message, key, after, s₀, rfl, hrun₀, hbound, hgranted⟩ := h.granted o hold hsocket
    refine ⟨before, message, key, after ++ [l], s₀, ?_, hrun₀, hbound, ?_⟩
    · rw [hconnection]
      simp
    · rw [hconnection, hpermissions, hgranted]
  · have hnew : s'.operationBound ≠ s.operationBound := fun heq => hold (heq ▸ ho)
    obtain rfl : o = s.operationBound := by
      rcases hs.created ho with hknown | hcreates
      · exact absurd hknown hold
      · exact hcreates.1
    obtain ⟨message, key, hl, hpermissions⟩ := hs.creates_message hnew hsocket
    subst hl
    obtain ⟨-, hconnected, -⟩ := message_enabled hstep
    refine ⟨ls, message, key, [], s, rfl, hrun, rfl, ?_⟩
    rw [hpermissions, h.permitted _ hconnected.live hconnected.socket]

end Authorized

/-- Permissions are those of the history in every run. -/
theorem authorized_of_run {ls : List Label} (h : Runs.run (step env) initial ls = some s) :
    Authorized env ls s := by
  apply Runs.run_along (I := Authorized env) _ _ h
  · constructor
    · intro c _
      rfl
    · intro c hlive
      cases hlive
    · intro o ho
      exact absurd ho (Nat.not_lt_zero o)
  · intro ls s l s' hrun hs hstep
    have hreach := Runs.reach_of_run hrun Runs.runMeets_always
    exact {
      unknown := hs.step_unknown hstep
      permitted := hs.step_permitted (Reach.handled hreach) hstep
      granted := hs.step_granted (Reach.entries hreach) hrun hstep }

/-- **Messages.**  After any run, a message on a live connection whose handling throws
leaves all connections and operations as they are and is answered once, by an `error`
with the id that it carries, or else by a `connection_error`; and every operation of a
WebSocket connection was created by a message, and has the permissions that the last
successful `authorize` before this message has returned. -/
theorem messages_handled {ls : List Label} (h : Runs.run (step env) initial ls = some s) :
    (∀ c message key e, s.aborted = false → s.frames = [] → Connected s c →
      s.thrown env c message key = some e →
        ∃ s', step env s (.onWebSocketMessage c (some message) key) = some s' ∧
          s'.connections = s.connections ∧ s'.operations = s.operations ∧
          s'.queue = s.queue ++ [.sendWebSocket c (rejection message e)]) ∧
    ∀ o, o < s.operationBound → (s.connections (s.operations o).connection).http = false →
      ∃ before message key after s₀,
        ls = before ++ .onWebSocketMessage (s.operations o).connection message key :: after ∧
          Runs.run (step env) initial before = some s₀ ∧ s₀.operationBound = o ∧
          (s.operations o).request.permissions =
            lastAuthorized env (s.operations o).connection before := by
  have hreach := Runs.reach_of_run h Runs.runMeets_always
  refine ⟨?_, (authorized_of_run h).granted⟩
  intro c message key e hruns hidle hconnected hthrown
  refine ⟨_, step_message hruns hidle hconnected message key, ?_⟩
  have hhandlers := (Reach.handled hreach).live c hconnected.live
  rw [State.onWebSocketMessage_thrown hconnected.socket hhandlers hthrown]
  exact ⟨rfl, rfl, rfl⟩

set_option maxRecDepth 4000 in
/-- A `start` message without an id is answered with its error. -/
theorem messages_handled_connectSubscribe :
    ∃ s s', Runs.run (step vehicle) initial connectSubscribe = some s ∧
      step vehicle s (.onWebSocketMessage 0 (some (startMessage "" "query")) 0) = some s' ∧
      s'.queue = s.queue ++ [.sendWebSocket 0 (createErrorResponse GQL_CONNECTION_ERROR ""
        (InvalidPayload "missing 'id'"))] ∧
      (s.operations 0).request.permissions = some ⟨{1}⟩ ∧
      ∃ before, (s.operations 0).request.permissions = lastAuthorized vehicle 0 before := by
  have hrun : Runs.run (step vehicle) initial connectSubscribe = some _ := rfl
  obtain ⟨hthrown, hgranted⟩ := messages_handled hrun
  obtain ⟨s', hstep, -, -, hqueue⟩ := hthrown 0 (startMessage "" "query") 0 _ rfl rfl
    ⟨by decide, rfl, rfl⟩ rfl
  obtain ⟨before, -, -, -, -, -, -, -, hpermissions⟩ := hgranted 0 (by decide) rfl
  exact ⟨_, s', hrun, hstep, hqueue, rfl, before, hpermissions⟩

end GraphQLServer
