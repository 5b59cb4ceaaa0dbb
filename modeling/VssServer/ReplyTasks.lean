import VssServer.ServerInvariants

/-!
# What is posted as a reply

`Step` leaves the contents of replies open.  Here they are: what `onReply` posts for a
reply that it is given, which task the thread of an operation posts next, and that the
handler of a message posts an acknowledgement or an error at most.

* `worker_posts`: the next reply or notice of a thread.
* `onWebSocketMessage_posts`, `onHttp_posts`: what the handlers post.
* `step_posts`: elsewhere no reply is posted.
-/

namespace GraphQLServer

open Response Permissions

/-- What `toMessageParts` reads as the payload of a reply. -/
def objectOf (payload : Value) : Value :=
  if payload.isMap then payload else .null

/-- The tasks that are posted for a reply to the connection `c`. -/
def replyTasks (http : Bool) (c : ConnectionId) (type id : String) (payload : Value) : List Task :=
  if http then
    if type = GQL_COMPLETE then []
    else [.sendHttp c (httpStatusCode type (objectOf payload)) (objectOf payload)]
  else [.sendWebSocket c (createResponse type id payload)]

/-- The payload of an error. -/
def errorPayload (message : String) : Value :=
  .map [(GQL_MESSAGE, .string message), (GQL_STATUS_CODE, .int (errorStatusCode message))]

/-- The type, the id and an object are read off a reply as it was created. -/
theorem toMessageParts_created {type : String} (htype : type.isEmpty = false) (id : String)
    (payload : Value) :
    toMessageParts (createResponse type id payload) = .ok ⟨type, id, objectOf payload⟩ := by
  have hempty : type ≠ "" := by simpa using htype
  by_cases hid : id = ""
  · cases payload <;>
      simp [toMessageParts, Parts.scan, createResponse, objectOf, Value.isMap, Parts.member,
        Value.isNull, GQL_TYPE, GQL_ID, GQL_PAYLOAD, hid]
  · cases payload <;>
      simp [toMessageParts, Parts.scan, createResponse, objectOf, Value.isMap, Parts.member,
        Value.isNull, GQL_TYPE, GQL_ID, GQL_PAYLOAD, hid, hempty]

variable {env : Environment} {s s' : State} {l : Label}

/-- `onReply` posts the tasks of the reply. -/
theorem State.onReply_posts (s : State) (c : ConnectionId) {type : String}
    (htype : type.isEmpty = false) (id : String) (payload : Value) :
    s.onReply c (createResponse type id payload) =
      { s with queue := s.queue ++ replyTasks (s.connections c).http c type id payload } := by
  unfold State.onReply replyTasks
  rw [toMessageParts_created htype]
  by_cases hhttp : (s.connections c).http
  · by_cases hcomplete : type = GQL_COMPLETE
    · simp [hhttp, hcomplete]
    · simp [hhttp, hcomplete, State.defer]
  · simp [hhttp, State.defer]

/-- A task that carries a reply. -/
def Task.isReply : Task → Bool
  | .sendHttp _ _ _ | .sendWebSocket _ _ => true
  | _ => false

/-- These are replies. -/
theorem replyTasks_isReply {http : Bool} {c : ConnectionId} {type id : String} {payload : Value}
    {t : Task} (h : t ∈ replyTasks http c type id payload) : t.isReply = true := by
  unfold replyTasks at h
  split at h
  · split at h
    · cases h
    · cases List.mem_singleton.mp h
      rfl
  · cases List.mem_singleton.mp h
    rfl

/-- A response has the object of its reply, and the status code that follows from it. -/
theorem mem_replyTasks_http {http : Bool} {c c' : ConnectionId} {type id : String}
    {payload body : Value} {code : Int}
    (h : .sendHttp c code body ∈ replyTasks http c' type id payload) :
    http = true ∧ c' = c ∧ type ≠ GQL_COMPLETE ∧ body = objectOf payload ∧
      code = httpStatusCode type body := by
  unfold replyTasks at h
  split at h
  · split at h
    · cases h
    · cases List.mem_singleton.mp h
      exact ⟨‹_›, rfl, ‹_›, rfl, rfl⟩
  · cases List.mem_singleton.mp h

/-- The replies to the client that the thread of `o` is about to hand over. -/
def State.nextReply (s : State) (o : OperationId) : List Task :=
  let x := s.operations o
  let reply := replyTasks (s.connections x.connection).http x.connection
  match x.worker with
  | .replying _ response | .deliveryReplying _ response => reply GQL_DATA x.id response
  | .completing _ => reply GQL_COMPLETE x.id .null
  | _ => []

/-- What else the thread of `o` posts. -/
def State.nextNotice (s : State) (o : OperationId) : List Task :=
  let x := s.operations o
  match x.worker with
  | .notifying => [x.notification]
  | .delivered => if x.request.failedPermissionsCheck then [.stop o] else []
  | _ => []

/-- The next reply of a thread is one. -/
theorem State.nextReply_isReply {o : OperationId} {t : Task} (h : t ∈ s.nextReply o) :
    t.isReply = true := by
  unfold State.nextReply at h
  dsimp only at h
  split at h
  case h_4 => cases h
  all_goals exact replyTasks_isReply h

/-- What it notifies the main thread of is none. -/
theorem State.nextNotice_isReply {o : OperationId} {t : Task} (h : t ∈ s.nextNotice o) :
    t.isReply = false := by
  unfold State.nextNotice at h
  dsimp only at h
  split at h
  · cases List.mem_singleton.mp h
    rfl
  · split at h
    · cases List.mem_singleton.mp h
      rfl
    · cases h
  · cases h

/-- A handler is called, or the process ends. -/
theorem State.invoke_cases (s : State) (handler : Bool) (next : State) :
    s.invoke handler next = next ∨ s.invoke handler next = s.abort := by
  cases handler
  · exact .inr rfl
  · exact .inl rfl

/-- **The thread of an operation** posts its next reply or notice, unless the process ends. -/
theorem worker_posts {o : OperationId} (h : worker s o = some s') :
    s' = s.abort ∨ s'.queue = s.queue ++ (s.nextReply o ++ s.nextNotice o) := by
  have hinvoke : ∀ {handler next}, some (s.invoke handler next) = some s' →
      next.queue = s.queue ++ (s.nextReply o ++ s.nextNotice o) →
        s' = s.abort ∨ s'.queue = s.queue ++ (s.nextReply o ++ s.nextNotice o) := by
    intro handler next hstep hqueue
    obtain rfl := Option.some.inj hstep
    rcases s.invoke_cases handler next with heq | heq
    · rw [heq]
      exact .inr hqueue
    · exact .inl heq
  unfold worker at h
  cases hw : (s.operations o).worker <;> simp only [hw] at h
  case replying | completing | deliveryReplying =>
    refine hinvoke h ?_
    rw [State.onReply_posts _ _ (by decide)]
    simp [State.nextReply, State.nextNotice, hw]
  case notifying => exact hinvoke h (by simp [State.nextReply, State.nextNotice, hw])
  case delivered =>
    by_cases hfailed : (s.operations o).request.failedPermissionsCheck = true
    · rw [if_pos hfailed] at h
      exact hinvoke h (by simp [State.nextReply, State.nextNotice, hw, hfailed])
    · rw [if_neg hfailed] at h
      obtain rfl := Option.some.inj h
      exact .inr (by simp [State.nextReply, State.nextNotice, hw, hfailed])
  case completed | unsubscribing =>
    obtain rfl := Option.some.inj h
    exact .inr (by simp [State.nextReply, State.nextNotice, hw])
  all_goals cases h

/-- The handler of a message answers it by an acknowledgement, over a WebSocket, or by an
error. -/
def Direct (http : Bool) (c : ConnectionId) (t : Task) : Prop :=
  http = false ∧ t ∈ replyTasks http c GQL_CONNECTION_ACK "" .null ∨
    ∃ type id message, (type = GQL_CONNECTION_ERROR ∨ type = GQL_ERROR) ∧
      t ∈ replyTasks http c type id (errorPayload message)

/-- A direct response is an error, with the status code that is in it. -/
theorem Direct.response {http : Bool} {c c' : ConnectionId} {code : Int} {body : Value}
    (h : Direct http c' (.sendHttp c code body)) :
    ∃ message, body = errorPayload message ∧ code = errorStatusCode message := by
  rcases h with ⟨hsocket, hmem⟩ | ⟨type, id, message, htype, hmem⟩
  · have hhttp := (mem_replyTasks_http hmem).1
    simp [hsocket] at hhttp
  · obtain ⟨-, -, -, rfl, rfl⟩ := mem_replyTasks_http hmem
    refine ⟨message, rfl, ?_⟩
    rcases htype with rfl | rfl <;> rfl

/-- What is posted from `s` to `s'` satisfies `P`. -/
def Posts (P : Task → Prop) (s s' : State) : Prop :=
  ∃ tasks, s'.queue = s.queue ++ tasks ∧ ∀ t ∈ tasks, P t

/-- A step that leaves the queue alone posts nothing. -/
theorem Posts.nothing {P : Task → Prop} (h : s'.queue = s.queue) : Posts P s s' :=
  ⟨[], by simp [h], nofun⟩

/-- A step that replies posts this. -/
theorem Posts.reply {P : Task → Prop} {c : ConnectionId} {type id : String} {payload : Value}
    {s₀ : State} (hqueue : s.queue = s₀.queue) (htype : type.isEmpty = false)
    (hP : ∀ t ∈ replyTasks (s.connections c).http c type id payload, P t) :
    Posts P s₀ (s.reply c (createResponse type id payload)) := by
  unfold State.reply
  split
  · rw [State.onReply_posts _ _ htype]
    exact ⟨_, by rw [hqueue], hP⟩
  · exact .nothing hqueue

/-- An error is created, and answers the message. -/
theorem Posts.error {c : ConnectionId} {type id message : String} {P : Task → Prop} {s₀ : State}
    (hqueue : s.queue = s₀.queue) (htype : type = GQL_CONNECTION_ERROR ∨ type = GQL_ERROR)
    (hP : ∀ t, Direct (s.connections c).http c t → P t) :
    Posts P s₀ (s.reply c (createErrorResponse type id message)) :=
  .reply hqueue (by rcases htype with rfl | rfl <;> decide)
    fun t ht => hP t (.inr ⟨type, id, message, htype, ht⟩)

/-- `stop` posts nothing. -/
theorem stop_queue (s : State) (o : OperationId) : (s.stop o).queue = s.queue :=
  (s.stops o).queue

/-- A `start` message that succeeds is not answered. -/
theorem onGraphQLStart_queue {c : ConnectionId} {id : String} {payload : Value}
    {key : SubscriptionKey} (h : s.onGraphQLStart env c id payload key = .ok () s') :
    s'.queue = s.queue := by
  unfold State.onGraphQLStart at h
  split at h
  · cases h
  · split at h
    · cases h
      rfl
    · split at h
      · cases h
      · cases h
        rfl

/-- A `connection_init` message is answered on its own connection. -/
theorem onGraphQLConnectionInit_posts {c : ConnectionId} {payload : Value}
    (hsocket : (s.connections c).http = false)
    (h : s.onGraphQLConnectionInit env c payload = .ok () s') :
    Posts (Direct false c) s s' := by
  have hacknowledge : ∀ {s₁ : State}, s₁.queue = s.queue →
      (s₁.connections c).http = (s.connections c).http →
      Posts (Direct false c) s (s₁.reply c (createResponse GQL_CONNECTION_ACK "" .null)) := by
    intro s₁ hqueue hhttp
    rw [hsocket] at hhttp
    refine .reply hqueue (by decide) fun t ht => ?_
    rw [hhttp] at ht
    exact .inl ⟨rfl, ht⟩
  unfold State.onGraphQLConnectionInit at h
  dsimp only at h
  split at h
  · split at h
    · cases h
      exact hacknowledge rfl rfl
    · split at h
      · cases h
      · cases h
        exact hacknowledge rfl (by simp)
    · cases h
  · cases h

/-- **A message over a WebSocket** posts an answer, or that the connection is to be closed. -/
theorem onWebSocketMessage_posts {c : ConnectionId} (hsocket : (s.connections c).http = false)
    (message : Value) (key : SubscriptionKey) :
    Posts (fun t => t = .terminate c ∨ Direct false c t) s
      (s.onWebSocketMessage env c message key) := by
  have herror : ∀ {type id e}, type = GQL_CONNECTION_ERROR ∨ type = GQL_ERROR →
      Posts (fun t => t = .terminate c ∨ Direct false c t) s
        (s.reply c (createErrorResponse type id e)) :=
    fun htype => .error rfl htype fun t ht => .inr (hsocket ▸ ht)
  unfold State.onWebSocketMessage
  split
  · exact herror (.inl rfl)
  · split
    · rename_i h
      unfold State.onGraphQLMessage at h
      split at h
      · obtain ⟨tasks, hqueue, hdirect⟩ := onGraphQLConnectionInit_posts hsocket h
        exact ⟨tasks, hqueue, fun t ht => .inr (hdirect t ht)⟩
      split at h
      · cases h
        unfold State.onGraphQLConnectionTerminate
        split
        · exact ⟨_, rfl, fun t ht => .inl (List.mem_singleton.mp ht)⟩
        · exact .nothing rfl
      split at h
      · exact .nothing (onGraphQLStart_queue h)
      split at h
      · cases h
        unfold State.onGraphQLStop
        split
        · exact .nothing rfl
        · exact .nothing (stop_queue _ _)
      · cases h
    · rename_i h
      rw [State.onGraphQLMessage_kept h]
      apply herror
      split
      · exact .inl rfl
      · exact .inr rfl

/-- **A request over HTTP** posts an error at most. -/
theorem onHttp_posts (authorization : String) (payload : Value) (key : SubscriptionKey) :
    Posts (Direct true s.connectionBound) s
      ((s.onConnectionStart true).onHttp env s.connectionBound authorization payload key) := by
  unfold State.onHttp
  split
  · refine .error rfl (.inl rfl) fun t ht => ?_
    simpa using ht
  · dsimp only
    rw [State.onGraphQLMessage_start]
    split
    · rename_i h
      have hqueue := onGraphQLStart_queue h
      exact .nothing hqueue
    · rename_i h
      rw [State.onGraphQLStart_kept h]
      refine .error rfl (.inl rfl) fun t ht => ?_
      simpa using ht

/-- A request or a message comes from a client. -/
def Label.fromClient : Label → Bool
  | .onHttp _ _ _ | .onWebSocketMessage _ _ _ => true
  | _ => false

/-- The connection whose request or message a step handles. -/
def State.handled (s : State) : Label → Option ConnectionId
  | .onHttp _ _ _ => some s.connectionBound
  | .onWebSocketMessage c _ _ => some c
  | _ => none

/-- Neither the main thread nor a timer or a slot posts replies. -/
theorem Step.quiet (hs : Step env s l s') (hworker : l.worker? = none)
    (hclient : l.fromClient = false) :
    s'.queue = s.queue ∨ (∃ t, s'.queue = s.queue ++ [t] ∧ t.isReply = false) ∨
      ∃ t, s.queue = t :: s'.queue := by
  cases hs
  case stopNext stops => exact .inl stops.queue
  case forceStop next stops =>
    exact .inr (.inr ⟨_, by rw [stops.queue]; exact next⟩)
  case expireNotify | expireDelivery | slot => exact .inr (.inl ⟨_, rfl, rfl⟩)
  case runNotify next | runDeliver next | dispatchStopped next _ | dispatch next _
    | sendHttp next | sendWebSocket next | terminate next => exact .inr (.inr ⟨_, next⟩)
  case httpUnauthorized | httpFailed | messageAnswered | messageAuthorized | messageTerminate
    | messageStop => simp [Label.fromClient] at hclient
  case replyData | replyComplete | notifyInitial | replyDelivery | deliveryFailed =>
    simp [Label.worker?] at hworker
  all_goals exact .inl rfl

/-- The connection of a request is new. -/
theorem Step.onHttp_connects {authorization : String} {payload : Option Value}
    {key : SubscriptionKey} (hs : Step env s (.onHttp authorization payload key) s')
    (hgoes : s' ≠ s.abort) :
    s.connectionBound < s'.connectionBound ∧ (s'.connections s.connectionBound).http = true := by
  cases hs
  case aborts => exact absurd rfl hgoes
  all_goals exact ⟨Nat.lt_succ_self _, by simp [State.addConnectionOperation]⟩

/-- **Elsewhere** no reply is posted but the direct ones of the handlers of messages, for the
connection whose message it is. -/
theorem step_posts (hstep : step env s l = some s') (hworker : l.worker? = none) {t : Task}
    (hmem : t ∈ s'.queue.drop s.queue.length) (hreply : t.isReply = true) :
    ∃ c, s.handled l = some c ∧ c < s'.connectionBound ∧ Direct (s'.connections c).http c t := by
  have hposts : ∀ {P : Task → Prop}, Posts P s s' → P t := by
    rintro P ⟨tasks, hqueue, hP⟩
    rw [hqueue, List.drop_left] at hmem
    exact hP t hmem
  have hgoes : s' ≠ s.abort := by
    rintro rfl
    simp at hmem
  have hs := step_cases hstep
  obtain ⟨-, hnext⟩ := Option.ite_none_left_eq_some.mp hstep
  by_cases hclient : l.fromClient = true
  · cases l <;> simp only [Label.fromClient, Bool.false_eq_true] at hclient
    case onHttp authorization payload key =>
      obtain ⟨-, hnext⟩ := Option.ite_none_right_eq_some.mp hnext
      obtain ⟨hnew, hhttp⟩ := hs.onHttp_connects hgoes
      refine ⟨s.connectionBound, rfl, hnew, ?_⟩
      cases payload with
      | none =>
          rw [← Option.some.inj hnext] at hmem
          simp at hmem
      | some payload =>
          rw [hhttp]
          refine hposts ?_
          rw [← Option.some.inj hnext]
          exact onHttp_posts authorization payload key
    case onWebSocketMessage c message key =>
      obtain ⟨⟨-, hc, hsocket, -⟩, hnext⟩ := Option.ite_none_right_eq_some.mp hnext
      refine ⟨c, rfl, hc.trans_le hs.bounds.2, ?_⟩
      rw [hs.http hc, hsocket]
      cases message with
      | none => exact absurd (Option.some.inj hnext).symm hgoes
      | some message =>
          have hanswer : Posts (fun t => t = .terminate c ∨ Direct false c t) s s' := by
            rw [← Option.some.inj hnext]
            exact onWebSocketMessage_posts hsocket message key
          refine (hposts hanswer).resolve_left ?_
          rintro rfl
          cases hreply
  · exfalso
    rcases hs.quiet hworker (by simpa using hclient) with hqueue | ⟨t', hqueue, hquiet⟩ | ⟨t', hqueue⟩
    · simp [hqueue] at hmem
    · rw [hqueue, List.drop_left] at hmem
      cases List.mem_singleton.mp hmem
      simp [hreply] at hquiet
    · rw [List.drop_eq_nil_of_le (by simp [hqueue])] at hmem
      cases hmem

end GraphQLServer
