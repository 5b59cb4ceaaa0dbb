import VssServer.JwtAuthorizer
import VssServer.Messages
import VssServer.ReplyTasks

/-!
# The status code of a rejected token

`createErrorResponse` finds out by the text of an exception whether a token was rejected:
the text of an `InvalidToken` begins with a prefix of its own.  Of what the libraries throw
while a token is read, only two classes are translated into it.

* `translate_library_iff`: which exceptions become an `InvalidToken`.
* `Documented`: what is relied on of the libraries.
* `rejected_unauthorized`: which code a failed handler answers with.
-/

open Permissions Response

namespace JwtAuthorizer

/-- One of the two `catch` clauses takes it. -/
def LibraryError.isCaught : LibraryError → Bool
  | .signatureVerification _ | .invalidArgument _ => true
  | _ => false

/-- An item that is a name or a number. -/
def Json.isPermission : Json → Bool
  | .string _ | .number _ => true
  | _ => false

variable {τ : Type*} {a : JwtAuthorizer τ}

/-- What the libraries throw at this token is translated: neither the decoder nor the
verifier fails with another class, and no item of the claim is of another type. -/
def Translated (a : JwtAuthorizer τ) (token : String) : Prop :=
  (∀ e, a.decode token = .error e → e.isCaught = true) ∧
    ∀ decoded, a.decode token = .ok decoded →
      (∀ e, a.verify decoded = .error e → e.isCaught = true) ∧
        (a.verify decoded = .ok () →
          ∀ members items, a.claims decoded = .object members →
            (members.find? fun m => m.1 = PERMISSIONS_CLAIM) =
              some (PERMISSIONS_CLAIM, .array items) →
            ∀ item ∈ items, item.isPermission = true)

/-- An exception of `authorize` that the handlers are to tell from the others. -/
def Thrown.IsInvalidToken (e : Thrown) : Prop :=
  ∃ message, e = .invalidToken message

/-- The exceptions that the authorizer catches become `InvalidToken`. -/
theorem translate_library (e : LibraryError) :
    translate (.library e) = if e.isCaught then .invalidToken e.what else .library e := by
  cases e <;> rfl

/-- No others do. -/
theorem translate_library_iff (e : LibraryError) :
    (translate (.library e)).IsInvalidToken ↔ e.isCaught = true := by
  rw [translate_library]
  cases e.isCaught <;> simp [Thrown.IsInvalidToken]

/-- The items that are no permissions. -/
theorem itemKey_error_iff (item : Json) :
    (∃ e, a.itemKey item = .error e) ↔ item.isPermission = false := by
  cases item <;> simp [itemKey, Json.isPermission]

/-- The claims are rejected with an `InvalidToken`, or by an item of another type. -/
theorem readClaims_error {claims : Json} {e : Thrown} (h : a.readClaims claims = .error e) :
    (∃ message, e = .invalidToken message ∧ message ≠ "") ∨
      e = .library (.runtimeError a.typeMismatch) ∧
        ∃ members items, claims = .object members ∧
          (members.find? fun m => m.1 = PERMISSIONS_CLAIM) =
            some (PERMISSIONS_CLAIM, .array items) ∧
          ∃ item ∈ items, item.isPermission = false := by
  unfold readClaims at h
  split at h
  case h_1 members =>
    rw [readPermissions_eq] at h
    split at h
    case h_1 =>
      cases h
      exact Or.inl ⟨_, rfl, by decide⟩
    case h_2 name items hfind =>
      obtain ⟨he, item, hitem, herror⟩ := insertItems_error h
      have hname : name = PERMISSIONS_CLAIM := by simpa using List.find?_some hfind
      exact Or.inr ⟨he, members, items, rfl, hname ▸ hfind, item, hitem,
        (itemKey_error_iff item).mp ⟨e, herror⟩⟩
    case h_3 =>
      cases h
      exact Or.inl ⟨_, rfl, by decide⟩
  case h_2 =>
    cases h
    exact Or.inl ⟨_, rfl, by decide⟩

/-- Items of another type are not translated. -/
theorem readClaims_item {members : List (String × Json)} {items : List Json}
    (hfind : (members.find? fun m => m.1 = PERMISSIONS_CLAIM) =
      some (PERMISSIONS_CLAIM, .array items))
    {item : Json} (hitem : item ∈ items) (hother : item.isPermission = false) :
    a.readClaims (.object members) = .error (.library (.runtimeError a.typeMismatch)) := by
  have hread : a.readClaims (.object members) = a.insertItems ⟨∅⟩ items := by
    rw [readClaims, readPermissions_eq, hfind]
  rw [hread]
  cases h : a.insertItems ⟨∅⟩ items with
  | error e => rw [(insertItems_error h).1]
  | ok p =>
      obtain ⟨k, hok⟩ := insertItems_ok h item hitem
      obtain ⟨e, herror⟩ := (itemKey_error_iff (a := a) item).mpr hother
      rw [hok] at herror
      cases herror

/-- A rejection is an `InvalidToken` exactly if all that the libraries throw is
translated. -/
theorem translated_iff {token : String} (htoken : token.isEmpty = false) :
    a.Translated token ↔ ∀ e, a.authorize token = .error e → e.IsInvalidToken := by
  unfold authorize Translated readToken
  rw [htoken]
  simp only [Bool.false_eq_true, if_false]
  cases hdecode : a.decode token with
  | error e => simp [translate_library_iff]
  | ok decoded =>
      cases hverify : a.verify decoded with
      | error e => simp [hverify, translate_library_iff]
      | ok verified =>
          simp only [reduceCtorEq, false_imp_iff, implies_true, true_and, Except.ok.injEq,
            forall_eq', hverify, forall_const]
          constructor
          · intro hitems e h
            cases hread : a.readClaims (a.claims decoded) with
            | ok p =>
                rw [hread] at h
                cases h
            | error e' =>
                rw [hread] at h
                cases h
                rcases readClaims_error hread with
                  ⟨message, rfl, -⟩ | ⟨rfl, members, items, hclaims, hfind, item, hmem, hother⟩
                · exact ⟨message, rfl⟩
                · have hname := hitems members items hclaims hfind item hmem
                  rw [hother] at hname
                  cases hname
          · intro hinvalid members items hclaims hfind item hmem
            by_contra hother
            rw [Bool.not_eq_true] at hother
            have hread := readClaims_item (a := a) hfind hmem hother
            rw [hclaims, hread] at hinvalid
            obtain ⟨message, hmessage⟩ := hinvalid _ rfl
            cases hmessage

end JwtAuthorizer

namespace GraphQLServer

open JwtAuthorizer

/-- What a handler of a connection is called with. -/
inductive Request
  | http (authorization : String) (payload : Value)
  | webSocket (message : Value)

/-- The token of a `connection_init`. -/
def initToken (type : String) (payload : Value) : Option String :=
  if type = GQL_CONNECTION_INIT ∧ payload.isMap then
    match authorizationOf payload with
    | some (.string token) => some token
    | _ => none
  else none

/-- The token that the handler passes on to the authorizer, if it gets that far. -/
def Request.token : Request → Option String
  | .http authorization _ => some authorization
  | .webSocket message =>
      match toMessageParts message with
      | .error _ => none
      | .ok parts => initToken parts.first parts.value

def Request.isHttp : Request → Bool
  | .http _ _ => true
  | .webSocket _ => false

/-- The connection is set up, and the request is of its kind. -/
structure State.Receives (s : State) (c : ConnectionId) (r : Request) : Prop where
  handlers : (s.connections c).handlers = true
  kind : (s.connections c).http = r.isHttp

/-- `onHttp` or `onWebSocketMessage`. -/
def State.handle (s : State) (env : Environment) (c : ConnectionId) (key : SubscriptionKey) :
    Request → State
  | .http authorization payload => s.onHttp env c authorization payload key
  | .webSocket message => s.onWebSocketMessage env c message key

/-- The text of the exception that the handler catches. -/
def State.caught (s : State) (env : Environment) (c : ConnectionId) (key : SubscriptionKey) :
    Request → Option String
  | .http authorization payload =>
      match env.authorize authorization with
      | .error e => some e
      | .ok permissions =>
          match (s.change c fun x => { x with permissions := permissions }).onGraphQLMessage env c
            GQL_START "0" payload key with
          | .error e _ => some e
          | .ok _ _ => none
  | .webSocket message => s.thrown env c message key

/-- The status code that an error reply carries. -/
def statusCode (reply : Value) : Option Value :=
  (reply.find GQL_PAYLOAD).bind (Value.find GQL_STATUS_CODE)

/-- The task that answers the request with the error of this text, under this status code: an
HTTP response, or an error reply over the WebSocket. -/
inductive ErrorReply (c : ConnectionId) (e : String) (code : Int) : Request → Task → Prop
  | http {authorization : String} {payload : Value} :
      ErrorReply c e code (.http authorization payload) (.sendHttp c code (errorPayload e))
  | webSocket {message : Value} (status : statusCode (rejection message e) = some (.int code)) :
      ErrorReply c e code (.webSocket message) (.sendWebSocket c (rejection message e))

/-- The server with this authorizer. -/
def Environment.authorizedBy {τ : Type*} (env : Environment) (a : JwtAuthorizer τ) : Environment :=
  { env with authorize := fun token => (a.authorize token).mapError Thrown.what }

/-- The text could be that of an `InvalidToken`. -/
def HasTokenPrefix (what : String) : Prop :=
  InvalidToken.messagePrefix.toList <+: what.toList

/-- What is documented of the libraries' texts: those of the two classes that are translated
are not empty, and none begins like the one of an `InvalidToken`. -/
structure Documented {τ : Type*} (env : Environment) (a : JwtAuthorizer τ) : Prop where
  decode : ∀ token e, a.decode token = .error e →
    (e.isCaught = true → e.what ≠ "") ∧ ¬ HasTokenPrefix e.what
  verify : ∀ decoded e, a.verify decoded = .error e →
    (e.isCaught = true → e.what ≠ "") ∧ ¬ HasTokenPrefix e.what
  typeMismatch : ¬ HasTokenPrefix a.typeMismatch
  grammar : ∀ query e, env.decideIsSubscription query = .error e → ¬ HasTokenPrefix e
  wrongType : ¬ HasTokenPrefix env.wrongType

variable {τ : Type*} {env : Environment} {a : JwtAuthorizer τ} {s s' : State} {c : ConnectionId}
  {key : SubscriptionKey} {r : Request}

/-- The code of an error is determined by its message. -/
theorem statusCode_createErrorResponse (type id e : String) :
    statusCode (createErrorResponse type id e) = some (.int (errorStatusCode e)) := by
  unfold createErrorResponse createResponse statusCode
  cases id.isEmpty <;> rfl

/-- A message with the prefix of token errors gets 401. -/
theorem errorStatusCode_invalidToken {message : String} (h : message ≠ "") :
    errorStatusCode (InvalidToken message) = 401 := by
  have hlength : 0 < message.length := by
    rw [Nat.pos_iff_ne_zero]
    exact fun hzero => h (String.length_eq_zero_iff.mp hzero)
  unfold errorStatusCode
  rw [if_pos]
  refine ⟨?_, ?_⟩
  · simp [InvalidToken, hlength]
  · simp [InvalidToken]

/-- A message without it gets 400. -/
theorem errorStatusCode_other {what : String} (h : ¬ HasTokenPrefix what) :
    errorStatusCode what = 400 := by
  unfold errorStatusCode
  rw [if_neg]
  intro hprefix
  exact h (List.isPrefixOf_iff_prefix.mp hprefix.2)

/-- A text with another first letter is not that of an `InvalidToken`. -/
theorem not_hasTokenPrefix {what : String} (h : what.toList.head? ≠ some 'T') :
    ¬ HasTokenPrefix what := by
  rintro ⟨rest, heq⟩
  rw [← heq] at h
  exact h rfl

/-- Errors of the payload have another prefix. -/
theorem invalidPayload_not_token (message : String) :
    ¬ HasTokenPrefix (InvalidPayload message) := by
  have hhead : "Invalid payload: ".toList.head? = some 'I' := by decide
  apply not_hasTokenPrefix
  change ("Invalid payload: " ++ message).toList.head? ≠ some 'T'
  rw [String.toList_append, List.head?_append, hhead, Option.some_or]
  decide

/-- An HTTP response for an error has the status code that is in it. -/
theorem State.reply_error_http {s : State} (hhandlers : (s.connections c).handlers = true)
    (hhttp : (s.connections c).http = true) (id e : String) :
    (s.reply c (createErrorResponse GQL_CONNECTION_ERROR id e)).queue =
      s.queue ++ [.sendHttp c (errorStatusCode e) (errorPayload e)] := by
  have htype : GQL_CONNECTION_ERROR.isEmpty = false := by decide
  have hposts := s.onReply_posts c htype id (errorPayload e)
  have htasks : replyTasks true c GQL_CONNECTION_ERROR id (errorPayload e) =
      [.sendHttp c (errorStatusCode e) (errorPayload e)] := rfl
  rw [State.reply, if_pos hhandlers]
  rw [hhttp, htasks] at hposts
  exact congrArg State.queue hposts

/-- A failure of the handler is answered by an error with its text, and nothing else is
posted. -/
theorem State.handle_caught {e : String} (hr : s.Receives c r)
    (h : s.caught env c key r = some e) :
    ∃ task, (s.handle env c key r).queue = s.queue ++ [task] ∧
      ErrorReply c e (errorStatusCode e) r task := by
  cases r with
  | http authorization payload =>
      have hhandlers := hr.handlers
      have hhttp : (s.connections c).http = true := hr.kind
      simp only [State.caught] at h
      simp only [State.handle, State.onHttp]
      cases hauthorize : env.authorize authorization with
      | error e' =>
          rw [hauthorize] at h
          cases h
          exact ⟨_, State.reply_error_http hhandlers hhttp "0" e, .http⟩
      | ok permissions =>
          simp only [hauthorize] at h
          simp only
          split at h
          case h_1 e' s₁ hmessage =>
            cases h
            rw [hmessage, State.onGraphQLMessage_kept hmessage]
            refine ⟨_, ?_, .http⟩
            refine (State.reply_error_http ?_ ?_ "0" e).trans rfl
            · simpa using hhandlers
            · simpa using hhttp
          case h_2 => cases h
  | webSocket message =>
      have hsocket : (s.connections c).http = false := hr.kind
      refine ⟨_, congrArg State.queue (State.onWebSocketMessage_thrown hsocket hr.handlers h), ?_⟩
      refine .webSocket ?_
      unfold rejection
      split <;> exact statusCode_createErrorResponse _ _ _

/-- A failure that no token has caused. -/
inductive Environment.OtherFailure (env : Environment) : String → Prop
  | payload (message : String) : env.OtherFailure (InvalidPayload message)
  | grammar {query e : String} (h : env.decideIsSubscription query = .error e) : env.OtherFailure e
  | wrongType : env.OtherFailure env.wrongType

/-- An operation that cannot be made fails for another reason than its token. -/
theorem make_error {payload : Value} {e : String} (h : make env payload = .error e) :
    env.OtherFailure e := by
  unfold make at h
  split at h
  case h_1 e' hparts =>
    cases h
    cases payload with
    | map members => cases hparts
    | _ =>
        cases hparts
        exact .payload _
  case h_2 parts hparts =>
    split at h
    · cases h
      exact .payload _
    · exact .grammar h

/-- So does a `start` message. -/
theorem State.onGraphQLStart_error {id : String} {payload : Value} {e : String}
    (h : s.onGraphQLStart env c id payload key = .error e s') : env.OtherFailure e := by
  unfold State.onGraphQLStart at h
  split at h
  · cases h
    exact .payload _
  · split at h
    · cases h
    · split at h
      case h_1 e' hmake =>
        cases h
        exact make_error hmake
      case h_2 => cases h

/-- A message fails with its token, or has none. -/
theorem State.onGraphQLMessage_error {type id : String} {payload : Value} {e : String}
    (h : s.onGraphQLMessage env c type id payload key = .error e s') :
    (∃ token, initToken type payload = some token ∧ env.authorize token = .error e) ∨
      (initToken type payload = none ∧ env.OtherFailure e) := by
  unfold State.onGraphQLMessage at h
  unfold initToken
  by_cases hinit : type = GQL_CONNECTION_INIT
  · rw [if_pos hinit] at h
    unfold State.onGraphQLConnectionInit at h
    split at h
    case isTrue hmap =>
      rw [if_pos ⟨hinit, hmap⟩]
      split at h
      case h_1 => cases h
      case h_2 token htoken =>
        rw [htoken]
        split at h
        case h_1 e' hrejected =>
          cases h
          exact Or.inl ⟨token, rfl, hrejected⟩
        case h_2 => cases h
      case h_3 v hstring hsome =>
        cases h
        rw [hsome]
        cases v with
        | string token => exact absurd rfl (hstring token)
        | _ => exact Or.inr ⟨rfl, .wrongType⟩
    case isFalse hmap =>
      cases h
      rw [if_neg fun h => hmap h.2]
      exact Or.inr ⟨rfl, .payload _⟩
  · rw [if_neg fun h => hinit h.1]
    refine Or.inr ⟨rfl, ?_⟩
    rw [if_neg hinit] at h
    split at h
    · cases h
    · split at h
      · exact State.onGraphQLStart_error h
      · split at h
        · cases h
        · cases h
          exact .payload _

/-- The handler fails with the token that it passes on, or it passes none that is
rejected. -/
theorem State.caught_cases {e : String} (h : s.caught env c key r = some e) :
    (∃ token, r.token = some token ∧ env.authorize token = .error e) ∨
    ((∀ token e', r.token = some token → env.authorize token ≠ .error e') ∧
      env.OtherFailure e) := by
  cases r with
  | http authorization payload =>
      simp only [State.caught] at h
      split at h
      case h_1 e' hrejected =>
        cases h
        exact Or.inl ⟨authorization, rfl, hrejected⟩
      case h_2 permissions haccepted =>
        rw [State.onGraphQLMessage_start] at h
        split at h
        case h_1 e' s₁ hstart =>
          cases h
          refine Or.inr ⟨?_, State.onGraphQLStart_error hstart⟩
          intro token e' htoken
          cases htoken
          rw [haccepted]
          nofun
        case h_2 => cases h
  | webSocket message =>
      simp only [State.caught, State.thrown] at h
      cases hparts : toMessageParts message with
      | error e' =>
          rw [hparts] at h
          cases h
          refine Or.inr ⟨?_, ?_⟩
          · intro token e' htoken
            simp [Request.token, hparts] at htoken
          · cases message with
            | map members => cases hparts
            | _ =>
                cases hparts
                exact .payload _
      | ok parts =>
          simp only [hparts] at h
          split at h
          case h_2 => cases h
          case h_1 e' s₁ hmessage =>
            cases h
            have htoken : (Request.webSocket message).token = initToken parts.first parts.value := by
              simp [Request.token, hparts]
            rw [htoken]
            rcases State.onGraphQLMessage_error hmessage with hrejected | ⟨hnone, hother⟩
            · exact Or.inl hrejected
            · refine Or.inr ⟨?_, hother⟩
              intro token e' hsome
              rw [hnone] at hsome
              cases hsome

/-- A rejection with an `InvalidToken` has its text, one with another exception does not
look like it. -/
theorem Documented.authorize_error (h : Documented env a) {token : String} {e : Thrown}
    (herror : a.authorize token = .error e) :
    (∃ message, e = .invalidToken message ∧ message ≠ "") ∨
      (¬ e.IsInvalidToken ∧ ¬ HasTokenPrefix e.what) := by
  have htranslate : ∀ le : LibraryError,
      (le.isCaught = true → le.what ≠ "") ∧ ¬ HasTokenPrefix le.what →
      (∃ message, JwtAuthorizer.translate (.library le) = .invalidToken message ∧
        message ≠ "") ∨
        (¬ (JwtAuthorizer.translate (.library le)).IsInvalidToken ∧
          ¬ HasTokenPrefix (JwtAuthorizer.translate (.library le)).what) := by
    intro le hwhat
    rw [translate_library]
    cases hcaught : le.isCaught with
    | true => exact Or.inl ⟨_, rfl, hwhat.1 hcaught⟩
    | false => exact Or.inr ⟨fun ⟨_, heq⟩ => (by cases heq), hwhat.2⟩
  unfold JwtAuthorizer.authorize JwtAuthorizer.readToken at herror
  split at herror
  case isTrue => cases herror
  case isFalse =>
    cases hdecode : a.decode token with
    | error le =>
        rw [hdecode] at herror
        cases herror
        exact htranslate le (h.decode token le hdecode)
    | ok decoded =>
        simp only [hdecode] at herror
        cases hverify : a.verify decoded with
        | error le =>
            rw [hverify] at herror
            cases herror
            exact htranslate le (h.verify decoded le hverify)
        | ok verified =>
            simp only [hverify] at herror
            cases hread : a.readClaims (a.claims decoded) with
            | ok p =>
                rw [hread] at herror
                cases herror
            | error e' =>
                rw [hread] at herror
                cases herror
                rcases readClaims_error hread with ⟨message, rfl, hmessage⟩ | ⟨rfl, -⟩
                · exact Or.inl ⟨message, rfl, hmessage⟩
                · exact Or.inr ⟨fun ⟨_, heq⟩ => (by cases heq), h.typeMismatch⟩

/-- Under documented libraries the other failures get 400. -/
theorem Documented.otherFailure (h : Documented env a) {e : String}
    (he : (env.authorizedBy a).OtherFailure e) : errorStatusCode e = 400 := by
  apply errorStatusCode_other
  cases he with
  | payload message => exact invalidPayload_not_token message
  | grammar hgrammar => exact h.grammar _ _ hgrammar
  | wrongType => exact h.wrongType

/-- The token of the request is rejected. -/
def Request.IsRejected (r : Request) (a : JwtAuthorizer τ) : Prop :=
  ∃ token e, r.token = some token ∧ a.authorize token = .error e

/-- **Rejected tokens are unauthorized.**  A handler with a token that the authorizer
rejects fails with an `InvalidToken`, and the one thing it posts is the error under the
status code 401, and after every other failure under the code 400, exactly if all that the
libraries throw at the token is translated. -/
theorem rejected_unauthorized (hdoc : Documented env a) (hr : s.Receives c r)
    (key : SubscriptionKey) :
    ((∀ token e, r.token = some token → a.authorize token = .error e → e.IsInvalidToken) ∧
      ∀ e, s.caught (env.authorizedBy a) c key r = some e →
        ∃ task, (s.handle (env.authorizedBy a) c key r).queue = s.queue ++ [task] ∧
          (r.IsRejected a → ErrorReply c e 401 r task) ∧
          (¬ r.IsRejected a → ErrorReply c e 400 r task)) ↔
    ∀ token, r.token = some token → token.isEmpty = false → a.Translated token := by
  constructor
  · rintro ⟨hinvalid, -⟩ token htoken hempty
    exact (translated_iff hempty).mpr fun e herror => hinvalid token e htoken herror
  · intro htranslated
    have hinvalid : ∀ token e, r.token = some token → a.authorize token = .error e →
        e.IsInvalidToken := by
      intro token e htoken herror
      have hempty : token.isEmpty = false := by
        rw [Bool.eq_false_iff]
        intro hempty
        rw [JwtAuthorizer.authorize, if_pos hempty] at herror
        cases herror
      exact (translated_iff hempty).mp (htranslated token htoken hempty) e herror
    refine ⟨hinvalid, ?_⟩
    intro e hcaught
    obtain ⟨task, hqueue, hreply⟩ := State.handle_caught hr hcaught
    refine ⟨task, hqueue, ?_⟩
    rcases State.caught_cases hcaught with ⟨token, htoken, hrejected⟩ | ⟨haccepted, hother⟩
    · obtain ⟨e', herror, rfl⟩ : ∃ e', a.authorize token = .error e' ∧ e'.what = e := by
        cases herror : a.authorize token with
        | error e' =>
            refine ⟨e', rfl, ?_⟩
            simpa [Environment.authorizedBy, herror, Except.mapError] using hrejected
        | ok p => simp [Environment.authorizedBy, herror, Except.mapError] at hrejected
      have hrejects : r.IsRejected a := ⟨token, e', htoken, herror⟩
      refine ⟨fun _ => ?_, fun hnot => absurd hrejects hnot⟩
      rcases hdoc.authorize_error herror with ⟨message, rfl, hmessage⟩ | ⟨hnot, -⟩
      · rwa [Thrown.what, errorStatusCode_invalidToken hmessage] at hreply
      · exact absurd (hinvalid token e' htoken herror) hnot
    · refine ⟨?_, fun _ => by rwa [hdoc.otherFailure hother] at hreply⟩
      rintro ⟨token, e', htoken, herror⟩
      refine absurd ?_ (haccepted token e'.what htoken)
      simp [Environment.authorizedBy, herror, Except.mapError]

/-- An authorizer that rejects every token with this error of its verifier. -/
def rejecting (e : LibraryError) : JwtAuthorizer Unit :=
  { carrier [] with verify := fun _ => .error e }

/-- A library that rejects every token is documented. -/
theorem documented_rejecting {e : LibraryError} (hwhat : e.what ≠ "")
    (hhead : e.what.toList.head? ≠ some 'T') : Documented vehicle (rejecting e) where
  decode := nofun
  verify := by
    intro decoded e' herror
    cases herror
    exact ⟨fun _ => hwhat, not_hasTokenPrefix hhead⟩
  typeMismatch := not_hasTokenPrefix (by
    change "type mismatch! call is<type>() before get<type>()".toList.head? ≠ some 'T'
    decide)
  grammar := nofun
  wrongType := not_hasTokenPrefix (by decide)

/-- The server with a new HTTP connection. -/
def httpOpened : State :=
  initial.onConnectionStart true

/-- The connection of a request receives it. -/
theorem httpOpened_receives (authorization : String) (payload : Value) :
    httpOpened.Receives 0 (.http authorization payload) :=
  ⟨rfl, rfl⟩

/-- A signature that cannot be verified gets 401. -/
theorem rejected_unauthorized_signature :
    (httpOpened.handle
        (vehicle.authorizedBy (rejecting (.signatureVerification "failed to verify signature")))
        0 0 (.http "token" .null)).queue =
      [.sendHttp 0 401 (errorPayload "Token error: failed to verify signature")] := by
  have hdoc : Documented vehicle (rejecting (.signatureVerification "failed to verify signature")) :=
    documented_rejecting (by decide) (by decide)
  have hclaimed := (rejected_unauthorized hdoc (httpOpened_receives "token" .null) 0).mpr (by
    intro token _ _
    refine ⟨nofun, fun decoded _ => ⟨?_, nofun⟩⟩
    intro e herror
    cases herror
    rfl)
  obtain ⟨task, hqueue, hreply, -⟩ := hclaimed.2 _ rfl
  have hrejected := hreply ⟨"token", _, rfl, rfl⟩
  rw [hqueue]
  cases hrejected
  rfl

/-- A token that has expired is rejected by an exception that is not translated, and the
response has the status code 400. -/
theorem expired_bad_request :
    (rejecting (.tokenVerification "token expired")).authorize "token" =
        .error (.library (.tokenVerification "token expired")) ∧
      (httpOpened.handle (vehicle.authorizedBy (rejecting (.tokenVerification "token expired"))) 0 0
          (.http "token" .null)).queue = [.sendHttp 0 400 (errorPayload "token expired")] :=
  ⟨rfl, rfl⟩

end GraphQLServer
