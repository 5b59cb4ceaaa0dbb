import VssServer.Messages
import VssServer.PermissionChecks

/-!
# Access needs a token

A connection gets its permissions from the authorizer, for a token that its client has
handed over: in the header of its request, or in a `connection_init`.  An operation gets
those that its connection has then, and never others.  So where a guarded resolver goes
on, the client has presented a token that the authorizer takes for what it requires.

* `Presented`: a token was handed over on a connection, by a request or by a message.
* `access_of_run`: all permissions of connections and operations come from such tokens.
* `access_presented`: where `validate` returns, its client has presented a token that grants
  what was required.
-/

namespace GraphQLServer

open Response Permissions

/-- With the label `l`, the client of the connection `c` hands over the token. -/
inductive Presents (s : State) (c : ConnectionId) (token : String) : Label → Prop
  | header {payload key} (new : c = s.connectionBound) :
      Presents s c token (.onHttp token payload key)
  | init {message key parts} (read : toMessageParts message = .ok parts)
      (type : parts.first = GQL_CONNECTION_INIT) (object : parts.value.isMap = true)
      (authorization : authorizationOf parts.value = some (.string token)) :
      Presents s c token (.onWebSocketMessage c (some message) key)

/-- The client of the connection `c` has handed over the token in the run. -/
def Presented (env : Environment) (ls : List Label) (c : ConnectionId) (token : String) : Prop :=
  ∃ before l after s, ls = before ++ l :: after ∧ Runs.run (step env) initial before = some s ∧
    Presents s c token l

/-- Permissions of `c` come from a token that it has handed over. -/
def Backed (env : Environment) (ls : List Label) (c : ConnectionId) (p : ClientPermissions) :
    Prop :=
  ∃ token, Presented env ls c token ∧ env.authorize token = .ok (some p)

variable {env : Environment} {s s' : State} {l : Label} {c : ConnectionId}

/-- What has been presented stays presented. -/
theorem Backed.concat {ls : List Label} {p : ClientPermissions} (h : Backed env ls c p)
    (l : Label) : Backed env (ls ++ [l]) c p := by
  obtain ⟨token, ⟨before, l', after, s, rfl, hrun, hpresents⟩, hauthorize⟩ := h
  exact ⟨token, ⟨before, l', after ++ [l], s, by simp, hrun, hpresents⟩, hauthorize⟩

/-- The last label hands over the token. -/
theorem Backed.last {ls : List Label} {p : ClientPermissions} {token : String}
    (hrun : Runs.run (step env) initial ls = some s) (hpresents : Presents s c token l)
    (hauthorize : env.authorize token = .ok (some p)) : Backed env (ls ++ [l]) c p :=
  ⟨token, ⟨ls, l, [], s, rfl, hrun, hpresents⟩, hauthorize⟩

/-- The authorizer is asked about a token of a `connection_init`. -/
theorem presents_of_authorizes {message : Value} {key : SubscriptionKey} {p : ClientPermissions}
    (h : authorizes env message = some (some p)) :
    ∃ token, Presents s c token (.onWebSocketMessage c (some message) key) ∧
      env.authorize token = .ok (some p) := by
  unfold authorizes at h
  split at h
  · cases h
  · rename_i parts hparts
    split at h
    · rename_i hinit
      split at h
      · rename_i token htoken
        refine ⟨token, .init hparts hinit.1 hinit.2 htoken, ?_⟩
        cases hauthorize : env.authorize token with
        | error e => simp [hauthorize, Except.toOption] at h
        | ok permissions =>
            simp only [hauthorize, Except.toOption, Option.some.injEq] at h
            rw [h]
      · cases h
    · cases h

/-- The permissions of an HTTP connection are what the authorizer returns for its header. -/
theorem State.onHttp_permissions {authorization : String} {payload : Value}
    {key : SubscriptionKey} {p : ClientPermissions}
    (h : (((s.onConnectionStart true).onHttp env s.connectionBound authorization payload
      key).connections s.connectionBound).permissions = some p) :
    env.authorize authorization = .ok (some p) := by
  unfold State.onHttp at h
  split at h
  · simp [State.reply_connections] at h
  · rename_i permissions hauthorize
    dsimp only at h
    split at h
    · rename_i hmessage
      have hsame := State.onGraphQLMessage_permissions (by decide) hmessage
      rw [hsame] at h
      simp only [State.change_connections, Function.update_self] at h
      rw [hauthorize, h]
    · rename_i hmessage
      rw [State.onGraphQLMessage_kept hmessage] at h
      simp only [State.reply_connections, State.change_connections, Function.update_self] at h
      rw [hauthorize, h]

/-- Connections are created by their handlers. -/
theorem Step.creates_connection (hs : Step env s l s')
    (h : s'.connectionBound ≠ s.connectionBound) :
    l = .onWebSocketOpen ∨ ∃ authorization payload key, l = .onHttp authorization payload key := by
  cases hs
  case opened => exact .inl rfl
  case httpMalformed | httpUnauthorized | httpFailed | httpStarted => exact .inr ⟨_, _, _, rfl⟩
  case messageStop stops | forceStop stops | stopNext stops => exact absurd stops.bounds.2 h
  all_goals exact absurd rfl h

/-- Apart from the messages and the request of its client, a connection gets no
permissions. -/
theorem Step.permissions_kept (hs : Step env s l s')
    (hrequest : c = s.connectionBound → ∀ authorization payload key,
      l ≠ .onHttp authorization payload key)
    (hmessage : ∀ message key, l ≠ .onWebSocketMessage c message key) {p : ClientPermissions}
    (hp : (s'.connections c).permissions = some p) : (s.connections c).permissions = some p := by
  have hopened : c = s.connectionBound → s'.connectionBound = c + 1 →
      (s'.connections c).permissions = none := by
    intro hc hbound
    have hgrows : s'.connectionBound ≠ s.connectionBound := by
      rw [hbound, hc]
      exact Nat.succ_ne_self _
    rcases hs.creates_connection hgrows with rfl | ⟨_, _, _, rfl⟩
    · cases hs
      case aborts => exact absurd rfl hgrows
      case opened => simp [hc]
    · exact absurd rfl (hrequest hc _ _ _)
  cases hs.touches c with
  | leaves eq => rwa [eq] at hp
  | opens _ _ _ eq =>
      rw [eq] at hp
      cases hp
  | rejects new bound _ | starts new bound _ _ =>
      rw [hopened new bound] at hp
      cases hp
  | permits label _ | inserts label _ _ _ _ => exact absurd label (hmessage _ _)
  | erases _ eq | ends _ eq => rwa [eq] at hp
  | tearsDown _ _ eq =>
      rw [eq] at hp
      cases hp

/-- A new operation has the permissions of its connection. -/
theorem Step.creates_permissions (hs : Step env s l s') {o : OperationId}
    (h : Creates env s s' o) :
    (s'.operations o).request.permissions =
      (s'.connections (s'.operations o).connection).permissions := by
  obtain ⟨rfl, hbound, -⟩ := h
  have hgrows : s'.operationBound ≠ s.operationBound := by
    rw [hbound]
    exact Nat.succ_ne_self _
  cases hs
  case httpStarted | messageStart => simp [State.addConnectionOperation, newOperation]
  case messageStop stops | forceStop stops | stopNext stops => exact absurd stops.bounds.1 hgrows
  all_goals exact absurd rfl hgrows

/-- Whatever permissions there are come from tokens. -/
structure Access (env : Environment) (ls : List Label) (s : State) : Prop where
  connection : ∀ c p, (s.connections c).permissions = some p → Backed env ls c p
  operation : ∀ o, o < s.operationBound → ∀ p, (s.operations o).request.permissions = some p →
    Backed env ls (s.operations o).connection p

namespace Access

variable {ls : List Label}

/-- A connection gets permissions from a token that it presents. -/
theorem step_connection (h : Access env ls s)
    (hrun : Runs.run (GraphQLServer.step env) initial ls = some s)
    (hstep : GraphQLServer.step env s l = some s') :
    ∀ c p, (s'.connections c).permissions = some p → Backed env (ls ++ [l]) c p := by
  intro c p hp
  have hs := step_cases hstep
  by_cases hmessage : ∃ message key, l = .onWebSocketMessage c message key
  · obtain ⟨message, key, rfl⟩ := hmessage
    obtain ⟨-, -, rfl⟩ := message_enabled hstep
    cases message with
    | none => exact (h.connection c p hp).concat _
    | some message =>
        simp only [Option.elim_some, State.onWebSocketMessage_permissions] at hp
        cases hauthorizes : authorizes env message with
        | none =>
            rw [hauthorizes, Option.getD_none] at hp
            exact (h.connection c p hp).concat _
        | some permissions =>
            rw [hauthorizes, Option.getD_some] at hp
            subst hp
            obtain ⟨token, hpresents, hauthorize⟩ := presents_of_authorizes hauthorizes
            exact .last hrun hpresents hauthorize
  by_cases hrequest : c = s.connectionBound ∧ ∃ authorization payload key,
      l = .onHttp authorization payload key
  · obtain ⟨rfl, authorization, payload, key, rfl⟩ := hrequest
    obtain ⟨-, hstep⟩ := Option.ite_none_left_eq_some.mp hstep
    obtain ⟨-, hstep⟩ := Option.ite_none_right_eq_some.mp hstep
    cases payload with
    | none =>
        obtain rfl := Option.some.inj hstep
        simp at hp
    | some payload =>
        obtain rfl := Option.some.inj hstep
        exact .last hrun (.header rfl) (State.onHttp_permissions hp)
  · have hkept := hs.permissions_kept (fun hc a payload key hl => hrequest ⟨hc, a, payload, key, hl⟩)
      (fun message key hl => hmessage ⟨message, key, hl⟩) hp
    exact (h.connection c p hkept).concat _

/-- An operation gets those of its connection. -/
theorem step_operation (h : Access env ls s) (hconnection : ∀ c p,
      (s'.connections c).permissions = some p → Backed env (ls ++ [l]) c p)
    (hs : Step env s l s') :
    ∀ o, o < s'.operationBound → ∀ p, (s'.operations o).request.permissions = some p →
      Backed env (ls ++ [l]) (s'.operations o).connection p := by
  intro o ho p hp
  rcases hs.created ho with hold | hnew
  · have hsame : (s'.operations o).request.permissions = (s.operations o).request.permissions := by
      rcases hs.operation o with heq | hchange | ⟨rfl, -⟩
      · rw [heq]
      · exact hchange.permissions
      · exact absurd hold (lt_irrefl _)
    rw [hsame] at hp
    rw [(hs.fixed hold).2.1]
    exact (h.operation o hold p hp).concat l
  · rw [hs.creates_permissions hnew] at hp
    exact hconnection _ p hp

end Access

/-- All permissions come from tokens in every run. -/
theorem access_of_run {ls : List Label} (h : Runs.run (step env) initial ls = some s) :
    Access env ls s := by
  apply Runs.run_along (I := Access env) _ _ h
  · constructor
    · intro c p hp
      cases hp
    · intro o ho
      exact absurd ho (Nat.not_lt_zero o)
  · intro ls s l s' hrun hs hstep
    have hconnection := hs.step_connection hrun hstep
    exact ⟨hconnection, hs.step_operation hconnection (step_cases hstep)⟩

/-- What is verified where `validate` returns normally, as long as the checks that are
switched off are covered by earlier ones. -/
theorem validate_has {ls : List Label} (hrun : Runs.run (step env) initial ls = some s)
    (hcovered : Runs.RunMeets (step env) Covered initial ls) {o : OperationId}
    {permission : Permissions.Key} {rest : List Permissions.Key}
    (hlast : Covered s (.validate o permission rest))
    (hreturns : ((s.operations o).request.validate permission rest).1 = .ok ()) :
    ∀ k ∈ permission :: rest, (s.operations o).request.has k := by
  by_cases hdid : (s.operations o).request.didPermissionsCheck = true
  · have hverified := Reach.verified (Runs.reach_of_run hrun hcovered) o (.inr hdid)
    exact fun k hk => hverified k (hlast o permission rest rfl hdid k hk)
  · rcases RequestState.validate_checked (by simpa using hdid) with ⟨-, -, hall⟩ | ⟨hthrows, -⟩
    · exact hall
    · exact absurd hreturns hthrows

/-- **Access needs a token.**  In every run in which the checks that are switched off are
covered by earlier ones, where `validate` returns normally for an operation, its own client
has handed over a token for which the authorizer returns all that is required. -/
theorem access_presented {ls : List Label} (hrun : Runs.run (step env) initial ls = some s)
    (hcovered : Runs.RunMeets (step env) Covered initial ls) {o : OperationId}
    (ho : o < s.operationBound) {permission : Permissions.Key} {rest : List Permissions.Key}
    (hlast : Covered s (.validate o permission rest))
    (hreturns : ((s.operations o).request.validate permission rest).1 = .ok ()) :
    ∃ token p, Presented env ls (s.operations o).connection token ∧
      env.authorize token = .ok (some p) ∧ ∀ k ∈ permission :: rest, p.contains k = true := by
  have hhas := validate_has hrun hcovered hlast hreturns
  obtain ⟨p, hp, -⟩ := hhas permission (.head _)
  obtain ⟨token, hpresented, hauthorize⟩ := (access_of_run hrun).operation o ho p hp
  refine ⟨token, p, hpresented, hauthorize, fun k hk => ?_⟩
  obtain ⟨p', hp', hcontains⟩ := hhas k hk
  cases hp.symm.trans hp'
  exact hcontains

set_option maxRecDepth 4000 in
/-- What a guarded resolver was granted comes from the token of its connection. -/
theorem access_presented_deliverFirst :
    ∃ s, Runs.run (step vehicle) initial deliverGuardedTwice = some s ∧
      (s.operations 0).request.didPermissionsCheck = true ∧
      ∃ token p, Presented vehicle deliverGuardedTwice (s.operations 0).connection token ∧
        vehicle.authorize token = .ok (some p) ∧ ∀ k ∈ [1], p.contains k = true := by
  have hrun : Runs.run (step vehicle) initial deliverGuardedTwice = some _ := rfl
  have hcovered : Runs.RunMeets (step vehicle) Covered initial deliverGuardedTwice := by decide
  refine ⟨_, hrun, rfl, access_presented hrun hcovered (by decide) ?_ rfl⟩
  intro o permission rest heq _ k hk
  cases heq
  exact hk

end GraphQLServer
