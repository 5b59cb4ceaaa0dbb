import VssServer.Messages

/-!
# A query or mutation after `stop` has returned

`stop` of a `GraphQLConnectionOperationRegular` sets `m_stopped` and does not wait for the
worker, which looks at the flag before it resolves and once more before it replies.  The two
replies come after the second look.

* `Worker.replies`: the worker is between its second check and the last of its replies.
* `stop_silences`: after a `stop` the worker is silent exactly if it is not there.
* `replies_stopped`: a run in which it is.
-/

namespace GraphQLServer

open Response Permissions

/-- The worker has passed its second check of `m_stopped`, and has still to hand over its
data or its complete message. -/
def Worker.replies : Worker → Bool
  | .replying _ _ | .completing _ => true
  | _ => false

/-- The operation calls `onReply` with this step. -/
def CallsOnReply (s : State) (l : Label) (o : OperationId) : Prop :=
  l = .worker o ∧ (s.operations o).worker.replies = true

/-- The operation that a `stop` message of the connection `c` is for. -/
def State.stoppedBy (s : State) (c : ConnectionId) (message : Value) : Option OperationId :=
  match toMessageParts message with
  | .error _ => none
  | .ok parts =>
      if parts.first = GQL_STOP then (s.connections c).operations.lookup parts.second else none

/-- The operation whose `stop` the main thread calls with this step: for its client, with its
connection, or after a failed permission check. -/
def State.stopping (s : State) : Label → Option OperationId
  | .onWebSocketMessage c (some message) _ => s.stoppedBy c message
  | .stopNext o => some o
  | .main => s.forces
  | _ => none

variable {env : Environment} {s s' : State} {l : Label} {o : OperationId}

/-- `stop` of a query or mutation sets its flag and leaves its worker alone. -/
theorem State.stop_regular (s : State) (hkind : (s.operations o).isSubscription = false) :
    ((s.stop o).operations o).stopped = true ∧
      ((s.stop o).operations o).worker = (s.operations o).worker ∧
      (s.stop o).aborted = s.aborted ∧ (s.stop o).operationBound = s.operationBound := by
  have hstops := s.stops o
  generalize s.stop o = s' at hstops
  cases hstops with
  | already stopped => exact ⟨stopped, rfl, rfl, rfl⟩
  | subscription running kind =>
      rw [hkind] at kind
      cases kind
  | regular running kind => exact ⟨by simp, by simp, rfl, rfl⟩

/-- A `stop` message calls `stop` of the operation that it is for. -/
theorem State.onWebSocketMessage_stop (env : Environment) {c : ConnectionId} {message : Value}
    (hstop : s.stoppedBy c message = some o) (key : SubscriptionKey) :
    ∃ frames, s.onWebSocketMessage env c message key = (s.goto frames).stop o := by
  unfold State.stoppedBy at hstop
  unfold State.onWebSocketMessage
  cases hparts : toMessageParts message with
  | error e =>
      rw [hparts] at hstop
      cases hstop
  | ok parts =>
      rw [hparts] at hstop
      obtain ⟨htype, hlookup⟩ := Option.ite_none_right_eq_some.mp hstop
      refine ⟨.erase c parts.second :: s.frames, ?_⟩
      simp only [State.onGraphQLMessage, htype]
      rw [if_neg (by decide), if_neg (by decide), if_neg (by decide), if_pos trivial]
      simp only [State.onGraphQLStop, hlookup]

/-- The step that calls `stop` of a query or mutation. -/
theorem step_stopping (hstep : step env s l = some s') (hstop : s.stopping l = some o)
    (hkind : (s.operations o).isSubscription = false) :
    (s'.operations o).stopped = true ∧ (s'.operations o).worker = (s.operations o).worker ∧
      s'.aborted = false ∧ s'.operationBound = s.operationBound := by
  have hruns : s.aborted = false := by
    unfold step at hstep
    simpa using (Option.ite_none_left_eq_some.mp hstep).1
  obtain ⟨s₁, hs', hoperations, haborted, hbound⟩ : ∃ s₁ : State, s' = s₁.stop o ∧
      s₁.operations = s.operations ∧ s₁.aborted = s.aborted ∧
      s₁.operationBound = s.operationBound := by
    cases l with
    | onWebSocketMessage c message key =>
        cases message with
        | none => cases hstop
        | some message =>
            obtain ⟨-, -, rfl⟩ := message_enabled hstep
            obtain ⟨frames, heq⟩ := State.onWebSocketMessage_stop env hstop key
            exact ⟨s.goto frames, heq, rfl, rfl, rfl⟩
    | stopNext o' =>
        cases hstop
        unfold step at hstep
        obtain ⟨-, hstep⟩ := Option.ite_none_left_eq_some.mp hstep
        simp only [stopNext] at hstep
        split at hstep
        · obtain ⟨-, heq⟩ := Option.ite_none_right_eq_some.mp hstep
          exact ⟨_, (Option.some.inj heq).symm, rfl, rfl, rfl⟩
        · cases hstep
    | main =>
        unfold step at hstep
        obtain ⟨-, hstep⟩ := Option.ite_none_left_eq_some.mp hstep
        simp only [State.stopping, State.forces] at hstop
        split at hstop
        case h_1 frames queue hframes hqueue =>
          cases hstop
          simp only [main, hframes, hqueue, State.run] at hstep
          exact ⟨_, (Option.some.inj hstep).symm, rfl, rfl, rfl⟩
        case h_2 => cases hstop
    | _ => cases hstop
  have hstopped := s₁.stop_regular (o := o) (by rw [hoperations]; exact hkind)
  rw [hs', ← hruns, ← haborted, ← hbound, ← hoperations]
  exact hstopped

/-- A stopped operation whose worker is not about to reply. -/
structure Operation.Silenced (x : Operation) : Prop where
  stopped : x.stopped = true
  silent : x.worker.replies = false

/-- Only a worker that has seen the flag unset gets to its replies. -/
theorem OperationStep.silenced {e : Effects} {x x' : Operation} (hs : OperationStep e x x')
    (h : x.Silenced) : x'.Silenced := by
  obtain ⟨hstopped, hsilent⟩ := h
  cases hs
  case subscribeFailed w hcopies subscribing next =>
    refine ⟨hstopped, ?_⟩
    rcases next with rfl | ⟨b, document, rfl⟩ <;> rfl
  case replyData replying => simp [replying, Worker.replies] at hsilent
  case replyComplete completing => simp [completing, Worker.replies] at hsilent
  all_goals constructor <;> simp_all [Worker.replies]

/-- It stays so in every run. -/
theorem Reach.silenced (h : Runs.Reach (step env) Runs.always s s')
    (ho : o < s.operationBound) (hsilenced : (s.operations o).Silenced) :
    o < s'.operationBound ∧ (s'.operations o).Silenced := by
  apply h.invariant (I := fun s' => o < s'.operationBound ∧ (s'.operations o).Silenced)
  · exact ⟨ho, hsilenced⟩
  · intro s l s' hs _ hstep
    have hcases := step_cases hstep
    refine ⟨hs.1.trans_le hcases.bounds.1, ?_⟩
    rcases hcases.operation o with heq | hchange | hcreates
    · rw [heq]
      exact hs.2
    · exact hchange.silenced hs.2
    · exact absurd hs.1 (hcreates.1 ▸ lt_irrefl _)

/-- A worker that is about to reply can do so. -/
theorem worker_replies (env : Environment) (hruns : s.aborted = false)
    (hreplies : (s.operations o).worker.replies = true) :
    ∃ s', step env s (.worker o) = some s' := by
  cases hworker : (s.operations o).worker with
  | replying onReply response => exact ⟨_, by simp only [step, hruns, worker, hworker]; rfl⟩
  | completing onReply => exact ⟨_, by simp only [step, hruns, worker, hworker]; rfl⟩
  | _ =>
      rw [hworker] at hreplies
      cases hreplies

/-- **A stopped query is silent.**  After a step that has called `stop` of a query or
mutation, no run calls its `onReply` again, exactly if its worker was not between its
second check of `m_stopped` and the last of its two replies. -/
theorem stop_silences (ho : o < s.operationBound)
    (hkind : (s.operations o).isSubscription = false) (hstop : s.stopping l = some o)
    (hstep : step env s l = some s') :
    (∀ s₁ l₁ s₂, Runs.Reach (step env) Runs.always s' s₁ → step env s₁ l₁ = some s₂ →
      ¬ CallsOnReply s₁ l₁ o) ↔ (s.operations o).worker.replies = false := by
  obtain ⟨hstopped, hworker, hruns, hbound⟩ := step_stopping hstep hstop hkind
  constructor
  · intro hnever
    by_contra hreplies
    rw [Bool.not_eq_false, ← hworker] at hreplies
    obtain ⟨s₂, hreply⟩ := worker_replies env hruns hreplies
    exact hnever s' (.worker o) s₂ .refl hreply ⟨rfl, hreplies⟩
  · intro hsilent s₁ l₁ s₂ hreach _ hcalls
    have hsilenced : (s'.operations o).Silenced := ⟨hstopped, by rw [hworker]; exact hsilent⟩
    have hafter := (Reach.silenced hreach (hbound ▸ ho) hsilenced).2.silent
    rw [hcalls.2] at hafter
    cases hafter

/-- A client sends a query; its worker is resolving it. -/
def resolveQuery : List Label :=
  [.onWebSocketOpen, .onWebSocketMessage 0 (some (startMessage "1" "query")) 0, .take 0]

/-- The client stops the query. -/
def stopQuery : Label :=
  .onWebSocketMessage 0 (some (stopMessage "1")) 0

set_option maxRecDepth 4000 in
theorem stop_silences_resolveQuery :
    ∃ s s', Runs.run (step vehicle) initial resolveQuery = some s ∧
      step vehicle s stopQuery = some s' ∧
      ∀ s₁ l₁ s₂, Runs.Reach (step vehicle) Runs.always s' s₁ → step vehicle s₁ l₁ = some s₂ →
        ¬ CallsOnReply s₁ l₁ 0 := by
  have hsilent : ∀ s, some s = Runs.run (step vehicle) initial resolveQuery →
      ∀ s', some s' = step vehicle s stopQuery → ∀ s₁ l₁ s₂,
        Runs.Reach (step vehicle) Runs.always s' s₁ → step vehicle s₁ l₁ = some s₂ →
          ¬ CallsOnReply s₁ l₁ 0 := by
    intro s hrun s' hstep
    cases hrun
    exact (stop_silences (by decide) rfl rfl hstep.symm).mpr rfl
  exact ⟨_, _, rfl, rfl, hsilent _ rfl _ rfl⟩

set_option maxRecDepth 4000 in
/-- The client stops the query right after the second check of its worker, which then
replies twice. -/
theorem replies_stopped :
    ∃ s s₁ s₂ s₃, Runs.run (step vehicle) initial (resolveQuery ++ [.resolved 0 .null]) = some s ∧
      s.stopping stopQuery = some 0 ∧ (s.operations 0).isSubscription = false ∧
      step vehicle s stopQuery = some s₁ ∧
      CallsOnReply s₁ (.worker 0) 0 ∧ step vehicle s₁ (.worker 0) = some s₂ ∧
      CallsOnReply s₂ (.worker 0) 0 ∧ step vehicle s₂ (.worker 0) = some s₃ ∧
      s₃.queue = s₁.queue ++ [.sendWebSocket 0 (createResponse GQL_DATA "1" .null),
        .sendWebSocket 0 (createResponse GQL_COMPLETE "1" .null)] :=
  ⟨_, _, _, _, rfl, rfl, rfl, rfl, ⟨rfl, rfl⟩, rfl, ⟨rfl, rfl⟩, rfl, rfl⟩

end GraphQLServer
