import VssServer.Entries

/-!
# Which operations a connection keeps

A `start` message is ignored while `m_operations` has an operation of its id, so
an operation that has ended must leave the map.  `onGraphQLStop` erases what it
stops, and `tearDown` empties the map; a query that completes and a subscription
that is stopped because of its failed permission check stay in it.  As long as
this happens only to operations that have left the map, a client can use an id
again once its operation has ended: `start_accepted`.

* `NoneEnded`: no map has an operation that has ended, but for one that is about to be erased.
* `leftMap_of_stopped`: what its client has stopped in time has left the map.
* `start_accepted`: a `start` under an id without a live operation starts one.
* `ignores_start`: after a completed query it does not.
-/

namespace GraphQLServer

open Response Permissions

/-- It is stopped, or its `complete` message is handed over. -/
def Operation.Ended (x : Operation) : Prop :=
  x.stopped = true ∨ x.completeSent = true

/-- The map of its connection has the operation. -/
def Kept (s : State) (o : OperationId) : Prop :=
  (s.connections (s.operations o).connection).operations.lookup (s.operations o).id = some o

instance (s : State) (o : OperationId) : Decidable (Kept s o) :=
  inferInstanceAs (Decidable (_ = _))

/-- It hands over its `complete` message next. -/
def Worker.completes : Worker → Bool
  | .completing _ => true
  | _ => false

/-- The main thread is going to stop this operation next, after a failed permission
check. -/
def State.forces (s : State) : Option OperationId :=
  match s.frames, s.queue with
  | [], .stop o :: _ => some o
  | _, _ => none

/-- The operation that ends with this step, other than by a `stop` message or with
its connection. -/
def State.ending (s : State) (l : Label) : Option OperationId :=
  match l with
  | .worker o => if (s.operations o).worker.completes then some o else none
  | .main => s.forces
  | _ => none

/-- The side condition on a step: what ends by itself on a WebSocket connection has
left the map. -/
def LeftMap (s : State) (l : Label) : Prop :=
  ∀ o ∈ s.ending l, (s.connections (s.operations o).connection).http = false → ¬Kept s o

instance (s : State) (l : Label) : Decidable (LeftMap s l) :=
  inferInstanceAs (Decidable (∀ _ ∈ _, _))

/-- How an operation ends: it completes or is forced to stop, its client stops it,
or its connection does. -/
inductive Ends (s s' : State) (l : Label) (o : OperationId) : Prop
  | itself (ending : o ∈ s.ending l)
  | client {c id} (entry : (s.connections c).operations.lookup id = some o)
      (erases : .erase c id ∈ s'.frames)
  | connection {remaining frames} (top : s.frames = .stopOperations remaining :: frames)
      (mem : o ∈ remaining)

variable {env : Environment} {s s' : State} {l : Label}

/-- A new operation has not ended. -/
theorem newOperation_not_ended {id : String} {c : ConnectionId}
    {permissions : Option ClientPermissions} {sub : Bool} {key : SubscriptionKey} :
    ¬(newOperation env id c permissions sub key).Ended := by
  intro h
  rcases h with h | h <;> cases h

/-- `stop` ends the operation it is called for. -/
theorem Stops.ended {o₀ o : OperationId} (h : Stops s o₀ s') (hended : (s'.operations o).Ended) :
    o = o₀ ∨ (s.operations o).Ended := by
  by_cases ho : o = o₀
  · exact .inl ho
  · right
    cases h <;> simpa [ho] using hended

/-- An operation that completes ends by itself. -/
private theorem completed {o₀ o : OperationId} {x' : Operation} (h : o₀ ∈ s.ending l)
    (hchange : s'.operations = Function.update s.operations o₀ x')
    (hended : (s'.operations o).Ended) : (s.operations o).Ended ∨ Ends s s' l o := by
  by_cases ho : o = o₀
  · exact .inr (.itself (ho ▸ h))
  · left
    rwa [hchange, Function.update_of_ne ho] at hended

/-- An operation has ended before, or this step is one of those that end it. -/
theorem Step.ended (hs : Step env s l s') (hw : Wired s) {o : OperationId}
    (hended : (s'.operations o).Ended) : (s.operations o).Ended ∨ Ends s s' l o := by
  cases hs
  case httpStarted =>
    exact .inl (operations_reflect rfl (fun h => absurd h newOperation_not_ended) hended)
  case messageStart =>
    exact .inl (operations_reflect rfl (fun h => absurd h newOperation_not_ended) hended)
  case messageStop c message key id payload o₀ asks idle connected entry stops =>
    rcases stops.ended hended with rfl | hold
    · refine .inr (.client entry ?_)
      rcases stops.frames with heq | heq <;> simp [heq]
    · exact .inl hold
  case forceStop o₀ queue idle next stops =>
    rcases stops.ended hended with rfl | hold
    · exact .inr (.itself (by simp [State.ending, State.forces, idle, next]))
    · exact .inl hold
  case stopNext top mem stops =>
    rcases stops.ended hended with rfl | hold
    · exact .inr (.connection top mem)
    · exact .inl hold
  case replyComplete o₀ onReply t completing socket answers =>
    have hending : o₀ ∈ s.ending (.worker o₀) := by
      simp [State.ending, completing, Worker.completes]
    exact completed hending rfl hended
  case httpComplete o₀ onReply completing http =>
    have hending : o₀ ∈ s.ending (.worker o₀) := by
      simp [State.ending, completing, Worker.completes]
    exact completed hending rfl hended
  case complete o₀ completed =>
    exact .inl (operations_reflect rfl (fun _ => .inr ((hw.valid o₀).completed completed)) hended)
  all_goals first
    | exact .inl hended
    | refine .inl (operations_reflect rfl ?_ hended)
      exact fun h => h

/-- No map of a WebSocket connection has an operation that has ended, unless the
main thread is about to erase it. -/
def NoneEnded (s : State) : Prop :=
  ∀ c id o, (s.connections c).http = false → (s.connections c).operations.lookup id = some o →
    (s.operations o).Ended → .erase c id ∈ s.frames

/-- As long as what ends by itself has left the map, no ended operation stays in it. -/
theorem NoneEnded.step (h : NoneEnded s) (hw : Wired s) (he : Entries s) (hok : LeftMap s l)
    (hs : Step env s l s') : NoneEnded s' := by
  intro c id o hsocket hlookup hended
  rcases hs.entry hlookup with hold | ⟨hnew, hbound, -⟩
  · obtain ⟨hc, hlive⟩ := he.connection hold
    obtain ⟨ho, rfl, rfl⟩ := he.entry c id o hold
    rw [hs.http hc] at hsocket
    rcases hs.ended hw hended with hended | hends
    · rcases hs.frame (h _ _ o hsocket hold hended) with hframe | hleaves
      · exact hframe
      · cases hleaves with
        | erase erased =>
            rw [erased, Function.update_self, AList.lookup_erase] at hlookup
            cases hlookup
    · cases hends with
      | itself ending => exact absurd hold (hok o ending hsocket)
      | client entry erases =>
          obtain ⟨-, rfl, rfl⟩ := he.entry _ _ o entry
          exact erases
      | connection top mem =>
          have hdone := (he.stopping _ (by rw [top]; exact .head _) o mem).2
          simp [hdone] at hlive
  · rcases hs.created (by rw [hbound]; exact Nat.lt_succ_self o) with hold | hcreates
    · exact absurd hold (hnew ▸ lt_irrefl _)
    · obtain ⟨-, -, id, c, permissions, sub, key, heq, -⟩ := hcreates
      rw [heq] at hended
      exact absurd hended newOperation_not_ended

/-- None is in the map in such a run. -/
theorem Reach.noneEnded (h : Runs.Reach (step env) LeftMap initial s) : NoneEnded s := by
  apply h.along (I := NoneEnded)
  · intro c id o _ hlookup
    cases hlookup
  · intro s l s' hreach hs hok hstep
    exact hs.step (Reach.wired hreach) (Reach.entries hreach) hok (step_cases hstep)

/-- The operation has left the map of its connection, or the main thread is about to
erase it. -/
def Leaving (s : State) (o : OperationId) : Prop :=
  o < s.operationBound ∧
    (Kept s o → .erase (s.operations o).connection (s.operations o).id ∈ s.frames)

/-- What has left the map does not come back. -/
theorem Leaving.step {o : OperationId} (h : Leaving s o) (hs : Step env s l s') :
    Leaving s' o := by
  obtain ⟨hid, hconnection, -⟩ := hs.fixed h.1
  refine ⟨h.1.trans_le hs.bounds.1, fun hkept => ?_⟩
  unfold Kept at hkept
  rw [hid, hconnection] at hkept ⊢
  rcases hs.entry hkept with hold | ⟨hnew, -⟩
  · rcases hs.frame (h.2 hold) with hframe | hleaves
    · exact hframe
    · cases hleaves with
      | erase erased =>
          rw [erased, Function.update_self, AList.lookup_erase] at hkept
          cases hkept
  · exact absurd h.1 (hnew ▸ lt_irrefl _)

/-- `onGraphQLStop` erases what it stops. -/
theorem Leaving.of_stop (he : Entries s) {c : ConnectionId} {id : String} {o : OperationId}
    (hentry : (s.connections c).operations.lookup id = some o) :
    Leaving (s.onGraphQLStop c id) o := by
  obtain ⟨ho, hc, hid⟩ := he.entry c id o hentry
  have hstops := (s.goto (.erase c id :: s.frames)).stops o
  have hstop : s.onGraphQLStop c id = (s.goto (.erase c id :: s.frames)).stop o := by
    simp [State.onGraphQLStop, hentry]
  rw [hstop]
  generalize (s.goto (.erase c id :: s.frames)).stop o = s' at hstops
  cases hstops <;> simp [Leaving, ho, hc, hid]

/-- **What leaves the map in time.**  What its client has stopped, and what has lost its
connection, is no longer in the map when it ends, once the main thread is done with the
`stop` message. -/
theorem leftMap_of_stopped {ok : State → Label → Prop}
    (h : Runs.Reach (step env) ok initial s) (hdone : ∀ c id, .erase c id ∉ s.frames)
    (hends : ∀ o ∈ s.ending l, (s.connections (s.operations o).connection).live = false ∨
      ∃ s₀ c id, Runs.Reach (step env) ok initial s₀ ∧
        (s₀.connections c).operations.lookup id = some o ∧
        Runs.Reach (step env) ok (s₀.onGraphQLStop c id) s) : LeftMap s l := by
  intro o ho _ hkept
  rcases hends o ho with hlost | ⟨s₀, c, id, hreach, hentry, hlater⟩
  · unfold Kept at hkept
    rw [(Reach.entries h).closed _ hlost] at hkept
    cases hkept
  · have hleaving : Leaving s o := hlater.invariant (I := fun s => Leaving s o)
      (.of_stop (Reach.entries hreach) hentry) fun _ _ _ hI _ hstep => hI.step (step_cases hstep)
    exact hdone _ _ (hleaving.2 hkept)

/-- **Ids can be used again.**  As long as what ends by itself has left the map of its
connection, the map of a WebSocket connection has no operation that has ended,
unless the main thread is about to erase it; and a `start` message with a valid
payload, whose id has no operation that is still live, starts a new one. -/
theorem start_accepted (h : Runs.Reach (step env) LeftMap initial s) :
    (∀ c id o, (s.connections c).http = false →
      (s.connections c).operations.lookup id = some o → (s.operations o).Ended →
        .erase c id ∈ s.frames) ∧
    ∀ c message parts key sub, s.aborted = false → s.frames = [] → Connected s c →
      toMessageParts message = .ok parts → parts.first = GQL_START → parts.second ≠ "" →
      make env parts.value = .ok sub →
      (∀ o, o < s.operationBound → (s.operations o).connection = c →
        (s.operations o).id = parts.second → (s.operations o).Ended) →
      ∃ s', step env s (.onWebSocketMessage c (some message) key) = some s' ∧
        (s'.connections c).operations.lookup parts.second = some s.operationBound ∧
        s'.operations s.operationBound =
          newOperation env parts.second c (s.connections c).permissions sub key := by
  have hnone := Reach.noneEnded h
  refine ⟨hnone, ?_⟩
  intro c message parts key sub hruns hidle hconnected hparts htype hid hmake hended
  have habsent : (s.connections c).operations.lookup parts.second = none := by
    by_contra hentry
    obtain ⟨o, hlookup⟩ := Option.ne_none_iff_exists'.mp hentry
    obtain ⟨ho, hc, hsame⟩ := (Reach.entries h).entry c parts.second o hlookup
    have hframe := hnone c parts.second o hconnected.socket hlookup (hended o ho hc hsame)
    rw [hidle] at hframe
    cases hframe
  have hstart : s.onWebSocketMessage env c message key =
      s.addConnectionOperation env c parts.second sub key := by
    unfold State.onWebSocketMessage
    rw [hparts]
    simp only
    rw [htype, State.onGraphQLMessage_start]
    unfold State.onGraphQLStart
    simp [hid, habsent, hmake]
  refine ⟨s.addConnectionOperation env c parts.second sub key, ?_, ?_, ?_⟩
  · simp [GraphQLServer.step, hruns, hidle, hconnected.known, hconnected.socket,
      hconnected.live, hstart]
  · simp [State.addConnectionOperation]
  · simp [State.addConnectionOperation]

/-- The first client stops its subscription; the main thread waits for the thread and
erases the entry. -/
def eraseFirst : List Label :=
  [.worker 0, .onWebSocketMessage 0 (some (stopMessage "1")) 0, .take 0, .worker 0, .main, .main]

set_option maxRecDepth 4000 in
/-- The id of the first subscription is used again after its `stop`. -/
theorem start_accepted_eraseFirst :
    ∃ s s', Runs.run (step vehicle) initial (connectSubscribe ++ eraseFirst) = some s ∧
      step vehicle s (.onWebSocketMessage 0 (some (startMessage "1" "query")) 0) = some s' ∧
      (s'.connections 0).operations.lookup "1" = some 1 := by
  have hrun : Runs.run (step vehicle) initial (connectSubscribe ++ eraseFirst) = some _ := rfl
  have hreach := Runs.reach_of_run hrun (by decide : Runs.RunMeets _ LeftMap _ _)
  have hended : ∀ o, o < 1 → o = 0 := fun o ho => Nat.lt_one_iff.mp ho
  obtain ⟨s', hstep, hlookup, -⟩ := (start_accepted hreach).2 0 (startMessage "1" "query")
    _ 0 false rfl rfl ⟨by decide, rfl, rfl⟩ rfl rfl (by decide) rfl (by
      intro o ho _ _
      obtain rfl := hended o ho
      exact .inl rfl)
  exact ⟨_, s', hrun, hstep, hlookup⟩

/-- The first client sends a query and gets its complete reply. -/
def completeQuery : List Label :=
  [.onWebSocketOpen, .onWebSocketMessage 0 (some (startMessage "1" "query")) 0, .take 0,
    .resolved 0 .null, .worker 0, .worker 0, .worker 0, .main, .main]

set_option maxRecDepth 4000 in
/-- The query has completed, and the next `start` message with its id is ignored. -/
theorem ignores_start :
    ∃ s s', Runs.run (step vehicle) initial completeQuery = some s ∧ s.frames = [] ∧
      (s.connections 0).operations.lookup "1" = some 0 ∧ (s.operations 0).Ended ∧
      step vehicle s (.onWebSocketMessage 0 (some (startMessage "1" "query")) 0) = some s' ∧
      s'.operationBound = s.operationBound ∧
      (s'.connections 0).operations.lookup "1" = some 0 :=
  ⟨_, _, rfl, rfl, rfl, .inl rfl, rfl, rfl, rfl⟩

end GraphQLServer
