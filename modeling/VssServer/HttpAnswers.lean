import VssServer.Freshness
import VssServer.HttpReplies

/-!
# Every HTTP request is answered

The handler of a request answers it at once, with an error, or starts an operation.  Until
this has replied it is due to do so, and whatever stops it before comes from the connection
that is answered already, or from a WebSocket message.  When the server has settled, no
operation is due any more: `http_answered`.

* `Answered`: every request has its response, or an operation that is due to reply.
* `Answered.step`: every step keeps this.
* `http_answered`: when the server has settled every request has been answered.
-/

namespace GraphQLServer

open Response Permissions

/-- A reply is still to come from where the thread is. -/
def Worker.due : Worker → Bool
  | .resolving _ | .replying _ _ | .subscribing | .notifying | .delivering _ _
  | .deliveryReplying _ _ => true
  | _ => false

/-- A reply was handed over in the task that the thread is in. -/
def Worker.replied : Worker → Bool
  | .completing _ | .completed | .delivered => true
  | _ => false

/-- The operation has yet to reply to its client. -/
def Operation.Due (x : Operation) : Prop :=
  .resolve ∈ x.tasks ∨ .subscribe ∈ x.tasks ∨ x.worker.due = true ∨
    x.subscribed = true ∧ x.dirty = true

/-- An operation that has just been created is due. -/
theorem newOperation_due {env : Environment} {id : String} {c : ConnectionId}
    {permissions : Option ClientPermissions} {sub : Bool} {key : SubscriptionKey} :
    (newOperation env id c permissions sub key).Due := by
  cases sub
  · exact .inl (.head _)
  · exact .inr (.inl (.head _))

section Operations

variable {env : Environment} {s s' : State} {l : Label} {o : OperationId}

/-- Where the thread of an operation has replied, it has just done so. -/
theorem Step.replies (hs : Step env s l s') (ho : o < s.operationBound)
    (hbefore : (s.operations o).worker.replied = false)
    (hafter : (s'.operations o).worker.replied = true) :
    ∃ t w, Answers s (s.operations o).connection t ∧
      s' = (s.modify o fun x => { x with worker := w }).defer t := by
  have hthread : l.ofThread o = true := by
    refine hs.ofThread ho fun hsame => ?_
    rw [hsame, hbefore] at hafter
    cases hafter
  cases l <;> simp only [Label.ofThread, Bool.false_eq_true, decide_eq_true_eq] at hthread <;>
    subst hthread
  case worker =>
    cases hs
    case replyData answers => exact ⟨_, _, answers, rfl⟩
    case replyDelivery answers => exact ⟨_, _, answers, rfl⟩
    all_goals simp_all [Worker.replied]
  case subscribe =>
    cases hs
    case subscribeFailed next copies subscribing =>
      rcases next with rfl | ⟨_, _, rfl⟩ <;> simp [Worker.replied] at hafter
    all_goals simp_all [Worker.replied]
  all_goals cases hs <;> simp_all [Worker.replied]

/-- An operation that is due stays so until it has replied. -/
theorem OperationStep.due {e : Effects} {x x' : Operation} (hs : OperationStep e x x')
    (hvalid : x.Valid) (hnotifying : x.worker = .notifying → x.subscribed = true)
    (hrunning : x'.stopped = false) (hfails : x.worker = .subscribing → x'.worker ≠ .idle)
    (h : x.Due) :
    x'.Due ∨ x'.worker.replied = true := by
  cases hs
  case takeStopped stopped _ _ => simp [stopped] at hrunning
  case resolvedStopped stopped => simp [stopped] at hrunning
  case subscribeFailed w hcopies subscribing next =>
    rcases next with rfl | ⟨_, _, rfl⟩
    · exact absurd rfl (hfails subscribing)
    · exact .inl (.inr (.inr (.inl rfl)))
  case takeResolve => exact .inl (.inr (.inr (.inl rfl)))
  case takeSubscribe => exact .inl (.inr (.inr (.inl rfl)))
  case takeDelivery => exact .inl (.inr (.inr (.inl rfl)))
  case takeUnsubscribe tasks idle next =>
    have hstopped := hvalid.unsubscribe (.inl (by simp [next]))
    simp only at hrunning
    simp [hstopped] at hrunning
  case unsubscribe unsubscribing =>
    have hstopped := hvalid.unsubscribe (.inr unsubscribing)
    simp only at hrunning
    simp [hstopped] at hrunning
  case notifyInitial notifying =>
    exact .inl (.inr (.inr (.inr ⟨hnotifying notifying, rfl⟩)))
  case signal =>
    exact .inl (h.imp_right (Or.imp_right (Or.imp_right fun hdirty => ⟨hdirty.1, rfl⟩)))
  all_goals simp_all [Operation.Due, Worker.due, Worker.replied, Operation.schedule]

/-- The initial notification is one of a subscribed operation. -/
theorem OperationStep.notifying {e : Effects} {x x' : Operation} (hs : OperationStep e x x')
    (h : x.worker = .notifying → x.subscribed = true) :
    x'.worker = .notifying → x'.subscribed = true := by
  cases hs
  case subscribeFailed next =>
    intro hw
    rcases next with rfl | ⟨_, _, rfl⟩ <;> cases hw
  all_goals simp_all [Operation.schedule]

/-- Who notifies its first delivery has subscribed. -/
theorem Reach.notifying {ok : State → Label → Prop} (h : Runs.Reach (step env) ok initial s)
    (o : OperationId) (hw : (s.operations o).worker = .notifying) :
    (s.operations o).subscribed = true := by
  have hall : ∀ o, (s.operations o).worker = .notifying → (s.operations o).subscribed = true := by
    apply h.invariant (I := fun s => ∀ o, (s.operations o).worker = .notifying →
      (s.operations o).subscribed = true)
    · intro o hnone
      cases hnone
    · intro s l s' hs _ hstep
      apply (step_cases hstep).forall_operations (P := fun x =>
        x.worker = .notifying → x.subscribed = true) _ _ hs
      · intro id c permissions sub key hnone
        cases hnone
      · intro o x' hx
        exact hx.notifying
  exact hall o hw

/-- A subscription that could not subscribe goes on with the document of its errors, unless it
is stopped. -/
theorem step_subscribing (hstep : step env s l = some s') (ho : o < s.operationBound)
    (hsubscribing : (s.operations o).worker = .subscribing)
    (hrunning : (s'.operations o).stopped = false) : (s'.operations o).worker ≠ .idle := by
  intro hidle
  have hs := step_cases hstep
  have hthread := hs.ofThread ho (by rw [hsubscribing, hidle]; exact nofun)
  cases l <;> simp only [Label.ofThread, Bool.false_eq_true, decide_eq_true_eq] at hthread <;>
    subst hthread
  case subscribe o result =>
    obtain ⟨-, hstep⟩ := Option.ite_none_left_eq_some.mp hstep
    have hrunning' := hs.running ho hrunning
    cases result <;> simp only [GraphQLServer.subscribe, hsubscribing] at hstep
    · cases hstep
      simp [hrunning'] at hidle
    · obtain ⟨-, hstep⟩ := Option.ite_none_right_eq_some.mp hstep
      cases hstep
      simp at hidle
  all_goals cases hs <;> simp_all [Worker.resolves]

/-- What stops an operation: it completes, it is forced to, its connection is done, or its
client stops it with a WebSocket message. -/
inductive StoppedBy (s : State) (o : OperationId) : Prop
  | completed (worker : (s.operations o).worker = .completed)
  | forced (queued : .stop o ∈ s.queue)
  | connection {remaining} (frame : .stopOperations remaining ∈ s.frames) (mem : o ∈ remaining)
  | client {c id} (socket : (s.connections c).http = false)
      (entry : (s.connections c).operations.lookup id = some o)

/-- `stop` stops the operation it is called for. -/
theorem Stops.other {o₀ : OperationId} (h : Stops s o₀ s') (hrunning : (s.operations o).stopped = false)
    (hstopped : (s'.operations o).stopped = true) : o = o₀ := by
  by_contra ho
  cases h <;> simp [ho, hrunning] at hstopped

/-- What a step stops: a query that completes, or what the main thread stops. -/
theorem Step.stoppedBy (hs : Step env s l s')
    (hrunning : (s.operations o).stopped = false)
    (hstopped : (s'.operations o).stopped = true) : StoppedBy s o := by
  have hreflect : ∀ {o₀ x'}, s'.operations = Function.update s.operations o₀ x' →
      (x'.stopped = true → (s.operations o₀).stopped = true) → StoppedBy s o := by
    intro o₀ x' hchange hx'
    have hold := operations_reflect (P := fun x => x.stopped = true) hchange hx' hstopped
    simp [hrunning] at hold
  have hsame : s'.operations = s.operations → StoppedBy s o := by
    intro heq
    rw [heq, hrunning] at hstopped
    cases hstopped
  cases hs
  case messageStop c message key id payload o₀ asks idle connected entry stops =>
    obtain rfl := stops.other hrunning hstopped
    exact .client connected.socket entry
  case forceStop o₀ queue idle next stops =>
    obtain rfl := stops.other hrunning hstopped
    exact .forced (by simp [next])
  case stopNext o₀ remaining frames top mem stops =>
    obtain rfl := stops.other hrunning hstopped
    exact .connection (by rw [top]; exact .head _) mem
  case complete o₀ completed =>
    by_cases heq : o = o₀
    · exact .completed (heq ▸ completed)
    · simp [heq, hrunning] at hstopped
  case httpStarted => exact hreflect rfl nofun
  case messageStart => exact hreflect rfl nofun
  all_goals first
    | exact hsame rfl
    | refine hreflect rfl ?_
      exact fun h => h

end Operations

section Connections

variable {env : Environment} {s s' : State} {l : Label} {c : ConnectionId}

/-- An HTTP connection is closed when its response is sent, and only then. -/
theorem Step.sent (hs : Step env s l s') (hc : c < s.connectionBound) :
    ((s'.connections c).sent = (s.connections c).sent ∧
        ((s.connections c).http = true → (s'.connections c).live = (s.connections c).live)) ∨
      (s'.connections c).sent = (s.connections c).sent + 1 ∧ (s'.connections c).live = false := by
  have hchanged : ∀ {c₀ x'}, s'.connections = Function.update s.connections c₀ x' →
      (s.connectionBound ≤ c₀ ∨ x'.sent = (s.connections c₀).sent ∧
        ((s.connections c₀).http = true → x'.live = (s.connections c₀).live)) →
      (s'.connections c).sent = (s.connections c).sent ∧
        ((s.connections c).http = true → (s'.connections c).live = (s.connections c).live) := by
    intro c₀ x' hchange hx'
    rw [hchange]
    by_cases heq : c = c₀
    · subst heq
      rw [Function.update_self]
      exact hx'.resolve_left hc.not_ge
    · rw [Function.update_of_ne heq]
      exact ⟨rfl, fun _ => rfl⟩
  cases hs
  case opened => exact .inl (hchanged rfl (.inl le_rfl))
  case httpMalformed => exact .inl (hchanged rfl (.inl le_rfl))
  case httpUnauthorized => exact .inl (hchanged rfl (.inl le_rfl))
  case httpFailed => exact .inl (hchanged (Function.update_idem _ _ _) (.inl le_rfl))
  case httpStarted =>
    exact .inl (hchanged ((Function.update_idem _ _ _).trans (Function.update_idem _ _ _))
      (.inl le_rfl))
  case messageUnanswered => exact .inl (hchanged rfl (.inr ⟨rfl, fun _ => rfl⟩))
  case messageAuthorized => exact .inl (hchanged rfl (.inr ⟨rfl, fun _ => rfl⟩))
  case messageStart => exact .inl (hchanged rfl (.inr ⟨rfl, fun _ => rfl⟩))
  case messageStop stops | forceStop stops | stopNext stops =>
    rw [stops.connections]
    exact .inl ⟨rfl, fun _ => rfl⟩
  case closed idle connected =>
    refine .inl (hchanged rfl (.inr ⟨rfl, fun hhttp => ?_⟩))
    rw [connected.socket] at hhttp
    cases hhttp
  case tearDown => exact .inl (hchanged rfl (.inr ⟨rfl, fun _ => rfl⟩))
  case erase => exact .inl (hchanged rfl (.inr ⟨rfl, fun _ => rfl⟩))
  case sendHttp c₀ code body queue idle next =>
    by_cases heq : c = c₀
    · subst heq
      exact .inr (by simp [State.onConnectionDone])
    · exact .inl (by simp [State.onConnectionDone, heq])
  all_goals exact .inl ⟨rfl, fun _ => rfl⟩

/-- The operations that are to be stopped were so before, or have just replied. -/
theorem Step.forces (hs : Step env s l s') {o : OperationId} (h : .stop o ∈ s'.queue) :
    .stop o ∈ s.queue ∨ (s.operations o).worker = .delivered := by
  have hposted : ∀ {t}, s'.queue = s.queue ++ [t] → t ≠ .stop o → .stop o ∈ s.queue := by
    intro t hqueue ht
    rw [hqueue] at h
    exact (List.mem_append.mp h).resolve_right fun hmem => ht (List.mem_singleton.mp hmem).symm
  have hanswers : ∀ {c t}, Answers s c t → t ≠ .stop o := by
    intro c t answers
    unfold Answers at answers
    split at answers
    · obtain ⟨code, body, rfl⟩ := answers
      exact nofun
    · obtain ⟨body, rfl⟩ := answers
      exact nofun
  have htaken : ∀ {t queue}, s.queue = t :: queue → s'.queue = queue → .stop o ∈ s.queue := by
    intro t queue next hqueue
    rw [next, ← hqueue]
    exact .tail _ h
  cases hs
  case messageAnswered answers | messageAuthorized answers | replyData answers
    | replyComplete answers | replyDelivery answers => exact .inl (hposted rfl (hanswers answers))
  case httpUnauthorized | httpFailed | messageTerminate | expireNotify | expireDelivery
    | notifyInitial | slot => exact .inl (hposted rfl nofun)
  case deliveryFailed o₀ delivered failed =>
    rcases List.mem_append.mp h with hold | hnew
    · exact .inl hold
    · cases List.mem_singleton.mp hnew
      exact .inr delivered
  case messageStop stops | stopNext stops => exact .inl (stops.queue ▸ h)
  case forceStop idle next stops => exact .inl (htaken next stops.queue)
  case dispatchStopped idle next stopped | dispatch idle next running =>
    exact .inl (htaken next rfl)
  case runNotify next | runDeliver next | sendHttp next | sendWebSocket next | terminate next =>
    exact .inl (htaken next rfl)
  all_goals exact .inl h

/-- `tearDown` is left when it has emptied the handlers. -/
theorem Step.leavesTearDown (hs : Step env s l s') (h : .tearDown c ∈ s.frames) :
    .tearDown c ∈ s'.frames ∨ (s'.connections c).handlers = false := by
  have htop : ∀ {f frames}, s.frames = f :: frames → f ≠ .tearDown c →
      (∀ g ∈ frames, g ∈ s'.frames) → .tearDown c ∈ s'.frames := by
    intro f frames top hne hrest
    rw [top] at h
    exact hrest _ ((List.mem_cons.mp h).resolve_left hne.symm)
  have hnone : s.frames = [] → False := by
    intro idle
    rw [idle] at h
    cases h
  cases hs
  case tearDown c₀ frames top =>
    by_cases heq : c₀ = c
    · subst heq
      exact .inr (by simp)
    · refine .inl (htop top ?_ fun g hg => hg)
      rintro ⟨⟩
      exact heq rfl
  case messageStop idle _ _ stops => exact (hnone idle).elim
  case forceStop idle next stops => exact (hnone idle).elim
  case closed idle _ => exact (hnone idle).elim
  case sendHttp idle next => exact (hnone idle).elim
  case runDeliver idle next => exact (hnone idle).elim
  case joined top _ _ | allStopped top | erase top | namesDone top | callbacksDone top =>
    exact .inl (htop top nofun fun g hg => hg)
  case stopNext o remaining frames top mem stops =>
    refine .inl (htop top nofun fun g hg => ?_)
    rcases stops.frames with heq | heq <;> rw [heq]
    · exact .tail _ hg
    · exact .tail _ (.tail _ hg)
  case deliverName top mem => exact .inl (htop top nofun fun g hg => .tail _ (.tail _ hg))
  case callbackIgnored top mem _ => exact .inl (htop top nofun fun g hg => .tail _ hg)
  case callback top mem _ _ => exact .inl (htop top nofun fun g hg => .tail _ hg)
  all_goals exact .inl h

/-- What is emptied stays so. -/
theorem Step.stays_torn (hs : Step env s l s') (hc : c < s.connectionBound)
    (h : (s.connections c).handlers = false) : (s'.connections c).handlers = false := by
  rcases hs.connection hc with heq | hchange
  · rw [heq, h]
  · generalize s'.connections c = x' at hchange
    cases hchange <;> first | exact h | rfl

/-- A connection that is closed by this step is torn down next. -/
theorem Step.closes (hs : Step env s l s') (hc : c < s.connectionBound)
    (hlive : (s.connections c).live = true) (hdone : (s'.connections c).live = false) :
    .tearDown c ∈ s'.frames := by
  cases hs.touches c with
  | leaves eq | permits _ eq | inserts _ _ _ _ eq | erases _ eq | tearsDown _ _ eq =>
      simp [eq, hlive] at hdone
  | opens _ new _ _ | rejects new _ _ | starts new _ _ _ => exact absurd new hc.ne
  | ends frames _ => simp [frames]

/-- A connection is known, or it has just been created; unless the process has ended, a
request is then answered, or has an operation. -/
theorem Step.connects (hs : Step env s l s') (hc : c < s'.connectionBound) :
    c < s.connectionBound ∨
      (s'.connections c).live = true ∧ (s'.connections c).sent = 0 ∧
        (s'.aborted = false → (s'.connections c).http = true →
          1 ≤ s'.responses c ∨ ∃ o, Creates env s s' o ∧ (s'.operations o).connection = c) := by
  by_cases hknown : c < s.connectionBound
  · exact .inl hknown
  right
  have hlast : s'.connectionBound = s.connectionBound + 1 → c = s.connectionBound := by
    intro hbound
    rw [hbound] at hc
    exact le_antisymm (Nat.lt_succ_iff.mp hc) (not_lt.mp hknown)
  have hcount : ∀ {s₁ : State} {code body},
      1 ≤ (s₁.defer (.sendHttp c code body)).responses c := by
    intro s₁ code body
    simp only [State.responses, State.defer_queue, List.countP_append, List.countP_singleton,
      Task.sends, decide_true, if_true]
    omega
  cases hs
  case opened =>
    obtain rfl := hlast rfl
    simp
  case httpMalformed =>
    obtain rfl := hlast rfl
    refine ⟨by simp, by simp, fun hruns => ?_⟩
    cases hruns
  case httpUnauthorized =>
    obtain rfl := hlast rfl
    exact ⟨by simp, by simp, fun _ _ => .inl hcount⟩
  case httpFailed =>
    obtain rfl := hlast rfl
    exact ⟨by simp, by simp, fun _ _ => .inl hcount⟩
  case httpStarted =>
    obtain rfl := hlast rfl
    refine ⟨by simp [State.addConnectionOperation], by simp [State.addConnectionOperation],
      fun _ _ => .inr ⟨s.operationBound, ?_, ?_⟩⟩
    · exact ⟨rfl, rfl, _, _, _, _, _, Function.update_self .., .inl ⟨rfl, rfl⟩⟩
    · simp [State.addConnectionOperation, newOperation]
  case messageStop stops | forceStop stops | stopNext stops =>
    rw [stops.bounds.2] at hc
    exact absurd hc hknown
  all_goals exact absurd hc hknown

end Connections

variable {env : Environment} {s s' : State} {l : Label}

/-- An HTTP connection has a response, sent or posted, or an operation that is due, unless the
process has ended; it is closed only when the response is sent, and then torn down. -/
structure Answered (s : State) : Prop where
  fresh : ∀ c, s.connectionBound ≤ c → s.responses c = 0
  pending : s.aborted = false → ∀ c, c < s.connectionBound → (s.connections c).http = true →
    1 ≤ s.responses c ∨ ∃ o, o < s.operationBound ∧ (s.operations o).connection = c ∧
      (s.operations o).stopped = false ∧ (s.operations o).Due
  closed : ∀ c, c < s.connectionBound → (s.connections c).http = true →
    (s.connections c).live = false → 1 ≤ s.responses c
  replied : ∀ o, o < s.operationBound → (s.connections (s.operations o).connection).http = true →
    (s.operations o).worker.replied = true → 1 ≤ s.responses (s.operations o).connection
  forced : ∀ o, .stop o ∈ s.queue → o < s.operationBound ∧
    ((s.connections (s.operations o).connection).http = true →
      1 ≤ s.responses (s.operations o).connection)
  done : ∀ c, c < s.connectionBound → (s.connections c).http = true →
    1 ≤ (s.connections c).sent → (s.connections c).live = false
  torn : ∀ c, c < s.connectionBound → (s.connections c).live = false →
    (s.connections c).handlers = false ∨ .tearDown c ∈ s.frames

/-- Responses that have been sent are responses. -/
theorem State.sent_le_responses (s : State) (c : ConnectionId) :
    (s.connections c).sent ≤ s.responses c :=
  Nat.le_add_right _ _

/-- No response is taken back. -/
theorem Step.responses_le (hs : Step env s l s') (hw : Wired s)
    (hfresh : s.responses s.connectionBound = 0) (c : ConnectionId) :
    s.responses c ≤ s'.responses c := by
  cases hs.adds hw hfresh c with
  | nothing same => exact same.ge
  | error one _ _ => exact one ▸ Nat.le_succ _
  | reply one _ _ _ _ => exact one ▸ Nat.le_succ _

namespace Answered

/-- A connection that does not exist yet has no response. -/
theorem step_fresh (h : Answered s) (hw : Wired s) (hh : Handled s) (he : Entries s)
    (hs : Step env s l s') : ∀ c, s'.connectionBound ≤ c → s'.responses c = 0 := by
  intro c hc
  have hold := h.fresh c (hs.bounds.2.trans hc)
  cases hs.adds hw (h.fresh _ le_rfl) c with
  | nothing same => exact same.trans hold
  | error one new unstarted => exact absurd new.2 (not_lt.mpr hc)
  | @reply o one owner http owed paid =>
      have hbusy : (s.operations o).tasks ≠ [] ∨ (s.operations o).worker ≠ .idle := by
        rcases owed with hmem | hworker
        · exact .inl (List.ne_nil_of_mem hmem)
        · exact .inr fun hidle => by simp [hidle, Worker.owes] at hworker
      have hknown := he.known o ((vacant hh he).known hbusy)
      rw [owner] at hknown
      exact absurd (hs.bounds.2.trans hc) (not_le.mpr hknown)

/-- The response of an operation that is stopped has been given before. -/
theorem stopped (h : Answered s) (he : Entries s) {o : OperationId} (ho : o < s.operationBound)
    (hhttp : (s.connections (s.operations o).connection).http = true) (hby : StoppedBy s o) :
    1 ≤ s.responses (s.operations o).connection := by
  cases hby with
  | completed worker => exact h.replied o ho hhttp (by rw [worker]; rfl)
  | forced queued => exact (h.forced o queued).2 hhttp
  | connection frame mem =>
      exact h.closed _ (he.known o ho) hhttp (he.stopping _ frame o mem).2
  | client socket entry =>
      obtain ⟨-, rfl, -⟩ := he.entry _ _ o entry
      rw [socket] at hhttp
      cases hhttp

/-- Where an operation has just replied, its response is posted. -/
theorem replies (hs : Step env s l s') {o : OperationId} (ho : o < s.operationBound)
    (hhttp : (s.connections (s.operations o).connection).http = true)
    (hbefore : (s.operations o).worker.replied = false)
    (hafter : (s'.operations o).worker.replied = true) :
    1 ≤ s'.responses (s.operations o).connection := by
  obtain ⟨t, w, answers, rfl⟩ := hs.replies ho hbefore hafter
  have hsends : t.sends (s.operations o).connection = true :=
    (answers.sends _).mpr ⟨hhttp, rfl⟩
  have hposted :
      ((s.modify o fun x => { x with worker := w }).defer t).responses
          (s.operations o).connection =
        s.responses (s.operations o).connection +
          if t.sends (s.operations o).connection then 1 else 0 := by
    apply responses_posted <;> rfl
  rw [hposted, if_pos hsends]
  exact Nat.le_add_left 1 _

/-- A thread that has replied has posted the response. -/
theorem step_replied (h : Answered s) (hw : Wired s) (he : Entries s) (hs : Step env s l s') :
    ∀ o, o < s'.operationBound → (s'.connections (s'.operations o).connection).http = true →
      (s'.operations o).worker.replied = true → 1 ≤ s'.responses (s'.operations o).connection := by
  intro o ho hhttp hreplied
  rcases hs.created ho with hold | ⟨-, -, id, c, permissions, sub, key, heq, -⟩
  · rw [(hs.fixed hold).2.1] at hhttp ⊢
    rw [hs.http (he.known o hold)] at hhttp
    by_cases hbefore : (s.operations o).worker.replied = true
    · exact (h.replied o hold hhttp hbefore).trans (hs.responses_le hw (h.fresh _ le_rfl) _)
    · exact replies hs hold hhttp (by simpa using hbefore) hreplied
  · rw [heq] at hreplied
    cases hreplied

/-- A forced stop comes after the reply of its delivery. -/
theorem step_forced (h : Answered s) (hw : Wired s) (he : Entries s) (hh : Handled s)
    (hs : Step env s l s') :
    ∀ o, .stop o ∈ s'.queue → o < s'.operationBound ∧
      ((s'.connections (s'.operations o).connection).http = true →
        1 ≤ s'.responses (s'.operations o).connection) := by
  intro o hqueued
  have hle := hs.responses_le hw (h.fresh _ le_rfl)
  have hold : o < s.operationBound ∧
      ((s.connections (s.operations o).connection).http = true →
        1 ≤ s.responses (s.operations o).connection) := by
    rcases hs.forces hqueued with hbefore | hdelivered
    · exact h.forced o hbefore
    · have ho := (vacant hh he).known (.inr (by rw [hdelivered]; exact nofun))
      exact ⟨ho, fun hhttp => h.replied o ho hhttp (by rw [hdelivered]; rfl)⟩
  refine ⟨hold.1.trans_le hs.bounds.1, fun hhttp => ?_⟩
  rw [(hs.fixed hold.1).2.1] at hhttp ⊢
  rw [hs.http (he.known o hold.1)] at hhttp
  exact (hold.2 hhttp).trans (hle _)

/-- A connection is done only after a response. -/
theorem step_closed (h : Answered s) (hw : Wired s) (hs : Step env s l s') :
    ∀ c, c < s'.connectionBound → (s'.connections c).http = true →
      (s'.connections c).live = false → 1 ≤ s'.responses c := by
  intro c hc hhttp hdone
  rcases hs.connects hc with hold | ⟨hlive, -⟩
  · rw [hs.http hold] at hhttp
    rcases hs.sent hold with ⟨-, hlive⟩ | ⟨hsent, -⟩
    · rw [hlive hhttp] at hdone
      exact (h.closed c hold hhttp hdone).trans (hs.responses_le hw (h.fresh _ le_rfl) c)
    · have hle := s'.sent_le_responses c
      omega
  · simp [hdone] at hlive

/-- Once the response is sent, the connection is done. -/
theorem step_done (h : Answered s) (hs : Step env s l s') :
    ∀ c, c < s'.connectionBound → (s'.connections c).http = true →
      1 ≤ (s'.connections c).sent → (s'.connections c).live = false := by
  intro c hc hhttp hsent
  rcases hs.connects hc with hold | ⟨-, hnone, -⟩
  · rw [hs.http hold] at hhttp
    rcases hs.sent hold with ⟨hsame, hlive⟩ | ⟨-, hdone⟩
    · rw [hlive hhttp]
      exact h.done c hold hhttp (hsame ▸ hsent)
    · exact hdone
  · omega

/-- A connection that is done is torn down, or about to be. -/
theorem step_torn (h : Answered s) (hs : Step env s l s') :
    ∀ c, c < s'.connectionBound → (s'.connections c).live = false →
      (s'.connections c).handlers = false ∨ .tearDown c ∈ s'.frames := by
  intro c hc hdone
  rcases hs.connects hc with hold | ⟨hlive, -⟩
  · by_cases hlive : (s.connections c).live = true
    · exact .inr (hs.closes hold hlive hdone)
    · rcases h.torn c hold (by simpa using hlive) with hnone | hframe
      · exact .inl (hs.stays_torn hold hnone)
      · exact (hs.leavesTearDown hframe).symm
  · simp [hdone] at hlive

/-- A request without response has an operation that runs and is due to reply. -/
theorem step_pending (h : Answered s) (hw : Wired s) (he : Entries s)
    (hnotifying : ∀ o, (s.operations o).worker = .notifying → (s.operations o).subscribed = true)
    (hstep : step env s l = some s') :
    s'.aborted = false → ∀ c, c < s'.connectionBound → (s'.connections c).http = true →
      1 ≤ s'.responses c ∨ ∃ o, o < s'.operationBound ∧ (s'.operations o).connection = c ∧
        (s'.operations o).stopped = false ∧ (s'.operations o).Due := by
  intro halive c hc hhttp
  have hs := step_cases hstep
  obtain ⟨hbefore, -⟩ := Option.ite_none_left_eq_some.mp hstep
  have hle := hs.responses_le hw (h.fresh _ le_rfl)
  rcases hs.connects hc with hold | ⟨-, -, hnew⟩
  · rw [hs.http hold] at hhttp
    rcases h.pending (by simpa using hbefore) c hold hhttp with hresponse | ⟨o, ho, rfl, hrunning, hdue⟩
    · exact .inl (hresponse.trans (hle c))
    by_cases hstopped : (s'.operations o).stopped = true
    · exact .inl ((h.stopped he ho hhttp (hs.stoppedBy hrunning hstopped)).trans (hle _))
    have hruns : (s'.operations o).stopped = false := by simpa using hstopped
    have hdue' : (s'.operations o).Due ∨ (s'.operations o).worker.replied = true := by
      rcases hs.operation o with heq | hchange | ⟨rfl, -⟩
      · exact .inl (heq ▸ hdue)
      · exact hchange.due (hw.valid o) (hnotifying o) hruns
          (fun hsubscribing => step_subscribing hstep ho hsubscribing hruns) hdue
      · exact absurd ho (lt_irrefl _)
    rcases hdue' with hdue' | hreplied
    · exact .inr ⟨o, ho.trans_le hs.bounds.1, (hs.fixed ho).2.1, hruns, hdue'⟩
    · by_cases hbefore : (s.operations o).worker.replied = true
      · exact .inl ((h.replied o ho hhttp hbefore).trans (hle _))
      · exact .inl (replies hs ho hhttp (by simpa using hbefore) hreplied)
  · refine (hnew halive hhttp).imp_right ?_
    rintro ⟨o, ⟨ho, hbound, id, c₀, permissions, sub, key, heq, -⟩, hconnection⟩
    refine ⟨o, by rw [ho, hbound]; exact Nat.lt_succ_self _, hconnection, ?_, ?_⟩
    · rw [heq]
      rfl
    · rw [heq]
      exact newOperation_due

/-- Every step keeps the requests answered, or about to be. -/
theorem step (h : Answered s) (hw : Wired s) (he : Entries s) (hh : Handled s)
    (hnotifying : ∀ o, (s.operations o).worker = .notifying → (s.operations o).subscribed = true)
    (hstep : GraphQLServer.step env s l = some s') : Answered s' where
  fresh := h.step_fresh hw hh he (step_cases hstep)
  pending := h.step_pending hw he hnotifying hstep
  closed := h.step_closed hw (step_cases hstep)
  replied := h.step_replied hw he (step_cases hstep)
  forced := h.step_forced hw he hh (step_cases hstep)
  done := h.step_done (step_cases hstep)
  torn := h.step_torn (step_cases hstep)

end Answered

/-- They are so in every run. -/
theorem Reach.answered {ok : State → Label → Prop} (h : Runs.Reach (step env) ok initial s) :
    Answered s := by
  apply h.along (I := Answered)
  · refine ⟨fun _ _ => rfl, ?_, ?_, ?_, ?_, ?_, ?_⟩
    · exact fun _ => nofun
    · exact nofun
    · exact nofun
    · exact nofun
    · exact nofun
    · exact nofun
  · intro s l s' hreach hs _ hstep
    exact hs.step (Reach.wired hreach) (Reach.entries hreach) (Reach.handled hreach)
      (Reach.notifying hreach) hstep

/-- When the server has settled, no running operation is due any more. -/
theorem Settled.not_due (hsettled : Settled s) {o : OperationId} (hflight : InFlight s o)
    (hrunning : (s.operations o).stopped = false) : ¬(s.operations o).Due := by
  rintro (hmem | hmem | hworker | ⟨hsub, hdirty⟩)
  · rw [hsettled.tasks o] at hmem
    cases hmem
  · rw [hsettled.tasks o] at hmem
    cases hmem
  · rw [hsettled.worker o] at hworker
    cases hworker
  · rw [hsettled.clean hflight hsub hrunning] at hdirty
    cases hdirty

/-- **Every request is answered.**  As long as no operation unsubscribes under the key of
another one and the process goes on (the body of a request that is no JSON ends it), when
the server has settled, every HTTP request has been sent a response, its connection is
closed and torn down, and its operations are stopped. -/
theorem http_answered (h : Runs.Reach (step env) OwnKey initial s) (halive : s.aborted = false)
    (hsettled : Settled s) {c : ConnectionId} (hc : c < s.connectionBound)
    (hhttp : (s.connections c).http = true) :
    1 ≤ (s.connections c).sent ∧ (s.connections c).live = false ∧
      (s.connections c).handlers = false ∧
      ∀ o, o < s.operationBound → (s.operations o).connection = c →
        (s.operations o).stopped = true := by
  have ha := Reach.answered h
  have hsent : 1 ≤ (s.connections c).sent := by
    have hresponses : 1 ≤ s.responses c := by
      refine (ha.pending halive c hc hhttp).resolve_right ?_
      rintro ⟨o, -, -, hrunning, hdue⟩
      exact hsettled.not_due (Reach.inFlight h o) hrunning hdue
    simpa [State.responses, hsettled.queue] using hresponses
  have hlive := ha.done c hc hhttp hsent
  have hhandlers : (s.connections c).handlers = false := by
    refine (ha.torn c hc hlive).resolve_right fun hframe => ?_
    rw [hsettled.frames] at hframe
    cases hframe
  refine ⟨hsent, hlive, hhandlers, fun o ho howner => ?_⟩
  by_contra hrunning
  have hopen := (Reach.handled h).running o ho (by simpa using hrunning)
  rw [howner, hhandlers] at hopen
  cases hopen

set_option maxRecDepth 4000 in
/-- The query is answered and its connection is gone. -/
theorem http_answered_httpQuery :
    ∃ s, Runs.run (step vehicle) initial (httpQuery ++ [.stopNext 0, .main, .main]) = some s ∧
      1 ≤ (s.connections 0).sent ∧ (s.connections 0).live = false ∧
      (s.connections 0).handlers = false ∧
      ∀ o, o < s.operationBound → (s.operations o).connection = 0 →
        (s.operations o).stopped = true := by
  have hends : (Runs.run (step vehicle) initial
      (httpQuery ++ [.stopNext 0, .main, .main])).map (fun s =>
        ((s.frames, s.queue, s.slots, s.notifyTimer, s.pendingNotifyTriggers, s.operationBound),
          ((s.operations 0).tasks, (s.operations 0).worker, (s.operations 0).stopped),
          s.connectionBound, (s.connections 0).http, s.aborted)) =
      some (([], [], [], .unset, ∅, 1), ([], .idle, true), 1, true, false) :=
    rfl
  obtain ⟨s, hrun, hend⟩ := Option.map_eq_some_iff.mp hends
  have hreach := Runs.reach_of_run hrun (by decide : Runs.RunMeets _ OwnKey _ _)
  simp only [Prod.mk.injEq] at hend
  obtain ⟨⟨hframes, hqueue, hslots, hnotify, hpending, hbound⟩, ⟨htasks, hworker, hstopped⟩,
    hconnections, hhttp, halive⟩ := hend
  have hsettled : Settled s := by
    refine Reach.settled hreach ⟨hframes, hqueue, hslots, hnotify, hpending⟩ fun o ho => ?_
    obtain rfl : o = 0 := by rw [hbound] at ho; exact Nat.lt_one_iff.mp ho
    exact ⟨htasks, hworker, by simp [hstopped]⟩
  exact ⟨s, hrun, http_answered hreach halive hsettled (by simp [hconnections]) hhttp⟩

end GraphQLServer
