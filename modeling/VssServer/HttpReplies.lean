import VssServer.Entries

/-!
# One response for one HTTP request

Every reply to an HTTP request but `complete` posts a task that sends it as the
response, and closes the connection; only this task, when it runs, stops the
operation.  A query or mutation replies once.  A subscription delivers again when
something it observes has changed meanwhile, and if this delivery passes its last
check of `m_stopped` after the first reply is posted and before the operation is
stopped, a second response is sent.

* `Step.adds`: what a step adds to the responses of a connection.
* `Answering`: who may still answer.
* `Reach.firstResponse`: one delivery of each request meets the side condition.
* `one_response`: at most one response is sent.
* `sends_two_responses`: without the condition there may be two.
-/

namespace GraphQLServer

open Response Permissions

/-- The task that sends a response to the connection `c`. -/
def Task.sends (c : ConnectionId) : Task → Bool
  | .sendHttp c' _ _ => c' = c
  | _ => false

/-- The responses to the connection `c`, those sent and those posted. -/
def State.responses (s : State) (c : ConnectionId) : Nat :=
  (s.connections c).sent + s.queue.countP (Task.sends c)

/-- The side condition on a step: when a delivery of an HTTP request passes its last
check, no response to the request is sent or posted. -/
def FirstResponse (s : State) (l : Label) : Prop :=
  ∀ o response, l = .resolved o response → (s.operations o).isSubscription = true →
    (s.operations o).stopped = false →
      (s.connections (s.operations o).connection).http = true →
        s.responses (s.operations o).connection = 0

/-- The operation a resolution of which is done. -/
def Label.resolved? : Label → Option OperationId
  | .resolved o _ => some o
  | _ => none

instance (s : State) (l : Label) : Decidable (FirstResponse s l) :=
  decidable_of_iff (∀ o ∈ l.resolved?, (s.operations o).isSubscription = true →
      (s.operations o).stopped = false →
        (s.connections (s.operations o).connection).http = true →
          s.responses (s.operations o).connection = 0)
    (by cases l <;> simp [FirstResponse, Label.resolved?])

/-- The thread is on its way to a reply that it has to make. -/
def Worker.owes : Worker → Bool
  | .resolving _ | .replying _ _ | .deliveryReplying _ _ => true
  | _ => false

/-- The operation is going to reply. -/
def Operation.Owes (x : Operation) : Prop :=
  .resolve ∈ x.tasks ∨ x.worker.owes = true

section Operations

variable {e : Effects} {x x' : Operation}

/-- An operation that owes a reply has done so before, or a delivery of it has
passed its last check. -/
theorem OperationStep.owes (hs : OperationStep e x x') (hvalid : x.Valid) (h : x'.Owes) :
    x.Owes ∨ e.resolves ∧ x.isSubscription = true ∧ x.stopped = false := by
  unfold Operation.Owes at h ⊢
  cases hs
  case deliveryResolved onReply document response hresolves delivering running =>
    exact .inr ⟨hresolves, hvalid.of_subscription (by rw [delivering]; rfl), running⟩
  case subscribeFailed w hcopies subscribing next =>
    left
    rcases next with rfl | ⟨_, _, rfl⟩ <;> exact h.imp_right nofun
  all_goals simp_all [Worker.owes, Operation.schedule]

/-- What has replied owes nothing any more. -/
theorem Operation.Valid.replied (hvalid : x.Valid) {w : Worker} (hw : w.owes = false)
    (h : (∃ b response, x.worker = .replying b response) ∨
      ∃ b response, x.worker = .deliveryReplying b response) :
    ¬Operation.Owes { x with worker := w } := by
  intro howes
  have hmem : .resolve ∈ x.tasks := howes.resolve_right (by simp [hw])
  by_cases hkind : x.isSubscription = true
  · exact (hvalid.subscription hkind).2 hmem
  · obtain ⟨hworker, htasks, -⟩ := hvalid.regular (by simpa using hkind)
    rcases htasks with htasks | ⟨-, hidle⟩
    · simp [htasks] at hmem
    · rcases h with ⟨_, _, h⟩ | ⟨_, _, h⟩ <;> simp [hidle] at h

end Operations

variable {env : Environment} {s s' : State} {l : Label}

/-- A step that changes connections but not their counters. -/
theorem responses_changed {c₀ : ConnectionId} {x : Connection}
    (hconnections : s'.connections = Function.update s.connections c₀ x)
    (hqueue : s'.queue = s.queue) (hsent : x.sent = (s.connections c₀).sent) (c : ConnectionId) :
    s'.responses c = s.responses c := by
  unfold State.responses
  rw [hconnections, hqueue]
  by_cases hc : c = c₀
  · subst hc
    simp [hsent]
  · simp [hc]

/-- A step that posts a task to the main thread. -/
theorem responses_posted {t : Task} (hqueue : s'.queue = s.queue ++ [t])
    (hconnections : s'.connections = s.connections) (c : ConnectionId) :
    s'.responses c = s.responses c + if t.sends c then 1 else 0 := by
  unfold State.responses
  rw [hconnections, hqueue, List.countP_append, List.countP_singleton, ← Nat.add_assoc]

/-- A step that posts a task that is no response. -/
theorem responses_deferred {t : Task} (hqueue : s'.queue = s.queue ++ [t])
    (hconnections : s'.connections = s.connections) {c : ConnectionId} (ht : t.sends c = false) :
    s'.responses c = s.responses c := by
  rw [responses_posted hqueue hconnections, ht]
  rfl

/-- The main thread takes a task that is no response. -/
theorem responses_taken {t : Task} (next : s.queue = t :: s'.queue)
    (hconnections : s'.connections = s.connections) {c : ConnectionId} (ht : t.sends c = false) :
    s'.responses c = s.responses c := by
  unfold State.responses
  rw [hconnections, next, List.countP_cons, ht]
  rfl

/-- A new connection has no response, if its number had none. -/
theorem responses_start (hfresh : s.responses s.connectionBound = 0) {x : Connection}
    (hconnections : s'.connections = Function.update s.connections s.connectionBound x)
    (hqueue : s'.queue = s.queue) (hsent : x.sent = 0) (c : ConnectionId) :
    s'.responses c = s.responses c := by
  apply responses_changed hconnections hqueue
  unfold State.responses at hfresh
  omega

/-- `stop` sends no response. -/
theorem Stops.responses {o : OperationId} (h : Stops s o s') (c : ConnectionId) :
    s'.responses c = s.responses c := by
  cases h <;> rfl

/-- A reply is a response exactly if the connection is an HTTP one. -/
theorem Answers.sends {c : ConnectionId} {t : Task} (h : Answers s c t) (c' : ConnectionId) :
    t.sends c' = true ↔ (s.connections c).http = true ∧ c' = c := by
  unfold Answers at h
  by_cases hhttp : (s.connections c).http = true
  · rw [if_pos hhttp] at h
    obtain ⟨code, body, rfl⟩ := h
    unfold Task.sends
    rw [decide_eq_true_iff, eq_comm]
    exact (and_iff_right hhttp).symm
  · rw [if_neg hhttp] at h
    obtain ⟨body, rfl⟩ := h
    simp [Task.sends, hhttp]

/-- What a step adds to the responses of the connection `c`: nothing, an error of a
new connection that has no operation, or the reply that an operation owes. -/
inductive Adds (s s' : State) (c : ConnectionId) : Prop
  | nothing (same : s'.responses c = s.responses c)
  | error (one : s'.responses c = s.responses c + 1)
      (new : c = s.connectionBound ∧ c < s'.connectionBound)
      (unstarted : s'.operationBound = s.operationBound)
  | reply {o} (one : s'.responses c = s.responses c + 1) (owner : (s.operations o).connection = c)
      (http : (s.connections c).http = true) (owed : (s.operations o).Owes)
      (paid : ¬(s'.operations o).Owes)

/-- The error of a request that starts no operation. -/
private theorem adds_error {s₁ : State} {c : ConnectionId} {code : Int} {body : Value}
    (hsame : s₁.responses c = s.responses c) (hops : s₁.operationBound = s.operationBound)
    (hbound : s₁.connectionBound = s.connectionBound + 1) :
    Adds s (s₁.defer (.sendHttp s.connectionBound code body)) c := by
  have hposted : (s₁.defer (.sendHttp s.connectionBound code body)).responses c =
      s₁.responses c + if Task.sends c (.sendHttp s.connectionBound code body) then 1 else 0 := by
    apply responses_posted <;> rfl
  rw [hsame] at hposted
  by_cases hc : s.connectionBound = c
  · refine .error (by simpa [Task.sends, hc] using hposted) ⟨hc.symm, ?_⟩ hops
    rw [← hc, State.defer_connectionBound, hbound]
    exact Nat.lt_succ_self _
  · exact .nothing (by simpa [Task.sends, hc] using hposted)

/-- The reply of an operation that owes one. -/
private theorem adds_reply {o : OperationId} {w : Worker} {t : Task} (c : ConnectionId)
    (answers : Answers s (s.operations o).connection t) (howes : (s.operations o).Owes)
    (hpaid : ¬Operation.Owes { s.operations o with worker := w }) :
    Adds s ((s.modify o fun x => { x with worker := w }).defer t) c := by
  have hposted : ((s.modify o fun x => { x with worker := w }).defer t).responses c =
      s.responses c + if t.sends c then 1 else 0 := by
    apply responses_posted <;> rfl
  by_cases hsends : t.sends c = true
  · obtain ⟨hhttp, rfl⟩ := (answers.sends c).mp hsends
    exact .reply (o := o) (by simpa [hsends] using hposted) rfl hhttp howes (by simpa using hpaid)
  · exact .nothing (by simpa [hsends] using hposted)

/-- **One response at a time.**  What a step adds to the responses of a connection. -/
theorem Step.adds (hs : Step env s l s') (hw : Wired s)
    (hfresh : s.responses s.connectionBound = 0) (c : ConnectionId) : Adds s s' c := by
  have hsocket : ∀ {c₀ t}, (s.connections c₀).http = false → Answers s c₀ t →
      t.sends c = false := by
    intro c₀ t hsocket answers
    by_contra hsends
    have hhttp := ((answers.sends c).mp (by simpa using hsends)).1
    simp [hsocket] at hhttp
  cases hs
  case opened | httpMalformed => exact .nothing (by apply responses_start hfresh <;> rfl)
  case httpUnauthorized => exact adds_error (by apply responses_start hfresh <;> rfl) rfl rfl
  case httpFailed =>
    refine adds_error ?_ rfl rfl
    apply responses_start hfresh
    · exact Function.update_idem _ _ _
    · rfl
    · simp
  case httpStarted =>
    refine .nothing ?_
    apply responses_start hfresh
    · exact (Function.update_idem _ _ _).trans (Function.update_idem _ _ _)
    · rfl
    · simp
  case messageAnswered connected answers =>
    have hno := hsocket connected.socket answers
    exact .nothing (by apply responses_deferred _ _ hno <;> rfl)
  case messageUnanswered => exact .nothing (by apply responses_changed <;> rfl)
  case messageAuthorized c₀ message key p t idle connected answers =>
    have hno := hsocket connected.socket answers
    have hchanged : (s.change c₀ fun x => { x with permissions := p }).responses c =
        s.responses c := by
      apply responses_changed <;> rfl
    refine .nothing (Eq.trans ?_ hchanged)
    apply responses_deferred _ _ hno <;> rfl
  case messageTerminate | expireNotify | expireDelivery | notifyInitial | deliveryFailed | slot =>
    exact .nothing (by apply responses_deferred <;> rfl)
  case messageStart => exact .nothing (by apply responses_changed <;> rfl)
  case messageStop stops => exact .nothing (stops.responses c)
  case stopNext stops => exact .nothing (stops.responses c)
  case forceStop idle next stops =>
    refine .nothing ((stops.responses c).trans ?_)
    apply responses_taken next <;> rfl
  case closed => exact .nothing (by apply responses_changed <;> rfl)
  case tearDown => exact .nothing (by apply responses_changed <;> rfl)
  case erase => exact .nothing (by apply responses_changed <;> rfl)
  case runNotify idle next | runDeliver idle next | dispatchStopped idle next _
    | dispatch idle next _ | sendWebSocket idle next | terminate idle next =>
    exact .nothing (by apply responses_taken next <;> rfl)
  case sendHttp c₀ code body queue idle next =>
    refine .nothing ?_
    have hqueue : ∀ s' : State, s'.queue = queue → s.queue.countP (Task.sends c) =
        s'.queue.countP (Task.sends c) + if c₀ = c then 1 else 0 := by
      intro s' hs'
      rw [next, List.countP_cons, hs']
      simp [Task.sends]
    unfold State.responses
    rw [hqueue (((s.dequeue queue).change c₀ fun x =>
      { x with sent := x.sent + 1 }).onConnectionDone c₀) rfl]
    by_cases hc : c₀ = c
    · subst hc
      simp [State.onConnectionDone]
      omega
    · simp [State.onConnectionDone, hc, Ne.symm hc]
  case replyData o onReply response t replying answers =>
    exact adds_reply c answers (.inr (by rw [replying]; rfl))
      ((hw.valid o).replied rfl (.inl ⟨_, _, replying⟩))
  case replyComplete completing socket answers =>
    have hno := hsocket socket answers
    exact .nothing (by apply responses_deferred _ _ hno <;> rfl)
  case replyDelivery o onReply response t replying answers =>
    exact adds_reply c answers (.inr (by rw [replying]; rfl))
      ((hw.valid o).replied rfl (.inr ⟨_, _, replying⟩))
  all_goals exact .nothing rfl

/-- Who may still answer which HTTP connection. -/
structure Answering (s : State) : Prop where
  fresh : ∀ c, s.connectionBound ≤ c → s.responses c = 0
  unknown : ∀ o, s.operationBound ≤ o → ¬(s.operations o).Owes
  owner : ∀ o, o < s.operationBound → (s.operations o).connection < s.connectionBound
  single : ∀ o, o < s.operationBound → ∀ o', o' < s.operationBound →
    (s.connections (s.operations o).connection).http = true →
      (s.operations o').connection = (s.operations o).connection → o' = o
  owed : ∀ o, o < s.operationBound → (s.connections (s.operations o).connection).http = true →
    (s.operations o).Owes → s.responses (s.operations o).connection = 0
  once : ∀ c, s.responses c ≤ 1

namespace Answering

/-- Who owes a reply has been created. -/
theorem known (h : Answering s) {o : OperationId} (ho : (s.operations o).Owes) :
    o < s.operationBound := by
  by_contra hbound
  exact h.unknown o (not_lt.mp hbound) ho

/-- A connection that does not exist yet has no response. -/
theorem step_fresh (h : Answering s) (hw : Wired s) (hs : Step env s l s') :
    ∀ c, s'.connectionBound ≤ c → s'.responses c = 0 := by
  intro c hc
  have hold := h.fresh c (hs.bounds.2.trans hc)
  cases hs.adds hw (h.fresh _ le_rfl) c with
  | nothing same => exact same.trans hold
  | error one new unstarted => exact absurd new.2 (not_lt.mpr hc)
  | @reply o one owner http owed paid =>
      have hknown := h.owner o (h.known owed)
      rw [owner] at hknown
      exact absurd (hs.bounds.2.trans hc) (not_le.mpr hknown)

/-- An operation that does not exist yet owes nothing. -/
theorem step_unknown (h : Answering s) (hw : Wired s) (hs : Step env s l s') :
    ∀ o, s'.operationBound ≤ o → ¬(s'.operations o).Owes := by
  intro o ho howes
  have hunknown := hs.bounds.1.trans ho
  rcases hs.operation o with heq | hchange | ⟨rfl, hbound, -⟩
  · exact h.unknown o hunknown (heq ▸ howes)
  · rcases hchange.owes (hw.valid o) howes with hold | ⟨-, hkind, -⟩
    · exact h.unknown o hunknown hold
    · simp [hw.unknown o hunknown] at hkind
  · rw [hbound] at ho
    exact absurd ho (Nat.not_succ_le_self _)

/-- The connection of an operation exists. -/
theorem step_owner (h : Answering s) (hs : Step env s l s') :
    ∀ o, o < s'.operationBound → (s'.operations o).connection < s'.connectionBound := by
  intro o ho
  rcases hs.created ho with hold | ⟨-, -, id, c, permissions, sub, key, heq, hc⟩
  · rw [(hs.fixed hold).2.1]
    exact (h.owner o hold).trans_le hs.bounds.2
  · rw [heq]
    rcases hc with ⟨-, hbound⟩ | hconnected
    · exact hbound ▸ Nat.lt_succ_self _
    · exact hconnected.known.trans_le hs.bounds.2

/-- The connection of an operation that has just been created is new, or no HTTP
connection. -/
theorem created (hs : Step env s l s') {o : OperationId} (ho : Creates env s s' o)
    (hhttp : (s'.connections (s'.operations o).connection).http = true) :
    (s'.operations o).connection = s.connectionBound := by
  obtain ⟨-, -, id, c, permissions, sub, key, heq, hc⟩ := ho
  rw [heq] at hhttp ⊢
  rcases hc with ⟨rfl, -⟩ | hconnected
  · rfl
  · have hsocket := (hs.http hconnected.known).symm.trans hhttp
    simp [hconnected.socket] at hsocket

/-- An HTTP connection has one operation. -/
theorem step_single (h : Answering s) (hs : Step env s l s') :
    ∀ o, o < s'.operationBound → ∀ o', o' < s'.operationBound →
      (s'.connections (s'.operations o).connection).http = true →
        (s'.operations o').connection = (s'.operations o).connection → o' = o := by
  intro o ho o' ho' hhttp hsame
  rcases hs.created ho with hold | hnew <;> rcases hs.created ho' with hold' | hnew'
  · rw [(hs.fixed hold).2.1, (hs.fixed hold').2.1] at hsame
    rw [(hs.fixed hold).2.1, hs.http (h.owner o hold)] at hhttp
    exact h.single o hold o' hold' hhttp hsame
  · have hconnection := created hs hnew' (hsame ▸ hhttp)
    rw [hsame, (hs.fixed hold).2.1] at hconnection
    exact absurd (h.owner o hold) (by rw [hconnection]; exact lt_irrefl _)
  · have hconnection := created hs hnew hhttp
    rw [← hsame, (hs.fixed hold').2.1] at hconnection
    exact absurd (h.owner o' hold') (by rw [hconnection]; exact lt_irrefl _)
  · exact hnew'.1.trans hnew.1.symm

/-- Nothing is added to the responses of an operation that goes on owing one. -/
theorem adds_nothing (h : Answering s) (hw : Wired s) (hs : Step env s l s') {o : OperationId}
    (ho : o < s.operationBound) (hhttp : (s.connections (s.operations o).connection).http = true)
    (howes : (s'.operations o).Owes) :
    s'.responses (s.operations o).connection = s.responses (s.operations o).connection := by
  cases hs.adds hw (h.fresh _ le_rfl) (s.operations o).connection with
  | nothing same => exact same
  | error one new unstarted => exact absurd (h.owner o ho) (by rw [new.1]; exact lt_irrefl _)
  | @reply o' one owner http owed paid =>
      obtain rfl := h.single o ho o' (h.known owed) hhttp owner
      exact absurd howes paid

/-- A request that has just started its operation has no response. -/
theorem created_none (h : Answering s) (hw : Wired s) (hs : Step env s l s') {o : OperationId}
    (hnew : Creates env s s' o)
    (hhttp : (s'.connections (s'.operations o).connection).http = true) :
    s'.responses (s'.operations o).connection = 0 := by
  have hconnection := created hs hnew hhttp
  rw [hconnection]
  cases hs.adds hw (h.fresh _ le_rfl) s.connectionBound with
  | nothing same => exact same.trans (h.fresh _ le_rfl)
  | error one new unstarted =>
      have hbound := hnew.2.1
      rw [unstarted] at hbound
      exact absurd hbound (Nat.succ_ne_self _).symm
  | @reply o' one owner http owed paid =>
      exact absurd (h.owner o' (h.known owed)) (by rw [owner]; exact lt_irrefl _)

/-- Who owes the response of a request has not sent it before: here `FirstResponse` is needed.
-/
theorem step_owed (h : Answering s) (hw : Wired s) (hok : FirstResponse s l)
    (hs : Step env s l s') :
    ∀ o, o < s'.operationBound → (s'.connections (s'.operations o).connection).http = true →
      (s'.operations o).Owes → s'.responses (s'.operations o).connection = 0 := by
  intro o ho hhttp howes
  rcases hs.created ho with hold | hnew
  · rw [(hs.fixed hold).2.1] at hhttp ⊢
    rw [hs.http (h.owner o hold)] at hhttp
    rw [h.adds_nothing hw hs hold hhttp howes]
    rcases hs.operation o with heq | hchange | hnew
    · exact h.owed o hold hhttp (heq ▸ howes)
    · rcases hchange.owes (hw.valid o) howes with howed | ⟨⟨response, hl⟩, hkind, hrunning⟩
      · exact h.owed o hold hhttp howed
      · exact hok o response hl hkind hrunning hhttp
    · exact absurd hold (hnew.1 ▸ lt_irrefl _)
  · exact h.created_none hw hs hnew hhttp

/-- So no request gets a second response. -/
theorem step_once (h : Answering s) (hw : Wired s) (hs : Step env s l s') :
    ∀ c, s'.responses c ≤ 1 := by
  intro c
  cases hs.adds hw (h.fresh _ le_rfl) c with
  | nothing same => exact same.trans_le (h.once c)
  | error one new unstarted =>
      rw [one, h.fresh c new.1.ge]
  | @reply o one owner http owed paid =>
      have hnone := h.owed o (h.known owed) (owner ▸ http) owed
      rw [one, ← owner, hnone]

/-- A step that meets the side condition keeps the account of who may still answer. -/
theorem step (h : Answering s) (hw : Wired s) (hok : FirstResponse s l) (hs : Step env s l s') :
    Answering s' where
  fresh := h.step_fresh hw hs
  unknown := h.step_unknown hw hs
  owner := h.step_owner hs
  single := h.step_single hs
  owed := h.step_owed hw hok hs
  once := h.step_once hw hs

end Answering

/-- The account holds in every run whose steps meet the side condition. -/
theorem Reach.answering (h : Runs.Reach (step env) FirstResponse initial s) : Answering s := by
  apply h.along (I := Answering)
  · constructor
    · intro c _
      rfl
    · intro o _ howes
      rcases howes with hmem | hworker
      · cases hmem
      · cases hworker
    · intro o ho
      exact absurd ho (Nat.not_lt_zero o)
    · intro o ho
      exact absurd ho (Nat.not_lt_zero o)
    · intro o ho
      exact absurd ho (Nat.not_lt_zero o)
    · intro c
      exact Nat.zero_le 1
  · intro s l s' hreach hs hok hstep
    exact hs.step (Reach.wired hreach) hok (step_cases hstep)

/-- The thread is in a delivery that has not replied yet. -/
def Worker.delivers : Worker → Bool
  | .delivering _ _ | .deliveryReplying _ _ => true
  | _ => false

/-- The deliveries of an operation that are queued or have not replied yet. -/
def Operation.underway (x : Operation) : Nat :=
  x.tasks.count (.resolveSubscription true) + x.worker.delivers.toNat

/-- The operation a delivery of which begins with this step: what is pending is
dispatched, or the error of its `subscribe` is delivered. -/
def State.begins (s : State) (l : Label) : List OperationId :=
  match l, s.frames, s.queue with
  | .main, [], .dispatchPendingDelivery o :: _ =>
      if (s.operations o).pendingDelivery then [o] else []
  | .subscribe o (.error _), _, _ => [o]
  | _, _, _ => []

/-- A change of one operation that begins no delivery. -/
private theorem underway_changed {o₀ o : OperationId} {x' : Operation} {n : Nat}
    (hchange : s'.operations = Function.update s.operations o₀ x')
    (hx' : x'.underway ≤ (s.operations o₀).underway) :
    (s'.operations o).underway ≤ (s.operations o).underway + n := by
  rw [hchange]
  by_cases ho : o = o₀
  · subst ho
    rw [Function.update_self]
    exact hx'.trans (Nat.le_add_right _ _)
  · rw [Function.update_of_ne ho]
    exact Nat.le_add_right _ _

/-- `stop` begins no delivery. -/
theorem Stops.underway {o₀ o : OperationId} (h : Stops s o₀ s') {n : Nat} :
    (s'.operations o).underway ≤ (s.operations o).underway + n := by
  cases h with
  | already => exact Nat.le_add_right _ _
  | subscription | regular =>
      exact underway_changed rfl (by simp [Operation.underway, List.count_append])

/-- Deliveries are queued one at a time. -/
theorem Step.underway (hs : Step env s l s') {o : OperationId} (ho : o < s.operationBound) :
    (s'.operations o).underway ≤ (s.operations o).underway + (s.begins l).count o := by
  cases hs
  case dispatch o₀ queue idle next running =>
    by_cases heq : o = o₀
    · subst heq
      cases hpending : (s.operations o).pendingDelivery <;>
        simp [State.begins, idle, next, hpending, Operation.underway, List.count_append]
      omega
    · simp [heq]
  case subscribeFailed o₀ errors w copies subscribing next =>
    by_cases heq : o = o₀
    · subst heq
      rcases next with rfl | ⟨_, _, rfl⟩ <;>
        simp [State.begins, Operation.underway, Worker.delivers, subscribing]
    · simp [heq]
  case messageStop stops | forceStop stops | stopNext stops => exact stops.underway
  case httpStarted | messageStart =>
    simp [State.addConnectionOperation, Function.update_of_ne ho.ne]
  case takeStopped next _ _ =>
    exact underway_changed rfl (by simp [Operation.underway, next, List.count_cons])
  all_goals first
    | exact Nat.le_add_right _ _
    | refine underway_changed rfl ?_
      simp_all [Operation.underway, Worker.delivers, Operation.schedule]

/-- What replies to a delivery is done with it. -/
theorem OperationStep.paid {e : Effects} {x x' : Operation} (hs : OperationStep e x x')
    {onReply : Bool} {response : Value} (hx : x.worker = .deliveryReplying onReply response)
    (hpaid : ¬x'.Owes) : x'.underway < x.underway := by
  cases hs
  case replyDelivery => simp [Operation.underway, Worker.delivers, hx]
  all_goals simp_all [Operation.Owes, Worker.owes, Worker.resolves, Operation.schedule]

/-- A subscription owes nothing but the reply to a delivery. -/
theorem Operation.Valid.replies {x : Operation} (hvalid : x.Valid)
    (hkind : x.isSubscription = true) (howes : x.Owes) :
    ∃ onReply response, x.worker = .deliveryReplying onReply response := by
  obtain ⟨hworker, hresolve⟩ := hvalid.subscription hkind
  have howes' := howes.resolve_left hresolve
  cases hx : x.worker <;> simp_all [Worker.owes, Worker.ofRegular]

/-- Every response to a subscription over HTTP is that of a delivery that has begun. -/
def Accounted (begun : OperationId → Nat) (s : State) : Prop :=
  ∀ o, o < s.operationBound → (s.connections (s.operations o).connection).http = true →
    (s.operations o).isSubscription = true →
      s.responses (s.operations o).connection + (s.operations o).underway ≤ begun o

/-- A step begins a delivery, or uses one up with each response it posts. -/
theorem Accounted.step {begun : OperationId → Nat} (ha : Accounted begun s) (h : Answering s)
    (hw : Wired s) (hs : Step env s l s') :
    Accounted (fun o => begun o + (s.begins l).count o) s' := by
  intro o ho hhttp hkind
  rcases hs.created ho with hold | hnew
  · have hunder := hs.underway hold
    rw [(hs.fixed hold).2.1] at hhttp ⊢
    rw [(hs.fixed hold).2.2] at hkind
    rw [hs.http (h.owner o hold)] at hhttp
    have hbegun := ha o hold hhttp hkind
    cases hs.adds hw (h.fresh _ le_rfl) (s.operations o).connection with
    | nothing same => simp only; omega
    | error one new unstarted => exact absurd (h.owner o hold) (by rw [new.1]; exact lt_irrefl _)
    | @reply o' one owner http owed paid =>
        obtain rfl := h.single o hold o' (h.known owed) hhttp owner
        obtain ⟨_, _, hreplies⟩ := (hw.valid o').replies hkind owed
        rcases hs.operation o' with heq | hchange | hcreates
        · exact absurd owed (heq ▸ paid)
        · have hless := hchange.paid hreplies paid
          simp only
          omega
        · exact absurd hold (hcreates.1 ▸ lt_irrefl _)
  · have hnone := h.created_none hw hs hnew hhttp
    obtain ⟨-, -, id, c, permissions, sub, key, heq, -⟩ := hnew
    rw [hnone, heq]
    cases sub <;> simp [newOperation, Operation.underway, Worker.delivers]

/-- The only delivery that has begun is the first response. -/
theorem Accounted.firstResponse {begun : OperationId → Nat} (ha : Accounted begun s)
    (hw : Wired s) (hone : ∀ o, o < s.operationBound →
      (s.connections (s.operations o).connection).http = true → begun o ≤ 1)
    (hstep : GraphQLServer.step env s l = some s') : FirstResponse s l := by
  rintro o response rfl hkind hrunning hhttp
  have hknown := hw.known hkind
  have hbegun := (ha o hknown hhttp hkind).trans (hone o hknown hhttp)
  have hdelivers : (s.operations o).worker.delivers = true := by
    have hregular := ((hw.valid o).subscription hkind).1
    obtain ⟨-, hresolved⟩ := Option.ite_none_left_eq_some.mp hstep
    cases hx : (s.operations o).worker <;>
      simp_all [resolved, Worker.delivers, Worker.ofRegular]
  simp only [Operation.underway, hdelivers, Bool.toNat_true] at hbegun
  omega

/-- How many deliveries of the operation have begun in a run. -/
def begun (env : Environment) (ls : List Label) (o : OperationId) : Nat :=
  (Runs.trace (step env) State.begins initial ls).count o

/-- At most one delivery of each operation over HTTP has begun in the run `ls` to `s`. -/
def OneDelivery (env : Environment) (ls : List Label) (s : State) : Prop :=
  ∀ o, o < s.operationBound → (s.connections (s.operations o).connection).http = true →
    begun env ls o ≤ 1

/-- The deliveries that begin with the last step of a run. -/
theorem begun_concat {ls : List Label} (hrun : Runs.run (step env) initial ls = some s)
    (o : OperationId) :
    begun env (ls ++ [l]) o = begun env ls o + (s.begins l).count o := by
  simp [begun, Runs.trace_concat hrun, List.count_append]

/-- What is so at the end of a run was so before. -/
theorem OneDelivery.before {ls : List Label} (hrun : Runs.run (step env) initial ls = some s)
    (hs : Step env s l s') (h : OneDelivery env (ls ++ [l]) s') : OneDelivery env ls s := by
  intro o ho hhttp
  have hentries := Reach.entries (Runs.reach_of_run hrun Runs.runMeets_always)
  have hafter := h o (ho.trans_le hs.bounds.1)
    (by rwa [(hs.fixed ho).2.1, hs.http (hentries.known o ho)])
  rw [begun_concat hrun] at hafter
  omega

/-- **One delivery.**  A run meets `FirstResponse` if at most one delivery of each
operation over HTTP begins in it. -/
theorem Reach.firstResponse {ls : List Label} (h : Runs.run (step env) initial ls = some s)
    (hone : OneDelivery env ls s) : Runs.Reach (step env) FirstResponse initial s := by
  suffices hboth : OneDelivery env ls s →
      Runs.Reach (step env) FirstResponse initial s ∧ Accounted (begun env ls) s from
    (hboth hone).1
  refine Runs.run_along (I := fun ls s => OneDelivery env ls s →
    Runs.Reach (step env) FirstResponse initial s ∧ Accounted (begun env ls) s) ?_ ?_ h
  · exact fun _ => ⟨.refl, fun o ho => absurd ho (Nat.not_lt_zero o)⟩
  · intro ls s l s' hrun hI hstep hafter
    have hbefore := hafter.before hrun (step_cases hstep)
    obtain ⟨hreach, haccounted⟩ := hI hbefore
    have hw := Reach.wired hreach
    refine ⟨hreach.tail (haccounted.firstResponse hw hbefore hstep) hstep, fun o => ?_⟩
    rw [begun_concat hrun]
    exact haccounted.step (Reach.answering hreach) hw (step_cases hstep) o

/-- **One response.**  As long as no delivery of an HTTP request passes its last check
when a response to the request is sent or posted, at most one response is sent on
a connection, and none is posted once it is. -/
theorem one_response (h : Runs.Reach (step env) FirstResponse initial s) (c : ConnectionId) :
    (s.connections c).sent + s.queue.countP (Task.sends c) ≤ 1 :=
  (Reach.answering h).once c

/-- A query is sent over HTTP and answered. -/
def httpQuery : List Label :=
  [.onHttp "token" (some (queryPayload "query")) 0, .take 0, .resolved 0 .null, .worker 0,
    .worker 0, .worker 0, .main]

set_option maxRecDepth 4000 in
/-- A query over HTTP gets its one response. -/
theorem one_response_httpQuery :
    ∃ s, Runs.run (step vehicle) initial httpQuery = some s ∧ (s.connections 0).sent = 1 ∧
      (s.connections 0).sent + s.queue.countP (Task.sends 0) ≤ 1 := by
  have hrun : Runs.run (step vehicle) initial httpQuery = some _ := rfl
  have hreach := Runs.reach_of_run hrun (by decide : Runs.RunMeets _ FirstResponse _ _)
  exact ⟨_, hrun, rfl, one_response hreach 0⟩

/-- A subscription is sent over HTTP, and what it observes changes during its first
delivery: the second one is done before the first response is sent. -/
def httpSubscription : List Label :=
  [.onHttp "token" (some (queryPayload "subscription")) 0, .take 0,
    .subscribe 0 (.ok (1, "vehicle")), .worker 0] ++ deliverFirst ++ signalFirst ++ dispatchFirst ++
  [.resolved 0 .null, .worker 0, .worker 0, .take 0, .resolved 0 .null, .worker 0, .main,
    .stopNext 0, .worker 0, .take 0, .worker 0, .main, .main, .main, .main]

/-- Two responses are sent on one connection. -/
theorem sends_two_responses :
    ∃ s, Runs.run (step vehicle) initial httpSubscription = some s ∧
      (s.connections 0).http = true ∧ (s.connections 0).sent = 2 := by
  have hrun : (Runs.run (step vehicle) initial httpSubscription).map
      (fun s => ((s.connections 0).http, (s.connections 0).sent)) = some (true, 2) := by
    decide +kernel
  obtain ⟨s, hs, heq⟩ := Option.map_eq_some_iff.mp hrun
  obtain ⟨hhttp, hsent⟩ := Prod.mk.inj heq
  exact ⟨s, hs, hhttp, hsent⟩

end GraphQLServer
