import VssServer.OperationSteps

/-!
# What holds of every operation and every connection

`Operation.Valid` is what can be said about one operation alone: which tasks and
which places on its thread belong to its kind, that it subscribes first and
unsubscribes last and once.  `Wired` ties the operations to the rest of the
server: only subscriptions are registered, called back or have deliveries.
`ConnectionStep` is for connections what `OperationStep` is for operations.

* `Step.touches`, `Step.connectionChange`: what a step does to one connection.
* `Step.enters`, `Step.frame`: what the main thread begins and leaves.
* `Operation.Valid.step`, `Wired.step`: both invariants are kept by every step.
-/

namespace GraphQLServer

open Response Permissions

/-- The thread is in a task of a query or mutation. -/
def Worker.ofRegular : Worker → Bool
  | .resolving _ | .replying _ _ | .completing _ | .completed => true
  | _ => false

/-- The thread is in a task of a subscription. -/
def Worker.ofSubscription : Worker → Bool
  | .subscribing | .notifying | .delivering _ _ | .deliveryReplying _ _ | .delivered
  | .unsubscribing => true
  | _ => false

/-- It is in `unsubscribeInAThread`. -/
def Worker.unsubscribes : Worker → Bool
  | .unsubscribing => true
  | _ => false

/-- The thread that unsubscribes is in this task. -/
theorem Worker.unsubscribes_iff {w : Worker} : w.unsubscribes = true ↔ w = .unsubscribing := by
  cases w <;> simp [Worker.unsubscribes]

/-- The operation whose thread goes on. -/
def Label.worker? : Label → Option OperationId
  | .worker o => some o
  | _ => none

/-- The steps of the thread of an operation that leave it no choice. -/
theorem Label.mem_worker? {l : Label} {o : OperationId} : o ∈ l.worker? ↔ l = .worker o := by
  cases l <;> simp [Label.worker?]

/-- What holds of an operation at any time. -/
structure Operation.Valid (x : Operation) : Prop where
  regular : x.isSubscription = false →
    x.worker.ofSubscription = false ∧ (x.tasks = [] ∨ x.tasks = [.resolve] ∧ x.worker = .idle) ∧
      x.deliveryTimer = .unset ∧ x.subscribed = false
  subscription : x.isSubscription = true → x.worker.ofRegular = false ∧ .resolve ∉ x.tasks
  completed : x.worker = .completed → x.completeSent = true
  unsubscribe : .unsubscribe ∈ x.tasks ∨ x.worker = .unsubscribing → x.stopped = true
  once : x.tasks.count .unsubscribe ≤ 1
  last : x.worker = .unsubscribing → .unsubscribe ∉ x.tasks
  first : .subscribe ∈ x.tasks →
    x.worker = .idle ∧ ∃ tasks, x.tasks = .subscribe :: tasks ∧ .subscribe ∉ tasks
  fresh : .subscribe ∈ x.tasks ∨ x.worker = .subscribing →
    x.subscribed = false ∧ x.dirty = false ∧ x.signals = 0

variable {e : Effects} {x x' : Operation}

/-- What an operation is made with stays. -/
theorem OperationStep.fixed (hs : OperationStep e x x') :
    x'.id = x.id ∧ x'.connection = x.connection ∧ x'.isSubscription = x.isSubscription := by
  cases hs <;> exact ⟨rfl, rfl, rfl⟩

/-- What is stopped stays so. -/
theorem OperationStep.running (hs : OperationStep e x x') (h : x'.stopped = false) :
    x.stopped = false := by
  cases hs <;> first | exact h | cases h

namespace Operation.Valid

/-- A query or mutation has its one task, or is in it. -/
private theorem step_regular (h : x.Valid) (hs : OperationStep e x x')
    (hcalled : e.called → x.isSubscription = true) (hkind : x'.isSubscription = false) :
    x'.worker.ofSubscription = false ∧ (x'.tasks = [] ∨ x'.tasks = [.resolve] ∧ x'.worker = .idle) ∧
      x'.deliveryTimer = .unset ∧ x'.subscribed = false := by
  rw [hs.fixed.2.2] at hkind
  have hregular := h.regular hkind
  cases hs
  case resolvedStopped resolving stopped =>
    obtain ⟨hworker, htasks, hrest⟩ := hregular
    exact ⟨rfl, htasks.imp_right fun h => ⟨h.1, rfl⟩, hrest⟩
  all_goals simp_all [Worker.ofSubscription]

/-- A subscription is never in the task of a query. -/
private theorem step_subscription (h : x.Valid) (hs : OperationStep e x x')
    (hkind : x'.isSubscription = true) :
    x'.worker.ofRegular = false ∧ .resolve ∉ x'.tasks := by
  rw [hs.fixed.2.2] at hkind
  have hsubscription := h.subscription hkind
  cases hs
  case subscribeFailed w hcopies subscribing next =>
    refine ⟨?_, hsubscription.2⟩
    rcases next with rfl | ⟨_, _, rfl⟩ <;> rfl
  all_goals simp_all [Worker.ofRegular, Operation.schedule]

/-- The thread completes only after `complete` is handed over. -/
private theorem step_completed (h : x.Valid) (hs : OperationStep e x x') :
    x'.worker = .completed → x'.completeSent = true := by
  have hcompleted := h.completed
  cases hs
  case subscribeFailed w hcopies subscribing next => rcases next with rfl | ⟨_, _, rfl⟩ <;> simp
  all_goals simp_all [Operation.schedule]

/-- Only `stop` queues the unsubscribing. -/
private theorem step_unsubscribe (h : x.Valid) (hs : OperationStep e x x') :
    .unsubscribe ∈ x'.tasks ∨ x'.worker = .unsubscribing → x'.stopped = true := by
  have hunsubscribe := h.unsubscribe
  cases hs
  case subscribeFailed w hcopies subscribing next =>
    intro hlast
    rcases next with rfl | ⟨_, _, rfl⟩ <;> exact hunsubscribe (hlast.imp_right nofun)
  all_goals simp_all [Operation.schedule]

/-- It does so once, because it marks the operation as stopped. -/
private theorem step_once (h : x.Valid) (hs : OperationStep e x x') :
    x'.tasks.count .unsubscribe ≤ 1 := by
  have honce := h.once
  cases hs
  case stopSubscription running kind =>
    have hnone : .unsubscribe ∉ x.tasks := by
      intro hmem
      simp [h.unsubscribe (.inl hmem)] at running
    simp [List.count_append, List.count_eq_zero.mpr hnone]
  case takeUnsubscribe => simp_all
  all_goals simp_all [Operation.schedule, List.count_append]

/-- The unsubscribing that has begun is not queued any more. -/
private theorem step_last (h : x.Valid) (hs : OperationStep e x x') :
    x'.worker = .unsubscribing → .unsubscribe ∉ x'.tasks := by
  have hlast := h.last
  cases hs
  case takeUnsubscribe tasks idle next =>
    intro _
    have honce := h.once
    rw [next, List.count_cons_self] at honce
    have hnone : tasks.count .unsubscribe = 0 := by omega
    exact List.count_eq_zero.mp hnone
  case stopSubscription running kind =>
    intro hworker
    simp [h.unsubscribe (.inr hworker)] at running
  case subscribeFailed w hcopies subscribing next => rcases next with rfl | ⟨_, _, rfl⟩ <;> simp
  all_goals simp_all [Operation.schedule]

/-- Until it is taken, the subscribing is the first task. -/
private theorem step_first (h : x.Valid) (hs : OperationStep e x x') :
    .subscribe ∈ x'.tasks →
      x'.worker = .idle ∧ ∃ tasks, x'.tasks = .subscribe :: tasks ∧ .subscribe ∉ tasks := by
  have hfirst := h.first
  have happend : ∀ t, t ≠ .subscribe → .subscribe ∈ x.tasks ++ [t] →
      x.worker = .idle ∧ ∃ tasks, x.tasks ++ [t] = .subscribe :: tasks ∧ .subscribe ∉ tasks := by
    intro t ht hmem
    have hmem : .subscribe ∈ x.tasks := by simpa [ht.symm] using hmem
    obtain ⟨hidle, tasks, htasks, hnone⟩ := hfirst hmem
    exact ⟨hidle, tasks ++ [t], by rw [htasks]; rfl, by simp [hnone, ht.symm]⟩
  cases hs
  case stopSubscription => exact happend _ nofun
  case dispatch => exact happend _ nofun
  case takeStopped t tasks dirty idle next stopped kind clears =>
    intro hmem
    obtain ⟨-, rest, htasks, hnone⟩ := hfirst (by rw [next]; exact .tail _ hmem)
    cases next.symm.trans htasks
    exact absurd hmem hnone
  all_goals simp_all [Operation.schedule]

/-- Before the subscribing is done nothing can be observed. -/
private theorem step_fresh (h : x.Valid) (hs : OperationStep e x x') :
    .subscribe ∈ x'.tasks ∨ x'.worker = .subscribing →
      x'.subscribed = false ∧ x'.dirty = false ∧ x'.signals = 0 := by
  have hfirst := h.first
  have hfresh := h.fresh
  have hidle : ∀ {w}, x.worker = w → w ≠ .idle → .subscribe ∉ x.tasks := by
    intro w hw hne hmem
    exact hne (hw.symm.trans (hfirst hmem).1)
  cases hs
  case takeStopped t tasks dirty idle next stopped kind clears =>
    intro hmem
    have hold := hfresh (by rw [next]; exact hmem.imp_left (.tail _))
    exact ⟨hold.1, by simpa [hold.2.1] using clears, hold.2.2⟩
  case observe resolves kind =>
    intro hmem
    rcases hmem with hmem | hworker
    · simp [(hfirst hmem).1, Worker.resolves] at resolves
    · simp only at hworker
      simp [hworker, Worker.resolves] at resolves
  case signal observed =>
    intro hmem
    have hnone := (hfresh hmem).2.2
    omega
  case subscribeFailed w hcopies subscribing next =>
    intro hmem
    have hnone := hidle subscribing nofun
    rcases next with rfl | ⟨_, _, rfl⟩ <;> simp [hnone] at hmem
  all_goals simp_all [Operation.schedule]

/-- What a step does to a valid operation keeps it valid. -/
theorem step (h : x.Valid) (hs : OperationStep e x x')
    (hcalled : e.called → x.isSubscription = true) : x'.Valid where
  regular := h.step_regular hs hcalled
  subscription := h.step_subscription hs
  completed := h.step_completed hs
  unsubscribe := h.step_unsubscribe hs
  once := h.step_once hs
  last := h.step_last hs
  first := h.step_first hs
  fresh := h.step_fresh hs

/-- A new operation is valid. -/
theorem new (env : Environment) (id : String) (c : ConnectionId)
    (permissions : Option ClientPermissions) (sub : Bool) (key : SubscriptionKey) :
    (newOperation env id c permissions sub key).Valid := by
  cases sub <;> constructor <;> simp [newOperation, Worker.ofRegular, Worker.ofSubscription]

end Operation.Valid

/-- What can happen to a connection that exists. -/
inductive ConnectionStep (x : Connection) : Connection → Prop
  | permit {p} : ConnectionStep x { x with permissions := p }
  | insert {id o} (live : x.live = true) (socket : x.http = false)
      (absent : x.operations.lookup id = none) :
      ConnectionStep x { x with operations := x.operations.insert id o }
  | erase {id} : ConnectionStep x { x with operations := x.operations.erase id }
  | done {sent} : ConnectionStep x { x with live := false, operations := ∅, sent := sent }
  | tearDown : ConnectionStep x { x with permissions := none, handlers := false }

variable {env : Environment} {s s' : State} {l : Label}

/-- `stop` changes no connection. -/
theorem Stops.connections {o : OperationId} (h : Stops s o s') : s'.connections = s.connections := by
  cases h <;> rfl

/-- A connection as a step leaves, changes or creates it. -/
inductive ConnectionChange (s s' : State) (c : ConnectionId) : Prop
  | same (eq : s'.connections c = s.connections c)
  | change (step : ConnectionStep (s.connections c) (s'.connections c))
  | start (new : c = s.connectionBound) (bound : s'.connectionBound = c + 1)
      (live : (s'.connections c).live = true) (handlers : (s'.connections c).handlers = true)

/-- What a step does to the connection `c`, and what the step is. -/
inductive Touches (env : Environment) (s : State) (l : Label) (s' : State) (c : ConnectionId) : Prop
  | leaves (eq : s'.connections c = s.connections c)
  | opens (label : l = .onWebSocketOpen) (new : c = s.connectionBound)
      (bound : s'.connectionBound = c + 1) (eq : s'.connections c = { http := false })
  | rejects {permissions} (new : c = s.connectionBound) (bound : s'.connectionBound = c + 1)
      (eq : s'.connections c = { http := true, permissions := permissions })
  | starts {permissions sub key} (new : c = s.connectionBound) (bound : s'.connectionBound = c + 1)
      (created : s'.operationBound = s.operationBound + 1 ∧ s'.operations s.operationBound =
        newOperation env "0" c permissions sub key)
      (eq : s'.connections c =
        { http := true
          permissions := permissions
          operations := (∅ : AList fun _ : String => OperationId).insert "0" s.operationBound })
  | permits {message key p} (label : l = .onWebSocketMessage c message key)
      (eq : s'.connections c = { s.connections c with permissions := p })
  | inserts {message id sub key} (label : l = .onWebSocketMessage c message key)
      (connected : Connected s c) (absent : (s.connections c).operations.lookup id = none)
      (created : s'.operationBound = s.operationBound + 1 ∧ s'.operations s.operationBound =
        newOperation env id c (s.connections c).permissions sub key)
      (eq : s'.connections c =
        { s.connections c with
          operations := (s.connections c).operations.insert id s.operationBound })
  | erases {id} (frame : .erase c id ∈ s.frames)
      (eq : s'.connections c =
        { s.connections c with operations := (s.connections c).operations.erase id })
  | ends {sent}
      (frames : s'.frames =
        .stopOperations ((s.connections c).operations.entries.map Sigma.snd) :: .tearDown c ::
          s.frames)
      (eq : s'.connections c =
        { s.connections c with live := false, operations := ∅, sent := sent })
  | tearsDown {frames} (label : l = .main) (top : s.frames = .tearDown c :: frames)
      (eq : s'.connections c = { s.connections c with permissions := none, handlers := false })

/-- A step that changes one connection leaves the others. -/
private theorem touched {c₀ : ConnectionId} {x' : Connection} (c : ConnectionId)
    (hchange : s'.connections = Function.update s.connections c₀ x')
    (hx' : s'.connections c₀ = x' → Touches env s l s' c₀) : Touches env s l s' c := by
  by_cases hc : c = c₀
  · subst hc
    exact hx' (by rw [hchange, Function.update_self])
  · exact .leaves (by rw [hchange, Function.update_of_ne hc])

/-- **One connection.**  A step leaves a connection as it is, creates it or changes it in one
of the listed ways. -/
theorem Step.touches (hs : Step env s l s') (c : ConnectionId) : Touches env s l s' c := by
  cases hs
  case opened => exact touched c rfl fun heq => .opens rfl rfl rfl heq
  case httpMalformed | httpUnauthorized => exact touched c rfl fun heq => .rejects rfl rfl heq
  case httpFailed =>
    refine touched c (Function.update_idem _ _ _) fun heq => ?_
    rw [State.onConnectionStart_connections, Function.update_self] at heq
    exact .rejects rfl rfl heq
  case httpStarted =>
    refine touched c ((Function.update_idem _ _ _).trans (Function.update_idem _ _ _))
      fun heq => .starts rfl rfl ⟨rfl, Function.update_self ..⟩ ?_
    simp [heq]
  case messageUnanswered => exact touched c rfl fun heq => .permits rfl heq
  case messageAuthorized => exact touched c rfl fun heq => .permits rfl heq
  case messageStart idle connected absent =>
    exact touched c rfl fun heq =>
      .inserts rfl connected absent ⟨rfl, Function.update_self ..⟩ heq
  case messageStop stops | forceStop stops | stopNext stops =>
    refine .leaves ?_
    rw [stops.connections]
    rfl
  case closed => exact touched c rfl fun heq => .ends rfl heq
  case sendHttp c₀ code body queue idle next =>
    refine touched c (Function.update_idem _ _ _) fun heq => ?_
    rw [State.change_connections, Function.update_self] at heq
    exact .ends (by simp [State.onConnectionDone]) heq
  case tearDown top => exact touched c rfl fun heq => .tearsDown rfl top heq
  case erase top => exact touched c rfl fun heq => .erases (by rw [top]; exact .head _) heq
  all_goals exact .leaves rfl

/-- A step leaves a connection as it is, changes it in one of the ways of `ConnectionStep`
or creates it. -/
theorem Step.connectionChange (hs : Step env s l s') (c : ConnectionId) :
    ConnectionChange s s' c := by
  have hchange : ∀ {x'}, s'.connections c = x' → ConnectionStep (s.connections c) x' →
      ConnectionChange s s' c := by
    intro x' heq hx'
    exact .change (heq ▸ hx')
  have hstart : ∀ {x'}, c = s.connectionBound → s'.connectionBound = c + 1 →
      s'.connections c = x' → x'.live = true → x'.handlers = true → ConnectionChange s s' c := by
    intro x' new bound heq hlive hhandlers
    exact .start new bound (heq ▸ hlive) (heq ▸ hhandlers)
  cases hs.touches c with
  | leaves eq => exact .same eq
  | opens _ new bound eq => exact hstart new bound eq rfl rfl
  | rejects new bound eq => exact hstart new bound eq rfl rfl
  | starts new bound _ eq => exact hstart new bound eq rfl rfl
  | permits _ eq => exact hchange eq .permit
  | inserts _ connected absent _ eq =>
      exact hchange eq (.insert connected.live connected.socket absent)
  | erases _ eq => exact hchange eq .erase
  | ends _ eq => exact hchange eq .done
  | tearsDown _ _ eq => exact hchange eq .tearDown

/-- A connection that exists is not created. -/
theorem Step.connection (hs : Step env s l s') {c : ConnectionId} (hc : c < s.connectionBound) :
    s'.connections c = s.connections c ∨ ConnectionStep (s.connections c) (s'.connections c) := by
  cases hs.connectionChange c with
  | same eq => exact .inl eq
  | change step => exact .inr step
  | start new _ _ _ => exact absurd new hc.ne

/-- `stop` creates nothing. -/
theorem Stops.bounds {o : OperationId} (h : Stops s o s') :
    s'.operationBound = s.operationBound ∧ s'.connectionBound = s.connectionBound := by
  cases h <;> exact ⟨rfl, rfl⟩

/-- Addresses are not used twice. -/
theorem Step.bounds (hs : Step env s l s') :
    s.operationBound ≤ s'.operationBound ∧ s.connectionBound ≤ s'.connectionBound := by
  cases hs
  case messageStop stops | forceStop stops | stopNext stops =>
    rw [stops.bounds.1, stops.bounds.2]
    exact ⟨le_rfl, le_rfl⟩
  case opened | httpMalformed | httpUnauthorized | httpFailed => exact ⟨le_rfl, Nat.le_succ _⟩
  case httpStarted => exact ⟨Nat.le_succ _, Nat.le_succ _⟩
  case messageStart => exact ⟨Nat.le_succ _, le_rfl⟩
  all_goals exact ⟨le_rfl, le_rfl⟩

/-- What an operation is made with stays. -/
theorem Step.fixed (hs : Step env s l s') {o : OperationId} (ho : o < s.operationBound) :
    (s'.operations o).id = (s.operations o).id ∧
      (s'.operations o).connection = (s.operations o).connection ∧
      (s'.operations o).isSubscription = (s.operations o).isSubscription := by
  rcases hs.operation o with heq | hchange | ⟨rfl, -⟩
  · rw [heq]
    exact ⟨rfl, rfl, rfl⟩
  · exact hchange.fixed
  · exact absurd ho (lt_irrefl _)

/-- An operation is known, or it has just been created. -/
theorem Step.created (hs : Step env s l s') {o : OperationId} (ho : o < s'.operationBound) :
    o < s.operationBound ∨ Creates env s s' o := by
  by_cases hknown : o < s.operationBound
  · exact .inl hknown
  right
  have hlast : s'.operationBound = s.operationBound + 1 → o = s.operationBound := by
    intro hbound
    rw [hbound] at ho
    exact le_antisymm (Nat.lt_succ_iff.mp ho) (not_lt.mp hknown)
  cases hs
  case httpStarted =>
    obtain rfl := hlast rfl
    exact ⟨rfl, rfl, _, _, _, _, _, Function.update_self .., .inl ⟨rfl, rfl⟩⟩
  case messageStart connected _ =>
    obtain rfl := hlast rfl
    exact ⟨rfl, rfl, _, _, _, _, _, Function.update_self .., .inr connected⟩
  case messageStop stops | forceStop stops | stopNext stops =>
    rw [stops.bounds.1] at ho
    exact absurd ho hknown
  all_goals exact absurd ho hknown

/-- A connection does not change its protocol. -/
theorem ConnectionStep.http {x x' : Connection} (h : ConnectionStep x x') : x'.http = x.http := by
  cases h <;> rfl

/-- What kind a connection is stays. -/
theorem Step.http (hs : Step env s l s') {c : ConnectionId} (hc : c < s.connectionBound) :
    (s'.connections c).http = (s.connections c).http := by
  rcases hs.connection hc with heq | hchange
  · rw [heq]
  · exact hchange.http

/-- `stop` posts no task. -/
theorem Stops.queue {o : OperationId} (h : Stops s o s') : s'.queue = s.queue := by
  cases h <;> rfl

/-- `stop` makes the main thread wait for the thread at most. -/
theorem Stops.frames {o : OperationId} (h : Stops s o s') :
    s'.frames = s.frames ∨ s'.frames = .join o :: s.frames := by
  cases h
  case subscription => exact .inr rfl
  all_goals exact .inl rfl

/-- A reply is no dispatch of a delivery. -/
theorem Answers.not_dispatch {c : ConnectionId} {t : Task} (h : Answers s c t) (o : OperationId) :
    t ≠ .dispatchPendingDelivery o := by
  unfold Answers at h
  split at h
  · obtain ⟨code, body, rfl⟩ := h
    exact nofun
  · obtain ⟨body, rfl⟩ := h
    exact nofun

/-- `Stops` is the graph of `stop`. -/
theorem Stops.eq {o : OperationId} (h : Stops s o s') : s' = s.stop o := by
  unfold State.stop
  cases h
  case already stopped => simp [stopped]
  case subscription running kind => simp [running, kind]
  case regular running kind => simp [running, kind]

/-- The tasks of the main thread: a step leaves them, posts one, or runs the first
one.  A delivery is to be dispatched when its timer has expired. -/
theorem Step.queue (hs : Step env s l s') :
    s'.queue = s.queue ∨
      (∃ t, s'.queue = s.queue ++ [t] ∧
        ∀ o, t = .dispatchPendingDelivery o → (s.operations o).deliveryTimer = .armed) ∨
      ∃ t, s.queue = t :: s'.queue ∧ s' = (s.dequeue s'.queue).run t := by
  cases hs
  case messageStop stops | stopNext stops => exact .inl stops.queue
  case forceStop idle next stops =>
    refine .inr (.inr ⟨_, by rw [stops.queue]; exact next, ?_⟩)
    rw [stops.queue]
    exact stops.eq
  case messageAnswered answers | messageAuthorized answers | replyData answers
    | replyComplete answers | replyDelivery answers =>
    exact .inr (.inl ⟨_, rfl, fun o heq => absurd heq (answers.not_dispatch o)⟩)
  case expireDelivery o₀ armed =>
    refine .inr (.inl ⟨_, rfl, ?_⟩)
    intro o heq
    cases heq
    exact armed
  case httpUnauthorized | httpFailed | messageTerminate | expireNotify | notifyInitial
    | deliveryFailed | slot => exact .inr (.inl ⟨_, rfl, nofun⟩)
  case dispatchStopped idle next stopped =>
    refine .inr (.inr ⟨_, next, ?_⟩)
    simp [State.run, State.dispatchPendingDelivery, stopped]
  case dispatch idle next running =>
    refine .inr (.inr ⟨_, next, ?_⟩)
    simp [State.run, State.dispatchPendingDelivery, running]
  case runNotify idle next | runDeliver idle next | sendHttp idle next | sendWebSocket idle next
    | terminate idle next => exact .inr (.inr ⟨_, next, rfl⟩)
  all_goals exact .inl rfl

/-- A task stays queued until it is run. -/
theorem Step.task (hs : Step env s l s') {t : Task} (ht : t ∈ s.queue) :
    t ∈ s'.queue ∨ s.queue = t :: s'.queue ∧ s' = (s.dequeue s'.queue).run t := by
  rcases hs.queue with heq | ⟨t', heq, -⟩ | ⟨t', heq, hrun⟩
  · exact .inl (heq ▸ ht)
  · exact .inl (by rw [heq]; exact List.mem_append_left _ ht)
  · rw [heq] at ht
    rcases List.mem_cons.mp ht with rfl | ht
    · exact .inr ⟨heq, hrun⟩
    · exact .inl ht

/-- A stopped operation is stopped. -/
theorem Stops.stopped {o : OperationId} (h : Stops s o s') : (s'.operations o).stopped = true := by
  cases h
  case already stopped => exact stopped
  all_goals simp

/-- Where a frame that the main thread enters comes from. -/
inductive Enters (s s' : State) : Frame → Prop
  | join {o} (running : (s.operations o).stopped = false)
      (kind : (s.operations o).isSubscription = true) : Enters s s' (.join o)
  | stopOperations {c} (done : (s'.connections c).live = false) :
      Enters s s' (.stopOperations ((s.connections c).operations.entries.map Sigma.snd))
  | stopRest {o remaining} (before : .stopOperations remaining ∈ s.frames)
      (stopped : (s'.operations o).stopped = true) :
      Enters s s' (.stopOperations (remaining.erase o))
  | tearDown {c} (done : (s'.connections c).live = false) : Enters s s' (.tearDown c)
  | erase {c id o} (entry : (s.connections c).operations.lookup id = some o)
      (stopped : (s'.operations o).stopped = true) : Enters s s' (.erase c id)
  | deliverNames {triggers} : Enters s s' (.deliverNames triggers)
  | deliver {keys remaining}
      (callable : ∀ o ∈ remaining, (∃ remaining, .deliver keys remaining ∈ s.frames ∧ o ∈ remaining) ∨
        ∃ r ∈ s.registrations, r.operation = o) :
      Enters s s' (.deliver keys remaining)

/-- The main thread waits only for a subscription that was running. -/
theorem Stops.enters {o : OperationId} {f : Frame} (h : Stops s o s') (hf : f ∈ s'.frames) :
    f ∈ s.frames ∨
      f = .join o ∧ (s.operations o).stopped = false ∧ (s.operations o).isSubscription = true := by
  cases h
  case subscription running kind =>
    rcases List.mem_cons.mp hf with rfl | hf
    · exact .inr ⟨rfl, running, kind⟩
    · exact .inl hf
  all_goals exact .inl hf

/-- The frames that a step leaves were there before, or the main thread has just
entered them. -/
theorem Step.enters (hs : Step env s l s') {f : Frame} (hf : f ∈ s'.frames) :
    f ∈ s.frames ∨ Enters s s' f := by
  have hpop : ∀ {g frames}, s.frames = g :: frames → f ∈ frames → f ∈ s.frames ∨ Enters s s' f := by
    intro g frames top hmem
    rw [top]
    exact .inl (.tail _ hmem)
  cases hs
  case messageStop c message key id payload o asks idle connected entry stops =>
    rcases stops.enters hf with hmem | ⟨rfl, running, kind⟩
    · obtain rfl := List.mem_singleton.mp hmem
      exact .inr (.erase entry stops.stopped)
    · exact .inr (.join running kind)
  case forceStop idle next stops =>
    rcases stops.enters hf with hmem | ⟨rfl, running, kind⟩
    · exact .inl hmem
    · exact .inr (.join running kind)
  case stopNext o remaining frames top mem stops =>
    rcases stops.enters hf with hmem | ⟨rfl, running, kind⟩
    · rcases List.mem_cons.mp hmem with rfl | hmem
      · exact .inr (.stopRest (by rw [top]; exact .head _) stops.stopped)
      · exact hpop top hmem
    · exact .inr (.join running kind)
  case closed c idle connected =>
    have hdone : ((s.onConnectionDone c).connections c).live = false := by
      simp [State.onConnectionDone]
    rcases List.mem_cons.mp hf with rfl | hmem
    · exact .inr (.stopOperations hdone)
    · rcases List.mem_cons.mp hmem with rfl | hmem
      · exact .inr (.tearDown hdone)
      · exact .inl hmem
  case sendHttp c code body queue idle next =>
    have hdone : ((((s.dequeue queue).change c fun x =>
        { x with sent := x.sent + 1 }).onConnectionDone c).connections c).live = false := by
      simp [State.onConnectionDone]
    rcases List.mem_cons.mp hf with rfl | hmem
    · simp only [State.change_connections, State.dequeue_connections, Function.update_self]
      exact .inr (.stopOperations hdone)
    · rcases List.mem_cons.mp hmem with rfl | hmem
      · exact .inr (.tearDown hdone)
      · exact .inl hmem
  case runDeliver =>
    rcases List.mem_cons.mp hf with rfl | hmem
    · exact .inr .deliverNames
    · exact .inl hmem
  case deliverName name keys triggers frames top mem =>
    rcases List.mem_cons.mp hf with rfl | hmem
    · refine .inr (.deliver fun o ho => .inr ?_)
      obtain ⟨r, hr, rfl⟩ := List.mem_map.mp ho
      exact ⟨r, List.mem_of_mem_filter hr, rfl⟩
    · rcases List.mem_cons.mp hmem with rfl | hmem
      · exact .inr .deliverNames
      · exact hpop top hmem
  case callbackIgnored o keys remaining frames top mem _
    | callback o keys remaining frames top mem _ _ =>
    rcases List.mem_cons.mp hf with rfl | hmem
    · refine .inr (.deliver fun o' ho' => .inl ⟨remaining, ?_, List.mem_of_mem_erase ho'⟩)
      rw [top]
      exact .head _
    · exact hpop top hmem
  case joined top _ _ | allStopped top | tearDown top | erase top | namesDone top
    | callbacksDone top => exact hpop top hf
  all_goals exact .inl hf

/-- Those whose callback is still to be called were so before, or are registered. -/
theorem Step.callbacks (hs : Step env s l s') {keys : Finset SubscriptionKey}
    {remaining : List OperationId} {o : OperationId} (h : .deliver keys remaining ∈ s'.frames)
    (ho : o ∈ remaining) :
    (∃ remaining, .deliver keys remaining ∈ s.frames ∧ o ∈ remaining) ∨
      ∃ r ∈ s.registrations, r.operation = o := by
  rcases hs.enters h with hold | henters
  · exact .inl ⟨remaining, hold, ho⟩
  · cases henters with
    | deliver callable => exact callable o ho

/-- The main thread comes to call an operation because its delivery timer expires, or
because it is registered. -/
theorem Step.called (hs : Step env s l s') {o : OperationId} (h : Called s' o) :
    Called s o ∨ (s.operations o).deliveryTimer = .armed ∨
      ∃ r ∈ s.registrations, r.operation = o := by
  rcases h with hqueue | ⟨keys, remaining, hframe, hmem⟩
  · rcases hs.queue with heq | ⟨t, heq, harmed⟩ | ⟨t, heq, -⟩
    · exact .inl (.inl (heq ▸ hqueue))
    · rw [heq] at hqueue
      rcases List.mem_append.mp hqueue with hold | hnew
      · exact .inl (.inl hold)
      · exact .inr (.inl (harmed o (List.mem_singleton.mp hnew).symm))
    · exact .inl (.inl (by rw [heq]; exact .tail _ hqueue))
  · rcases hs.callbacks hframe hmem with ⟨remaining', hold, hmem'⟩ | hregistered
    · exact .inl (.inr ⟨keys, remaining', hold, hmem'⟩)
    · exact .inr (.inr hregistered)

/-- What the main thread has done when it leaves a frame. -/
inductive Leaves (s s' : State) : Frame → Prop
  | join {o} (drained : (s.operations o).tasks = []) (idle : (s.operations o).worker = .idle) :
      Leaves s s' (.join o)
  | stopOperations {remaining}
      (stops : ∀ o ∈ remaining,
        (∃ remaining, .stopOperations remaining ∈ s'.frames ∧ o ∈ remaining) ∨
          (s'.operations o).stopped = true) :
      Leaves s s' (.stopOperations remaining)
  | tearDown {c} : Leaves s s' (.tearDown c)
  | erase {c id}
      (erased : s'.connections = Function.update s.connections c
        { s.connections c with operations := (s.connections c).operations.erase id }) :
      Leaves s s' (.erase c id)
  | deliverNames {triggers}
      (delivers : ∀ name keys, (name, keys) ∈ triggers →
        (∃ triggers, .deliverNames triggers ∈ s'.frames ∧ (name, keys) ∈ triggers) ∨
          .deliver keys ((s.registrations.filter fun r => r.name = name).map
            Registration.operation) ∈ s'.frames) :
      Leaves s s' (.deliverNames triggers)
  | deliver {keys remaining}
      (calls : ∀ o ∈ remaining,
        (∃ remaining, .deliver keys remaining ∈ s'.frames ∧ o ∈ remaining) ∨
          ((s.operations o).stopped = true ∨ (s.operations o).subscriptionKey ∉ keys) ∨
          s'.operations o = (s.operations o).schedule) :
      Leaves s s' (.deliver keys remaining)

/-- The main thread leaves only the frame on top, and not before it is done with it. -/
theorem Step.frame (hs : Step env s l s') {f : Frame} (hf : f ∈ s.frames) :
    f ∈ s'.frames ∨ Leaves s s' f := by
  have htop : ∀ {g frames}, s.frames = g :: frames → (∀ h ∈ frames, h ∈ s'.frames) →
      Leaves s s' g → f ∈ s'.frames ∨ Leaves s s' f := by
    intro g frames top hrest hleaves
    rw [top] at hf
    rcases List.mem_cons.mp hf with rfl | hf
    · exact .inr hleaves
    · exact .inl (hrest f hf)
  have hnone : s.frames = [] → False := by
    intro idle
    rw [idle] at hf
    cases hf
  cases hs
  case messageStop idle _ _ stops => exact (hnone idle).elim
  case forceStop idle next stops => exact (hnone idle).elim
  case runDeliver idle next => exact (hnone idle).elim
  case closed idle _ => exact (hnone idle).elim
  case sendHttp idle next => exact (hnone idle).elim
  case joined top drained idle => exact htop top (fun _ h => h) (.join drained idle)
  case allStopped top => exact htop top (fun _ h => h) (.stopOperations nofun)
  case tearDown top => exact htop top (fun _ h => h) .tearDown
  case erase top => exact htop top (fun _ h => h) (.erase rfl)
  case namesDone top => exact htop top (fun _ h => h) (.deliverNames nofun)
  case callbacksDone top => exact htop top (fun _ h => h) (.deliver nofun)
  case stopNext o remaining frames top mem stops =>
    have hframes : ∀ h ∈ .stopOperations (remaining.erase o) :: frames, h ∈ s'.frames := by
      intro h hh
      rcases stops.frames with heq | heq <;> rw [heq]
      · exact hh
      · exact .tail _ hh
    apply htop top (fun h hh => hframes h (.tail _ hh))
    refine .stopOperations fun o' mem' => ?_
    by_cases ho : o' = o
    · subst ho
      exact .inr stops.stopped
    · exact .inl ⟨_, hframes _ (.head _), (List.mem_erase_of_ne ho).mpr mem'⟩
  case deliverName name keys triggers frames top mem =>
    apply htop top (fun _ h => .tail _ (.tail _ h))
    refine .deliverNames fun name' keys' mem' => ?_
    by_cases heq : (name', keys') = (name, keys)
    · cases heq
      exact .inr (.head _)
    · exact .inl ⟨_, .tail _ (.head _), (List.mem_erase_of_ne heq).mpr mem'⟩
  case callbackIgnored o keys remaining frames top mem ignored =>
    apply htop top (fun _ h => .tail _ h)
    refine .deliver fun o' mem' => ?_
    by_cases ho : o' = o
    · subst ho
      exact .inr (.inl ignored)
    · exact .inl ⟨_, .head _, (List.mem_erase_of_ne ho).mpr mem'⟩
  case callback o keys remaining frames top mem running key =>
    apply htop top (fun _ h => .tail _ h)
    refine .deliver fun o' mem' => ?_
    by_cases ho : o' = o
    · subst ho
      exact .inr (.inr (Function.update_self ..))
    · exact .inl ⟨_, .head _, (List.mem_erase_of_ne ho).mpr mem'⟩
  all_goals exact .inl hf

/-- The registrations of the schema. -/
theorem Step.registrations (hs : Step env s l s') :
    s'.registrations = s.registrations ∨
      (∃ o key name, (s.operations o).worker = .subscribing ∧ (∀ r ∈ s.registrations, r.key ≠ key) ∧
        (s'.operations o).subscribed = true ∧ (s'.operations o).subscriptionKey = key ∧
        (s'.operations o).subscriptionName = name ∧
        s'.registrations = ⟨key, name, o⟩ :: s.registrations) ∨
      ∃ o, l = .worker o ∧ (s.operations o).worker = .unsubscribing ∧
        s'.operations o = { s.operations o with worker := .idle } ∧
        s'.registrations =
          s.registrations.filter fun r => r.key ≠ (s.operations o).subscriptionKey := by
  cases hs
  case messageStop stops | forceStop stops | stopNext stops => cases stops <;> exact .inl rfl
  case subscribed o key name subscribing fresh =>
    exact .inr (.inl ⟨o, key, name, subscribing, fresh, by simp, by simp, by simp, rfl⟩)
  case unsubscribe o unsubscribing => exact .inr (.inr ⟨o, rfl, unsubscribing, by simp, rfl⟩)
  all_goals exact .inl rfl

/-- How the operations depend on the rest of the server: the schema and the main
thread know subscriptions only. -/
structure Wired (s : State) : Prop where
  valid : ∀ o, (s.operations o).Valid
  unknown : ∀ o, s.operationBound ≤ o → (s.operations o).isSubscription = false
  registered : ∀ r ∈ s.registrations, (s.operations r.operation).isSubscription = true
  called : ∀ o, Called s o → (s.operations o).isSubscription = true

/-- A subscription has been created. -/
theorem Wired.known (h : Wired s) {o : OperationId} (ho : (s.operations o).isSubscription = true) :
    o < s.operationBound := by
  by_contra hbound
  have hunknown := h.unknown o (not_lt.mp hbound)
  simp [ho] at hunknown

/-- A subscription stays one. -/
theorem Wired.kind (h : Wired s) (hs : Step env s l s') {o : OperationId}
    (ho : (s.operations o).isSubscription = true) : (s'.operations o).isSubscription = true :=
  (hs.fixed (h.known ho)).2.2.trans ho

/-- Who is in a task of subscriptions is a subscription. -/
theorem Operation.Valid.of_subscription {x : Operation} (h : x.Valid)
    (hx : x.worker.ofSubscription = true) :
    x.isSubscription = true := by
  by_contra hkind
  have hregular := (h.regular (by simpa using hkind)).1
  simp [hx] at hregular

/-- Every step keeps the registrations and callbacks those of subscriptions. -/
theorem Wired.step (h : Wired s) (hs : Step env s l s') : Wired s' where
  valid := hs.forall_operations (.new env) (fun o _ hx hvalid => hvalid.step hx (h.called o)) h.valid
  unknown := by
    intro o ho
    rcases hs.operation o with heq | hchange | ⟨rfl, hbound, -⟩
    · rw [heq]
      exact h.unknown o (hs.bounds.1.trans ho)
    · rw [hchange.fixed.2.2]
      exact h.unknown o (hs.bounds.1.trans ho)
    · rw [hbound] at ho
      exact absurd ho (Nat.not_succ_le_self _)
  registered := by
    intro r hr
    rcases hs.registrations with heq | ⟨o, key, name, hsubscribing, -, -, -, -, heq⟩ |
      ⟨o, -, -, -, heq⟩
    · exact h.kind hs (h.registered r (heq ▸ hr))
    · rw [heq] at hr
      rcases List.mem_cons.mp hr with rfl | hr
      · apply h.kind hs
        exact (h.valid o).of_subscription (by rw [hsubscribing]; rfl)
      · exact h.kind hs (h.registered r hr)
    · rw [heq] at hr
      exact h.kind hs (h.registered r (List.mem_of_mem_filter hr))
  called := by
    intro o ho
    apply h.kind hs
    rcases hs.called ho with hcalled | harmed | ⟨r, hr, rfl⟩
    · exact h.called o hcalled
    · by_contra hkind
      have htimer := ((h.valid o).regular (by simpa using hkind)).2.2.1
      simp [harmed] at htimer
    · exact h.registered r hr

/-- The server is wired in every run. -/
theorem Reach.wired {ok : State → Label → Prop} (h : Runs.Reach (step env) ok initial s) :
    Wired s := by
  apply h.invariant (I := Wired)
  · constructor
    · intro o
      constructor <;> simp [initial, Worker.ofSubscription]
    · intro o _
      rfl
    · intro r hr
      cases hr
    · intro o ho
      rcases ho with hqueue | ⟨keys, remaining, hframe, -⟩
      · cases hqueue
      · cases hframe
  · intro s l s' hs _ hstep
    exact hs.step (step_cases hstep)

end GraphQLServer
