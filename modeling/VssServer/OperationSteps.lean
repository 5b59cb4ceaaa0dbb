import VssServer.ServerSteps

/-!
# What one step can do to one operation

Most steps of the server change one operation only.  `OperationStep` lists these
changes without the rest of the server; a property of single operations that
they keep holds of every operation in every run.  Some of the changes are one end
of a hand-over between threads; `Effects` is the other end, what is true of the
rest of the server when they happen.

* `OperationStep`: the changes of an operation, and what is true of the rest of the server.
* `Step.operation`: a step leaves an operation, changes it in one of these ways, or creates
  it.
* `Step.forall_operations`: what every change keeps holds of every operation.
-/

namespace GraphQLServer

open Response Permissions

/-- What is true of the rest of the server when an operation changes: the main
thread waits for its thread, had to call it, its delivery is queued to be
dispatched, it is registered, a notification with its key is queued, a signal slot
of it has begun, its connection has such a handler to copy, a resolution of it is
done, no registration has its key. -/
structure Effects where
  joins : Prop
  called : Prop
  dispatches : Prop
  registers : Prop
  notifies : Prop
  signals : Prop
  copies : Bool → Prop
  resolves : Prop
  unregisters : Prop

/-- The changes of an operation. -/
inductive OperationStep (e : Effects) (x : Operation) : Operation → Prop
  | stopSubscription (hjoins : e.joins) (running : x.stopped = false)
      (kind : x.isSubscription = true) :
      OperationStep e x
        { x with
          stopped := true
          deliveryTimer := .unset
          pendingDelivery := false
          tasks := x.tasks ++ [.unsubscribe] }
  | stopRegular (running : x.stopped = false) (kind : x.isSubscription = false) :
      OperationStep e x { x with stopped := true }
  | expire (hdispatches : e.dispatches) (armed : x.deliveryTimer = .armed) :
      OperationStep e x { x with deliveryTimer := .expired }
  | dispatch (hcalled : e.called) (running : x.stopped = false) :
      OperationStep e x
        { x with
          deliveryTimer := .unset
          pendingDelivery := false
          tasks := x.tasks ++ [.resolveSubscription x.pendingDelivery] }
  | schedule (hcalled : e.called) (running : x.stopped = false) : OperationStep e x x.schedule
  | takeStopped {t tasks dirty} (idle : x.worker = .idle) (next : x.tasks = t :: tasks)
      (stopped : x.stopped = true) (kind : t ≠ .unsubscribe)
      (clears : dirty = true → x.dirty = true) :
      OperationStep e x { x with tasks := tasks, dirty := dirty }
  | takeResolve {tasks onReply} (hcopies : e.copies onReply) (idle : x.worker = .idle)
      (next : x.tasks = .resolve :: tasks) (running : x.stopped = false) :
      OperationStep e x { x with tasks := tasks, worker := .resolving onReply }
  | takeSubscribe {tasks} (idle : x.worker = .idle) (next : x.tasks = .subscribe :: tasks)
      (running : x.stopped = false) :
      OperationStep e x { x with tasks := tasks, worker := .subscribing }
  | takeDelivery {tasks onReply} (hcopies : e.copies onReply) (idle : x.worker = .idle)
      (next : x.tasks = .resolveSubscription true :: tasks) (running : x.stopped = false) :
      OperationStep e x { x with tasks := tasks, dirty := false, worker := .delivering onReply none }
  | takeUnsubscribe {tasks} (idle : x.worker = .idle) (next : x.tasks = .unsubscribe :: tasks) :
      OperationStep e x { x with tasks := tasks, signals := 0, worker := .unsubscribing }
  | validate {permission rest} (resolves : x.worker.resolves = true) :
      OperationStep e x
        { x with
          request := (x.request.validate permission rest).2
          checked :=
            if x.request.didPermissionsCheck then x.checked
            else permission :: rest ++ x.checked }
  | observe (resolves : x.worker.resolves = true) (kind : x.isSubscription = true) :
      OperationStep e x { x with signals := x.signals + 1 }
  | resolvedStopped
      (resolving : (∃ b, x.worker = .resolving b) ∨ ∃ b document, x.worker = .delivering b document)
      (stopped : x.stopped = true) : OperationStep e x { x with worker := .idle }
  | resolved {onReply response} (resolving : x.worker = .resolving onReply)
      (running : x.stopped = false) :
      OperationStep e x { x with worker := .replying onReply response }
  | deliveryResolved {onReply document response} (hresolves : e.resolves)
      (delivering : x.worker = .delivering onReply document) (running : x.stopped = false) :
      OperationStep e x { x with worker := .deliveryReplying onReply response }
  | subscribed {key name} (hregisters : e.registers) (subscribing : x.worker = .subscribing) :
      OperationStep e x
        { x with
          subscriptionKey := key
          subscriptionName := name
          subscribed := true
          worker := .notifying }
  | subscribeFailed {w} (hcopies : ∀ b document, w = .delivering b document → e.copies b)
      (subscribing : x.worker = .subscribing)
      (next : w = .idle ∨ ∃ b document, w = .delivering b (some document)) :
      OperationStep e x { x with pendingDelivery := false, worker := w }
  | replyData {onReply response} (replying : x.worker = .replying onReply response) :
      OperationStep e x { x with worker := .completing onReply }
  | replyComplete {onReply} (completing : x.worker = .completing onReply) :
      OperationStep e x { x with worker := .completed, completeSent := true }
  | complete (completed : x.worker = .completed) :
      OperationStep e x { x with stopped := true, worker := .idle }
  | notifyInitial (hnotifies : e.notifies) (notifying : x.worker = .notifying) :
      OperationStep e x { x with worker := .idle, dirty := true }
  | replyDelivery {onReply response} (replying : x.worker = .deliveryReplying onReply response) :
      OperationStep e x { x with worker := .delivered }
  | deliveryFailed (delivered : x.worker = .delivered) : OperationStep e x { x with worker := .idle }
  | deliveryPassed (delivered : x.worker = .delivered) :
      OperationStep e x { x with worker := .idle, request := x.request.finishDelivery }
  | unsubscribe (hunregisters : e.unregisters) (unsubscribing : x.worker = .unsubscribing) :
      OperationStep e x { x with worker := .idle }
  | signal (hsignals : e.signals) (observed : 0 < x.signals) : OperationStep e x { x with dirty := true }

variable {env : Environment} {s s' : State} {l : Label}

/-- The main thread has been told to call `o`: its delivery is to be dispatched, or
its callback is among those of the name being delivered. -/
def Called (s : State) (o : OperationId) : Prop :=
  .dispatchPendingDelivery o ∈ s.queue ∨
    ∃ keys remaining, .deliver keys remaining ∈ s.frames ∧ o ∈ remaining

/-- The registration that the subscribe of `o` creates. -/
def State.registration (s : State) (o : OperationId) : Registration :=
  ⟨(s.operations o).subscriptionKey, (s.operations o).subscriptionName, o⟩

/-- What a step does around the operation `o`. -/
def effects (s : State) (l : Label) (s' : State) (o : OperationId) : Effects where
  joins := .join o ∈ s'.frames
  called := Called s o
  dispatches := .dispatchPendingDelivery o ∈ s'.queue
  registers := s'.registrations = s'.registration o :: s.registrations
  notifies := (s.operations o).notification ∈ s'.queue
  signals := o ∈ s'.slots
  copies b := b = (s.connections (s.operations o).connection).handlers
  resolves := ∃ response, l = .resolved o response
  unregisters :=
    s'.registrations = s.registrations.filter fun r => r.key ≠ (s.operations o).subscriptionKey

/-- The operation a step creates, for a new connection or one that has sent a message. -/
def Creates (env : Environment) (s s' : State) (o : OperationId) : Prop :=
  o = s.operationBound ∧ s'.operationBound = s.operationBound + 1 ∧
    ∃ id c permissions sub key,
      s'.operations o = newOperation env id c permissions sub key ∧
        (c = s.connectionBound ∧ s'.connectionBound = c + 1 ∨ Connected s c)

theorem Stops.operation {o₀ o : OperationId} {e : Effects} (h : Stops s o₀ s')
    (hjoins : .join o ∈ s'.frames → e.joins) :
    s'.operations o = s.operations o ∨
      OperationStep e (s.operations o) (s'.operations o) := by
  cases h with
  | already => exact .inl rfl
  | subscription running kind =>
      by_cases ho : o = o₀
      · subst ho
        right
        simp only [State.goto_operations, State.modify_operations, Function.update_self]
        exact .stopSubscription (hjoins (.head _)) running kind
      · exact .inl (by simp [ho])
  | regular running kind =>
      by_cases ho : o = o₀
      · subst ho
        right
        simp only [State.modify_operations, Function.update_self]
        exact .stopRegular running kind
      · exact .inl (by simp [ho])

/-- What the change of one operation does not bring about was there before. -/
theorem operations_reflect {P : Operation → Prop} {o₀ o : OperationId} {x' : Operation}
    (hchange : s'.operations = Function.update s.operations o₀ x')
    (hx' : P x' → P (s.operations o₀)) (h : P (s'.operations o)) : P (s.operations o) := by
  rw [hchange] at h
  by_cases ho : o = o₀
  · subst ho
    rw [Function.update_self] at h
    exact hx' h
  · rwa [Function.update_of_ne ho] at h

private theorem modified {o₀ o : OperationId} {x' : Operation}
    (hchange : s'.operations = Function.update s.operations o₀ x')
    (hx' : OperationStep (effects s l s' o₀) (s.operations o₀) x') :
    s'.operations o = s.operations o ∨
      OperationStep (effects s l s' o) (s.operations o) (s'.operations o) := by
  rw [hchange]
  by_cases ho : o = o₀
  · subst ho
    rw [Function.update_self]
    exact .inr hx'
  · exact .inl (Function.update_of_ne ho _ _)

private theorem created {c : ConnectionId} {id : String}
    {permissions : Option ClientPermissions} {sub : Bool} {key : SubscriptionKey}
    (hnew : s'.operations = Function.update s.operations s.operationBound
      (newOperation env id c permissions sub key))
    (hbound : s'.operationBound = s.operationBound + 1)
    (hc : c = s.connectionBound ∧ s'.connectionBound = c + 1 ∨ Connected s c) (o : OperationId) :
    s'.operations o = s.operations o ∨ Creates env s s' o := by
  by_cases ho : o = s.operationBound
  · subst ho
    exact .inr ⟨rfl, hbound, id, c, permissions, sub, key, hnew ▸ Function.update_self .., hc⟩
  · exact .inl (hnew ▸ Function.update_of_ne ho _ _)

/-- **One operation.**  A step leaves an operation as it is, changes it in one of
the listed ways, or creates it. -/
theorem Step.operation (hs : Step env s l s') (o : OperationId) :
    s'.operations o = s.operations o ∨
      OperationStep (effects s l s' o) (s.operations o) (s'.operations o) ∨ Creates env s s' o := by
  rw [← or_assoc]
  cases hs
  case httpStarted => exact (created rfl rfl (.inl ⟨rfl, rfl⟩) o).imp_left .inl
  case messageStart connected _ => exact (created rfl rfl (.inr connected) o).imp_left .inl
  case messageStop stops | forceStop stops | stopNext stops => exact .inl (stops.operation id)
  case expireDelivery armed => exact .inl (modified rfl (.expire (by simp [effects]) armed))
  case dispatch o₀ queue idle next running =>
    have hcalled : Called s o₀ := .inl (by simp [next])
    exact .inl (modified rfl (.dispatch hcalled running))
  case callback o₀ keys remaining frames top mem running key =>
    have hcalled : Called s o₀ := .inr ⟨keys, remaining, by simp [top], mem⟩
    exact .inl (modified rfl (.schedule hcalled running))
  case takeStopped idle next stopped kind =>
    refine .inl (modified rfl (.takeStopped idle next stopped kind ?_))
    split <;> simp
  case takeResolve idle next running =>
    exact .inl (modified rfl (.takeResolve rfl idle next running))
  case takeSubscribe idle next running =>
    exact .inl (modified rfl (.takeSubscribe idle next running))
  case takeDelivery idle next running =>
    exact .inl (modified rfl (.takeDelivery rfl idle next running))
  case takeUnsubscribe idle next => exact .inl (modified rfl (.takeUnsubscribe idle next))
  case validate resolves => exact .inl (modified rfl (.validate resolves))
  case observe resolves kind => exact .inl (modified rfl (.observe resolves kind))
  case resolvedStopped resolving stopped =>
    exact .inl (modified rfl (.resolvedStopped resolving stopped))
  case resolved resolving running => exact .inl (modified rfl (.resolved resolving running))
  case deliveryResolved delivering running =>
    exact .inl (modified rfl (.deliveryResolved ⟨_, rfl⟩ delivering running))
  case subscribed subscribing fresh =>
    exact .inl (modified rfl (.subscribed (by simp [effects, State.registration]) subscribing))
  case subscribeFailed copies subscribing next =>
    exact .inl (modified rfl (.subscribeFailed copies subscribing next))
  case replyData replying answers => exact .inl (modified rfl (.replyData replying))
  case replyComplete completing _ _ => exact .inl (modified rfl (.replyComplete completing))
  case httpComplete completing _ => exact .inl (modified rfl (.replyComplete completing))
  case complete completed => exact .inl (modified rfl (.complete completed))
  case notifyInitial notifying =>
    exact .inl (modified rfl (.notifyInitial (by simp [effects]) notifying))
  case replyDelivery replying answers => exact .inl (modified rfl (.replyDelivery replying))
  case deliveryFailed delivered _ => exact .inl (modified rfl (.deliveryFailed delivered))
  case deliveryPassed delivered _ => exact .inl (modified rfl (.deliveryPassed delivered))
  case unsubscribe unsubscribing => exact .inl (modified rfl (.unsubscribe rfl unsubscribing))
  case signal observed => exact .inl (modified rfl (.signal (by simp [effects]) observed))
  all_goals exact .inl (.inl rfl)

/-- **Local invariants.**  What new operations have and every change keeps, every
operation has. -/
theorem Step.forall_operations {P : Operation → Prop} (hs : Step env s l s')
    (hnew : ∀ id c permissions sub key, P (newOperation env id c permissions sub key))
    (hstep : ∀ o x', OperationStep (effects s l s' o) (s.operations o) x' → P (s.operations o) → P x')
    (h : ∀ o, P (s.operations o)) :
    ∀ o, P (s'.operations o) := by
  intro o
  rcases hs.operation o with heq | hchange | ⟨-, -, id, c, permissions, sub, key, heq, -⟩
  · rw [heq]
    exact h o
  · exact hstep _ _ hchange (h o)
  · rw [heq]
    exact hnew id c permissions sub key

end GraphQLServer
