import Mathlib.Algebra.BigOperators.Group.Finset.Basic
import Mathlib.Algebra.GroupWithZero.Nat
import VssServer.Measures
import VssServer.TearDown

/-!
# How much the server has still to do

A step that the server takes by itself, without its clients, the resolvers and the
attributes, makes the state lighter: what it posts, enters or arms weighs less than
what it takes, leaves or lets expire.  The loop over the registrations of a name is
what makes this more than a count of tasks; a name weighs as much as the callbacks
of all operations, of which there are no more than `operationBound`.

* `State.load`: what a server weighs.
* `Step.load_lt`: every step that it takes by itself makes it lighter.
-/

namespace GraphQLServer

open Response Permissions Finset Measures

/-- The server goes on by itself. -/
def Label.internal : Label → Bool
  | .expireNotify | .expireDelivery _ | .main | .stopNext _ | .deliverName _
  | .onFutureSubscription _ | .take _ | .resolved _ _ | .subscribe _ _ | .worker _ | .slot _ =>
      true
  | _ => false

def Timer.weight (armed : Nat) : Timer → Nat
  | .armed => armed
  | _ => 0

/-- The weight of a name that `deliver` is to be called for, with `n` operations. -/
def nameWeight (n : Nat) : Nat := 12 * n + 2

/-- The weight of a notification: it adds a name and arms the timer. -/
def notifyWeight (n : Nat) : Nat := nameWeight n + 4

def Worker.weight (n : Nat) : Worker → Nat
  | .idle => 0
  | .completed | .unsubscribing => 1
  | .delivered => 2
  | .completing _ => 6
  | .deliveryReplying _ _ => 7
  | .delivering _ _ => 8
  | .replying _ _ => 11
  | .resolving _ => 12
  | .notifying => notifyWeight n + 1
  | .subscribing => notifyWeight n + 10

def ThreadTask.weight (n : Nat) : ThreadTask → Nat
  | .resolve => 13
  | .subscribe => notifyWeight n + 11
  | .resolveSubscription _ => 9
  | .unsubscribe => 2

def tasksWeight (n : Nat) (tasks : List ThreadTask) : Nat :=
  (tasks.map (ThreadTask.weight n)).sum

/-- An operation that runs has still to be stopped: it unsubscribes and is joined. -/
def Operation.weight (n : Nat) (x : Operation) : Nat :=
  (if x.stopped then 0 else 3) + x.deliveryTimer.weight 11 + tasksWeight n x.tasks +
    x.worker.weight n

def Task.weight (n : Nat) : Task → Nat
  | .notifyInMainThread _ _ => notifyWeight n
  | .deliverNotifications => 2
  | .dispatchPendingDelivery _ => 10
  | .sendHttp _ _ _ => 4
  | .sendWebSocket _ _ | .terminate _ | .stop _ => 1

def queueWeight (n : Nat) (queue : List Task) : Nat :=
  (queue.map (Task.weight n)).sum

def Frame.weight (n : Nat) : Frame → Nat
  | .join _ | .tearDown _ | .erase _ _ => 1
  | .stopOperations remaining => remaining.length + 1
  | .deliverNames triggers => triggers.length * nameWeight n + 1
  | .deliver _ remaining => remaining.length * 12 + 1

def framesWeight (n : Nat) (frames : List Frame) : Nat :=
  (frames.map (Frame.weight n)).sum

/-- The weight of the main thread's work and of what is collected for it. -/
def State.mainWeight (s : State) (n : Nat) : Nat :=
  queueWeight n s.queue + framesWeight n s.frames + s.notifyTimer.weight 3 +
    s.pendingNotifyTriggers.entries.length * nameWeight n + s.slots.length * (notifyWeight n + 1)

/-- The weight of the operations. -/
def State.operationsWeight (s : State) (n : Nat) : Nat :=
  ∑ o ∈ range s.operationBound, (s.operations o).weight n

/-- An entry of a connection that is closed becomes an operation to be stopped. -/
def State.entriesWeight (s : State) : Nat :=
  ∑ c ∈ range s.connectionBound, (s.connections c).operations.entries.length

def State.load (s : State) (n : Nat) : Nat :=
  s.mainWeight n + s.operationsWeight n + s.entriesWeight

/-- Nothing is left to do when the process has ended. -/
def State.weight (s : State) : Nat :=
  if s.aborted then 0 else s.load s.operationBound + 1

section Lists

variable {n : Nat}

/-- A thread without tasks has nothing to do. -/
@[simp]
theorem tasksWeight_nil : tasksWeight n [] = 0 := rfl

/-- The first task and the others. -/
@[simp]
theorem tasksWeight_cons {t : ThreadTask} {tasks : List ThreadTask} :
    tasksWeight n (t :: tasks) = t.weight n + tasksWeight n tasks := by
  simp [tasksWeight]

/-- A task that is queued. -/
@[simp]
theorem tasksWeight_append {tasks : List ThreadTask} {t : ThreadTask} :
    tasksWeight n (tasks ++ [t]) = tasksWeight n tasks + t.weight n := by
  simp [tasksWeight]

/-- The next task of the main thread and the others. -/
@[simp]
theorem queueWeight_cons {t : Task} {queue : List Task} :
    queueWeight n (t :: queue) = t.weight n + queueWeight n queue := by
  simp [queueWeight]

/-- A task that is posted. -/
@[simp]
theorem queueWeight_append {t : Task} {queue : List Task} :
    queueWeight n (queue ++ [t]) = queueWeight n queue + t.weight n := by
  simp [queueWeight]

/-- An idle main thread has no handler to finish. -/
@[simp]
theorem framesWeight_nil : framesWeight n [] = 0 := rfl

/-- The handler that runs, and those it has interrupted. -/
@[simp]
theorem framesWeight_cons {f : Frame} {frames : List Frame} :
    framesWeight n (f :: frames) = f.weight n + framesWeight n frames := by
  simp [framesWeight]

end Lists

section Load

variable {s : State} {n : Nat}

/-- A change of one operation changes the load by its weight. -/
theorem State.load_modify {o : OperationId} (ho : o < s.operationBound)
    (f : Operation → Operation) :
    (s.modify o f).load n + (s.operations o).weight n =
      s.load n + (f (s.operations o)).weight n := by
  have hsum := sum_update (mem_range.mpr ho) (Operation.weight n) s.operations (f (s.operations o))
  have hmain : (s.modify o f).mainWeight n = s.mainWeight n := rfl
  have hentries : (s.modify o f).entriesWeight = s.entriesWeight := rfl
  simp only [State.load, hmain, hentries, State.operationsWeight, State.modify_operations,
    State.modify_operationBound]
  omega

/-- An operation that is not known does not count. -/
theorem State.load_modify_unknown {o : OperationId} (ho : s.operationBound ≤ o)
    (f : Operation → Operation) : (s.modify o f).load n = s.load n := by
  have hsum := sum_update_other (mem_range.not.mpr ho.not_gt) (Operation.weight n) s.operations
    (f (s.operations o))
  have hmain : (s.modify o f).mainWeight n = s.mainWeight n := rfl
  have hentries : (s.modify o f).entriesWeight = s.entriesWeight := rfl
  simp only [State.load, hmain, hentries, State.operationsWeight, State.modify_operations,
    State.modify_operationBound, hsum]

/-- A change of one connection changes the load by its entries. -/
theorem State.load_change {c : ConnectionId} (hc : c < s.connectionBound)
    (f : Connection → Connection) :
    (s.change c f).load n + (s.connections c).operations.entries.length =
      s.load n + (f (s.connections c)).operations.entries.length := by
  have hsum := sum_update (mem_range.mpr hc) (fun x => x.operations.entries.length) s.connections
    (f (s.connections c))
  have hmain : (s.change c f).mainWeight n = s.mainWeight n := rfl
  have hoperations : (s.change c f).operationsWeight n = s.operationsWeight n := rfl
  simp only [State.load, hmain, hoperations, State.entriesWeight, State.change_connections,
    State.change_connectionBound]
  omega

/-- A connection that does not exist yet weighs nothing. -/
theorem State.load_change_unknown {c : ConnectionId} (hc : s.connectionBound ≤ c)
    (f : Connection → Connection) : (s.change c f).load n = s.load n := by
  have hsum := sum_update_other (mem_range.not.mpr hc.not_gt)
    (fun x => x.operations.entries.length) s.connections (f (s.connections c))
  have hmain : (s.change c f).mainWeight n = s.mainWeight n := rfl
  have hoperations : (s.change c f).operationsWeight n = s.operationsWeight n := rfl
  simp only [State.load, hmain, hoperations, State.entriesWeight, State.change_connections,
    State.change_connectionBound, hsum]

/-- A change that adds no entry adds nothing to the load. -/
theorem State.load_change_le (c : ConnectionId) (f : Connection → Connection)
    (hle : (f (s.connections c)).operations.entries.length ≤
      (s.connections c).operations.entries.length) :
    (s.change c f).load n ≤ s.load n := by
  by_cases hc : c < s.connectionBound
  · have hchange := State.load_change (n := n) hc f
    omega
  · exact (State.load_change_unknown (not_lt.mp hc) f).le

/-- A posted task weighs on the server. -/
theorem State.load_defer (t : Task) : (s.defer t).load n = s.load n + t.weight n := by
  have hqueue : queueWeight n (s.queue ++ [t]) = queueWeight n s.queue + t.weight n :=
    queueWeight_append
  simp only [State.load, State.mainWeight, State.operationsWeight, State.entriesWeight,
    State.defer_queue, State.defer_frames, State.defer_notifyTimer, State.defer_slots,
    State.defer_pendingNotifyTriggers, State.defer_operations, State.defer_operationBound,
    State.defer_connections, State.defer_connectionBound] at *
  omega

/-- A task that is taken does not. -/
theorem State.load_dequeue {t : Task} {queue : List Task} (next : s.queue = t :: queue) :
    (s.dequeue queue).load n + t.weight n = s.load n := by
  have hqueue : queueWeight n s.queue = t.weight n + queueWeight n queue :=
    next ▸ queueWeight_cons
  simp only [State.load, State.mainWeight, State.operationsWeight, State.entriesWeight,
    State.dequeue_queue, State.dequeue_frames, State.dequeue_notifyTimer, State.dequeue_slots,
    State.dequeue_pendingNotifyTriggers, State.dequeue_operations, State.dequeue_operationBound,
    State.dequeue_connections, State.dequeue_connectionBound] at *
  omega

/-- The main thread goes from some frames to others. -/
theorem State.load_goto (frames : List Frame) :
    (s.goto frames).load n + framesWeight n s.frames = s.load n + framesWeight n frames := by
  simp only [State.load, State.mainWeight, State.operationsWeight, State.entriesWeight,
    State.goto_queue, State.goto_frames, State.goto_notifyTimer, State.goto_slots,
    State.goto_pendingNotifyTriggers, State.goto_operations, State.goto_operationBound,
    State.goto_connections, State.goto_connectionBound]
  omega

end Load

variable {env : Environment} {s s' : State} {l : Label}

/-- Only messages and requests create operations and connections. -/
theorem Step.internal_bounds (hs : Step env s l s') (hl : l.internal = true) :
    s'.operationBound = s.operationBound ∧ s'.connectionBound = s.connectionBound := by
  cases hs
  case forceStop stops | stopNext stops => exact stops.bounds
  all_goals first
    | exact ⟨rfl, rfl⟩
    | cases hl

/-- No two registrations get the same key. -/
theorem Step.keys_nodup (hs : Step env s l s')
    (hnodup : (s.registrations.map Registration.key).Nodup) :
    (s'.registrations.map Registration.key).Nodup := by
  rcases hs.registrations with heq | ⟨o, key, name, -, hfresh, -, -, -, heq⟩ | ⟨o, -, -, -, heq⟩
  · rw [heq]
    exact hnodup
  · rw [heq, List.map_cons]
    refine List.nodup_cons.mpr ⟨?_, hnodup⟩
    intro hmem
    obtain ⟨r, hr, hkey⟩ := List.mem_map.mp hmem
    exact hfresh r hr hkey
  · rw [heq]
    exact hnodup.sublist (List.filter_sublist.map _)

/-- The registrations have different keys. -/
theorem Reach.keys_nodup {ok : State → Label → Prop} (h : Runs.Reach (step env) ok initial s) :
    (s.registrations.map Registration.key).Nodup := by
  apply h.invariant (I := fun s => (s.registrations.map Registration.key).Nodup)
  · exact List.nodup_nil
  · intro s l s' hs _ hstep
    exact (step_cases hstep).keys_nodup hs

/-- There are no more registrations than operations. -/
theorem registrations_length (hw : Wired s) (ho : Owned s)
    (hkeys : (s.registrations.map Registration.key).Nodup) :
    s.registrations.length ≤ s.operationBound := by
  have hnodup : (s.registrations.map Registration.operation).Nodup := by
    refine (List.Nodup.of_map _ hkeys).map_on ?_
    intro r hr r' hr' heq
    rw [(ho r hr).2, (ho r' hr').2, heq]
  have hsubset : (s.registrations.map Registration.operation).toFinset ⊆
      Finset.range s.operationBound := by
    intro o hmem
    obtain ⟨r, hr, rfl⟩ := List.mem_map.mp (List.mem_toFinset.mp hmem)
    exact Finset.mem_range.mpr (hw.known (hw.registered r hr))
  have hcard := Finset.card_le_card hsubset
  rw [List.toFinset_card_of_nodup hnodup, Finset.card_range, List.length_map] at hcard
  exact hcard

/-- What does not exist has nothing to do: the threads of unknown operations, and unknown
connections, which have no entries. -/
structure Vacant (s : State) : Prop where
  operations : ∀ o, s.operationBound ≤ o →
    (s.operations o).tasks = [] ∧ (s.operations o).worker = .idle
  connections : ∀ c, s.connectionBound ≤ c → (s.connections c).operations = ∅

/-- What does not exist yet has nothing to do. -/
theorem vacant (hh : Handled s) (he : Entries s) : Vacant s where
  operations := hh.unknown
  connections c hc := he.closed c (he.unknown c hc)

/-- What a thread is at belongs to a known operation. -/
theorem Vacant.known (h : Vacant s) {o : OperationId}
    (hbusy : (s.operations o).tasks ≠ [] ∨ (s.operations o).worker ≠ .idle) :
    o < s.operationBound := by
  by_contra hunknown
  obtain ⟨htasks, hworker⟩ := h.operations o (not_lt.mp hunknown)
  exact hbusy.elim (· htasks) (· hworker)

/-- To stop an operation adds nothing to the load: its `unsubscribe` and `join` are a part of
the weight that it had while it was running. -/
theorem Stops.load_le {o : OperationId} {n : Nat} (h : Stops s o s')
    (hknown : (s.operations o).isSubscription = true → o < s.operationBound) :
    s'.load n ≤ s.load n := by
  cases h with
  | already => exact le_rfl
  | subscription running kind =>
      have hmodify := State.load_modify (n := n) (hknown kind) fun x =>
        { x with
          stopped := true
          deliveryTimer := .unset
          pendingDelivery := false
          tasks := x.tasks ++ [.unsubscribe] }
      have hgoto := State.load_goto (n := n) (s := s.modify o fun x =>
        { x with
          stopped := true
          deliveryTimer := .unset
          pendingDelivery := false
          tasks := x.tasks ++ [.unsubscribe] }) (.join o :: s.frames)
      simp only [Operation.weight, running, tasksWeight_append, ThreadTask.weight, Timer.weight,
        State.modify_frames, framesWeight_cons, Frame.weight] at hmodify hgoto
      simp only [Bool.false_eq_true, if_false, if_true] at hmodify
      omega
  | regular running kind =>
      by_cases ho : o < s.operationBound
      · have hmodify := State.load_modify (n := n) ho fun x => { x with stopped := true }
        simp only [Operation.weight, running] at hmodify
        simp only [Bool.false_eq_true, if_false, if_true] at hmodify
        omega
      · rw [State.load_modify_unknown (not_lt.mp ho)]

/-- An operation gets lighter. -/
theorem State.load_modify_lt {o : OperationId} {n : Nat} (ho : o < s.operationBound)
    (f : Operation → Operation)
    (hlt : (f (s.operations o)).weight n < (s.operations o).weight n) :
    (s.modify o f).load n < s.load n := by
  have hmodify := State.load_modify (n := n) ho f
  omega

/-- An operation gets lighter by more than the task that it posts. -/
theorem State.load_post_lt {o : OperationId} {n : Nat} {t : Task} (ho : o < s.operationBound)
    (f : Operation → Operation)
    (hlt : (f (s.operations o)).weight n + t.weight n < (s.operations o).weight n) :
    ((s.modify o f).defer t).load n < s.load n := by
  have hmodify := State.load_modify (n := n) ho f
  rw [State.load_defer]
  omega

/-- A reply is at most a task that ends a connection. -/
theorem Answers.weight_le {c : ConnectionId} {t : Task} (h : Answers s c t) (n : Nat) :
    t.weight n ≤ 4 := by
  unfold Answers at h
  split at h
  · obtain ⟨code, body, rfl⟩ := h
    exact le_rfl
  · obtain ⟨body, rfl⟩ := h
    exact Nat.le_add_left 1 3

/-- The threads of the operations make the server lighter. -/
theorem Step.load_lt_worker (hs : Step env s l s') {o : OperationId} (hl : l = .worker o)
    (hruns : s'.aborted = false) (hv : Vacant s) (n : Nat) : s'.load n < s.load n := by
  have hbusy : ∀ {w}, (s.operations o).worker = w → w ≠ .idle → o < s.operationBound := by
    intro w hw hne
    exact hv.known (.inr (hw ▸ hne))
  cases hs <;> cases hl
  case aborts => cases hruns
  case replyData replying answers =>
    have hweight := answers.weight_le n
    refine State.load_post_lt (hbusy replying nofun) _ ?_
    simp only [Operation.weight, replying, Worker.weight]
    omega
  case replyComplete completing socket answers =>
    have hweight := answers.weight_le n
    refine State.load_post_lt (hbusy completing nofun) _ ?_
    simp only [Operation.weight, completing, Worker.weight]
    omega
  case httpComplete completing http =>
    refine State.load_modify_lt (hbusy completing nofun) _ ?_
    simp only [Operation.weight, completing, Worker.weight]
    omega
  case complete completed =>
    refine State.load_modify_lt (hbusy completed nofun) _ ?_
    simp only [Operation.weight, completed, Worker.weight, if_true]
    omega
  case notifyInitial notifying =>
    refine State.load_post_lt (hbusy notifying nofun) _ ?_
    simp only [Operation.weight, notifying, Worker.weight, Operation.notification, Task.weight]
    omega
  case replyDelivery replying answers =>
    have hweight := answers.weight_le n
    refine State.load_post_lt (hbusy replying nofun) _ ?_
    simp only [Operation.weight, replying, Worker.weight]
    omega
  case deliveryFailed delivered failed =>
    refine State.load_post_lt (hbusy delivered nofun) _ ?_
    simp only [Operation.weight, delivered, Worker.weight, Task.weight]
    omega
  case deliveryPassed delivered passed =>
    refine State.load_modify_lt (hbusy delivered nofun) _ ?_
    simp only [Operation.weight, delivered, Worker.weight]
    omega
  case unsubscribe unsubscribing =>
    refine State.load_modify_lt (hbusy unsubscribing nofun)
      (fun x => { x with worker := .idle }) ?_
    simp only [Operation.weight, unsubscribing, Worker.weight]
    omega

/-- A thread that takes a task makes the server lighter. -/
theorem Step.load_lt_take {o : OperationId} (hs : Step env s (.take o) s')
    (hruns : s'.aborted = false) (hv : Vacant s) (n : Nat) : s'.load n < s.load n := by
  have hqueued : ∀ {t tasks}, (s.operations o).tasks = t :: tasks → o < s.operationBound := by
    intro t tasks next
    exact hv.known (.inl (next ▸ List.cons_ne_nil t tasks))
  cases hs
  case aborts => cases hruns
  case takeStopped t tasks kind idle next stopped =>
    have hpos : 0 < t.weight n := by cases t <;> simp [ThreadTask.weight]
    refine State.load_modify_lt (hqueued next) _ ?_
    simp only [Operation.weight, next, tasksWeight_cons]
    omega
  case takeUnsubscribe tasks idle next =>
    refine State.load_modify_lt (hqueued next) _ ?_
    simp only [Operation.weight, next, idle, tasksWeight_cons, ThreadTask.weight, Worker.weight]
    omega
  all_goals
    rename_i tasks idle next running
    refine State.load_modify_lt (hqueued next) _ ?_
    simp only [Operation.weight, next, idle, tasksWeight_cons, ThreadTask.weight, Worker.weight]
    omega

/-- A thread whose resolution is done makes the server lighter. -/
theorem Step.load_lt_resolved {o : OperationId} {response : Value}
    (hs : Step env s (.resolved o response) s') (hruns : s'.aborted = false) (hv : Vacant s)
    (n : Nat) : s'.load n < s.load n := by
  have hbusy : ∀ {w}, (s.operations o).worker = w → w ≠ .idle → o < s.operationBound := by
    intro w hw hne
    exact hv.known (.inr (hw ▸ hne))
  cases hs
  case aborts => cases hruns
  case resolvedStopped resolving stopped =>
    rcases resolving with ⟨b, hw⟩ | ⟨b, document, hw⟩
    · refine State.load_modify_lt (hbusy hw nofun) _ ?_
      simp only [Operation.weight, hw, Worker.weight]
      omega
    · refine State.load_modify_lt (hbusy hw nofun) _ ?_
      simp only [Operation.weight, hw, Worker.weight]
      omega
  case resolved resolving running =>
    refine State.load_modify_lt (hbusy resolving nofun) _ ?_
    simp only [Operation.weight, resolving, Worker.weight]
    omega
  case deliveryResolved delivering running =>
    refine State.load_modify_lt (hbusy delivering nofun) _ ?_
    simp only [Operation.weight, delivering, Worker.weight]
    omega

/-- A thread whose `subscribe` returns makes the server lighter. -/
theorem Step.load_lt_subscribe {o : OperationId}
    {result : Except Value (SubscriptionKey × SubscriptionName)}
    (hs : Step env s (.subscribe o result) s') (hruns : s'.aborted = false) (hv : Vacant s)
    (n : Nat) : s'.load n < s.load n := by
  have hbusy : (s.operations o).worker = .subscribing → o < s.operationBound := by
    intro hw
    exact hv.known (.inr (hw ▸ nofun))
  cases hs
  case aborts => cases hruns
  case subscribed key name fresh subscribing =>
    refine State.load_modify_lt (hbusy subscribing)
      (fun x => { x with
        subscriptionKey := key
        subscriptionName := name
        subscribed := true
        worker := .notifying }) ?_
    simp only [Operation.weight, subscribing, Worker.weight]
    omega
  case subscribeFailed errors w next copies subscribing =>
    have hw : w.weight n ≤ 8 := by
      rcases next with rfl | ⟨_, _, rfl⟩ <;> simp [Worker.weight]
    have hsubscribing : Worker.weight n .subscribing = notifyWeight n + 10 := rfl
    refine State.load_modify_lt (hbusy subscribing) _ ?_
    simp only [Operation.weight, subscribing, hsubscribing]
    omega

/-- A timer or a slot that posts to the main thread makes the server lighter. -/
theorem Step.load_lt_posts (hs : Step env s l s')
    (hl : l = .expireNotify ∨ (∃ o, l = .expireDelivery o) ∨ ∃ o, l = .slot o)
    (hruns : s'.aborted = false) (hw : Wired s) (n : Nat) : s'.load n < s.load n := by
  cases hs
  case aborts => cases hruns
  case expireNotify armed =>
    simp only [State.load, State.mainWeight, State.operationsWeight, State.entriesWeight,
      State.defer_queue, queueWeight_append, armed, Timer.weight, Task.weight, State.defer_frames,
      State.defer_pendingNotifyTriggers, State.defer_slots, State.defer_operations,
      State.defer_operationBound, State.defer_connections, State.defer_connectionBound]
    omega
  case expireDelivery o armed =>
    have hkind : (s.operations o).isSubscription = true := by
      by_contra hkind
      have htimer := ((hw.valid o).regular (by simpa using hkind)).2.2.1
      simp [armed] at htimer
    refine State.load_post_lt (hw.known hkind) _ ?_
    simp only [Operation.weight, armed, Timer.weight, Task.weight]
    omega
  case slot o mem =>
    have hlength := List.length_erase_of_mem mem
    have hpos := List.length_pos_of_mem mem
    have hslots : (s.slots.length - 1) * (notifyWeight n + 1) + (notifyWeight n + 1) =
        s.slots.length * (notifyWeight n + 1) := by
      rw [← Nat.succ_mul, Nat.succ_eq_add_one, Nat.sub_add_cancel hpos]
    rw [State.load_defer]
    simp only [State.load, State.mainWeight, State.operationsWeight, State.entriesWeight,
      Operation.notification, Task.weight, hlength]
    omega
  all_goals simp at hl

/-- The main thread leaves a frame. -/
theorem State.load_leave {n : Nat} {f : Frame} {frames : List Frame} (top : s.frames = f :: frames) :
    (s.goto frames).load n + f.weight n = s.load n := by
  have hgoto := State.load_goto (s := s) (n := n) frames
  rw [top, framesWeight_cons] at hgoto
  omega

/-- A notification is paid for by its task. -/
theorem State.load_notifyInMainThread {name : SubscriptionName} {keys : Finset SubscriptionKey}
    (s : State) (n : Nat) : (s.notifyInMainThread name keys).load n < s.load n + notifyWeight n := by
  have hlength : (s.pendingNotifyTriggers.insert name
      ((s.pendingNotifyTriggers.lookup name).getD ∅ ∪ keys)).entries.length ≤
        s.pendingNotifyTriggers.entries.length + 1 := by
    rw [AList.entries_insert, List.length_cons]
    exact Nat.succ_le_succ (List.kerase_sublist _ _).length_le
  have htimer : (if s.notifyTimer = .unset then .armed else s.notifyTimer).weight 3 ≤
      s.notifyTimer.weight 3 + 3 := by
    split <;> simp [Timer.weight]
  have hnames := Nat.mul_le_mul_right (nameWeight n) hlength
  rw [Nat.add_mul, Nat.one_mul] at hnames
  simp only [State.load, State.mainWeight, State.operationsWeight, State.entriesWeight,
    State.notifyInMainThread, notifyWeight] at *
  omega

/-- The triggers were paid for when they were inserted. -/
theorem State.load_deliverNotifications (s : State) (n : Nat) :
    s.deliverNotifications.load n ≤ s.load n + 1 := by
  simp only [State.load, State.mainWeight, State.operationsWeight, State.entriesWeight,
    State.deliverNotifications, State.goto_frames, State.goto_queue, State.goto_slots,
    State.goto_operations, State.goto_operationBound, State.goto_connections,
    State.goto_connectionBound, framesWeight_cons, Frame.weight, List.length_map, Timer.weight,
    AList.empty_entries, List.length_nil]
  omega

/-- A connection that is done leaves its operations to be stopped. -/
theorem State.load_onConnectionDone {c : ConnectionId} (s : State) (n : Nat)
    (hunknown : s.connectionBound ≤ c → (s.connections c).operations.entries.length = 0) :
    (s.onConnectionDone c).load n ≤ s.load n + 2 := by
  have hgoto := State.load_goto (n := n)
    (s := s.change c fun x => { x with live := false, operations := ∅ })
    (.stopOperations ((s.connections c).operations.entries.map Sigma.snd) :: .tearDown c :: s.frames)
  simp only [State.change_frames, framesWeight_cons, Frame.weight, List.length_map] at hgoto
  unfold State.onConnectionDone
  by_cases hc : c < s.connectionBound
  · have hchange := State.load_change (n := n) hc fun x =>
      { x with live := false, operations := ∅ }
    rw [AList.empty_entries, List.length_nil] at hchange
    omega
  · have hnone := hunknown (not_lt.mp hc)
    rw [State.load_change_unknown (not_lt.mp hc)] at hgoto
    omega

/-- The main thread makes the server lighter with every task and with every frame it leaves. -/
theorem Step.load_lt_main (hs : Step env s .main s') (hruns : s'.aborted = false) (hw : Wired s)
    (hv : Vacant s) (n : Nat) : s'.load n < s.load n := by
  cases hs
  case aborts => cases hruns
  case joined top drained idle =>
    have hleave := State.load_leave (n := n) top
    simp only [Frame.weight] at hleave
    omega
  case allStopped top | namesDone top | callbacksDone top =>
    have hleave := State.load_leave (n := n) top
    simp only [Frame.weight] at hleave
    omega
  case tearDown c frames top =>
    have hleave := State.load_leave (n := n) (s := s.change c fun x =>
      { x with permissions := none, handlers := false }) top
    have hchange := s.load_change_le (n := n) c
      (fun x => { x with permissions := none, handlers := false }) le_rfl
    simp only [Frame.weight] at hleave
    omega
  case erase c id frames top =>
    have hleave := State.load_leave (n := n) (s := s.change c fun x =>
      { x with operations := x.operations.erase id }) top
    have hchange := s.load_change_le (n := n) c
      (fun x => { x with operations := x.operations.erase id })
      (List.kerase_sublist _ _).length_le
    simp only [Frame.weight] at hleave
    omega
  case runNotify name keys queue idle next =>
    have hdequeue := State.load_dequeue (n := n) next
    have hnotify : ((s.dequeue queue).notifyInMainThread name keys).load n <
        (s.dequeue queue).load n + notifyWeight n := State.load_notifyInMainThread _ n
    simp only [Task.weight] at hdequeue
    omega
  case runDeliver queue idle next =>
    have hdequeue := State.load_dequeue (n := n) next
    have hdeliver := (s.dequeue queue).load_deliverNotifications n
    simp only [Task.weight] at hdequeue
    omega
  case dispatchStopped idle next stopped =>
    have hdequeue := State.load_dequeue (n := n) next
    simp only [Task.weight] at hdequeue
    omega
  case sendWebSocket next | terminate next =>
    have hdequeue := State.load_dequeue (n := n) next
    simp only [Task.weight] at hdequeue
    omega
  case dispatch o queue idle next running =>
    have hdequeue := State.load_dequeue (n := n) next
    have hknown : o < s.operationBound := hw.known (hw.called o (.inl (by simp [next])))
    have hmodify := State.load_modify (n := n) (s := s.dequeue queue) hknown fun x =>
      { x with
        deliveryTimer := .unset
        pendingDelivery := false
        tasks := x.tasks ++ [.resolveSubscription x.pendingDelivery] }
    simp only [Operation.weight, tasksWeight_append, ThreadTask.weight, Timer.weight,
      State.dequeue_operations] at hmodify
    simp only [Task.weight] at hdequeue
    omega
  case sendHttp c code body queue idle next =>
    have hdequeue := State.load_dequeue (n := n) next
    have hsent := (s.dequeue queue).load_change_le (n := n) c
      (fun x => { x with sent := x.sent + 1 }) le_rfl
    have hnone : s.connectionBound ≤ c →
        ((((s.dequeue queue).change c fun x =>
          { x with sent := x.sent + 1 }).connections c).operations.entries.length = 0) := by
      intro hc
      rw [State.change_connections, Function.update_self]
      rw [State.dequeue_connections, hv.connections c hc]
      rfl
    have hdone := State.load_onConnectionDone
      ((s.dequeue queue).change c fun x => { x with sent := x.sent + 1 }) n hnone
    simp only [Task.weight] at hdequeue
    omega
  case forceStop o queue idle next stops =>
    have hdequeue := State.load_dequeue (n := n) next
    have hstop := stops.load_le (n := n) hw.known
    simp only [Task.weight] at hdequeue
    omega

/-- The loops of the main thread make the server lighter. -/
theorem Step.load_lt_loop (hs : Step env s l s')
    (hl : (∃ o, l = .stopNext o) ∨ (∃ name, l = .deliverName name) ∨
      ∃ o, l = .onFutureSubscription o)
    (hruns : s'.aborted = false) (hw : Wired s)
    (hlength : s.registrations.length ≤ s.operationBound) :
    s'.load s.operationBound < s.load s.operationBound := by
  cases hs
  case aborts => cases hruns
  case stopNext o remaining frames top mem stops =>
    have hgoto := State.load_goto (s := s) (n := s.operationBound)
      (.stopOperations (remaining.erase o) :: frames)
    have hstop := stops.load_le (n := s.operationBound) hw.known
    have herase := List.length_erase_of_mem mem
    have hpos := List.length_pos_of_mem mem
    simp only [top, framesWeight_cons, Frame.weight] at hgoto
    omega
  case deliverName name keys triggers frames top mem =>
    have hgoto := State.load_goto (s := s) (n := s.operationBound)
      (.deliver keys ((s.registrations.filter fun r => r.name = name).map
        Registration.operation) :: .deliverNames (triggers.erase (name, keys)) :: frames)
    have herase := List.length_erase_of_mem mem
    have hpos := List.length_pos_of_mem mem
    have hnames : (triggers.length - 1) * nameWeight s.operationBound +
        nameWeight s.operationBound = triggers.length * nameWeight s.operationBound := by
      rw [← Nat.succ_mul, Nat.succ_eq_add_one, Nat.sub_add_cancel hpos]
    have hcallbacks : (s.registrations.filter fun r => r.name = name).length ≤
        s.registrations.length := List.length_filter_le _ _
    have hweight : nameWeight s.operationBound = 12 * s.operationBound + 2 := rfl
    simp only [top, framesWeight_cons, Frame.weight, List.length_map, herase] at hgoto
    omega
  case callbackIgnored o keys remaining frames top mem ignored =>
    have hgoto := State.load_goto (s := s) (n := s.operationBound)
      (.deliver keys (remaining.erase o) :: frames)
    have herase := List.length_erase_of_mem mem
    have hpos := List.length_pos_of_mem mem
    simp only [top, framesWeight_cons, Frame.weight] at hgoto
    omega
  case callback o keys remaining frames top mem running key =>
    have hgoto := State.load_goto (s := s) (n := s.operationBound)
      (.deliver keys (remaining.erase o) :: frames)
    have hknown : o < s.operationBound :=
      hw.known (hw.called o (.inr ⟨keys, remaining, by simp [top], mem⟩))
    have hmodify := State.load_modify (n := s.operationBound)
      (s := s.goto (.deliver keys (remaining.erase o) :: frames)) hknown Operation.schedule
    have htimer : (s.operations o).schedule.deliveryTimer.weight 11 ≤
        (s.operations o).deliveryTimer.weight 11 + 11 := by
      unfold Operation.schedule
      dsimp only
      split <;> simp [Timer.weight]
    have herase := List.length_erase_of_mem mem
    have hpos := List.length_pos_of_mem mem
    have hschedule : ∀ x : Operation, x.schedule.stopped = x.stopped ∧ x.schedule.tasks = x.tasks ∧
        x.schedule.worker = x.worker := fun x => ⟨rfl, rfl, rfl⟩
    simp only [top, framesWeight_cons, Frame.weight] at hgoto
    simp only [Operation.weight, State.goto_operations, (hschedule _).1, (hschedule _).2.1,
      (hschedule _).2.2] at hmodify
    omega
  all_goals simp at hl

/-- **What the server does by itself makes it lighter**, unless it ends the process. -/
theorem Step.load_lt (hs : Step env s l s') (hl : l.internal = true) (hruns : s'.aborted = false)
    (hw : Wired s) (hv : Vacant s) (hlength : s.registrations.length ≤ s.operationBound) :
    s'.load s.operationBound < s.load s.operationBound := by
  cases l with
  | main => exact hs.load_lt_main hruns hw hv _
  | take o => exact hs.load_lt_take hruns hv _
  | worker o => exact hs.load_lt_worker rfl hruns hv _
  | resolved o response => exact hs.load_lt_resolved hruns hv _
  | subscribe o result => exact hs.load_lt_subscribe hruns hv _
  | expireNotify => exact hs.load_lt_posts (.inl rfl) hruns hw _
  | expireDelivery o => exact hs.load_lt_posts (.inr (.inl ⟨o, rfl⟩)) hruns hw _
  | slot o => exact hs.load_lt_posts (.inr (.inr ⟨o, rfl⟩)) hruns hw _
  | stopNext o | deliverName name | onFutureSubscription o =>
      exact hs.load_lt_loop (by simp) hruns hw hlength
  | _ => cases hl

end GraphQLServer
