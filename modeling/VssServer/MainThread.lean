import VssServer.StoppedSubscriptions

/-!
# What the main thread can have still to do

The main thread runs one handler after the other, so its frames are those of one
handler.  It joins at most one thread at a time, and it neither delivers nor tears
a connection down meanwhile.

* `Stack`: the frames that the main thread can have.
* `Stack.step`: every step leaves the frames in order.
-/

namespace GraphQLServer

open Response Permissions

/-- The frames of one handler. -/
inductive Stack : List Frame → Prop
  | idle : Stack []
  | forced {o} : Stack [.join o]
  | erase {c id} : Stack [.erase c id]
  | stopped {o c id} : Stack [.join o, .erase c id]
  | stopOperations {remaining c} : Stack [.stopOperations remaining, .tearDown c]
  | joining {o remaining c} : Stack [.join o, .stopOperations remaining, .tearDown c]
  | tearDown {c} : Stack [.tearDown c]
  | deliverNames {triggers} : Stack [.deliverNames triggers]
  | deliver {keys remaining triggers} :
      Stack [.deliver keys remaining, .deliverNames triggers]

namespace Stack

variable {frames : List Frame} {o : OperationId}

/-- The main thread waits only on top of its handler. -/
theorem join_top (h : Stack frames) (hjoin : .join o ∈ frames) :
    ∃ rest, frames = .join o :: rest := by
  cases h <;> simp_all

/-- At most one thread is joined at a time. -/
theorem join_unique (h : Stack frames) {o' : OperationId} (hjoin : .join o ∈ frames)
    (hjoin' : .join o' ∈ frames) : o = o' := by
  obtain ⟨rest, heq⟩ := h.join_top hjoin
  obtain ⟨rest', heq'⟩ := h.join_top hjoin'
  cases heq.symm.trans heq'
  rfl

/-- It does not wait inside of a loop over callbacks. -/
theorem join_not_deliver (h : Stack frames) (hjoin : .join o ∈ frames)
    {keys : Finset SubscriptionKey} {remaining : List OperationId} :
    .deliver keys remaining ∉ frames := by
  cases h <;> simp_all

/-- A connection is torn down after its operations are stopped. -/
theorem tearDown_last {c : ConnectionId} {rest : List Frame} (h : Stack (.tearDown c :: rest)) :
    rest = [] := by
  cases h
  rfl

end Stack

variable {env : Environment} {s s' : State} {l : Label}

/-- `stop` of an operation joins its thread, before what the handler does next. -/
theorem Stops.stack {o : OperationId} (h : Stops s o s') (hstack : Stack s.frames)
    (hjoin : Stack (.join o :: s.frames)) : Stack s'.frames := by
  rcases h.frames with heq | heq
  · exact heq ▸ hstack
  · exact heq ▸ hjoin

/-- Every step leaves the frames in their order. -/
theorem Stack.step (h : Stack s.frames) (hs : Step env s l s') : Stack s'.frames := by
  cases hs
  case messageStop idle _ _ stops => exact stops.stack .erase .stopped
  case forceStop idle next stops =>
    refine stops.stack h ?_
    rw [State.dequeue_frames, idle]
    exact .forced
  case stopNext top mem stops =>
    rw [top] at h
    cases h
    exact stops.stack .stopOperations .joining
  case closed idle _ =>
    simp only [State.onConnectionDone, State.goto_frames, idle]
    exact .stopOperations
  case sendHttp idle next =>
    simp only [State.onConnectionDone, State.goto_frames, State.change_frames,
      State.dequeue_frames, idle]
    exact .stopOperations
  case runDeliver idle next =>
    simp only [State.deliverNotifications, State.goto_frames, State.dequeue_frames, idle]
    exact .deliverNames
  case deliverName top mem =>
    rw [top] at h
    cases h
    exact .deliver
  case callbackIgnored top mem _ =>
    rw [top] at h
    cases h
    exact .deliver
  case callback top mem _ _ =>
    rw [top] at h
    cases h
    exact .deliver
  case joined top _ _ | allStopped top | tearDown top | erase top | namesDone top
    | callbacksDone top =>
    rw [top] at h
    cases h <;> constructor
  all_goals exact h

/-- They are in order in every run. -/
theorem Reach.stack {ok : State → Label → Prop} (h : Runs.Reach (step env) ok initial s) :
    Stack s.frames := by
  apply h.invariant (I := fun s => Stack s.frames)
  · exact .idle
  · intro s l s' hs _ hstep
    exact hs.step (step_cases hstep)

/-- The main thread waits for a subscription that is stopped and not quiet. -/
theorem Joined.waits (h : Joined s) {o : OperationId} (hkind : (s.operations o).isSubscription = true)
    (hstopped : (s.operations o).stopped = true) (hbusy : ¬(s.operations o).Quiet) :
    .join o ∈ s.frames := by
  by_contra hjoin
  exact hbusy (h o ⟨hkind, hstopped, hjoin⟩)

end GraphQLServer
