import VssServer.MainThread

/-!
# Calls of the schema's subscription interface

The executable schema has one table of subscriptions for all operations and does
no locking.  `deliver` is called by the main thread, `unsubscribe` by the thread of
an operation that the main thread is joining, so these calls exclude one another.
A `subscribe` is called by the thread of an operation that nobody waits for.

## Main definitions

* `InCall`: the threads that are in a call.
* `Operation.subscribes`: the `subscribe` of an operation has been posted to its thread,
  and has not returned.
* `AfterSubscribes`: the main thread starts a subscription, stops a running one or begins
  to deliver only when no other `subscribe` is outstanding.

## Main results

* `Outstanding.step`: then at most one `subscribe` is outstanding, and while it is the main
  thread joins no other thread and does not deliver.
* `schema_calls_exclusive`: no two threads are in the interface at once.
-/

namespace GraphQLServer

open Response Permissions

/-- The thread is in `Request::subscribe`. -/
def Worker.subscribes : Worker → Bool
  | .subscribing => true
  | _ => false

/-- The thread is in a call of the subscription interface. -/
def Worker.calls : Worker → Bool
  | .subscribing | .unsubscribing => true
  | _ => false

/-- The main thread is in `deliver`. -/
def Frame.delivers : Frame → Bool
  | .deliver _ _ => true
  | _ => false

/-- The threads that are in a call: those of operations, and the main thread. -/
inductive InCall (s : State) : Option OperationId → Prop
  | operation {o} (calls : (s.operations o).worker.calls = true) : InCall s (some o)
  | main {f} (frame : f ∈ s.frames) (delivers : f.delivers = true) : InCall s none

/-- The `subscribe` of a running operation waits in the queue of its thread, or its thread
is in the call. -/
def Operation.subscribes (x : Operation) : Bool :=
  x.worker.subscribes || !x.stopped && x.tasks.contains .subscribe

/-- What the main thread is about to do with subscriptions. -/
inductive Handling
  | start
  | stop (o : OperationId)
  | deliver
  deriving DecidableEq

/-- `make` makes a subscription of the payload. -/
def startsSubscription (env : Environment) (payload : Value) : Bool :=
  match make env payload with
  | .ok isSubscription => isSubscription
  | .error _ => false

/-- `stop` of a subscription that runs. -/
def State.stopsRunning (s : State) (o : OperationId) : Option Handling :=
  if (s.operations o).isSubscription ∧ (s.operations o).stopped = false then some (.stop o)
  else none

/-- What a step begins in the main thread, as the message or the request, the queue or the
loop over the operations of a connection has it. -/
def State.handling (env : Environment) (s : State) : Label → Option Handling
  | .onHttp _ (some payload) _ => if startsSubscription env payload then some .start else none
  | .onWebSocketMessage c (some message) _ =>
      match toMessageParts message with
      | .error _ => none
      | .ok parts =>
          if parts.first = GQL_START then
            match (s.connections c).operations.lookup parts.second with
            | some _ => none
            | none => if startsSubscription env parts.value then some .start else none
          else if parts.first = GQL_STOP then
            ((s.connections c).operations.lookup parts.second).bind s.stopsRunning
          else none
  | .main =>
      match s.frames, s.queue with
      | [], .stop o :: _ => s.stopsRunning o
      | _, _ => none
  | .stopNext o => s.stopsRunning o
  | .deliverName _ => some .deliver
  | _ => none

/-- The side condition on a step: a subscription is started, a running subscription is
stopped, and a delivery is begun, when the `subscribe` of every other operation has
returned. -/
def AfterSubscribes (env : Environment) (s : State) (l : Label) : Prop :=
  ∀ h ∈ s.handling env l, ∀ o < s.operationBound,
    (s.operations o).subscribes = true → h = .stop o

instance (env : Environment) (s : State) (l : Label) : Decidable (AfterSubscribes env s l) :=
  inferInstanceAs (Decidable (∀ _ ∈ _, _))

/-- While a `subscribe` is outstanding no other one is, the main thread waits for no other
operation, and it does not deliver. -/
structure Outstanding (s : State) : Prop where
  unique : ∀ o o', (s.operations o).subscribes = true → (s.operations o').subscribes = true →
    o = o'
  joins : ∀ o o', .join o ∈ s.frames → (s.operations o').subscribes = true → o = o'
  delivers : ∀ f ∈ s.frames, f.delivers = true → ∀ o, (s.operations o).subscribes = false

variable {env : Environment} {s s' : State} {l : Label}

theorem Operation.subscribes_of_worker {x : Operation} (h : x.worker.subscribes = true) :
    x.subscribes = true := by
  simp [Operation.subscribes, h]

/-- Only a new operation has a `subscribe` that was not there before. -/
theorem OperationStep.outstanding {e : Effects} {x x' : Operation} (hs : OperationStep e x x')
    (h : x'.subscribes = true) : x.subscribes = true := by
  cases hs
  case subscribeFailed next =>
    rcases next with rfl | ⟨_, _, rfl⟩ <;>
      simp_all [Operation.subscribes, Worker.subscribes]
  case validate resolves => exact h
  all_goals simp_all [Operation.subscribes, Worker.subscribes, Operation.schedule]

/-- A thread whose `subscribe` is outstanding is that of an operation. -/
theorem Wired.subscribes_known (hw : Wired s) {o : OperationId}
    (h : (s.operations o).subscribes = true) : o < s.operationBound := by
  refine hw.known ?_
  by_contra hkind
  obtain ⟨hworker, htasks, -⟩ := (hw.valid o).regular (by simpa using hkind)
  simp only [Operation.subscribes, Bool.or_eq_true, Bool.and_eq_true] at h
  rcases h with hsubscribes | ⟨-, hmem⟩
  · cases hcase : (s.operations o).worker <;>
      simp_all [Worker.subscribes, Worker.ofSubscription]
  · rcases htasks with htasks | ⟨htasks, -⟩ <;> simp [htasks] at hmem

/-- The main thread joins the thread that calls `unsubscribe`. -/
theorem Joined.unsubscribing (hj : Joined s) (hw : Wired s) {o : OperationId}
    (hbusy : ¬(s.operations o).Quiet)
    (hlast : .unsubscribe ∈ (s.operations o).tasks ∨ (s.operations o).worker = .unsubscribing) :
    .join o ∈ s.frames := by
  have hkind : (s.operations o).isSubscription = true := by
    by_contra hkind
    obtain ⟨hworker, htasks, -⟩ := (hw.valid o).regular (by simpa using hkind)
    rcases hlast with hmem | heq
    · rcases htasks with htasks | ⟨htasks, -⟩ <;> simp [htasks] at hmem
    · simp [heq, Worker.ofSubscription] at hworker
  exact hj.waits hkind ((hw.valid o).unsubscribe hlast) hbusy

/-- A thread in a call is in `subscribe`, or the main thread joins it. -/
theorem Joined.called (hj : Joined s) (hw : Wired s) {o : OperationId}
    (h : (s.operations o).worker.calls = true) :
    o < s.operationBound ∧
      ((s.operations o).worker.subscribes = true ∨ .join o ∈ s.frames) := by
  cases hworker : (s.operations o).worker with
  | subscribing =>
      have hkind := (hw.valid o).of_subscription (by rw [hworker]; rfl)
      exact ⟨hw.known hkind, .inl rfl⟩
  | unsubscribing =>
      have hkind := (hw.valid o).of_subscription (by rw [hworker]; rfl)
      refine ⟨hw.known hkind, .inr (hj.unsubscribing hw ?_ (.inr hworker))⟩
      intro hquiet
      simp [hquiet.worker] at hworker
  | _ => simp [hworker, Worker.calls] at h

/-- A `subscribe` was outstanding before, or the main thread starts a subscription. -/
theorem Step.outstanding (hs : Step env s l s') {o : OperationId}
    (h : (s'.operations o).subscribes = true) :
    (s.operations o).subscribes = true ∨
      s.handling env l = some .start ∧ o = s.operationBound ∧ s.frames = [] ∧ s'.frames = [] := by
  rcases hs.operation o with heq | hchange | ⟨rfl, hcreated, hnew⟩
  · exact .inl (heq ▸ h)
  · exact .inl (hchange.outstanding h)
  · right
    cases hs
    case httpStarted payload _ p sub made idle =>
      cases sub with
      | true => exact ⟨by simp [State.handling, startsSubscription, made], rfl, idle, idle⟩
      | false =>
          simp [State.addConnectionOperation, newOperation, Operation.subscribes,
            Worker.subscribes] at h
    case messageStart asks made idle connected absent =>
      obtain ⟨m, rfl, hparts⟩ := asks
      rename_i sub
      cases sub with
      | true =>
          exact ⟨by simp [State.handling, hparts, absent, startsSubscription, made], rfl, idle, idle⟩
      | false =>
          simp [State.addConnectionOperation, newOperation, Operation.subscribes,
            Worker.subscribes] at h
    case messageStop stops | forceStop stops | stopNext stops =>
      exact absurd (stops.bounds.1.symm.trans hcreated) (Nat.succ_ne_self _).symm
    all_goals exact absurd hcreated (Nat.succ_ne_self _).symm

/-- The main thread joins a thread since before, or it stops that subscription. -/
theorem Step.joining (hs : Step env s l s') {o : OperationId} (h : .join o ∈ s'.frames) :
    .join o ∈ s.frames ∨ s.handling env l = some (.stop o) := by
  have hpop : ∀ {g frames}, s.frames = g :: frames → .join o ∈ frames → .join o ∈ s.frames := by
    intro g frames top hmem
    rw [top]
    exact .tail _ hmem
  cases hs
  case messageStop asks idle connected entry stops =>
    obtain ⟨m, rfl, hparts⟩ := asks
    rcases stops.enters h with hmem | ⟨heq, running, kind⟩
    · simp at hmem
    · cases heq
      right
      have hstop : (GQL_STOP = GQL_START) = False := by decide
      simpa [State.handling, hparts, hstop, entry, State.stopsRunning] using ⟨kind, running⟩
  case forceStop idle next stops =>
    rcases stops.enters h with hmem | ⟨heq, running, kind⟩
    · exact .inl hmem
    · cases heq
      exact .inr (by simpa [State.handling, idle, next, State.stopsRunning] using ⟨kind, running⟩)
  case stopNext top mem stops =>
    rcases stops.enters h with hmem | ⟨heq, running, kind⟩
    · rcases List.mem_cons.mp hmem with heq | hmem
      · cases heq
      · exact .inl (hpop top hmem)
    · cases heq
      exact .inr (by simpa [State.handling, State.stopsRunning] using ⟨kind, running⟩)
  case joined top _ _ | allStopped top | tearDown top | erase top | namesDone top
    | callbacksDone top => exact .inl (hpop top h)
  case callbackIgnored top _ _ | callback top _ _ _ | deliverName top _ =>
    refine .inl (hpop top ?_)
    simpa using h
  case closed | sendHttp => exact .inl (by simpa [State.onConnectionDone] using h)
  case runDeliver => exact .inl (by simpa [State.deliverNotifications] using h)
  all_goals exact .inl h

/-- The main thread delivers since before, or begins to. -/
theorem Step.delivering (hs : Step env s l s') {f : Frame} (hf : f ∈ s'.frames)
    (hdelivers : f.delivers = true) :
    (∃ g ∈ s.frames, g.delivers = true) ∨ s.handling env l = some .deliver := by
  have hpop : ∀ {g frames}, s.frames = g :: frames → f ∈ frames →
      ∃ g ∈ s.frames, g.delivers = true := by
    intro g frames top hmem
    refine ⟨f, ?_, hdelivers⟩
    rw [top]
    exact .tail _ hmem
  cases hs
  case deliverName => exact .inr rfl
  case callbackIgnored top _ _ | callback top _ _ _ =>
    exact .inl ⟨_, by rw [top]; exact .head _, rfl⟩
  case messageStop stops =>
    rcases stops.enters hf with hmem | ⟨rfl, -⟩
    · rw [List.mem_singleton.mp hmem] at hdelivers
      cases hdelivers
    · cases hdelivers
  case forceStop stops =>
    rcases stops.enters hf with hmem | ⟨rfl, -⟩
    · exact .inl ⟨f, hmem, hdelivers⟩
    · cases hdelivers
  case stopNext top _ stops =>
    rcases stops.enters hf with hmem | ⟨rfl, -⟩
    · rcases List.mem_cons.mp hmem with rfl | hmem
      · cases hdelivers
      · exact .inl (hpop top hmem)
    · cases hdelivers
  case closed | sendHttp =>
    rcases List.mem_cons.mp hf with rfl | hmem
    · cases hdelivers
    · rcases List.mem_cons.mp hmem with rfl | hmem
      · cases hdelivers
      · exact .inl ⟨f, hmem, hdelivers⟩
  case runDeliver =>
    rcases List.mem_cons.mp hf with rfl | hmem
    · cases hdelivers
    · exact .inl ⟨f, hmem, hdelivers⟩
  case joined top _ _ | allStopped top | tearDown top | erase top | namesDone top
    | callbacksDone top => exact .inl (hpop top hf)
  all_goals exact .inl ⟨f, hf, hdelivers⟩

/-- **At most one `subscribe` is outstanding**, and the main thread leaves it alone, as long
as it begins nothing else meanwhile. -/
theorem Outstanding.step (h : Outstanding s) (hw : Wired s) (hok : AfterSubscribes env s l)
    (hs : Step env s l s') : Outstanding s' where
  unique := by
    have hfresh : ∀ {o}, s.handling env l = some .start → (s.operations o).subscribes = true →
        False := by
      intro o hstart hold
      cases hok .start hstart o (hw.subscribes_known hold) hold
    intro o o' ho ho'
    rcases hs.outstanding ho with hold | ⟨hstart, rfl, -⟩
    · rcases hs.outstanding ho' with hold' | ⟨hstart, -⟩
      · exact h.unique o o' hold hold'
      · exact (hfresh hstart hold).elim
    · rcases hs.outstanding ho' with hold' | ⟨-, rfl, -⟩
      · exact (hfresh hstart hold').elim
      · rfl
  joins o o' hjoin hsubscribes := by
    rcases hs.outstanding hsubscribes with hold | ⟨-, -, -, hframes⟩
    · rcases hs.joining hjoin with hjoins | hstop
      · exact h.joins o o' hjoins hold
      · cases hok _ hstop o' (hw.subscribes_known hold) hold
        rfl
    · simp [hframes] at hjoin
  delivers f hf hdelivers o := by
    by_contra hsubscribes
    rw [Bool.not_eq_false] at hsubscribes
    rcases hs.outstanding hsubscribes with hold | ⟨-, -, -, hframes⟩
    · rcases hs.delivering hf hdelivers with ⟨g, hg, hbefore⟩ | hdeliver
      · cases hold.symm.trans (h.delivers g hg hbefore o)
      · cases hok _ hdeliver o (hw.subscribes_known hold) hold
    · simp [hframes] at hf

theorem Reach.outstanding (h : Runs.Reach (step env) (AfterSubscribes env) initial s) :
    Outstanding s := by
  apply h.along (I := Outstanding)
  · exact ⟨nofun, nofun, nofun⟩
  · intro s l s' hreach hs hok hstep
    exact hs.step (Reach.wired hreach) hok (step_cases hstep)

/-- A thread that is in `subscribe` is alone, and the others exclude one another. -/
theorem Outstanding.exclusive (h : Outstanding s) (hw : Wired s) (hj : Joined s)
    (hstack : Stack s.frames) {t t' : Option OperationId} (ht : InCall s t) (ht' : InCall s t') :
    t = t' := by
  have hmain : ∀ {o f}, (s.operations o).worker.calls = true → f ∈ s.frames →
      f.delivers = true → False := by
    intro o f hcalls hf hdelivers
    obtain ⟨-, hsubscribes | hjoin⟩ := hj.called hw hcalls
    · cases (h.delivers f hf hdelivers o).symm.trans (Operation.subscribes_of_worker hsubscribes)
    · cases f with
      | deliver keys remaining => exact hstack.join_not_deliver hjoin hf
      | _ => cases hdelivers
  cases ht with
  | @operation o calls =>
      cases ht' with
      | main frame delivers => exact (hmain calls frame delivers).elim
      | @operation o' calls' =>
          obtain ⟨-, hsubscribes | hjoin⟩ := hj.called hw calls
          all_goals obtain ⟨-, hsubscribes' | hjoin'⟩ := hj.called hw calls'
          · exact congrArg some (h.unique o o' (Operation.subscribes_of_worker hsubscribes)
              (Operation.subscribes_of_worker hsubscribes'))
          · exact congrArg some
              (h.joins o' o hjoin' (Operation.subscribes_of_worker hsubscribes)).symm
          · exact congrArg some
              (h.joins o o' hjoin (Operation.subscribes_of_worker hsubscribes'))
          · exact congrArg some (hstack.join_unique hjoin hjoin')
  | main frame delivers =>
      cases ht' with
      | operation calls => exact (hmain calls frame delivers).elim
      | main => rfl

/-- **Exclusive calls.**  As long as the main thread starts a subscription, stops a running
one and begins to deliver only when the `subscribe` of every other operation has returned, no
two threads are in the subscription interface of the schema at once. -/
theorem schema_calls_exclusive (h : Runs.Reach (step env) (AfterSubscribes env) initial s)
    {t t' : Option OperationId} (ht : InCall s t) (ht' : InCall s t') : t = t' :=
  (Reach.outstanding h).exclusive (Reach.wired h) (Reach.joined h) (Reach.stack h) ht ht'

/-- The first subscription is there, and a second one is started and subscribes. -/
def subscribeNext : List Label :=
  [.worker 0, .onWebSocketMessage 0 (some (startMessage "2" "subscription")) 7, .take 1,
    .subscribe 1 (.ok (2, "vehicle")), .worker 1]

set_option maxRecDepth 8000 in
/-- The second subscription is started when the `subscribe` of the first one has returned,
and the first one is stopped when that of the second one has. -/
theorem schema_calls_exclusive_stopFirst :
    ∃ s, Runs.run (step vehicle) initial (connectSubscribe ++ subscribeNext ++ stopFirst) =
        some s ∧
      s.registrations.length = 2 ∧ InCall s (some 0) ∧ ∀ t, InCall s t → some 0 = t := by
  have hrun : Runs.run (step vehicle) initial (connectSubscribe ++ subscribeNext ++ stopFirst) =
      some _ := rfl
  have hreach := Runs.reach_of_run hrun (by decide : Runs.RunMeets _ (AfterSubscribes vehicle) _ _)
  refine ⟨_, hrun, rfl, .operation rfl, ?_⟩
  intro t ht
  exact schema_calls_exclusive hreach (.operation rfl) ht

/-- A client starts two subscriptions, and their threads begin. -/
def subscribeTwice : List Label :=
  [.onWebSocketOpen, .onWebSocketMessage 0 (some (startMessage "1" "subscription")) 0,
    .onWebSocketMessage 0 (some (startMessage "2" "subscription")) 0, .take 0, .take 1]

set_option maxRecDepth 4000 in
/-- Two threads are in `subscribe` at once. -/
theorem subscribes_at_once :
    ∃ s, Runs.run (step vehicle) initial subscribeTwice = some s ∧ InCall s (some 0) ∧
      InCall s (some 1) :=
  ⟨_, rfl, .operation rfl, .operation rfl⟩

end GraphQLServer
