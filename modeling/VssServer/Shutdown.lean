import VssServer.Releases
import VssServer.ReplyTasks
import VssServer.Settling

/-!
# The server is stopped

`stopListening` defers one handler to the main thread.  It stops the operations of
every connection, waits for the thread pool, forgets the notifications that have not
been delivered, clears the storage, and lets go of all connections.  The threads of the
operations go on meanwhile, and so do those that are inside of the storage.

## Main definitions

* `Shutdown`: the server and its storage, together with how far this handler is.
* `Shutdown.step`: the server takes its steps, but the main thread starts no other
  handler; the storage takes its own, and `clear` is a call of the main thread.
* `Over`: nothing runs, is registered or connected.

## Main results

* `stopListening_stops`: what is stopped stays so.

Closing the connections is up to the WebSocket library, which calls `onWebSocketClose`
when it is done.  The timer of the next collection, which the handler resets as well, is
modelled apart.
-/

namespace GraphQLServer

open Response Permissions

/-- `GraphQLConnection::stop`: its loop is up to the frames. -/
def State.stopConnection (s : State) (c : ConnectionId) : State :=
  (s.change c fun x => { x with operations := ∅ }).goto
    (.stopOperations ((s.connections c).operations.entries.map Sigma.snd) :: s.frames)

/-- The thread has nothing to do. -/
def Operation.resting (x : Operation) : Bool :=
  match x.tasks, x.worker with
  | [], .idle => true
  | _, _ => false

/-- `m_threadPool.join()` returns: nothing is left of any query or mutation. -/
def State.poolIdle (s : State) : Bool :=
  (List.range s.operationBound).all fun o =>
    (s.operations o).isSubscription || (s.operations o).resting

/-- What the handler does once the pool is joined: the server is stopped with pending
notifications, ignore them. -/
def State.ignoreNotifications (s : State) : State :=
  { s with
    notifyTimer := .unset
    pendingNotifyTriggers := ∅ }

/-- What the handler does at last, with all of `m_connections`. -/
def State.releaseConnections (s : State) : State :=
  { s with connections := fun c => { s.connections c with live := false } }

/-- How far the handler is. -/
inductive Phase
  /-- The loop over `m_connections`. -/
  | stopping (remaining : List ConnectionId)
  /-- The main thread is in `m_singletonStorage.clear()`. -/
  | clearing
  /-- `onStopped` is called. -/
  | stopped
  deriving DecidableEq

/-- The server and its storage while it is being stopped, and afterwards. -/
structure Shutdown (K : Type) where
  server : State
  storage : SingletonStorage.State K
  phase : Phase

/-- A client connects. -/
def Label.opens : Label → Bool
  | .onWebSocketOpen | .onHttp _ _ _ => true
  | _ => false

/-- While the handler runs, the main thread does nothing else; afterwards nobody is
accepted any more. -/
def Phase.allows (s : State) (l : Label) : Phase → Bool
  | .stopping _ | .clearing => !l.ofMain || !s.frames.isEmpty
  | .stopped => !l.opens

/-- While the handler runs, the main thread, which is client `main` of the storage, calls
nothing but `clear`. -/
def Phase.admits {K : Type} (main : Nat) (l : SingletonStorage.Label K) : Phase → Bool
  | .stopping _ | .clearing =>
      match l with
      | .start n _ => n != main
      | _ => true
  | .stopped => true

/-- `stopListening`, when the main thread has come to its handler. -/
def stopListening {K : Type} (s : State) (storage : SingletonStorage.State K) : Shutdown K where
  server := s
  storage := storage
  phase := .stopping ((List.range s.connectionBound).filter fun c => (s.connections c).live)

namespace Shutdown

/-- One step while the server is being stopped. -/
inductive Label (K : Type)
  | server (l : GraphQLServer.Label)
  /-- A thread goes on inside of the storage, or calls it. -/
  | storage (l : SingletonStorage.Label K)
  /-- The loop of the handler goes on with the connection `c`. -/
  | stop (c : ConnectionId)
  /-- The pool is joined, and the handler goes on to `m_singletonStorage.clear()`. -/
  | join
  /-- This returns, and the rest of the handler runs. -/
  | cleared
  /-- The library has closed the connection `c`. -/
  | closed (c : ConnectionId)

variable {K : Type}

/-- The main thread can go on with the handler. -/
def Ready (s : Shutdown K) : Prop :=
  s.server.aborted = false ∧ s.server.frames = []

instance (s : Shutdown K) : Decidable s.Ready :=
  inferInstanceAs (Decidable (_ ∧ _))

variable [DecidableEq K]

def step (env : Environment) (p : SingletonStorage.Program K) (main : Nat) (s : Shutdown K) :
    Label K → Option (Shutdown K)
  | .server l =>
      if s.phase.allows s.server l then
        (GraphQLServer.step env s.server l).map fun server => { s with server := server }
      else none
  | .storage l =>
      if s.server.aborted = false ∧ s.phase.admits main l then
        (SingletonStorage.step p s.storage l).map fun storage => { s with storage := storage }
      else none
  | .stop c =>
      match s.phase with
      | .stopping remaining =>
          if s.Ready ∧ c ∈ remaining then
            some { s with
              server := s.server.stopConnection c
              phase := .stopping (remaining.erase c) }
          else none
      | _ => none
  | .join =>
      match s.phase with
      | .stopping [] =>
          if s.Ready ∧ s.server.poolIdle then
            (SingletonStorage.step p s.storage (.start main .clear)).map fun storage =>
              ⟨s.server.ignoreNotifications, storage, .clearing⟩
          else none
      | _ => none
  | .cleared =>
      match s.phase with
      | .clearing =>
          if s.Ready ∧ s.storage.stack (.client main) = [] then
            some { s with server := s.server.releaseConnections, phase := .stopped }
          else none
      | _ => none
  | .closed c =>
      match s.phase with
      | .stopped =>
          if s.Ready ∧ (s.server.connections c).http = false ∧
              (s.server.connections c).handlers then
            some { s with server := s.server.onConnectionDone c }
          else none
      | _ => none

variable {env : Environment} {p : SingletonStorage.Program K} {main : Nat}
variable {s s' : Shutdown K} {l : Label K}

/-- What a step does. -/
inductive Step (env : Environment) (p : SingletonStorage.Program K) (main : Nat)
    (s : Shutdown K) : Label K → Shutdown K → Prop
  | server {l server} (allowed : s.phase.allows s.server l = true)
      (step : GraphQLServer.step env s.server l = some server) :
      Step env p main s (.server l) { s with server := server }
  | storage {l storage} (runs : s.server.aborted = false)
      (admitted : s.phase.admits main l = true)
      (step : SingletonStorage.step p s.storage l = some storage) :
      Step env p main s (.storage l) { s with storage := storage }
  | stop {c remaining} (phase : s.phase = .stopping remaining) (ready : s.Ready)
      (mem : c ∈ remaining) :
      Step env p main s (.stop c) { s with
        server := s.server.stopConnection c
        phase := .stopping (remaining.erase c) }
  | join {storage} (phase : s.phase = .stopping []) (ready : s.Ready)
      (idle : s.server.poolIdle = true)
      (calls : SingletonStorage.step p s.storage (.start main .clear) = some storage) :
      Step env p main s .join ⟨s.server.ignoreNotifications, storage, .clearing⟩
  | cleared (phase : s.phase = .clearing) (ready : s.Ready)
      (returned : s.storage.stack (.client main) = []) :
      Step env p main s .cleared { s with
        server := s.server.releaseConnections
        phase := .stopped }
  | closed {c} (phase : s.phase = .stopped) (ready : s.Ready) :
      Step env p main s (.closed c) { s with server := s.server.onConnectionDone c }

/-- What a step of the shutdown is. -/
theorem step_cases (h : step env p main s l = some s') : Step env p main s l s' := by
  cases l with
  | server l =>
      obtain ⟨hallowed, hserver⟩ := Option.ite_none_right_eq_some.mp h
      obtain ⟨server, hstep, rfl⟩ := Option.map_eq_some_iff.mp hserver
      exact .server hallowed hstep
  | storage l =>
      obtain ⟨⟨hruns, hadmitted⟩, hstorage⟩ := Option.ite_none_right_eq_some.mp h
      obtain ⟨storage, hstep, rfl⟩ := Option.map_eq_some_iff.mp hstorage
      exact .storage hruns hadmitted hstep
  | stop c =>
      simp only [step] at h
      split at h
      · obtain ⟨⟨hready, hmem⟩, heq⟩ := Option.ite_none_right_eq_some.mp h
        cases heq
        exact .stop ‹_› hready hmem
      · cases h
  | join =>
      simp only [step] at h
      split at h
      · obtain ⟨⟨hready, hidle⟩, hstorage⟩ := Option.ite_none_right_eq_some.mp h
        obtain ⟨storage, hcalls, rfl⟩ := Option.map_eq_some_iff.mp hstorage
        exact .join ‹_› hready hidle hcalls
      · cases h
  | cleared =>
      simp only [step] at h
      split at h
      · obtain ⟨⟨hready, hreturned⟩, heq⟩ := Option.ite_none_right_eq_some.mp h
        cases heq
        exact .cleared ‹_› hready hreturned
      · cases h
  | closed c =>
      simp only [step] at h
      split at h
      · obtain ⟨⟨hready, -⟩, heq⟩ := Option.ite_none_right_eq_some.mp h
        cases heq
        exact .closed ‹_› hready
      · cases h

end Shutdown

/-- What the operations, their threads and their registrations owe to each other. -/
structure Sound (s : State) : Prop where
  wired : Wired s
  winding : ∀ o, (s.operations o).Winding
  joined : Joined s
  owned : Owned s
  keys : (s.registrations.map Registration.key).Nodup

section Sound

variable {env : Environment} {s s' : State} {l : Label}

/-- The server is as it should be when the shutdown begins. -/
theorem Reach.sound {ok : State → Label → Prop} (h : Runs.Reach (step env) ok initial s) :
    Sound s :=
  ⟨Reach.wired h, Reach.winding h, Reach.joined h, Reach.owned h, Reach.keys_nodup h⟩

/-- Every step keeps it so. -/
theorem Sound.step (h : Sound s) (hs : Step env s l s') : Sound s' where
  wired := h.wired.step hs
  winding := hs.forall_operations (P := Operation.Winding) (fun _ _ _ _ _ => nofun)
    (fun o _ hx => hx.winding (h.wired.valid o)) h.winding
  joined := h.joined.step h.wired h.winding hs
  owned := h.owned.step h.wired h.winding hs
  keys := hs.keys_nodup h.keys

/-- Between two handlers the main thread may change the connections and begin to stop
operations. -/
theorem Sound.enter (h : Sound s) (hidle : s.frames = [])
    (hoperations : s'.operations = s.operations) (hbound : s'.operationBound = s.operationBound)
    (hregistrations : s'.registrations = s.registrations) (hqueue : s'.queue = s.queue)
    (hframes : ∀ f ∈ s'.frames, (∃ remaining, f = .stopOperations remaining) ∨
      ∃ c, f = .tearDown c) : Sound s' where
  wired := by
    refine ⟨?_, ?_, ?_, ?_⟩
    · rw [hoperations]
      exact h.wired.valid
    · rw [hoperations, hbound]
      exact h.wired.unknown
    · rw [hoperations, hregistrations]
      exact h.wired.registered
    · intro o hcalled
      rw [hoperations]
      rcases hcalled with hqueued | ⟨keys, remaining, hframe, -⟩
      · exact h.wired.called o (.inl (hqueue ▸ hqueued))
      · rcases hframes _ hframe with ⟨_, heq⟩ | ⟨_, heq⟩ <;> cases heq
  winding := by
    rw [hoperations]
    exact h.winding
  joined := by
    rintro o ⟨hkind, hstopped, -⟩
    rw [hoperations] at hkind hstopped ⊢
    exact h.joined o ⟨hkind, hstopped, by simp [hidle]⟩
  owned := by
    intro r hr
    rw [hregistrations] at hr
    have hown := h.owned r hr
    unfold State.registration at hown ⊢
    rwa [hoperations]
  keys := hregistrations ▸ h.keys

end Sound

/-- The frames of the handler, which stops the operations of one connection at a time. -/
inductive StopFrames : List Frame → Prop
  | idle : StopFrames []
  | loop {remaining} : StopFrames [.stopOperations remaining]
  | joining {o remaining} : StopFrames [.join o, .stopOperations remaining]

/-- While the handler is in its loop: whatever still runs is to be stopped, by the loop over
the connections or by the one over the operations of a connection. -/
structure Stopping (s : State) (remaining : List ConnectionId) : Prop where
  frames : StopFrames s.frames
  known : ∀ c ∈ remaining, c < s.connectionBound
  placed : ∀ o, o < s.operationBound → (s.operations o).stopped = false →
    Remaining s o ∨ ∃ c ∈ remaining, ∃ id, (s.connections c).operations.lookup id = some o
  vacant : Vacant s

/-- No operation runs or is registered. -/
structure Halted (s : State) : Prop where
  stopped : ∀ o, o < s.operationBound → (s.operations o).stopped = true
  threads : ∀ o, (s.operations o).tasks = [] ∧ (s.operations o).worker = .idle
  registrations : s.registrations = []

/-- While the storage is cleared: the main thread does nothing else, and no thread does. -/
structure Clearing (s : State) : Prop extends Halted s where
  frames : s.frames = []
  vacant : Vacant s

/-- The server has stopped: nothing runs, is registered or connected. -/
structure Over (s : State) : Prop extends Halted s where
  connections : ∀ c, (s.connections c).live = false

def Phase.Holds (s : State) : Phase → Prop
  | .stopping remaining => Stopping s remaining
  | .clearing => Clearing s
  | .stopped => Over s

section Stopping

variable {env : Environment} {s s' : State} {l : Label} {remaining : List ConnectionId}

/-- What the server does beside and in the loop leaves the connections alone. -/
theorem StopFrames.step (h : StopFrames s.frames) (hl : l.ofMain = true → s.frames ≠ [])
    (hs : Step env s l s') :
    StopFrames s'.frames ∧ s'.connections = s.connections ∧
      s'.connectionBound = s.connectionBound ∧ s'.operationBound = s.operationBound := by
  cases hs
  case joined top _ _ =>
    rw [top] at h
    cases h
    exact ⟨.loop, rfl, rfl, rfl⟩
  case allStopped top =>
    rw [top] at h
    cases h
    exact ⟨.idle, rfl, rfl, rfl⟩
  case stopNext top mem stops =>
    rw [top] at h
    cases h
    refine ⟨?_, stops.connections, stops.bounds.2, stops.bounds.1⟩
    rcases stops.frames with heq | heq <;> rw [heq]
    · exact .loop
    · exact .joining
  case tearDown top | erase top | namesDone top | callbacksDone top | deliverName top mem
      | callbackIgnored top mem ignored | callback top mem running key =>
    rw [top] at h
    cases h
  all_goals first
    | exact ⟨h, rfl, rfl, rfl⟩
    | exact absurd ‹s.frames = []› (hl rfl)

/-- What is to be stopped with its connection stays so until it is stopped. -/
theorem Step.still_remaining (hs : Step env s l s') {o : OperationId} (h : Remaining s o) :
    Remaining s' o ∨ (s'.operations o).stopped = true := by
  obtain ⟨remaining, hframe, hmem⟩ := h
  rcases hs.frame hframe with hstay | hleaves
  · exact .inl ⟨remaining, hstay, hmem⟩
  · cases hleaves with
    | stopOperations stops => exact stops o hmem

/-- What is unknown stays so while nothing new comes. -/
theorem Vacant.step (h : Vacant s) (hw : Wired s)
    (hconnections : s'.connections = s.connections)
    (hconnectionBound : s'.connectionBound = s.connectionBound)
    (hbound : s'.operationBound = s.operationBound) (hs : Step env s l s') : Vacant s' where
  operations := by
    intro o ho
    rw [hbound] at ho
    rcases hs.operation o with heq | hchange | ⟨-, hcreated, -⟩
    · exact heq ▸ h.operations o ho
    · exact hchange.vacant (hw.called o) (hw.unknown o ho) (h.operations o ho)
    · exact absurd (hcreated.symm.trans hbound) (Nat.succ_ne_self _)
  connections := by
    rw [hconnections, hconnectionBound]
    exact h.connections

/-- While connections are stopped no new ones appear. -/
theorem Stopping.step (h : Stopping s remaining) (hw : Wired s)
    (hl : l.ofMain = true → s.frames ≠ []) (hs : Step env s l s') : Stopping s' remaining := by
  obtain ⟨hframes, hconnections, hconnectionBound, hbound⟩ := h.frames.step hl hs
  refine ⟨hframes, hconnectionBound ▸ h.known, ?_,
    h.vacant.step hw hconnections hconnectionBound hbound hs⟩
  intro o ho hrunning
  rw [hbound] at ho
  have hbefore : (s.operations o).stopped = false := by
    by_contra hstopped
    simp [hs.stays_stopped ho (by simpa using hstopped)] at hrunning
  rcases h.placed o ho hbefore with hremaining | hentry
  · exact .inl ((hs.still_remaining hremaining).resolve_right (by simp [hrunning]))
  · exact .inr (hconnections ▸ hentry)

/-- The loop goes on with one of the connections. -/
theorem Stopping.stop (h : Stopping s remaining) (hidle : s.frames = []) {c : ConnectionId}
    (hc : c ∈ remaining) : Stopping (s.stopConnection c) (remaining.erase c) where
  frames := by
    simp only [State.stopConnection, State.goto_frames, hidle]
    exact .loop
  known c' hc' := h.known c' (List.mem_of_mem_erase hc')
  placed := by
    intro o ho hrunning
    rcases h.placed o ho hrunning with ⟨_, hframe, -⟩ | ⟨c', hc', id, hlookup⟩
    · simp [hidle] at hframe
    · by_cases heq : c' = c
      · subst heq
        refine .inl ⟨_, .head _, ?_⟩
        exact List.mem_map.mpr ⟨⟨id, o⟩, AList.mem_lookup_iff.mp hlookup, rfl⟩
      · refine .inr ⟨c', (List.mem_erase_of_ne heq).mpr hc', id, ?_⟩
        simpa [State.stopConnection, heq] using hlookup
  vacant := by
    refine ⟨h.vacant.operations, fun c' hc' => ?_⟩
    by_cases heq : c' = c
    · simp [State.stopConnection, heq]
    · simpa [State.stopConnection, heq] using h.vacant.connections c' hc'

/-- The thread of an operation rests when it has no task left. -/
theorem Operation.resting_iff {x : Operation} :
    x.resting = true ↔ x.tasks = [] ∧ x.worker = .idle := by
  unfold Operation.resting
  split
  · simp [*]
  · rename_i hbusy
    simpa using hbusy

/-- When the loop has ended and the pool is joined, everything has stopped. -/
theorem Stopping.halted (h : Stopping s []) (hsound : Sound s) (hidle : s.frames = [])
    (hpool : s.poolIdle = true) : Halted s := by
  have hstopped : ∀ o, o < s.operationBound → (s.operations o).stopped = true := by
    intro o ho
    by_contra hrunning
    rcases h.placed o ho (by simpa using hrunning) with ⟨_, hframe, -⟩ | ⟨_, hc, -⟩
    · simp [hidle] at hframe
    · cases hc
  have hthreads : ∀ o, (s.operations o).tasks = [] ∧ (s.operations o).worker = .idle := by
    intro o
    by_cases ho : o < s.operationBound
    · by_cases hkind : (s.operations o).isSubscription = true
      · have hquiet := hsound.joined o ⟨hkind, hstopped o ho, by simp [hidle]⟩
        exact ⟨hquiet.tasks, hquiet.worker⟩
      · have hrests := List.all_eq_true.mp hpool o (List.mem_range.mpr ho)
        simp only [hkind, Bool.false_or] at hrests
        exact Operation.resting_iff.mp hrests
    · exact h.vacant.operations o (not_lt.mp ho)
  refine ⟨hstopped, hthreads, ?_⟩
  refine List.eq_nil_iff_forall_not_mem.mpr fun r hr => ?_
  have hactive := (hsound.owned r hr).1
  have hknown := hsound.wired.known (hsound.wired.registered r hr)
  obtain ⟨htasks, hworker⟩ := hthreads r.operation
  rcases hactive.2 (hstopped _ hknown) with htask | hunsubscribing
  · simp [htasks] at htask
  · simp [hworker] at hunsubscribing

/-- An operation that is stopped and rests does so for ever. -/
theorem OperationStep.rests {e : Effects} {x x' : Operation} (hs : OperationStep e x x')
    (hstopped : x.stopped = true) (h : x.tasks = [] ∧ x.worker = .idle) :
    x'.tasks = [] ∧ x'.worker = .idle := by
  obtain ⟨htasks, hworker⟩ := h
  cases hs
  case resolvedStopped => exact ⟨htasks, rfl⟩
  all_goals simp_all [Worker.resolves]

/-- Nothing begins on a server without connections. -/
theorem Over.bounds (h : Over s) (hl : l.opens = false) (hs : Step env s l s') :
    s'.operationBound = s.operationBound ∧ s'.connectionBound = s.connectionBound := by
  cases hs
  case messageStart connected _ => exact absurd connected.live (by simp [h.connections])
  case messageStop stops | forceStop stops | stopNext stops => exact stops.bounds
  all_goals first
    | exact ⟨rfl, rfl⟩
    | cases hl

/-- What has halted stays so, unless an operation begins. -/
theorem Halted.step (h : Halted s) (hw : Wired s) (hbound : s'.operationBound = s.operationBound)
    (hs : Step env s l s') : Halted s' where
  stopped := by
    intro o ho
    rw [hbound] at ho
    exact hs.stays_stopped ho (h.stopped o ho)
  threads := by
    intro o
    rcases hs.operation o with heq | hchange | ⟨-, hcreated, -⟩
    · exact heq ▸ h.threads o
    · by_cases ho : o < s.operationBound
      · exact hchange.rests (h.stopped o ho) (h.threads o)
      · exact hchange.vacant (hw.called o) (hw.unknown o (not_lt.mp ho)) (h.threads o)
    · exact absurd (hcreated.symm.trans hbound) (Nat.succ_ne_self _)
  registrations := by
    rcases hs.registrations with heq | ⟨o, key, name, hsubscribing, -⟩ | ⟨o, -, -, -, heq⟩
    · exact heq.trans h.registrations
    · simp [(h.threads o).2] at hsubscribing
    · rw [heq, h.registrations]
      rfl

/-- The other threads leave the frames of the main thread alone. -/
theorem Step.frames_of_other (hs : Step env s l s') (hl : ¬l.ofMain = true) :
    s'.frames = s.frames := by
  cases hs <;> first
    | rfl
    | exact absurd rfl hl

/-- The main thread has no frames of its own while it is in the storage. -/
theorem Clearing.step (h : Clearing s) (hw : Wired s) (hl : l.ofMain = true → s.frames ≠ [])
    (hs : Step env s l s') : Clearing s' := by
  have hidle : StopFrames s.frames := h.frames ▸ .idle
  obtain ⟨-, hconnections, hconnectionBound, hbound⟩ := hidle.step hl hs
  refine ⟨h.toHalted.step hw hbound hs, ?_,
    h.vacant.step hw hconnections hconnectionBound hbound hs⟩
  exact (hs.frames_of_other fun hmain => hl hmain h.frames).trans h.frames

/-- Without new connections nothing comes to life again. -/
theorem Over.step (h : Over s) (hw : Wired s) (hl : l.opens = false) (hs : Step env s l s') :
    Over s' where
  toHalted := h.toHalted.step hw (h.bounds hl hs).1 hs
  connections := by
    intro c
    by_contra hlive
    rcases (hs.connectionChange c).live (by simpa using hlive) with hold | ⟨rfl, hbound, -⟩
    · simp [h.connections] at hold
    · exact absurd (hbound.symm.trans (h.bounds hl hs).2) (Nat.succ_ne_self _)

/-- The replies that are queued. -/
def State.replies (s : State) : List Task :=
  s.queue.filter Task.isReply

/-- Nothing more is told to anybody. -/
theorem Over.replies (h : Over s) (hl : l.opens = false) (hs : Step env s l s') :
    s'.replies <:+ s.replies := by
  have hquiet : l.worker? = none ∧ l.fromClient = false ∨ s'.queue = s.queue := by
    cases l with
    | onHttp | onWebSocketOpen => cases hl
    | onWebSocketMessage c message key =>
        cases hs
        case aborts => exact .inr rfl
        all_goals exact absurd (Connected.live ‹_›) (by simp [h.connections])
    | worker o =>
        have hidle := (h.threads o).2
        cases hs <;> first
          | exact .inr rfl
          | simp_all
    | _ => exact .inl ⟨rfl, rfl⟩
  unfold State.replies
  rcases hquiet with ⟨hworker, hclient⟩ | hqueue
  · rcases hs.quiet hworker hclient with hqueue | ⟨t, hqueue, hsilent⟩ | ⟨t, hqueue⟩
    · rw [hqueue]
    · simp [hqueue, List.filter_append, hsilent]
    · rw [hqueue]
      exact (List.suffix_cons _ _).filter _
  · rw [hqueue]

end Stopping

namespace Shutdown

variable {K : Type} [DecidableEq K] {env : Environment} {p : SingletonStorage.Program K}
variable {main : Nat} {s s' : Shutdown K} {l : Label K}

/-- What holds while the server is being stopped, and afterwards. -/
structure Invariant (s : Shutdown K) : Prop where
  sound : Sound s.server
  phase : Phase.Holds s.server s.phase

/-- Each phase leaves what the next one relies on. -/
theorem Invariant.step (h : Invariant s) (hs : Step env p main s l s') : Invariant s' := by
  obtain ⟨hsound, hphase⟩ := h
  cases hs with
  | @server l server allowed step =>
      have hs := GraphQLServer.step_cases step
      refine ⟨hsound.step hs, ?_⟩
      -- while the handler runs, a step of the main thread belongs to one of its frames
      have hmain : (!l.ofMain || !s.server.frames.isEmpty) = true →
          l.ofMain = true → s.server.frames ≠ [] := by
        intro hallows hl hnil
        simp [hl, hnil] at hallows
      cases hp : s.phase with
      | stopping remaining =>
          rw [hp] at hphase allowed
          exact Stopping.step hphase hsound.wired (hmain allowed) hs
      | clearing =>
          rw [hp] at hphase allowed
          exact Clearing.step hphase hsound.wired (hmain allowed) hs
      | stopped =>
          rw [hp] at hphase allowed
          exact Over.step hphase hsound.wired (by simpa [Phase.allows] using allowed) hs
  | storage => exact ⟨hsound, hphase⟩
  | stop phase ready mem =>
      rw [phase] at hphase
      refine ⟨?_, Stopping.stop hphase ready.2 mem⟩
      refine hsound.enter ready.2 rfl rfl rfl rfl ?_
      simp [State.stopConnection, ready.2]
  | join phase ready idle calls =>
      rw [phase] at hphase
      have hhalted := Stopping.halted hphase hsound ready.2 idle
      refine ⟨?_, ⟨hhalted.stopped, hhalted.threads, hhalted.registrations⟩, ready.2,
        ⟨hphase.vacant.operations, hphase.vacant.connections⟩⟩
      refine hsound.enter ready.2 rfl rfl rfl rfl ?_
      simp [State.ignoreNotifications, ready.2]
  | cleared phase ready returned =>
      rw [phase] at hphase
      refine ⟨?_, ⟨hphase.stopped, hphase.threads, hphase.registrations⟩, fun _ => rfl⟩
      refine hsound.enter ready.2 rfl rfl rfl rfl ?_
      simp [State.releaseConnections, ready.2]
  | @closed c phase ready =>
      rw [phase] at hphase
      constructor
      · refine hsound.enter ready.2 rfl rfl rfl rfl ?_
        simp [State.onConnectionDone, ready.2]
      · simp only [phase]
        refine ⟨⟨hphase.stopped, hphase.threads, hphase.registrations⟩, fun c' => ?_⟩
        by_cases hc : c' = c
        · simp [State.onConnectionDone, hc]
        · simpa [State.onConnectionDone, hc] using hphase.connections c'

omit [DecidableEq K] in
/-- Where the main thread comes to the handler. -/
theorem invariant_stopListening {ok : GraphQLServer.State → GraphQLServer.Label → Prop}
    {s : GraphQLServer.State} (h : Runs.Reach (GraphQLServer.step env) ok initial s)
    (hidle : s.frames = []) (storage : SingletonStorage.State K) :
    Invariant (stopListening s storage) where
  sound := Reach.sound h
  phase := by
    have hentries := Reach.entries h
    have hhandled := Reach.handled h
    refine ⟨?_, ?_, ?_, vacant hhandled hentries⟩
    · simp only [stopListening, hidle]
      exact .idle
    · intro c hc
      exact List.mem_range.mp (List.mem_of_mem_filter hc)
    · intro o ho hrunning
      rcases hhandled.placed o ho hrunning with hkept | hremaining
      · obtain ⟨hc, hlive⟩ := hentries.connection hkept
        exact .inr ⟨_, List.mem_filter.mpr ⟨List.mem_range.mpr hc, hlive⟩, _, hkept⟩
      · exact .inl hremaining

/-- The phases hold what they promise in every run. -/
theorem Reach.invariant {ok : GraphQLServer.State → GraphQLServer.Label → Prop}
    {ok' : Shutdown K → Label K → Prop} {start : GraphQLServer.State}
    {storage : SingletonStorage.State K}
    (hstart : Runs.Reach (GraphQLServer.step env) ok initial start) (hidle : start.frames = [])
    (h : Runs.Reach (step env p main) ok' (stopListening start storage) s) : Invariant s := by
  apply h.invariant (I := Invariant)
  · exact invariant_stopListening hstart hidle storage
  · intro s l s' hs _ hstep
    exact hs.step (step_cases hstep)

/-- **What is stopped stays so.**  When `onStopped` has been called, and in every later
state, every operation is stopped and has nothing to do on its thread, no subscription is
registered, no connection is left, and no reply is posted any more, whatever goes on in
the storage. -/
theorem stopListening_stops {ok : State → GraphQLServer.Label → Prop}
    {ok' : Shutdown K → Label K → Prop} {start : State} {storage : SingletonStorage.State K}
    (hstart : Runs.Reach (GraphQLServer.step env) ok initial start) (hidle : start.frames = [])
    (h : Runs.Reach (step env p main) ok' (stopListening start storage) s)
    (hphase : s.phase = .stopped) (hlater : Runs.Reach (step env p main) ok' s s') :
    Over s'.server ∧ s'.server.replies <:+ s.server.replies := by
  have hover : s'.phase = .stopped ∧ s'.server.replies <:+ s.server.replies := by
    apply hlater.along (I := fun s' => s'.phase = .stopped ∧
      s'.server.replies <:+ s.server.replies)
    · exact ⟨hphase, List.suffix_rfl⟩
    · rintro m l m' hreach ⟨hm, hreplies⟩ _ hstep
      have hinvariant := Reach.invariant hstart hidle (h.trans hreach)
      have hholds := hinvariant.phase
      rw [hm] at hholds
      cases step_cases hstep with
      | @server l server allowed step =>
          rw [hm] at allowed
          have hopens : l.opens = false := by simpa [Phase.allows] using allowed
          exact ⟨hm, (Over.replies hholds hopens (GraphQLServer.step_cases step)).trans hreplies⟩
      | stop phase | join phase | cleared phase => simp [hm] at phase
      | storage | closed => exact ⟨hm, hreplies⟩
  have hinvariant := Reach.invariant hstart hidle (h.trans hlater)
  refine ⟨?_, hover.2⟩
  have hholds := hinvariant.phase
  rw [hover.1] at hholds
  exact hholds

/-- The first client's operation has just subscribed. -/
def subscribed : State :=
  (Runs.run (GraphQLServer.step vehicle) initial connectSubscribe).getD initial

/-- The storage has one type that a client holds, and two that wait for their collection. -/
def held : SingletonStorage.State String :=
  (Runs.run (SingletonStorage.step SingletonStorage.dependents) SingletonStorage.initial
    SingletonStorage.holdLight).getD SingletonStorage.initial

/-- The handler stops the first client's subscription, waits for its thread, and clears the
storage. -/
def stopSubscribed : List (Label String) :=
  [.stop 0, .server (.stopNext 0), .server (.worker 0), .server (.take 0), .server (.worker 0),
    .server .main, .server .main, .join] ++ SingletonStorage.clearDependent.map .storage ++
    [.cleared]

/-- The initial notification was queued; the main thread runs it when it has stopped, and the
library closes the connection. -/
def closeSubscribed : List (Label String) :=
  [.server .main, .server .expireNotify, .closed 0, .server .main, .server .main, .server .main,
    .server (.deliverName "vehicle"), .server .main, .server .main]

set_option maxRecDepth 8000 in
/-- The connection of the first client is closed and nothing is left to send. -/
theorem stopListening_stops_closeSubscribed :
    ∃ s, Runs.run (step vehicle SingletonStorage.dependents 0) (stopListening subscribed held)
        (stopSubscribed ++ closeSubscribed) = some s ∧
      (s.server.connections 0).handlers = false ∧ s.server.queue = [] ∧ Over s.server := by
  have hrun : Runs.run (GraphQLServer.step vehicle) initial connectSubscribe = some subscribed :=
    rfl
  have hreach := Runs.reach_of_run hrun Runs.runMeets_always
  have hcloses : Runs.run (step vehicle SingletonStorage.dependents 0)
      (stopListening subscribed held) (stopSubscribed ++ closeSubscribed) = some _ := rfl
  have hlater := Runs.reach_of_run hcloses Runs.runMeets_always
  exact ⟨_, hcloses, rfl, rfl, (stopListening_stops hreach rfl hlater rfl .refl).1⟩

end Shutdown

end GraphQLServer
