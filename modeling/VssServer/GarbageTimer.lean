import Mathlib.Data.Finset.Card
import VssServer.TearDown

/-!
# The timer of the garbage collection

An operation holds a `Ref` to every singleton that its resolvers have asked for.
It is destroyed by whoever drops the last pointer to it, with `m_usedSingletons`:
the main thread, the thread that comes back from one of its functions, or the handler of
a delivery timer that was destroyed while it was waiting.  The collection is scheduled at
the end of `onConnectionDone` only, so what is disposed later waits for the next
connection.  As long as somebody is still going to look when a singleton is disposed,
nothing is left behind without a timer: `collection_scheduled`.

* `Watched`: somebody is still going to look at what is disposed.
* `Scheduled.step`: every step that meets `LooksLater` keeps the collection scheduled.
* `collection_scheduled`: a quiet state with something to collect has its timer armed.
* `collection_forgotten`: without the condition it may not.
-/

namespace GraphQLServer

/-- The address behind a `BaseSingleton::Key`. -/
abbrev SingletonKey := Nat

/-- The server with what bears on its singletons.  `stopping` is the local map of
`GraphQLConnection::stop`; `cancelled` are the operations whose destroyed delivery timer
has still to call its handler, which has a pointer; `usedSingletons` are the
`m_usedSingletons` of all operations. -/
structure Collector where
  server : State
  stopping : List OperationId := []
  cancelled : List OperationId := []
  usedSingletons : List (OperationId × SingletonKey) := []
  disposed : Finset SingletonKey := ∅
  garbageCollectTimer : Timer := .unset

/-- A step of the server, or one that concerns its singletons. -/
inductive CollectorLabel
  | server (l : Label)
  /-- The handler of a destroyed delivery timer is called with an error. -/
  | cancelled (o : OperationId)
  /-- A resolver of `o` calls `getSingleton`. -/
  | getSingleton (o : OperationId) (key : SingletonKey)
  | expireGarbageCollect
  | garbageCollect

def Worker.isIdle : Worker → Bool
  | .idle => true
  | _ => false

/-- The task is bound to a pointer to the operation. -/
def Task.binds (o : OperationId) : Task → Bool
  | .dispatchPendingDelivery o' | .stop o' => o' = o
  | _ => false

/-- What the main thread is in the middle of has a pointer to the operation. -/
def Frame.binds (o : OperationId) : Frame → Bool
  | .join o' => o' = o
  | .deliver _ remaining => o ∈ remaining
  | _ => false

/-- It is within `onConnectionDone`, which looks when the connection is torn down. -/
def Frame.tearsDown : Frame → Bool
  | .tearDown _ => true
  | _ => false

/-- The operations that the loop of `GraphQLConnection::stop` has still to stop. -/
def Frame.stops : Frame → Option (List OperationId)
  | .stopOperations remaining => some remaining
  | _ => none

/-- Somebody has a pointer to the operation: the map of its connection, its thread, the
handler of its delivery timer, the future of its delivery, the schema, the main thread. -/
def State.pointsTo (s : State) (o : OperationId) : Prop :=
  Kept s o ∨ (s.operations o).tasks ≠ [] ∨ (s.operations o).worker.isIdle = false ∨
    (s.operations o).deliveryTimer = .armed ∨ (s.operations o).pendingDelivery = true ∨
    (∃ r ∈ s.registrations, r.operation = o) ∨ (∃ t ∈ s.queue, t.binds o) ∨
    ∃ f ∈ s.frames, f.binds o

instance (s : State) (o : OperationId) : Decidable (s.pointsTo o) :=
  inferInstanceAs (Decidable (_ ∨ _))

namespace Collector

/-- Before the first connection. -/
def initial : Collector where
  server := GraphQLServer.initial

def pointsTo (s : Collector) (o : OperationId) : Prop :=
  s.server.pointsTo o ∨ o ∈ s.stopping ∨ o ∈ s.cancelled

instance (s : Collector) (o : OperationId) : Decidable (s.pointsTo o) :=
  inferInstanceAs (Decidable (_ ∨ _))

/-- The `Ref`s of the operations that are not destroyed. -/
def remaining (s : Collector) : List (OperationId × SingletonKey) :=
  s.usedSingletons.filter fun r => s.pointsTo r.1

/-- The singletons whose last `Ref` is dropped with an operation that nobody points to. -/
def dropped (s : Collector) : Finset SingletonKey :=
  ((s.usedSingletons.map Prod.snd).filter fun key => ∀ r ∈ s.remaining, r.2 ≠ key).toFinset

/-- The destructors of the operations that nobody points to; `BaseSingleton::unref`
disposes what loses its last `Ref`. -/
def release (s : Collector) : Collector :=
  { s with usedSingletons := s.remaining, disposed := s.disposed ∪ s.dropped }

def pendingGarbageCollect (s : Collector) : Nat :=
  s.disposed.card

def scheduleGarbageCollectIfNeeded (s : Collector) : Collector :=
  if s.pendingGarbageCollect = 0 then s
  else if s.garbageCollectTimer ≠ .unset then s
  else { s with garbageCollectTimer := .armed }

/-- `GraphQLServer::garbageCollect`; the storage goes on until nothing is disposed. -/
def garbageCollect (s : Collector) : Collector :=
  { s with garbageCollectTimer := .unset, disposed := ∅ }

/-- `GraphQLRequestState::getSingleton`; the storage recycles what was disposed. -/
def getSingleton (s : Collector) (o : OperationId) (key : SingletonKey) : Collector :=
  if (o, key) ∈ s.usedSingletons then s
  else
    { s with
      usedSingletons := (o, key) :: s.usedSingletons
      disposed := s.disposed.erase key }

/-- The server goes on. -/
def goOn (s : Collector) (server : State) : Collector :=
  { s with
    server := server
    stopping :=
      match s.server.frames.findSome? Frame.stops, server.frames.findSome? Frame.stops with
      | none, some remaining => remaining
      | some _, some _ => s.stopping
      | _, none => []
    cancelled := s.cancelled ++ (List.range s.server.operationBound).filter fun o =>
      (s.server.operations o).deliveryTimer = .armed ∧
        (server.operations o).deliveryTimer = .unset }

/-- One step, before the destructors that it leads to. -/
def advance (env : Environment) (s : Collector) : CollectorLabel → Option Collector
  | .server l => (GraphQLServer.step env s.server l).map s.goOn
  | .cancelled o =>
      if s.server.frames = [] ∧ o ∈ s.cancelled then
        some { s with cancelled := s.cancelled.erase o }
      else none
  | .getSingleton o key =>
      if (s.server.operations o).worker.resolves then some (s.getSingleton o key) else none
  | .expireGarbageCollect =>
      if s.garbageCollectTimer = .armed then some { s with garbageCollectTimer := .expired }
      else none
  | .garbageCollect =>
      if s.server.frames = [] ∧ s.garbageCollectTimer = .expired then some s.garbageCollect
      else none

/-- The connection that `onConnectionDone` is at the end of. -/
def looks (s : Collector) : CollectorLabel → Option ConnectionId
  | .server l => s.server.tearsDown l
  | _ => none

/-- One atomic step. -/
def step (env : Environment) (s : Collector) (l : CollectorLabel) : Option Collector :=
  if s.server.aborted then none
  else (s.advance env l).map fun s' =>
    if (s.looks l).isSome then s'.release.scheduleGarbageCollectIfNeeded else s'.release

/-- Somebody is going to look at what is disposed: the timer is set, a connection is still
in `m_connections`, or its `onConnectionDone` has still to return. -/
def Watched (s : Collector) : Prop :=
  s.garbageCollectTimer ≠ .unset ∨
    (∃ c < s.server.connectionBound, (s.server.connections c).live = true) ∨
    ∃ f ∈ s.server.frames, f.tearsDown

instance (s : Collector) : Decidable s.Watched :=
  inferInstanceAs (Decidable (_ ∨ _ ∨ _))

/-- The side condition on a step: when an operation is destroyed with the last `Ref` of a
singleton, somebody is still going to look. -/
def LooksLater (env : Environment) (s : Collector) (l : CollectorLabel) : Prop :=
  ∀ s' ∈ s.advance env l, s'.dropped = ∅ ∨ s.Watched

instance (env : Environment) (s : Collector) (l : CollectorLabel) :
    Decidable (LooksLater env s l) :=
  inferInstanceAs (Decidable (∀ _ ∈ _, _))

/-- No connection is left, the main thread has nothing to do, and the threads of the
operations have returned. -/
structure Quiet (s : Collector) : Prop where
  connections : ∀ c < s.server.connectionBound, (s.server.connections c).live = false
  queue : s.server.queue = []
  frames : s.server.frames = []
  cancelled : s.cancelled = []
  expired : s.garbageCollectTimer ≠ .expired
  threads : ∀ o < s.server.operationBound, (s.server.operations o).tasks = [] ∧
    (s.server.operations o).worker.isIdle = true

variable {env : Environment}

end Collector

variable {env : Environment} {s s' : State} {l : Label}

/-- A connection is in `m_connections` until `onConnectionDone` is on its way. -/
theorem Step.leaves_connections (hs : Step env s l s') {c : ConnectionId}
    (h : (s.connections c).live = true) :
    (s'.connections c).live = true ∨ .tearDown c ∈ s'.frames := by
  cases hs.touches c with
  | leaves eq | permits _ eq | inserts _ _ _ _ eq | erases _ eq | tearsDown _ _ eq =>
      left
      rw [eq]
      exact h
  | opens _ _ _ eq | rejects _ _ eq | starts _ _ _ eq =>
      left
      rw [eq]
  | ends frames _ =>
      right
      rw [frames]
      exact .tail _ (.head _)

/-- `onConnectionDone` returns with `tearDown`. -/
theorem Step.leaves_tearDown (hs : Step env s l s') {c : ConnectionId}
    (h : .tearDown c ∈ s.frames) : .tearDown c ∈ s'.frames ∨ s.tearsDown l = some c := by
  have hpop : ∀ {f frames}, s.frames = f :: frames → f ≠ .tearDown c →
      (∀ g ∈ frames, g ∈ s'.frames) → .tearDown c ∈ s'.frames := by
    intro f frames top hne hrest
    rw [top] at h
    rcases List.mem_cons.mp h with heq | hmem
    · exact absurd heq.symm hne
    · exact hrest _ hmem
  have hbusy : s.frames ≠ [] := by
    intro idle
    rw [idle] at h
    cases h
  cases hs
  case tearDown c₀ frames top =>
    by_cases hc : c₀ = c
    · subst hc
      exact .inr (by simp [State.tearsDown, top])
    · exact .inl (hpop top (by simpa using hc) fun _ h => h)
  case messageStop idle _ _ _ | forceStop idle _ _ => exact absurd idle hbusy
  case closed idle _ | sendHttp idle _ | runDeliver idle _ => exact absurd idle hbusy
  case joined top _ _ | allStopped top | erase top | namesDone top | callbacksDone top =>
    exact .inl (hpop top (by simp) fun _ h => h)
  case stopNext o remaining frames top mem stops =>
    refine .inl (hpop top (by simp) fun g hg => ?_)
    rcases stops.frames with heq | heq
    · rw [heq]
      exact .tail _ hg
    · rw [heq]
      exact .tail _ (.tail _ hg)
  case deliverName top _ => exact .inl (hpop top (by simp) fun _ h => .tail _ (.tail _ h))
  case callbackIgnored top _ _ => exact .inl (hpop top (by simp) fun _ h => .tail _ h)
  case callback top _ _ _ => exact .inl (hpop top (by simp) fun _ h => .tail _ h)
  all_goals exact .inl h

namespace Collector

variable {t t' : Collector} {m : CollectorLabel}

/-- Once the destructors have run there is nothing left to drop. -/
theorem release_dropped (t : Collector) : t.release.dropped = ∅ := by
  have hremaining : t.release.remaining = t.remaining := by
    unfold remaining
    exact List.filter_eq_self.mpr fun r hr => (List.mem_filter.mp hr).2
  unfold dropped
  rw [hremaining, List.toFinset_eq_empty_iff, List.filter_eq_nil_iff]
  intro key hkey
  obtain ⟨r, hr, rfl⟩ := List.mem_map.mp hkey
  simp only [decide_eq_true_eq, not_forall]
  exact ⟨r, hr, fun hne => hne rfl⟩

/-- The look does not drop anything. -/
theorem schedule_dropped (t : Collector) :
    t.scheduleGarbageCollectIfNeeded.dropped = t.dropped := by
  unfold scheduleGarbageCollectIfNeeded
  split_ifs <;> rfl

/-- After a look the timer is set, or there is nothing to collect. -/
theorem schedule_watched (t : Collector)
    (h : t.scheduleGarbageCollectIfNeeded.disposed ≠ ∅) :
    t.scheduleGarbageCollectIfNeeded.Watched := by
  unfold scheduleGarbageCollectIfNeeded at h ⊢
  split_ifs at h ⊢ with hnone htimer
  · exact absurd (Finset.card_eq_zero.mp hnone) h
  · exact .inl htimer
  · exact .inl nofun

/-- Who was going to look when the server goes on looks now, or later. -/
theorem Watched.goOn (h : t.Watched) (hs : Step env t.server l s') :
    (t.goOn s').Watched ∨ t.server.tearsDown l ≠ none := by
  rcases h with htimer | ⟨c, hc, hlive⟩ | ⟨f, hf, htears⟩
  · exact .inl (.inl htimer)
  · left
    rcases hs.leaves_connections hlive with hlive | hframe
    · exact .inr (.inl ⟨c, hc.trans_le hs.bounds.2, hlive⟩)
    · exact .inr (.inr ⟨_, hframe, rfl⟩)
  · cases f with
    | tearDown c =>
        rcases hs.leaves_tearDown hf with hframe | hlooks
        · exact .inl (.inr (.inr ⟨_, hframe, rfl⟩))
        · exact .inr (by simp [hlooks])
    | _ => cases htears

/-- Who was going to look looks now, or later; a collection leaves nothing to see. -/
theorem advance_watched (h : t.Watched) (hstep : t.advance env m = some t') :
    t'.Watched ∨ t.looks m ≠ none ∨ t'.disposed = ∅ ∧ t'.dropped = t.dropped := by
  cases m with
  | server l =>
      obtain ⟨s', hs', rfl⟩ := Option.map_eq_some_iff.mp hstep
      rcases h.goOn (step_cases hs') with hwatched | hlooks
      · exact .inl hwatched
      · exact .inr (.inl hlooks)
  | cancelled o =>
      obtain ⟨-, heq⟩ := Option.ite_none_right_eq_some.mp hstep
      cases heq
      exact .inl h
  | getSingleton o key =>
      obtain ⟨-, heq⟩ := Option.ite_none_right_eq_some.mp hstep
      cases heq
      unfold getSingleton
      split
      · exact .inl h
      · exact .inl h
  | expireGarbageCollect =>
      obtain ⟨-, heq⟩ := Option.ite_none_right_eq_some.mp hstep
      cases heq
      exact .inl (.inl nofun)
  | garbageCollect =>
      obtain ⟨-, heq⟩ := Option.ite_none_right_eq_some.mp hstep
      cases heq
      exact .inr (.inr ⟨rfl, rfl⟩)

/-- Nothing is disposed before the destructors run. -/
theorem advance_disposed (hstep : t.advance env m = some t') : t'.disposed ⊆ t.disposed := by
  cases m with
  | server l =>
      obtain ⟨s', -, rfl⟩ := Option.map_eq_some_iff.mp hstep
      exact subset_rfl
  | getSingleton o key =>
      obtain ⟨-, heq⟩ := Option.ite_none_right_eq_some.mp hstep
      cases heq
      unfold getSingleton
      split
      · exact subset_rfl
      · exact Finset.erase_subset _ _
  | garbageCollect =>
      obtain ⟨-, heq⟩ := Option.ite_none_right_eq_some.mp hstep
      cases heq
      exact Finset.empty_subset _
  | cancelled o | expireGarbageCollect =>
      obtain ⟨-, heq⟩ := Option.ite_none_right_eq_some.mp hstep
      cases heq
      exact subset_rfl

/-- The destructors have run, and somebody is going to look at what is disposed. -/
structure Scheduled (s : Collector) : Prop where
  released : s.dropped = ∅
  watched : s.disposed ≠ ∅ → s.Watched

/-- The destructors run within the step that calls for them. -/
theorem Scheduled.step_released (hstep : t.step env m = some t') : t'.dropped = ∅ := by
  obtain ⟨-, hstep⟩ := Option.ite_none_left_eq_some.mp hstep
  obtain ⟨u, -, rfl⟩ := Option.map_eq_some_iff.mp hstep
  split
  · rw [schedule_dropped, release_dropped]
  · exact release_dropped u

/-- What is disposed is watched: here `LooksLater` is needed. -/
theorem Scheduled.step_watched (h : t.Scheduled) (hok : LooksLater env t m)
    (hstep : t.step env m = some t') : t'.disposed ≠ ∅ → t'.Watched := by
  obtain ⟨-, hstep⟩ := Option.ite_none_left_eq_some.mp hstep
  obtain ⟨u, hu, rfl⟩ := Option.map_eq_some_iff.mp hstep
  intro hdisposed
  by_cases hlooks : (t.looks m).isSome
  · rw [if_pos hlooks] at hdisposed ⊢
    exact schedule_watched _ hdisposed
  rw [if_neg hlooks] at hdisposed ⊢
  have hnew : u.disposed = ∅ → u.dropped ≠ ∅ := by
    intro hold hnone
    exact hdisposed (by simp [release, hold, hnone])
  have hwatched : t.Watched := by
    rcases hok u hu with hnone | hwatched
    · apply h.watched
      intro hempty
      exact hnew (Finset.subset_empty.mp (hempty ▸ advance_disposed hu)) hnone
    · exact hwatched
  rcases advance_watched hwatched hu with hwatched | hsome | ⟨hcollected, hdropped⟩
  · exact hwatched
  · exact absurd (Option.isSome_iff_ne_none.mpr hsome) hlooks
  · exact absurd (hdropped.trans h.released) (hnew hcollected)

/-- Every step that meets the side condition keeps the collection scheduled. -/
theorem Scheduled.step (h : t.Scheduled) (hok : LooksLater env t m)
    (hstep : t.step env m = some t') : t'.Scheduled where
  released := step_released hstep
  watched := h.step_watched hok hstep

/-- **The collection is scheduled.**  As long as somebody is still going to look whenever an
operation is destroyed with the last `Ref` of a singleton, the timer is armed in every
quiet state with something to collect. -/
theorem collection_scheduled (h : Runs.Reach (Collector.step env) (LooksLater env) initial t)
    (hquiet : t.Quiet) (hpending : 0 < t.pendingGarbageCollect) :
    t.garbageCollectTimer = .armed := by
  have hscheduled : t.Scheduled := by
    apply h.invariant (I := Scheduled)
    · exact ⟨rfl, fun hdisposed => absurd rfl hdisposed⟩
    · intro s m s' hs hok hstep
      exact hs.step hok hstep
  have hdisposed : t.disposed ≠ ∅ := Finset.card_pos.mp hpending |>.ne_empty
  rcases hscheduled.watched hdisposed with htimer | ⟨c, hc, hlive⟩ | ⟨f, hf, -⟩
  · have hexpired := hquiet.expired
    cases hset : t.garbageCollectTimer
    case unset => exact absurd hset htimer
    case armed => rfl
    case expired => exact absurd hset hexpired
  · simp [hquiet.connections c hc] at hlive
  · simp [hquiet.frames] at hf

/-- A query over HTTP asks for a singleton, and its data is handed over. -/
def replyHttp : List CollectorLabel :=
  [.server (.onHttp "token" (some (queryPayload "query")) 0), .server (.take 0),
    .getSingleton 0 5, .server (.resolved 0 .null), .server (.worker 0)]

/-- The thread of the query returns. -/
def returnWorker : List CollectorLabel :=
  [.server (.worker 0), .server (.worker 0)]

/-- The reply is sent, and the connection is done. -/
def finishHttp : List CollectorLabel :=
  [.server .main, .server (.stopNext 0), .server .main, .server .main]

set_option maxRecDepth 4000 in
/-- The reply is sent, and the timer is armed for the disposed singleton. -/
theorem collection_scheduled_replyHttp :
    ∃ t, Runs.run (Collector.step vehicle) initial (replyHttp ++ returnWorker ++ finishHttp) =
        some t ∧
      t.disposed = {5} ∧ t.garbageCollectTimer = .armed := by
  have hrun : Runs.run (Collector.step vehicle) initial
      (replyHttp ++ returnWorker ++ finishHttp) = some _ := rfl
  have hreach := Runs.reach_of_run hrun (by decide : Runs.RunMeets _ (LooksLater vehicle) _ _)
  exact ⟨_, hrun, rfl, collection_scheduled hreach
    ⟨by decide, rfl, rfl, rfl, nofun, by decide⟩ (by decide)⟩

set_option maxRecDepth 4000 in
/-- The reply is sent, and the connection is done, before the thread of the query returns. -/
theorem collection_forgotten :
    ∃ t, Runs.run (Collector.step vehicle) initial (replyHttp ++ finishHttp ++ returnWorker) =
        some t ∧
      t.server.aborted = false ∧ t.Quiet ∧ 0 < t.pendingGarbageCollect ∧
      t.garbageCollectTimer = .unset :=
  ⟨_, rfl, rfl, ⟨by decide, rfl, rfl, rfl, nofun, by decide⟩, by decide, rfl⟩

end Collector

end GraphQLServer
