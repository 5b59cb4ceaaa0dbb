import VssServer.CallsReturn
import VssServer.ReferenceCache
import VssServer.Shutdown

/-!
# The handler of `stopListening` returns

The handler waits three times: for the thread of a subscription it stops, for the pool,
and in `m_singletonStorage.clear()`.  The threads it joins go on by themselves; and
`clear`, which joins the creations while it holds the lock, comes to an end if nobody
else is inside of the storage.

## Main definitions

* `Shutdown.InPhases`: the side condition of what threads do in the storage meanwhile.
* `Shutdown.weight`: what the handler, the threads and `clear` have still to do.

## Main results

* `Shutdown.weight_lt`: every step makes the state lighter.
* `stopListening_returns`: where no thread is inside of the storage, the handler returns.
-/

namespace GraphQLServer

open SingletonStorage (Idle Phased Releasing)

namespace Shutdown

variable {K : Type}

/-- What a `clear` may take in a storage that is idle. -/
def clearBound (s : SingletonStorage.State K) : Nat :=
  10 * s.refs.length + 6 * s.pendingGarbageCollect + s.children.entries.length + 6

/-- What the handler, and the threads beside it, have still to do. -/
def weight (main : Nat) (s : Shutdown K) : Nat :=
  if s.server.aborted then 0
  else
    match s.phase with
    | .stopping remaining =>
        s.server.load s.server.operationBound + 2 * remaining.length + clearBound s.storage + 2
    | .clearing => s.server.load s.server.operationBound + s.storage.toDo main + 1
    | .stopped => 0

/-- Nobody calls the server or the storage from outside. -/
def Label.internal : Label K → Bool
  | .server l => l.internal
  | .storage (.start _ _) => false
  | _ => true

/-- The side condition of a run up to the end of the handler, in which the server and the
storage go on by themselves. -/
def ByItself (s : Shutdown K) (l : Label K) : Prop :=
  s.phase ≠ .stopped ∧ l.internal = true

instance (s : Shutdown K) (l : Label K) : Decidable (ByItself s l) :=
  inferInstanceAs (Decidable (_ ∧ _))

/-- The side condition of a run in which the history of the storage is one in phases:
`clear` is called when no thread is inside. -/
def InPhases (s : Shutdown K) : Label K → Prop
  | .storage l => Phased s.storage l
  | .join => Idle s.storage
  | _ => True

/-- Who may be inside of the storage while the handler runs by itself. -/
def Phase.Alone (main : Nat) (storage : SingletonStorage.State K) : Phase → Prop
  | .stopping _ => Idle storage
  | .clearing => Releasing storage main
  | .stopped => True

variable [DecidableEq K]

/-- What the handler that goes on by itself keeps. -/
structure Attended (p : SingletonStorage.Program K) [Inhabited K] (main : Nat)
    (s : Shutdown K) : Prop where
  invariant : Invariant s
  history : Runs.Reach (SingletonStorage.step p) Phased SingletonStorage.initial s.storage
  alone : Phase.Alone main s.storage s.phase

variable {env : Environment} {p : SingletonStorage.Program K} {main : Nat}
variable {s s' : Shutdown K} {l : Label K}

/-- To stop a connection turns its entries into operations to be stopped. -/
theorem load_stopConnection {s : State} {c : ConnectionId} (hc : c < s.connectionBound)
    (hidle : s.frames = []) (n : Nat) : (s.stopConnection c).load n = s.load n + 1 := by
  have hchange := State.load_change (n := n) hc fun x => { x with operations := ∅ }
  have hgoto := State.load_goto (n := n) (s := s.change c fun x => { x with operations := ∅ })
    (.stopOperations ((s.connections c).operations.entries.map Sigma.snd) :: s.frames)
  rw [AList.empty_entries, List.length_nil] at hchange
  simp only [State.change_frames, hidle, framesWeight_cons, framesWeight_nil, Frame.weight,
    List.length_map] at hgoto
  unfold State.stopConnection
  rw [hidle]
  omega

/-- To forget what is to be notified leaves less to do. -/
theorem load_ignoreNotifications (s : State) (n : Nat) :
    s.ignoreNotifications.load n ≤ s.load n := by
  simp [State.ignoreNotifications, State.load, State.mainWeight, State.operationsWeight,
    State.entriesWeight, Timer.weight]
  omega

/-- A step of the server beside the handler leaves less to do. -/
theorem load_lt {s s' : State} {l : GraphQLServer.Label} (hs : GraphQLServer.Step env s l s')
    (hl : l.internal = true) (hruns : s'.aborted = false) (hsound : Sound s)
    (hvacant : Vacant s) : s'.load s'.operationBound < s.load s.operationBound := by
  rw [(hs.internal_bounds hl).1]
  exact hs.load_lt hl hruns hsound.wired hvacant
    (registrations_length hsound.wired hsound.owned hsound.keys)

omit [DecidableEq K] in
/-- What goes on by itself in the storage begins no call. -/
theorem running_of_internal {l : SingletonStorage.Label K} (storage : SingletonStorage.State K)
    (h : (Label.storage l).internal = true) : SingletonStorage.Running storage l := by
  rintro n op rfl
  cases h

/-- The handler that goes on by itself is attended to. -/
theorem Attended.step [Inhabited K] (h : Attended p main s) (hl : ByItself s l)
    (hs : Step env p main s l s') : Attended p main s' where
  invariant := h.invariant.step hs
  history := by
    cases hs with
    | @storage l storage runs admitted step =>
        have hrunning := running_of_internal s.storage hl.2
        exact h.history.tail (fun n op heq => absurd heq (hrunning n op)) step
    | join phase ready idle calls =>
        have hidle := h.alone
        rw [phase] at hidle
        exact h.history.tail (fun _ _ _ => .inl hidle) calls
    | _ => exact h.history
  alone := by
    have halone := h.alone
    cases hs with
    | server | closed => exact halone
    | @storage l storage runs admitted step =>
        have hrunning := running_of_internal s.storage hl.2
        have hstep := SingletonStorage.step_cases step
        cases hp : s.phase with
        | stopping remaining =>
            rw [hp] at halone
            exact absurd (halone l.tid) (hstep.busy hrunning)
        | clearing =>
            rw [hp] at halone
            exact hstep.releasing hrunning halone
        | stopped => exact absurd hp hl.1
    | stop phase ready mem =>
        rw [phase] at halone
        exact halone
    | join phase ready idle calls =>
        rw [phase] at halone
        exact (SingletonStorage.step_cases calls).start_releasing halone rfl
    | cleared => trivial

/-- **Measure.**  Every step of the handler, of the threads beside it and of `clear` leaves
less to do. -/
theorem weight_lt [Inhabited K] (h : Attended p main s) (hl : ByItself s l)
    (hs : Step env p main s l s') : s'.weight main < s.weight main := by
  obtain ⟨⟨hsound, hphase⟩, hhistory, halone⟩ := h
  cases hs with
  | @server l server allowed step =>
      obtain ⟨hruns, -⟩ := Option.ite_none_left_eq_some.mp step
      have hs := GraphQLServer.step_cases step
      cases hp : s.phase with
      | stopped => exact absurd hp hl.1
      | stopping | clearing =>
          rw [hp] at hphase
          simp only [weight, hp, hruns]
          by_cases haborted : server.aborted = true
          · simp [haborted]
          · have hload := load_lt hs hl.2 (by simpa using haborted) hsound hphase.vacant
            simp only [haborted, Bool.false_eq_true, if_false]
            omega
  | @storage l storage runs admitted step =>
      have hrunning := running_of_internal s.storage hl.2
      have hstep := SingletonStorage.step_cases step
      cases hp : s.phase with
      | stopped => exact absurd hp hl.1
      | stopping =>
          rw [hp] at halone
          exact absurd (halone l.tid) (hstep.busy hrunning)
      | clearing =>
          rw [hp] at halone
          have hlt := hstep.toDo_lt (SingletonStorage.Reach.sound hhistory) hrunning halone
          simpa [weight, hp, runs] using hlt
  | @stop c remaining phase ready mem =>
      rw [phase] at hphase
      have hload := load_stopConnection (hphase.known c mem) ready.2 s.server.operationBound
      have hpos := List.length_pos_of_mem mem
      have herase := List.length_erase_of_mem mem
      simp only [weight, phase, State.stopConnection, State.goto_aborted, State.change_aborted,
        State.goto_operationBound, State.change_operationBound, ready.1] at hload ⊢
      simp only [Bool.false_eq_true, if_false]
      omega
  | join phase ready idle calls =>
      rw [phase] at halone
      have hstart := (SingletonStorage.step_cases calls).start_toDo halone rfl
      have hload := load_ignoreNotifications s.server s.server.operationBound
      have hbound : s.server.ignoreNotifications.operationBound = s.server.operationBound := rfl
      have hruns : s.server.ignoreNotifications.aborted = false := ready.1
      simp only [weight, phase, ready.1, hruns, hbound, Bool.false_eq_true, if_false, clearBound,
        List.length_nil]
      omega
  | cleared phase ready returned =>
      simp [weight, phase, ready.1]
  | closed phase ready => exact absurd phase hl.1

/-- Where nothing goes on, the main thread is back in the handler, and the threads have
nothing to do. -/
theorem ready_of_stuck (hruns : s.server.aborted = false) (hphase : s.phase ≠ .stopped)
    (hstuck : ∀ l, ByItself s l → step env p main s l = none) :
    s.Ready ∧ s.server.poolIdle = true := by
  have hthreads : ∀ l, l.internal = true → (l.ofMain = true → s.server.frames ≠ []) →
      GraphQLServer.step env s.server l = none := by
    intro l hinternal hmain
    have hserver := hstuck (.server l) ⟨hphase, hinternal⟩
    have hallowed : s.phase.allows s.server l = true := by
      cases hp : s.phase with
      | stopped => exact absurd hp hphase
      | stopping | clearing =>
          by_cases hl : l.ofMain = true
          · simp [Phase.allows, hmain hl]
          · simp [Phase.allows, hl]
    simpa [step, hallowed] using hserver
  refine ⟨⟨hruns, stuck_frames hruns hthreads⟩, List.all_eq_true.mpr fun o _ => ?_⟩
  rw [Bool.or_eq_true, Operation.resting_iff]
  exact .inr ⟨stuck_tasks hruns hthreads o, stuck_worker hruns hthreads o⟩

/-- A `clear` that is alone is over, or has a step to take. -/
theorem clearing_enabled [Inhabited K] (h : Attended p main s) (hphase : s.phase = .clearing)
    (hready : s.Ready) : ∃ l, ByItself s l ∧ (step env p main s l).isSome := by
  have halone := h.alone
  rw [hphase] at halone
  have hgoes : Idle s.storage ∨ ∃ l, SingletonStorage.Running s.storage l ∧
      (SingletonStorage.step p s.storage l).isSome :=
    halone.enabled (SingletonStorage.Reach.sound h.history)
      (SingletonStorage.Reach.attended h.history)
      (SingletonStorage.Reach.keysFound h.history _)
  rcases hgoes with hidle | ⟨l, hrunning, hsome⟩
  · exact ⟨.cleared, ⟨by simp [hphase], rfl⟩, by simp [step, hphase, hready, hidle (.client main)]⟩
  · have hinside : (Label.storage l).internal = true ∧ Phase.clearing.admits main l = true := by
      cases l with
      | start n op => exact absurd rfl (hrunning n op)
      | _ => exact ⟨rfl, rfl⟩
    refine ⟨.storage l, ⟨by simp [hphase], hinside.1⟩, ?_⟩
    simpa [step, hphase, hready.1, hinside.2] using hsome

/-- Where the handler cannot go on, it has returned: it waits for nobody but threads that go
on by themselves, and `clear` for nobody at all. -/
theorem stopped_of_stuck [Inhabited K] (h : Attended p main s)
    (hstuck : ∀ l, ByItself s l → step env p main s l = none) :
    s.server.aborted = true ∨ s.phase = .stopped := by
  by_contra hnot
  push Not at hnot
  obtain ⟨haborted, hphase⟩ := hnot
  obtain ⟨hready, hpool⟩ := ready_of_stuck (by simpa using haborted) hphase hstuck
  cases hp : s.phase with
  | stopped => exact hphase hp
  | stopping remaining =>
      cases remaining with
      | cons c remaining =>
          have hstop := hstuck (.stop c) ⟨hphase, rfl⟩
          simp [step, hp, hready] at hstop
      | nil =>
          have hjoin := hstuck .join ⟨hphase, rfl⟩
          have halone := h.alone
          rw [hp] at halone
          have hmain := halone (.client main)
          simp [step, hp, hready, hpool, SingletonStorage.step, SingletonStorage.start, hmain]
            at hjoin
  | clearing =>
      obtain ⟨l, hl, hgoes⟩ : ∃ l, ByItself s l ∧ (step env p main s l).isSome :=
        clearing_enabled h hp hready
      simp [hstuck l hl] at hgoes

/-- What threads do in the storage while the handler is in its loop. -/
theorem Reach.history [Inhabited K] {start : State} {storage : SingletonStorage.State K}
    (hstorage : Runs.Reach (SingletonStorage.step p) Phased SingletonStorage.initial storage)
    (h : Runs.Reach (step env p main) InPhases (stopListening start storage) s) :
    Runs.Reach (SingletonStorage.step p) Phased SingletonStorage.initial s.storage := by
  refine h.invariant
    (I := fun s => Runs.Reach (SingletonStorage.step p) Phased SingletonStorage.initial s.storage)
    hstorage fun m l m' hm hok hstep => ?_
  cases step_cases hstep with
  | storage runs admitted step => exact hm.tail hok step
  | join phase ready idle calls => exact hm.tail (fun _ _ _ => .inl hok) calls
  | _ => exact hm

omit [DecidableEq K] in
/-- Where no thread is inside of the storage, the main thread can have it for itself. -/
theorem alone_of_idle (hquiet : Idle s.storage) : Phase.Alone main s.storage s.phase := by
  cases s.phase with
  | stopping => exact hquiet
  | clearing => exact hquiet.releasing main
  | stopped => trivial

/-- **`stopListening` returns.**  Wherever the main thread comes to the handler, and whatever
the threads do in the storage while it is in its loop: from every state in which no thread
is inside of the storage, the runs of the handler are bounded in length, however the threads
go on beside it; those that cannot be continued have called `onStopped` or the process has
ended, and there is one.  They include `clear`, which waits for no creation there. -/
theorem stopListening_returns [Inhabited K] {ok : State → GraphQLServer.Label → Prop}
    {start : State} {storage : SingletonStorage.State K}
    (hstart : Runs.Reach (GraphQLServer.step env) ok initial start) (hidle : start.frames = [])
    (hstorage : Runs.Reach (SingletonStorage.step p) Phased SingletonStorage.initial storage)
    (h : Runs.Reach (step env p main) InPhases (stopListening start storage) s)
    (hquiet : Idle s.storage) :
    (∀ ls s', Runs.RunMeets (step env p main) ByItself s ls →
      Runs.run (step env p main) s ls = some s' →
      ls.length ≤ s.weight main ∧
        ((∀ l, ByItself s' l → step env p main s' l = none) →
          s'.server.aborted = true ∨ s'.phase = .stopped)) ∧
    ∃ ls s', Runs.RunMeets (step env p main) ByItself s ls ∧
      Runs.run (step env p main) s ls = some s' ∧
      (s'.server.aborted = true ∨ s'.phase = .stopped) := by
  have hstep : ∀ m l m', Attended p main m → ByItself m l → step env p main m l = some m' →
      Attended p main m' ∧ m'.weight main < m.weight main := by
    intro m l m' hm hl hstep
    have hs := step_cases hstep
    exact ⟨hm.step hl hs, weight_lt hm hl hs⟩
  have hattended : Attended p main s :=
    ⟨Reach.invariant hstart hidle h, Reach.history hstorage h, alone_of_idle hquiet⟩
  have hlater : ∀ {ls s'}, Runs.RunMeets (step env p main) ByItself s ls →
      Runs.run (step env p main) s ls = some s' → Attended p main s' := fun hmeets hrun =>
    (Runs.reach_of_run hrun hmeets).invariant hattended fun m l m' hm hl hs =>
      (hstep m l m' hm hl hs).1
  constructor
  · intro ls s' hmeets hrun
    have hlength := Runs.run_length_le hstep hattended hrun hmeets
    exact ⟨by omega, stopped_of_stuck (hlater hmeets hrun)⟩
  · obtain ⟨ls, s', hrun, hmeets, hstuck⟩ := Runs.exists_stuck hstep hattended
    exact ⟨ls, s', hmeets, hrun, stopped_of_stuck (hlater hmeets hrun) hstuck⟩

/-- The client holds its singletons in an idle storage. -/
theorem held_idle : Runs.Reach (SingletonStorage.step SingletonStorage.dependents) Phased
    SingletonStorage.initial held ∧ Idle held := by
  have hrun : Runs.run (SingletonStorage.step SingletonStorage.dependents)
      SingletonStorage.initial SingletonStorage.holdLight = some held := rfl
  obtain ⟨hreach, hidle, -⟩ := SingletonStorage.holdLight_idle hrun
  exact ⟨SingletonStorage.Reach.phased hreach, hidle⟩

set_option maxRecDepth 8000 in
/-- The handler stops the subscription and returns within its bound. -/
theorem stopListening_returns_stopSubscribed :
    Runs.run (GraphQLServer.step vehicle) initial connectSubscribe = some subscribed ∧
      ∃ s, Runs.run (step vehicle SingletonStorage.dependents 0)
          (stopListening subscribed held) stopSubscribed = some s ∧
        s.phase = .stopped ∧
        stopSubscribed.length ≤ (stopListening subscribed held).weight 0 := by
  have hrun : Runs.run (GraphQLServer.step vehicle) initial connectSubscribe = some subscribed :=
    rfl
  have hreach := Runs.reach_of_run hrun Runs.runMeets_always
  have hstops : Runs.run (step vehicle SingletonStorage.dependents 0)
      (stopListening subscribed held) stopSubscribed = some _ := rfl
  obtain ⟨hstorage, hquiet⟩ := held_idle
  have hbegins : Runs.Reach (step vehicle SingletonStorage.dependents 0) InPhases
      (stopListening subscribed held) (stopListening subscribed held) := .refl
  have hreturns := stopListening_returns hreach rfl hstorage hbegins hquiet
  exact ⟨hrun, _, hstops, rfl, (hreturns.1 _ _ (by decide) hstops).1⟩

end Shutdown

end GraphQLServer
