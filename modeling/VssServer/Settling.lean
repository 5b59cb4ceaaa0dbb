import VssServer.Deliveries
import VssServer.NotifierRefinement
import VssServer.Weights

/-!
# The server settles

Whatever has happened, the server comes to an end with it by itself, in every order in
which its threads and timers may go on.  Each step makes the state lighter, so that it
stops; and it does not stop before everything is done, since the main thread waits for
nobody but the threads of operations, and these wait for nobody.

* `ByItself`: the steps that need no client, resolver or attribute.
* `settled_of_stuck`: where none is left everything is done.
* `server_settles`: the server comes to this from every reached state.
-/

namespace GraphQLServer

open Response Permissions

variable {env : Environment} {s s' : State} {l : Label}

/-- The side condition of a run that the server makes by itself. -/
def ByItself (_ : State) (l : Label) : Prop :=
  l.internal = true

instance (s : State) (l : Label) : Decidable (ByItself s l) :=
  inferInstanceAs (Decidable (_ = _))

/-- Every step that the server takes by itself makes the state lighter. -/
theorem weight_lt {ok : State → Label → Prop} (h : Runs.Reach (step env) ok initial s)
    (hl : ByItself s l) (hstep : step env s l = some s') : s'.weight < s.weight := by
  have hw := Reach.wired h
  obtain ⟨hruns, -⟩ := Option.ite_none_left_eq_some.mp hstep
  have hs := step_cases hstep
  unfold State.weight
  rw [if_neg hruns]
  by_cases haborted : s'.aborted = true
  · rw [if_pos haborted]
    exact Nat.succ_pos _
  rw [if_neg haborted, (hs.internal_bounds hl).1]
  refine Nat.succ_lt_succ ?_
  apply hs.load_lt hl (by simpa using haborted) hw (vacant (Reach.handled h) (Reach.entries h))
  exact registrations_length hw (Reach.owned h) (Reach.keys_nodup h)

/-- Everything is done: no handler runs and none is queued, no timer is set, no thread has
anything to do. -/
structure Settled (s : State) : Prop where
  frames : s.frames = []
  queue : s.queue = []
  slots : s.slots = []
  notifyTimer : s.notifyTimer = .unset
  pendingNotifyTriggers : s.pendingNotifyTriggers = ∅
  tasks : ∀ o, (s.operations o).tasks = []
  worker : ∀ o, (s.operations o).worker = .idle
  deliveryTimer : ∀ o, (s.operations o).stopped = false →
    (s.operations o).deliveryTimer = .unset

/-- The timers have posted their handlers in every run. -/
theorem Reach.timers {ok : State → Label → Prop} (h : Runs.Reach (step env) ok initial s) :
    Timers s := by
  apply h.invariant (I := Timers)
  · exact ⟨nofun, nofun⟩
  · intro s l s' hs _ hstep
    exact hs.step (step_cases hstep)

/-- Nothing is collected while the timer is not set. -/
theorem Reach.collected {ok : State → Label → Prop} (h : Runs.Reach (step env) ok initial s)
    (hunset : s.notifyTimer = .unset) : s.pendingNotifyTriggers = ∅ := by
  obtain ⟨n, hn, hrepresents⟩ := notifier_represents h
  have hempty := (Notifier.Reach.sound hn).timer.mp (hrepresents.timer.symm.trans hunset)
  have hnone : ∀ name, s.pendingNotifyTriggers.lookup name = none := by
    intro name
    rw [show s.pendingNotifyTriggers.lookup name = _ from hrepresents.pending name]
    simp [Notifier.tables, hempty]
  by_contra hsome
  obtain ⟨⟨name, keys⟩, hmem⟩ := List.exists_mem_of_ne_nil s.pendingNotifyTriggers.entries
    fun hnil => hsome (AList.ext hnil)
  have hlookup := AList.mem_lookup_iff.mpr hmem
  rw [hnone name] at hlookup
  cases hlookup

/-- The main thread goes on with its handler, or runs the next one. -/
def Label.ofMain : Label → Bool
  | .onWebSocketOpen | .onHttp _ _ _ | .onWebSocketMessage _ _ _ | .onWebSocketClose _ | .main
  | .stopNext _ | .deliverName _ | .onFutureSubscription _ => true
  | _ => false

section Stuck

variable (hruns : s.aborted = false)

section Threads

-- the main thread need not run handlers
variable (hstuck : ∀ l, l.internal = true → (l.ofMain = true → s.frames ≠ []) →
  step env s l = none)
include hruns hstuck

/-- A thread can always go on with what it is at. -/
theorem stuck_worker (o : OperationId) : (s.operations o).worker = .idle := by
  have hworker := hstuck (.worker o) rfl nofun
  have hresolved := hstuck (.resolved o .null) rfl nofun
  have hsubscribe := hstuck (.subscribe o (.error .null)) rfl nofun
  simp only [step, hruns, worker, resolved, subscribe] at hworker hresolved hsubscribe
  cases hw : (s.operations o).worker <;> simp [hw] at hworker hresolved hsubscribe
  · rfl
  · split at hworker <;> cases hworker

/-- An idle thread takes its next task. -/
theorem stuck_tasks (o : OperationId) : (s.operations o).tasks = [] := by
  have hidle := stuck_worker hruns hstuck o
  have htake := hstuck (.take o) rfl nofun
  simp only [step, hruns, take, hidle] at htake
  cases htasks : (s.operations o).tasks with
  | nil => rfl
  | cons t tasks =>
      exfalso
      rw [htasks] at htake
      cases t <;> by_cases hstopped : (s.operations o).stopped <;> simp [hstopped] at htake
      split at htake <;> cases htake

/-- The main thread leaves its frames, for it waits for idle threads only. -/
theorem stuck_frames : s.frames = [] := by
  have htasks := stuck_tasks hruns hstuck
  have hworker := stuck_worker hruns hstuck
  cases hframes : s.frames with
  | nil => rfl
  | cons f frames =>
      exfalso
      have hbusy : s.frames ≠ [] := by simp [hframes]
      have hmain := hstuck .main rfl fun _ => hbusy
      simp only [step, hruns, main, hframes] at hmain
      cases f with
      | join o => simp [htasks o, hworker o] at hmain
      | tearDown c | erase c id => simp at hmain
      | stopOperations remaining =>
          cases remaining with
          | nil => simp at hmain
          | cons o remaining =>
              have hnext := hstuck (.stopNext o) rfl fun _ => hbusy
              simp [step, hruns, stopNext, hframes] at hnext
      | deliverNames triggers =>
          cases triggers with
          | nil => simp at hmain
          | cons t triggers =>
              have hname := hstuck (.deliverName t.1) rfl fun _ => hbusy
              simp [step, hruns, deliverName, hframes] at hname
      | deliver keys remaining =>
          cases remaining with
          | nil => simp at hmain
          | cons o remaining =>
              have hcallback := hstuck (.onFutureSubscription o) rfl fun _ => hbusy
              simp only [step, hruns, onFutureSubscription, hframes] at hcallback
              by_cases hstopped : (s.operations o).stopped <;> simp [hstopped] at hcallback

end Threads

variable (hstuck : ∀ l, ByItself s l → step env s l = none)
include hruns hstuck

/-- With no handler to finish, the main thread runs its tasks. -/
theorem stuck_queue : s.queue = [] := by
  have hmain := hstuck .main rfl
  simp only [step, hruns, main, stuck_frames hruns fun l hl _ => hstuck l hl] at hmain
  cases hqueue : s.queue with
  | nil => rfl
  | cons t queue => simp [hqueue] at hmain

/-- With nothing left to do, no slot has still to notify. -/
theorem stuck_slots : s.slots = [] := by
  cases hslots : s.slots with
  | nil => rfl
  | cons o slots =>
      have hslot := hstuck (.slot o) rfl
      simp [step, hruns, hslots] at hslot

/-- **No work is stuck.**  Where no step is enabled that the server could take by itself,
everything is done. -/
theorem settled_of_stuck (ht : Timers s) (hcollected : s.notifyTimer = .unset →
    s.pendingNotifyTriggers = ∅) : Settled s := by
  have hqueue := stuck_queue hruns hstuck
  have hnotify : s.notifyTimer = .unset := by
    have hexpire := hstuck .expireNotify rfl
    cases htimer : s.notifyTimer with
    | unset => rfl
    | armed => simp [step, hruns, htimer] at hexpire
    | expired =>
        have hposted := ht.notify htimer
        rw [hqueue] at hposted
        cases hposted
  have hthreads : ∀ l, l.internal = true → (l.ofMain = true → s.frames ≠ []) →
      step env s l = none := fun l hl _ => hstuck l hl
  refine ⟨stuck_frames hruns hthreads, hqueue, stuck_slots hruns hstuck, hnotify,
    hcollected hnotify, stuck_tasks hruns hthreads, stuck_worker hruns hthreads, ?_⟩
  intro o hrunning
  have hexpire := hstuck (.expireDelivery o) rfl
  cases htimer : (s.operations o).deliveryTimer with
  | unset => rfl
  | armed => simp [step, hruns, htimer] at hexpire
  | expired =>
      have hposted := ht.delivery o hrunning htimer
      rw [hqueue] at hposted
      cases hposted

end Stuck

/-- To have settled is up to the operations that have been created. -/
theorem Reach.settled {ok : State → Label → Prop} (h : Runs.Reach (step env) ok initial s)
    (hmain : s.frames = [] ∧ s.queue = [] ∧ s.slots = [] ∧ s.notifyTimer = .unset ∧
      s.pendingNotifyTriggers = ∅)
    (hoperations : ∀ o, o < s.operationBound → (s.operations o).tasks = [] ∧
      (s.operations o).worker = .idle ∧
        ((s.operations o).stopped = false → (s.operations o).deliveryTimer = .unset)) :
    Settled s := by
  obtain ⟨hframes, hqueue, hslots, hnotify, hpending⟩ := hmain
  have hall : ∀ o, (s.operations o).tasks = [] ∧ (s.operations o).worker = .idle ∧
      ((s.operations o).stopped = false → (s.operations o).deliveryTimer = .unset) := by
    intro o
    by_cases ho : o < s.operationBound
    · exact hoperations o ho
    · obtain ⟨htasks, hworker⟩ := (Reach.handled h).unknown o (not_lt.mp ho)
      have hregular := (Reach.wired h).unknown o (not_lt.mp ho)
      exact ⟨htasks, hworker, fun _ => (((Reach.wired h).valid o).regular hregular).2.2.1⟩
  exact ⟨hframes, hqueue, hslots, hnotify, hpending, fun o => (hall o).1, fun o => (hall o).2.1,
    fun o => (hall o).2.2⟩

/-- Every run is one without a side condition. -/
theorem Reach.unrestricted {ok : State → Label → Prop} {start : State}
    (h : Runs.Reach (step env) ok start s) : Runs.Reach (step env) Runs.always start s :=
  h.weaken (I := fun _ => True) (fun _ _ => trivial) fun _ _ _ _ _ _ => trivial

/-- A run of the server by itself is a run. -/
theorem Reach.byItself {ok : State → Label → Prop} (h : Runs.Reach (step env) ok initial s)
    {ls : List Label} (hrun : Runs.run (step env) s ls = some s')
    (hmeets : Runs.RunMeets (step env) ByItself s ls) :
    Runs.Reach (step env) Runs.always initial s' :=
  (Reach.unrestricted h).trans (Reach.unrestricted (Runs.reach_of_run hrun hmeets))

/-- **The server settles.**  From every reached state the runs that the server makes by
itself are bounded in length, those that cannot be continued end where everything is done
or the process has ended, and there is one. -/
theorem server_settles {ok : State → Label → Prop} (h : Runs.Reach (step env) ok initial s) :
    (∀ ls s', Runs.RunMeets (step env) ByItself s ls → Runs.run (step env) s ls = some s' →
      ls.length ≤ s.weight ∧
        ((∀ l, ByItself s' l → step env s' l = none) → s'.aborted = true ∨ Settled s')) ∧
    ∃ ls s', Runs.RunMeets (step env) ByItself s ls ∧ Runs.run (step env) s ls = some s' ∧
      (s'.aborted = true ∨ Settled s') := by
  have hstep : ∀ m l m', Runs.Reach (step env) Runs.always initial m → ByItself m l →
      step env m l = some m' →
        Runs.Reach (step env) Runs.always initial m' ∧ m'.weight < m.weight :=
    fun m l m' hm hl hstep => ⟨hm.tail trivial hstep, weight_lt hm hl hstep⟩
  have hstart : Runs.Reach (step env) Runs.always initial s := Reach.unrestricted h
  have hend : ∀ {ls s'}, Runs.run (step env) s ls = some s' →
      Runs.RunMeets (step env) ByItself s ls → (∀ l, ByItself s' l → step env s' l = none) →
        s'.aborted = true ∨ Settled s' := by
    intro ls s' hrun hmeets hstuck
    by_cases haborted : s'.aborted = true
    · exact .inl haborted
    · have hreach := Reach.byItself h hrun hmeets
      exact .inr (settled_of_stuck (by simpa using haborted) hstuck (Reach.timers hreach)
        (Reach.collected hreach))
  constructor
  · intro ls s' hmeets hrun
    have hlength := Runs.run_length_le hstep hstart hrun hmeets
    exact ⟨by omega, hend hrun hmeets⟩
  · obtain ⟨ls, s', hrun, hmeets, hstuck⟩ := Runs.exists_stuck hstep hstart
    exact ⟨ls, s', hmeets, hrun, hend hrun hmeets hstuck⟩

set_option maxRecDepth 4000 in
/-- After the first subscription the server comes to rest. -/
theorem server_settles_connectSubscribe :
    ∃ s, Runs.run (step vehicle) initial (connectSubscribe ++ [.worker 0]) = some s ∧
      s.queue ≠ [] ∧
      ∃ ls s', Runs.RunMeets (step vehicle) ByItself s ls ∧
        Runs.run (step vehicle) s ls = some s' ∧ (s'.aborted = true ∨ Settled s') := by
  have hrun : Runs.run (step vehicle) initial (connectSubscribe ++ [.worker 0]) = some _ := rfl
  have hreach := Runs.reach_of_run hrun Runs.runMeets_always
  exact ⟨_, hrun, List.cons_ne_nil _ _, (server_settles hreach).2⟩

end GraphQLServer
