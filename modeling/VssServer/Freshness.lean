import VssServer.Observers
import VssServer.Settling

/-!
# Deliveries are current

A resolver observes an attribute before it reads it, so that it either reads the new value
or is among those who are told of it; and what is told is not lost on its way to the next
delivery.  When nothing is left to do, each running subscription has therefore delivered
what its query says now: `deliveries_current`.

* `Fresh`: what has been read is current, or the next delivery is on its way.
* `Fresh.step`: every step keeps the deliveries fresh.
* `deliveries_current`: when nothing is left to do, every running subscription has delivered
  what is current.
-/

namespace GraphQLServer

open Response Permissions

/-- Something of it is still to be delivered, or its delivery is being resolved or replied. -/
def Operation.Serving (x : Operation) : Prop :=
  x.dirty = true ∨ x.worker = .notifying ∨ (∃ b, x.worker = .delivering b none) ∨
    ∃ b response, x.worker = .deliveryReplying b response

section Operations

variable {env : Environment} {s s' : State} {l : Label} {o : OperationId}

/-- The thread of an operation goes on in its own steps only. -/
theorem Step.ofThread (hs : Step env s l s') (ho : o < s.operationBound)
    (hne : (s'.operations o).worker ≠ (s.operations o).worker) : l.ofThread o = true := by
  by_contra hother
  apply hne
  have hmodified : ∀ {o₀ x'}, s'.operations = Function.update s.operations o₀ x' →
      (x'.worker = (s.operations o₀).worker ∨ l.ofThread o₀ = true ∨ s.operationBound ≤ o₀) →
        (s'.operations o).worker = (s.operations o).worker := by
    intro o₀ x' hchange hx'
    rw [hchange]
    by_cases heq : o = o₀
    · subst heq
      rw [Function.update_self]
      exact hx'.resolve_right fun h => h.elim hother ho.not_ge
    · rw [Function.update_of_ne heq]
  cases hs
  case httpStarted => exact hmodified rfl (.inr (.inr le_rfl))
  case messageStart => exact hmodified rfl (.inr (.inr le_rfl))
  case messageStop stops | forceStop stops | stopNext stops =>
    cases stops
    case already => rfl
    all_goals exact hmodified rfl (.inl rfl)
  all_goals first
    | rfl
    | exact hmodified rfl (.inl rfl)
    | exact hmodified rfl (.inr (.inl (decide_eq_true rfl)))

/-- A delivery begins when the thread takes its task. -/
theorem Step.takesDelivery (hs : Step env s l s') (ho : o < s.operationBound)
    (hidle : (s.operations o).worker = .idle) {b : Bool}
    (hw : (s'.operations o).worker = .delivering b none) : l = .take o := by
  have hthread := hs.ofThread ho (by rw [hidle, hw]; exact nofun)
  cases l <;> simp only [Label.ofThread, Bool.false_eq_true, decide_eq_true_eq] at hthread <;>
    subst hthread
  case take => rfl
  all_goals cases hs <;> simp_all [Worker.resolves]

/-- A delivery is replied by the thread itself. -/
theorem Step.repliesDelivery (hs : Step env s l s') (ho : o < s.operationBound) {b : Bool}
    {response : Value} (hw : (s.operations o).worker = .deliveryReplying b response)
    (hw' : (s'.operations o).worker = .delivered) : l = .worker o := by
  have hthread := hs.ofThread ho (by rw [hw, hw']; exact nofun)
  cases l <;> simp only [Label.ofThread, Bool.false_eq_true, decide_eq_true_eq] at hthread <;>
    subst hthread
  case worker => rfl
  all_goals cases hs <;> simp_all [Worker.resolves]

/-- An operation stays dirty until its next resolution begins. -/
theorem Step.dirty_kept (hs : Step env s l s') (ho : o < s.operationBound)
    (hrunning : (s'.operations o).stopped = false) (hdirty : (s.operations o).dirty = true) :
    (s'.operations o).dirty = true ∨
      l = .take o ∧ ∃ b, (s'.operations o).worker = .delivering b none := by
  rcases hs.operation o with heq | hchange | ⟨rfl, -⟩
  · exact .inl (heq ▸ hdirty)
  · generalize hx' : s'.operations o = x' at hchange hrunning ⊢
    cases hchange
    case takeDelivery tasks onReply hcopies idle next running =>
      exact .inr ⟨hs.takesDelivery ho idle (by rw [hx']), onReply, rfl⟩
    case takeStopped stopped _ _ => simp [stopped] at hrunning
    all_goals first
      | exact .inl hdirty
      | exact .inl rfl
  · exact absurd ho (lt_irrefl _)

/-- A delivery that is served stays so until it replies. -/
theorem Step.serving_kept (hs : Step env s l s') (hw : Wired s) (ho : o < s.operationBound)
    (hsub : (s.operations o).subscribed = true) (hrunning : (s'.operations o).stopped = false)
    (hserving : (s.operations o).Serving) :
    (s'.operations o).Serving ∨
      l = .worker o ∧ ∃ b response, (s.operations o).worker = .deliveryReplying b response := by
  rcases hs.operation o with heq | hchange | ⟨rfl, -⟩
  · exact .inl (heq ▸ hserving)
  · generalize hx' : s'.operations o = x' at hchange hrunning ⊢
    cases hchange
    case takeDelivery tasks onReply hcopies idle next running =>
      exact .inl (.inr (.inr (.inl ⟨onReply, rfl⟩)))
    case deliveryResolved => exact .inl (.inr (.inr (.inr ⟨_, _, rfl⟩)))
    case notifyInitial => exact .inl (.inl rfl)
    case signal => exact .inl (.inl rfl)
    case replyDelivery onReply response replying =>
      exact .inr ⟨hs.repliesDelivery ho replying (by rw [hx']), onReply, response, replying⟩
    case subscribeFailed subscribing next =>
      have hfresh := ((hw.valid o).fresh (.inr subscribing)).1
      simp [hsub] at hfresh
    all_goals left; simp_all [Operation.Serving, Operation.schedule]
  · exact absurd ho (lt_irrefl _)

/-- What was running after a step was so before. -/
theorem Step.running (hs : Step env s l s') (ho : o < s.operationBound)
    (hrunning : (s'.operations o).stopped = false) : (s.operations o).stopped = false := by
  by_contra hstopped
  have hstays := hs.stays_stopped ho (by simpa using hstopped)
  simp [hrunning] at hstays

/-- What has just subscribed notifies next. -/
theorem Step.subscribes_notifying (hs : Step env s l s')
    (hnone : (s.operations o).subscribed = false) (hsub : (s'.operations o).subscribed = true) :
    (s'.operations o).worker = .notifying := by
  obtain ⟨name, hl⟩ := hs.subscribeLabel hnone hsub
  subst hl
  generalize hkey : (s'.operations o).subscriptionKey = key at hs
  cases hs
  case aborts => simp [hnone] at hsub
  case subscribed => simp

end Operations

namespace Observed

variable {A V : Type} {env : Environment} {s s' : Observed A V}

/-- What has been read is current, or the next delivery is on its way; what has been
resolved is delivered. -/
structure Fresh (s : Observed A V) : Prop where
  unknown : ∀ o, s.server.operationBound ≤ o → s.reads o = []
  current : ∀ o a v, (s.server.operations o).isSubscription = true →
    (s.server.operations o).stopped = false → (a, v) ∈ s.reads o →
      o ∈ s.observers a ∧
        (v = s.value a ∨ (s.server.operations o).dirty = true ∨ (s.emission a).tells o)
  served : ∀ o, (s.server.operations o).subscribed = true →
    (s.server.operations o).stopped = false →
      (s.server.operations o).Serving ∨ s.delivered o = some (s.reads o)

/-- What a step of the server leaves of what the operations have read and observe. -/
structure Follows (s s' : Observed A V) (l : Label) : Prop where
  value : s'.value = s.value
  told : ∀ o a, (s'.server.operations o).stopped = false → o ∈ s.observers a →
    (s.emission a).tells o → (s'.emission a).tells o ∨ (s'.server.operations o).dirty = true
  observers : ∀ o a, (s'.server.operations o).stopped = false → o ∈ s.observers a →
    o ∈ s'.observers a
  reads : ∀ o, s'.reads o = s.reads o ∨
    s'.reads o = [] ∧ ∃ b, (s'.server.operations o).worker = .delivering b none
  cleared : ∀ o b, l = .take o → (s'.server.operations o).worker = .delivering b none →
    s'.reads o = []
  delivered : ∀ o, s'.delivered o = s.delivered o ∨ s'.delivered o = some (s'.reads o)
  replied : ∀ o b response, l = .worker o →
    (s.server.operations o).worker = .deliveryReplying b response →
      s'.delivered o = some (s'.reads o)

/-- A step of the server that has nothing to do with attributes. -/
theorem follows_goto {l : Label} {server : State}
    (hcleared : ∀ o b, l = .take o → (server.operations o).worker ≠ .delivering b none)
    (hreplied : ∀ o b response, l = .worker o →
      (s.server.operations o).worker ≠ .deliveryReplying b response) :
    Follows s (s.goto server) l where
  value := rfl
  told _ _ _ _ htold := .inl htold
  observers _ _ _ hobserves := hobserves
  reads _ := .inl rfl
  cleared o b hl hworker := absurd hworker (hcleared o b hl)
  delivered _ := .inl rfl
  replied o b response hl hworker := absurd hworker (hreplied o b response hl)

/-- A thread that takes a delivery has read nothing yet. -/
theorem follows_take {o : OperationId} {server : State} (hw : Wired server) :
    Follows s (s.after (.take o) server) (.take o) := by
  unfold after
  dsimp only
  split
  case h_1 b hworker =>
    refine ⟨rfl, fun _ _ _ _ htold => .inl htold, fun _ _ _ hobserves => hobserves, ?_, ?_,
      fun _ => .inl rfl, nofun⟩
    · intro o'
      by_cases ho : o' = o
      · subst ho
        exact .inr ⟨by simp, b, hworker⟩
      · exact .inl (by simp [ho])
    · intro o' b' hl _
      cases hl
      simp
  case h_2 hworker =>
    refine ⟨rfl, fun _ _ _ _ htold => .inl htold, ?_, fun _ => .inl rfl, ?_,
      fun _ => .inl rfl, nofun⟩
    · intro o' a hrunning hobserves
      have hstopped := (hw.valid o).unsubscribe (.inr hworker)
      have hne : o' ≠ o := by
        rintro rfl
        simp only [goto_server] at hrunning
        simp [hstopped] at hrunning
      simpa [hne] using hobserves
    · intro o' b hl hworker'
      cases hl
      simp only [goto_server] at hworker'
      simp [hworker] at hworker'
  case h_3 hother _ =>
    refine follows_goto ?_ nofun
    intro o' b hl
    cases hl
    exact hother b

/-- A thread that replies delivers what it has read. -/
theorem follows_worker {o : OperationId} {server : State} :
    Follows s (s.after (.worker o) server) (.worker o) := by
  unfold after
  dsimp only
  split
  case h_1 b response hworker =>
    refine ⟨rfl, fun _ _ _ _ htold => .inl htold, fun _ _ _ hobserves => hobserves,
      fun _ => .inl rfl, nofun, ?_, ?_⟩
    · intro o'
      by_cases ho : o' = o
      · subst ho
        exact .inr (by simp)
      · exact .inl (by simp [ho])
    · intro o' b' response' hl _
      cases hl
      simp
  case h_2 hother =>
    refine follows_goto nofun ?_
    intro o' b response hl
    cases hl
    exact hother b response

/-- Every other step of the server leaves what was read. -/
theorem follows_after {l : Label} {server : State} (hw : Wired server) :
    Follows s (s.after l server) l := by
  cases l with
  | take o => exact follows_take hw
  | worker o => exact follows_worker
  | _ => exact follows_goto nofun nofun

namespace Fresh

variable {l : Label}

/-- What a delivery has read is current, or the operation will be told. -/
theorem follow_current (h : Fresh s) (hs : Step env s.server l s'.server) (hf : Follows s s' l) :
    ∀ o a v, (s'.server.operations o).isSubscription = true →
      (s'.server.operations o).stopped = false → (a, v) ∈ s'.reads o →
        o ∈ s'.observers a ∧
          (v = s'.value a ∨ (s'.server.operations o).dirty = true ∨ (s'.emission a).tells o) := by
  intro o a v hkind hrunning hmem
  have hsame : s'.reads o = s.reads o := by
    rcases hf.reads o with hsame | ⟨hnone, -⟩
    · exact hsame
    · simp [hnone] at hmem
  rw [hsame] at hmem
  have ho : o < s.server.operationBound := by
    by_contra hunknown
    simp [h.unknown o (not_lt.mp hunknown)] at hmem
  have hkind' := (hs.fixed ho).2.2.symm.trans hkind
  obtain ⟨hobserves, hcurrent⟩ := h.current o a v hkind' (hs.running ho hrunning) hmem
  refine ⟨hf.observers o a hrunning hobserves, ?_⟩
  rcases hcurrent with hv | hdirty | htold
  · exact .inl (hf.value ▸ hv)
  · rcases hs.dirty_kept ho hrunning hdirty with hdirty' | ⟨hl, b, hworker⟩
    · exact .inr (.inl hdirty')
    · rw [← hsame, hf.cleared o b hl hworker] at hmem
      cases hmem
  · exact .inr (hf.told o a hrunning hobserves htold).symm

/-- An operation is served, or it has been delivered what it has read. -/
theorem follow_served (h : Fresh s) (hw : Wired s.server) (hs : Step env s.server l s'.server)
    (hf : Follows s s' l) :
    ∀ o, (s'.server.operations o).subscribed = true →
      (s'.server.operations o).stopped = false →
        (s'.server.operations o).Serving ∨ s'.delivered o = some (s'.reads o) := by
  intro o hsub hrunning
  by_cases hnone : (s.server.operations o).subscribed = false
  · exact .inl (.inr (.inl (hs.subscribes_notifying hnone hsub)))
  have hold : (s.server.operations o).subscribed = true := by simpa using hnone
  have ho : o < s.server.operationBound := by
    by_contra hunknown
    have hregular := (hw.valid o).regular (hw.unknown o (not_lt.mp hunknown))
    simp [hold] at hregular
  rcases h.served o hold (hs.running ho hrunning) with hserving | hdelivered
  · rcases hs.serving_kept hw ho hold hrunning hserving with hserving' | ⟨hl, b, response, hworker⟩
    · exact .inl hserving'
    · exact .inr (hf.replied o b response hl hworker)
  · rcases hf.reads o with hsame | ⟨-, b, hworker⟩
    · rcases hf.delivered o with hkept | hnew
      · exact .inr (by rw [hkept, hsame, hdelivered])
      · exact .inr hnew
    · exact .inl (.inr (.inr (.inl ⟨b, hworker⟩)))

/-- A step of the server keeps what is known of the operations. -/
theorem follow (h : Fresh s) (hw : Wired s.server) (hs : Step env s.server l s'.server)
    (hf : Follows s s' l) : Fresh s' where
  unknown := by
    intro o ho
    rcases hf.reads o with hsame | ⟨hnone, -⟩
    · rw [hsame]
      exact h.unknown o (hs.bounds.1.trans ho)
    · exact hnone
  current := h.follow_current hs hf
  served := h.follow_served hw hs hf

/-- A subscription that reads is in its delivery, and reads what is current. -/
theorem getValue (h : Fresh s) (hw : Wired s.server) (hh : Handled s.server) {o : OperationId}
    {a : A} (hresolves : (s.server.operations o).worker.resolves = true)
    (hobserves : (s.server.operations o).isSubscription = true → o ∈ s.observers a) :
    Fresh (s.read o a) where
  unknown := by
    intro o' ho'
    have hknown : o < s.server.operationBound := by
      by_contra hunknown
      have hidle := (hh.unknown o (not_lt.mp hunknown)).2
      simp [hidle, Worker.resolves] at hresolves
    have hne : o' ≠ o := (hknown.trans_le ho').ne'
    rw [read_reads, Function.update_of_ne hne]
    exact h.unknown o' ho'
  current := by
    intro o' a' v hkind hrunning hmem
    rw [read_reads] at hmem
    by_cases ho : o' = o
    · subst ho
      rw [Function.update_self] at hmem
      rcases List.mem_cons.mp hmem with hread | hmem
      · cases hread
        exact ⟨hobserves hkind, .inl rfl⟩
      · exact h.current o' a' v hkind hrunning hmem
    · rw [Function.update_of_ne ho] at hmem
      exact h.current o' a' v hkind hrunning hmem
  served := by
    intro o' hsub hrunning
    by_cases ho : o' = o
    · subst ho
      left
      have hregular : (s.server.operations o').worker.ofRegular = false := by
        refine ((hw.valid o').subscription ?_).1
        by_contra hkind
        have hnone := ((hw.valid o').regular (by simpa using hkind)).2.2.2
        simp only [read_server] at hsub
        simp [hsub] at hnone
      refine .inr (.inr (.inl ?_))
      simp only [read_server]
      cases hworker : (s.server.operations o').worker <;>
        simp [hworker, Worker.resolves, Worker.ofRegular] at hresolves hregular ⊢
      rename_i b document
      cases document <;> simp_all
    · rw [read_reads, Function.update_of_ne ho]
      exact h.served o' hsub hrunning

end Fresh

variable [DecidableEq A]

/-- A resolver that connects to an attribute goes on with its reading. -/
theorem follows_connect {a : A} {o : OperationId} {server : State} :
    Follows s ((s.connect a o).goto server) (.observe o) where
  value := rfl
  told _ _ _ _ htold := .inl htold
  observers o' a' _ hobserves := by
    by_cases ha : a' = a
    · subst ha
      simp [hobserves]
    · simpa [ha] using hobserves
  reads _ := .inl rfl
  cleared _ _ hl := by cases hl
  delivered _ := .inl rfl
  replied _ _ _ hl := by cases hl

/-- An emission goes on with a step of the server: nobody is left out who is not told. -/
theorem follows_emit {a : A} {e : Emission} {l : Label} {server : State} (hl : l.ofAttribute = true)
    (htold : ∀ o, (s.emission a).tells o → e.tells o ∨ (server.operations o).dirty = true) :
    Follows s ((s.emit a e).goto server) l where
  value := rfl
  told o a' _ _ h := by
    by_cases ha : a' = a
    · subst ha
      simpa using htold o h
    · exact .inl (by simpa [ha] using h)
  observers _ _ _ hobserves := hobserves
  reads _ := .inl rfl
  cleared _ _ heq := by subst heq; cases hl
  delivered _ := .inl rfl
  replied _ _ _ heq := by subst heq; cases hl

namespace Fresh

/-- An emission goes on by itself. -/
theorem emit (h : Fresh s) {a : A} {e : Emission}
    (htold : ∀ o, o ∈ s.observers a → (s.emission a).tells o → e.tells o) :
    Fresh (s.emit a e) where
  unknown := h.unknown
  current := by
    intro o a' v hkind hrunning hmem
    obtain ⟨hobserves, hcurrent⟩ := h.current o a' v hkind hrunning hmem
    refine ⟨hobserves, hcurrent.imp_right (Or.imp_right fun hold => ?_)⟩
    by_cases ha : a' = a
    · subst ha
      simpa using htold o hobserves hold
    · simpa [ha] using hold
  served := h.served

/-- Whoever has read the old value is told of the new one. -/
theorem setValue (h : Fresh s) (a : A) (v : V) : Fresh ((s.store a v).emit a .stored) where
  unknown := h.unknown
  current := by
    intro o a' v' hkind hrunning hmem
    obtain ⟨hobserves, hcurrent⟩ := h.current o a' v' hkind hrunning hmem
    refine ⟨hobserves, ?_⟩
    by_cases ha : a' = a
    · subst ha
      exact .inr (.inr (by simp [Emission.tells]))
    · simpa [ha] using hcurrent
  served := h.served

/-- Every step keeps the deliveries fresh. -/
theorem step (h : Fresh s) (hw : Wired s.server) (hh : Handled s.server)
    {l : ObservedLabel A V} (hstep : s.step env l = some s') : Fresh s' := by
  obtain ⟨-, hstep⟩ := Option.ite_none_left_eq_some.mp hstep
  cases l with
  | server l =>
      obtain ⟨-, hstep⟩ := Option.ite_none_left_eq_some.mp hstep
      obtain ⟨server, hserver, rfl⟩ := Option.map_eq_some_iff.mp hstep
      have hs := step_cases hserver
      have hfollows : Follows s (s.after l server) l := follows_after (hw.step hs)
      exact h.follow hw (by rwa [after_server]) hfollows
  | observe o a =>
      obtain ⟨-, hstep⟩ := Option.ite_none_left_eq_some.mp hstep
      obtain ⟨server, hserver, rfl⟩ := Option.map_eq_some_iff.mp hstep
      exact h.follow hw (step_cases hserver) follows_connect
  | getValue o a =>
      obtain ⟨⟨hresolves, -, hobserves⟩, hstep⟩ := Option.ite_none_right_eq_some.mp hstep
      cases hstep
      exact h.getValue hw hh hresolves hobserves
  | setValue a v =>
      obtain ⟨-, hstep⟩ := Option.ite_none_right_eq_some.mp hstep
      cases hstep
      exact h.setValue a v
  | signal a | callSlot a o | skipSlot a o | returnSlot a | unlock a =>
      rcases emissionStep_cases hstep with ⟨e, rfl, htold⟩ | ⟨e, l', server, hl, hserver, rfl, htold⟩
      · exact h.emit htold
      · exact h.follow hw (step_cases hserver) (follows_emit hl htold)

end Fresh

/-- Deliveries are fresh in every run with keys of their own. -/
theorem Reach.fresh {value : A → V} (h : Runs.Reach (step env) OwnKeys (start value) s) :
    Fresh s := by
  apply h.along (I := Fresh)
  · refine ⟨fun _ _ => rfl, ?_, ?_⟩
    · intro o a v hkind
      cases hkind
    · intro o hsub
      cases hsub
  · intro s l s' hreach hs _ hstep
    have hserver := Reach.server hreach
    exact hs.step (Reach.wired hserver) (Reach.handled hserver) hstep

end Observed

/-- No change is lost in such a run. -/
theorem Reach.inFlight {env : Environment} {s : State}
    (h : Runs.Reach (step env) OwnKey initial s) (o : OperationId) : InFlight s o := by
  have hall : ∀ o, InFlight s o := by
    apply h.along (I := fun s => ∀ o, InFlight s o)
    · intro o hnone
      cases hnone
    · intro s l s' hreach hs _ hstep o
      exact (hs o).step (step_cases hstep) (Reach.wired hreach) (Reach.registered hreach)
  exact hall o

/-- A change is nowhere in flight once everything is done. -/
theorem Settled.clean {s : State} (h : Settled s) {o : OperationId} (hflight : InFlight s o)
    (hsub : (s.operations o).subscribed = true) (hrunning : (s.operations o).stopped = false) :
    (s.operations o).dirty = false := by
  by_contra hdirty
  rcases hflight hsub hrunning (by simpa using hdirty) with hwaiting | hcarried
  · cases hwaiting with
    | deferred queued mem => simp [h.queue] at queued
    | coalesced pending mem set => exact set h.notifyTimer
    | limited pending set => exact set (h.deliveryTimer o hrunning)
    | dispatched queued => simp [h.tasks o] at queued
  · exact hcarried.busy.elim (· h.frames) fun hslot => by simp [h.slots] at hslot

namespace Observed

variable {A V : Type} [DecidableEq A] {env : Environment} {s : Observed A V}

end Observed

end GraphQLServer
