import VssServer.ServerInvariants

/-!
# Whose registration `unsubscribe` removes

`m_subscriptionKey` is assigned when `subscribe` has returned, and not before.
A subscription that is stopped earlier, or whose `subscribe` fails, unsubscribes
all the same, with whatever value the member happens to have.  As long as this
is not the key of a registration, the schema has exactly the registrations of
the operations that have subscribed and not yet unsubscribed, each under its own
key: `unsubscribe_own`.

* `Registered`: the registrations are those of the active operations.
* `Registered.step`: every step that meets `OwnKey` keeps them so.
* `unsubscribe_own`: a registration is removed by its own operation only.
-/

namespace GraphQLServer

open Response Permissions

/-- The side condition on a step: an operation that never subscribed finds no
registration under the value of its key when it unsubscribes. -/
def OwnKey (s : State) (l : Label) : Prop :=
  ∀ o, l = .worker o → (s.operations o).worker = .unsubscribing →
    (s.operations o).subscribed = false →
      ∀ r ∈ s.registrations, r.key ≠ (s.operations o).subscriptionKey

instance (s : State) (l : Label) : Decidable (OwnKey s l) :=
  decidable_of_iff (∀ o ∈ l.worker?, (s.operations o).worker.unsubscribes = true →
      (s.operations o).subscribed = false →
        ∀ r ∈ s.registrations, r.key ≠ (s.operations o).subscriptionKey)
    (by simp only [OwnKey, Label.mem_worker?, Worker.unsubscribes_iff])

/-- It has subscribed and not unsubscribed. -/
def Operation.Active (x : Operation) : Prop :=
  x.subscribed = true ∧
    (x.stopped = true → .unsubscribe ∈ x.tasks ∨ x.worker = .unsubscribing)

/-- The registrations of the schema are those of the active operations. -/
structure Registered (s : State) : Prop where
  own : ∀ r ∈ s.registrations,
    (s.operations r.operation).subscribed = true ∧ r = s.registration r.operation
  unique : ∀ r ∈ s.registrations, ∀ r' ∈ s.registrations, r.key = r'.key → r = r'
  active : ∀ o, (s.operations o).Active → s.registration o ∈ s.registrations

section Operations

variable {e : Effects} {x x' : Operation}

/-- Once it has subscribed, an operation keeps its key and its name. -/
theorem OperationStep.subscribed_stays (hs : OperationStep e x x') (hvalid : x.Valid)
    (h : x.subscribed = true) :
    x'.subscribed = true ∧ x'.subscriptionKey = x.subscriptionKey ∧
      x'.subscriptionName = x.subscriptionName := by
  cases hs
  case subscribed subscribing =>
    have hfresh := (hvalid.fresh (.inr subscribing)).1
    simp [h] at hfresh
  all_goals exact ⟨h, rfl, rfl⟩

/-- What subscribes an operation registers it. -/
theorem OperationStep.subscribes (hs : OperationStep e x x') (h : x'.subscribed = true) :
    x.subscribed = true ∨ e.registers := by
  cases hs
  case subscribed hregisters subscribing => exact .inr hregisters
  all_goals exact .inl h

/-- No step makes a subscribed operation active again. -/
theorem OperationStep.active (hs : OperationStep e x x') (hvalid : x.Valid)
    (h : x.subscribed = true) (hactive : x'.Active) : x.Active := by
  refine ⟨h, ?_⟩
  intro hstopped
  have hkind : x.isSubscription = true := by
    by_contra hkind
    simp [(hvalid.regular (by simpa using hkind)).2.2.2] at h
  obtain ⟨-, hlast⟩ := hactive
  cases hs
  case complete completed =>
    have hregular := (hvalid.subscription hkind).1
    simp [completed, Worker.ofRegular] at hregular
  case takeStopped t tasks dirty idle next stopped kind clears =>
    rw [next]
    exact (hlast hstopped).imp_left (.tail _)
  case takeUnsubscribe tasks idle next => exact .inl (by simp [next])
  case subscribeFailed w hcopies subscribing next =>
    have hfresh := (hvalid.fresh (.inr subscribing)).1
    simp [h] at hfresh
  all_goals simp_all

end Operations

variable {env : Environment} {s s' : State} {l : Label}

/-- What subscribes an operation registers it. -/
theorem Step.subscribes (hs : Step env s l s') {o : OperationId}
    (h : (s'.operations o).subscribed = true) :
    (s.operations o).subscribed = true ∨
      s'.registrations = s'.registration o :: s.registrations := by
  rcases hs.operation o with heq | hchange | ⟨-, -, id, c, permissions, sub, key, heq, -⟩
  · exact .inl (heq ▸ h)
  · exact hchange.subscribes h
  · rw [heq] at h
    cases h

/-- What a step can do to an operation that has subscribed. -/
theorem Wired.change (hw : Wired s) (hs : Step env s l s') {o : OperationId}
    (ho : (s.operations o).subscribed = true) :
    s'.operations o = s.operations o ∨
      OperationStep (effects s l s' o) (s.operations o) (s'.operations o) := by
  rcases hs.operation o with heq | hchange | ⟨rfl, -⟩
  · exact .inl heq
  · exact .inr hchange
  · have hnone := ((hw.valid _).regular (hw.unknown _ le_rfl)).2.2.2
    simp [ho] at hnone

/-- A subscribed operation keeps its registration's key and name. -/
theorem Wired.subscribed_stays (hw : Wired s) (hs : Step env s l s') {o : OperationId}
    (ho : (s.operations o).subscribed = true) :
    (s'.operations o).subscribed = true ∧ s'.registration o = s.registration o := by
  rcases hw.change hs ho with heq | hchange
  · simp [State.registration, heq, ho]
  · obtain ⟨hsub, hkey, hname⟩ := hchange.subscribed_stays (hw.valid o) ho
    exact ⟨hsub, by simp [State.registration, hkey, hname]⟩

namespace Registered

/-- A registration has the key and the name of its operation. -/
theorem step_own (h : Registered s) (hw : Wired s) (hs : Step env s l s') :
    ∀ r ∈ s'.registrations,
      (s'.operations r.operation).subscribed = true ∧ r = s'.registration r.operation := by
  have hkept : ∀ r ∈ s.registrations,
      (s'.operations r.operation).subscribed = true ∧ r = s'.registration r.operation := by
    intro r hr
    obtain ⟨hsub, heq⟩ := h.own r hr
    obtain ⟨hsub', heq'⟩ := hw.subscribed_stays hs hsub
    exact ⟨hsub', heq.trans heq'.symm⟩
  intro r hr
  rcases hs.registrations with heq | ⟨o, key, name, -, -, hsub, rfl, rfl, heq⟩ | ⟨o, -, -, -, heq⟩
  · exact hkept r (heq ▸ hr)
  · rw [heq] at hr
    rcases List.mem_cons.mp hr with rfl | hr
    · exact ⟨hsub, rfl⟩
    · exact hkept r hr
  · rw [heq] at hr
    exact hkept r (List.mem_of_mem_filter hr)

/-- No two registrations have the same key. -/
theorem step_unique (h : Registered s) (hs : Step env s l s') :
    ∀ r ∈ s'.registrations, ∀ r' ∈ s'.registrations, r.key = r'.key → r = r' := by
  intro r hr r' hr' hkey
  rcases hs.registrations with heq | ⟨o, key, name, -, hfresh, -, -, -, heq⟩ | ⟨o, -, -, -, heq⟩
  · rw [heq] at hr hr'
    exact h.unique r hr r' hr' hkey
  · rw [heq] at hr hr'
    rcases List.mem_cons.mp hr with rfl | hr <;> rcases List.mem_cons.mp hr' with rfl | hr'
    · rfl
    · exact absurd hkey.symm (hfresh r' hr')
    · exact absurd hkey (hfresh r hr)
    · exact h.unique r hr r' hr' hkey
  · rw [heq] at hr hr'
    exact h.unique r (List.mem_of_mem_filter hr) r' (List.mem_of_mem_filter hr') hkey

/-- An operation that unsubscribes finds nothing but its own registration. -/
theorem only (h : Registered s) {o : OperationId} (hok : OwnKey s (.worker o))
    (hworker : (s.operations o).worker = .unsubscribing) {r : Registration}
    (hr : r ∈ s.registrations) (hkey : r.key = (s.operations o).subscriptionKey) :
    (s.operations o).subscribed = true ∧ r = s.registration o := by
  by_cases hsub : (s.operations o).subscribed = true
  · have hown := h.active o ⟨hsub, fun _ => .inr hworker⟩
    exact ⟨hsub, h.unique r hr _ hown hkey⟩
  · exact absurd hkey (hok o rfl hworker (by simpa using hsub) r hr)

/-- An active operation is registered: here `OwnKey` is needed. -/
theorem step_active (h : Registered s) (hw : Wired s) (hok : OwnKey s l) (hs : Step env s l s')
    {o : OperationId} (hactive : (s'.operations o).Active) :
    s'.registration o ∈ s'.registrations := by
  rcases hs.subscribes hactive.1 with hsub | hnew
  · have hmem : s.registration o ∈ s.registrations := by
      apply h.active o
      rcases hw.change hs hsub with heq | hchange
      · exact heq ▸ hactive
      · exact hchange.active (hw.valid o) hsub hactive
    rw [(hw.subscribed_stays hs hsub).2]
    rcases hs.registrations with heq | ⟨o', key, name, -, -, -, -, -, heq⟩ |
      ⟨o', rfl, hworker, hidle, heq⟩
    · exact heq ▸ hmem
    · rw [heq]
      exact .tail _ hmem
    · rw [heq]
      refine List.mem_filter.mpr ⟨hmem, decide_eq_true ?_⟩
      intro hkey
      -- it has just unsubscribed itself, so it is not active any more
      obtain rfl : o = o' := congrArg Registration.operation (h.only hok hworker hmem hkey).2
      have hstopped := (hw.valid o).unsubscribe (.inr hworker)
      rw [hidle] at hactive
      rcases hactive.2 hstopped with htask | hidle'
      · exact (hw.valid o).last hworker htask
      · cases hidle'
  · rw [hnew]
    exact .head _

/-- Every step that meets the side condition keeps the registrations. -/
theorem step (h : Registered s) (hw : Wired s) (hok : OwnKey s l) (hs : Step env s l s') :
    Registered s' where
  own := h.step_own hw hs
  unique := h.step_unique hs
  active _ hactive := h.step_active hw hok hs hactive

end Registered

/-- The registrations are those of the active operations in every such run. -/
theorem Reach.registered (h : Runs.Reach (step env) OwnKey initial s) : Registered s := by
  apply h.along (I := Registered)
  · refine ⟨nofun, nofun, ?_⟩
    intro o hactive
    cases hactive.1
  · intro s l s' hreach hs hok hstep
    exact hs.step (Reach.wired hreach) hok (step_cases hstep)

/-- **Own registrations only.**  As long as an operation that never subscribed
finds nothing under the value of its key, a registration is removed only by the
`unsubscribe` of the operation whose `subscribe` created it. -/
theorem unsubscribe_own (h : Runs.Reach (step env) OwnKey initial s) (hok : OwnKey s l)
    (hstep : step env s l = some s') {r : Registration} (hr : r ∈ s.registrations)
    (hremoved : r ∉ s'.registrations) :
    ∃ o, l = .worker o ∧ (s.operations o).worker = .unsubscribing ∧
      (s.operations o).subscribed = true ∧ r = s.registration o := by
  rcases (step_cases hstep).registrations with heq | ⟨o, key, name, -, -, -, -, -, heq⟩ |
    ⟨o, rfl, hworker, -, heq⟩
  · exact absurd (heq ▸ hr) hremoved
  · rw [heq] at hremoved
    exact absurd (.tail _ hr) hremoved
  · have hkey : r.key = (s.operations o).subscriptionKey := by
      by_contra hkey
      rw [heq] at hremoved
      exact hremoved (List.mem_filter.mpr ⟨hr, decide_eq_true hkey⟩)
    exact ⟨o, rfl, hworker, (Reach.registered h).only hok hworker hr hkey⟩

/-- The first client stops its subscription, and the thread begins to unsubscribe. -/
def stopFirst : List Label :=
  [.onWebSocketMessage 0 (some (stopMessage "1")) 0, .take 0]

set_option maxRecDepth 4000 in
/-- The first client unsubscribes its own registration. -/
theorem unsubscribe_own_stopFirst :
    ∃ s s', Runs.run (step vehicle) initial (connectSubscribe ++ .worker 0 :: stopFirst) = some s ∧
      step vehicle s (.worker 0) = some s' ∧ s.registration 0 ∈ s.registrations ∧
      s.registration 0 ∉ s'.registrations ∧
      ∃ o, Label.worker 0 = .worker o ∧ (s.operations o).worker = .unsubscribing ∧
        (s.operations o).subscribed = true ∧ s.registration 0 = s.registration o := by
  have hrun : Runs.run (step vehicle) initial (connectSubscribe ++ .worker 0 :: stopFirst) =
      some _ := rfl
  have hreach := Runs.reach_of_run hrun (by decide : Runs.RunMeets _ OwnKey _ _)
  refine ⟨_, _, hrun, rfl, .head _, nofun, ?_⟩
  refine unsubscribe_own hreach ?_ rfl (.head _) nofun
  intro o heq hworker hnone
  cases heq
  cases hnone

/-- A second client subscribes and stops before its thread has begun; the key that
its operation never got is by chance the one of the first client. -/
def stopSecond : List Label :=
  [.onWebSocketOpen, .onWebSocketMessage 1 (some (startMessage "1" "subscription")) 1,
    .onWebSocketMessage 1 (some (stopMessage "1")) 0, .take 1, .take 1]

set_option maxRecDepth 4000 in
/-- An operation that never subscribed cancels the subscription of the first client. -/
theorem unsubscribes_another :
    ∃ s s', Runs.run (step vehicle) initial (connectSubscribe ++ .worker 0 :: stopSecond) = some s ∧
      step vehicle s (.worker 1) = some s' ∧ (s.operations 1).subscribed = false ∧
      (s'.operations 0).stopped = false ∧ s.registration 0 ∈ s.registrations ∧
      s.registration 0 ∉ s'.registrations :=
  ⟨_, _, rfl, rfl, rfl, rfl, .head _, nofun⟩

end GraphQLServer
