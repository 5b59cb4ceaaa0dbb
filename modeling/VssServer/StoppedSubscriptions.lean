import VssServer.Subscriptions

/-!
# A subscription after `stop` has returned

`stop` of a subscription sets `m_stopped`, posts `unsubscribeInAThread` behind
whatever the thread has queued, and waits for the thread.  Nothing is posted to
the thread of a stopped subscription, so `unsubscribeInAThread` is its last task:
it clears the signal connections and removes the registration, also one that a
`subscribe` made after `m_stopped` was set.

* `Operation.Winding`: a stopped operation goes on to unsubscribe.
* `Joined`, `Owned`: who has been stopped is quiet, and nothing of it is registered.
* `stop_quiets`: so it is in every later state.
-/

namespace GraphQLServer

open Response Permissions

/-- A stopped subscription has only to unsubscribe after what is queued, or is
unsubscribing, or is done. -/
def Operation.Winding (x : Operation) : Prop :=
  x.isSubscription = true → x.stopped = true →
    (∃ before, x.tasks = before ++ [.unsubscribe]) ∨
      x.tasks = [] ∧ x.signals = 0 ∧ (x.worker = .unsubscribing ∨ x.worker = .idle)

/-- `stop` of the subscription `o` has returned. -/
structure Stopped (s : State) (o : OperationId) : Prop where
  kind : (s.operations o).isSubscription = true
  stopped : (s.operations o).stopped = true
  joined : .join o ∉ s.frames

/-- Nothing of the operation runs or will run on its thread, and it observes
nothing. -/
structure Operation.Quiet (x : Operation) : Prop where
  tasks : x.tasks = []
  worker : x.worker = .idle
  signals : x.signals = 0

/-- The label is a step of the thread of `o`. -/
def Label.ofThread (o : OperationId) : Label → Bool
  | .take o' | .validate o' _ _ | .observe o' | .resolved o' _ | .subscribe o' _ | .worker o' =>
      o' = o
  | _ => false

section Operations

variable {e : Effects} {x x' : Operation}

/-- The unsubscribing stays last while the tasks before it are taken. -/
private theorem winding_pop {t : ThreadTask} {tasks : List ThreadTask} (ht : t ≠ .unsubscribe)
    (h : ∃ before, t :: tasks = before ++ [.unsubscribe]) :
    ∃ before, tasks = before ++ [.unsubscribe] := by
  obtain ⟨before, heq⟩ := h
  cases before with
  | nil => cases heq; exact absurd rfl ht
  | cons t' before => exact ⟨before, (List.cons.inj heq).2⟩

/-- `unsubscribeInAThread` is the last task. -/
private theorem winding_last (hvalid : x.Valid) {tasks : List ThreadTask}
    (next : x.tasks = .unsubscribe :: tasks) (h : ∃ before, x.tasks = before ++ [.unsubscribe]) :
    tasks = [] := by
  obtain ⟨before, heq⟩ := h
  have honce := hvalid.once
  rw [next] at heq honce
  cases before with
  | nil => exact (List.cons.inj heq).2
  | cons t before =>
      have htail : tasks = before ++ [.unsubscribe] := (List.cons.inj heq).2
      rw [htail, List.count_cons_self, List.count_append, List.count_singleton_self] at honce
      omega

/-- A stopped operation goes on to unsubscribe. -/
theorem OperationStep.winding (hs : OperationStep e x x') (hvalid : x.Valid) (h : x.Winding) :
    x'.Winding := by
  intro hkind hstopped
  rw [hs.fixed.2.2] at hkind
  have hwinding := h hkind
  cases hs
  case stopSubscription running _ => exact .inl ⟨x.tasks, rfl⟩
  case complete completed =>
    have hregular := (hvalid.subscription hkind).1
    simp [completed, Worker.ofRegular] at hregular
  case takeStopped t tasks dirty idle next stopped kind clears =>
    rcases hwinding stopped with hleft | ⟨hnone, -⟩
    · exact .inl (winding_pop kind (next ▸ hleft))
    · rw [next] at hnone
      cases hnone
  case takeUnsubscribe tasks idle next =>
    rcases hwinding hstopped with hleft | ⟨hnone, -⟩
    · exact .inr ⟨winding_last hvalid next hleft, rfl, .inl rfl⟩
    · rw [next] at hnone
      cases hnone
  case observe resolves kind =>
    refine (hwinding hstopped).imp_right ?_
    rintro ⟨-, -, hworker | hworker⟩ <;> simp [hworker, Worker.resolves] at resolves
  case resolvedStopped resolving stopped =>
    exact (hwinding stopped).imp_right fun h => ⟨h.1, h.2.1, .inr rfl⟩
  case unsubscribe unsubscribing =>
    exact (hwinding hstopped).imp_right fun h => ⟨h.1, h.2.1, .inr rfl⟩
  all_goals simp_all [Operation.schedule]

/-- The main thread waits for the thread of a subscription that it has just stopped. -/
theorem OperationStep.joins (hs : OperationStep e x x') (hvalid : x.Valid)
    (hkind : x.isSubscription = true) (hrunning : x.stopped = false) (hstopped : x'.stopped = true) :
    e.joins := by
  cases hs
  case stopSubscription hjoins _ _ => exact hjoins
  case complete completed =>
    have hregular := (hvalid.subscription hkind).1
    simp [completed, Worker.ofRegular] at hregular
  all_goals simp_all [Operation.schedule]

/-- Nothing happens to a quiet operation any more, but that a timer handler which is
already queued finds it stopped. -/
theorem OperationStep.quiet (hs : OperationStep e x x') (hstopped : x.stopped = true)
    (h : x.Quiet) : x'.Quiet := by
  obtain ⟨htasks, hworker, hsignals⟩ := h
  cases hs
  case expire => exact ⟨htasks, hworker, hsignals⟩
  case signal => exact ⟨htasks, hworker, hsignals⟩
  case resolvedStopped => exact ⟨htasks, rfl, hsignals⟩
  all_goals simp_all [Worker.resolves]

/-- An active operation stays active until it has unsubscribed. -/
theorem OperationStep.unsubscribes (hs : OperationStep e x x') (hvalid : x.Valid) (h : x.Active) :
    x'.Active ∨ e.unregisters := by
  obtain ⟨hsub, hlast⟩ := h
  have hkind : x.isSubscription = true := by
    by_contra hkind
    simp [(hvalid.regular (by simpa using hkind)).2.2.2] at hsub
  cases hs
  case unsubscribe hunregisters _ => exact .inr hunregisters
  case stopSubscription => exact .inl ⟨hsub, fun _ => .inl (by simp)⟩
  case complete completed =>
    have hregular := (hvalid.subscription hkind).1
    simp [completed, Worker.ofRegular] at hregular
  case takeStopped t tasks dirty idle next stopped kind clears =>
    refine .inl ⟨hsub, fun hstopped => (hlast hstopped).imp_left ?_⟩
    rw [next]
    intro hmem
    exact (List.mem_cons.mp hmem).resolve_left kind.symm
  case takeUnsubscribe => exact .inl ⟨hsub, fun _ => .inr rfl⟩
  case resolvedStopped resolving stopped =>
    refine .inl ⟨hsub, fun _ => .inl ((hlast stopped).resolve_right ?_)⟩
    rcases resolving with ⟨_, hworker⟩ | ⟨_, _, hworker⟩ <;> simp [hworker]
  case subscribed subscribing =>
    have hfresh := (hvalid.fresh (.inr subscribing)).1
    simp [hsub] at hfresh
  case subscribeFailed subscribing next =>
    have hfresh := (hvalid.fresh (.inr subscribing)).1
    simp [hsub] at hfresh
  all_goals
    left
    refine ⟨hsub, ?_⟩
    simp_all [Operation.schedule]

/-- An operation that subscribes while it is stopped has yet to unsubscribe. -/
theorem OperationStep.activates (hs : OperationStep e x x') (hvalid : x.Valid) (h : x.Winding)
    (hnone : x.subscribed = false) (hsub : x'.subscribed = true) : x'.Active := by
  refine ⟨hsub, ?_⟩
  cases hs
  case subscribed hregisters subscribing =>
    intro hstopped
    have hkind := hvalid.of_subscription (by rw [subscribing]; rfl)
    rcases h hkind hstopped with ⟨before, htasks⟩ | ⟨-, -, hworker⟩
    · exact .inl (by simp [htasks])
    · simp [subscribing] at hworker
  all_goals simp_all [Operation.schedule]

end Operations

variable {env : Environment} {s s' : State} {l : Label}

/-- It does so in every run. -/
theorem Reach.winding {ok : State → Label → Prop} (h : Runs.Reach (step env) ok initial s)
    (o : OperationId) : (s.operations o).Winding := by
  have hall : ∀ o, (s.operations o).Winding := by
    apply h.along (I := fun s => ∀ o, (s.operations o).Winding)
    · intro o hkind
      cases hkind
    · intro s l s' hreach hs _ hstep
      have hw := Reach.wired hreach
      apply (step_cases hstep).forall_operations _ _ hs
      · intro id c permissions sub key _ hstopped
        cases hstopped
      · intro o x' hx
        exact hx.winding (hw.valid o)
  exact hall o

/-- A stopped subscription has been one before, or it is being joined. -/
theorem Stopped.before (hw : Wired s) (hs : Step env s l s') {o : OperationId}
    (h : Stopped s' o) :
    ((s.operations o).isSubscription = true ∧ (s.operations o).stopped = true) ∧
      (s'.operations o = s.operations o ∨
        OperationStep (effects s l s' o) (s.operations o) (s'.operations o)) := by
  obtain ⟨hkind, hstopped, hjoined⟩ := h
  rcases hs.operation o with heq | hchange | ⟨-, -, id, c, permissions, sub, key, heq, -⟩
  · exact ⟨heq ▸ ⟨hkind, hstopped⟩, .inl heq⟩
  · rw [hchange.fixed.2.2] at hkind
    refine ⟨⟨hkind, ?_⟩, .inr hchange⟩
    by_contra hrunning
    exact hjoined (hchange.joins (hw.valid o) hkind (by simpa using hrunning) hstopped)
  · rw [heq] at hstopped
    cases hstopped

/-- Every subscription whose `stop` has returned is quiet. -/
def Joined (s : State) : Prop :=
  ∀ o, Stopped s o → (s.operations o).Quiet

/-- Every step leaves the subscriptions quiet whose `stop` has returned. -/
theorem Joined.step (h : Joined s) (hw : Wired s) (hwinding : ∀ o, (s.operations o).Winding)
    (hs : Step env s l s') : Joined s' := by
  intro o hstopped'
  obtain ⟨⟨hkind, hstopped⟩, hchange⟩ := hstopped'.before hw hs
  have hquiet : (s.operations o).Quiet := by
    by_cases hjoin : .join o ∈ s.frames
    · rcases hs.frame hjoin with hstay | hleaves
      · exact absurd hstay hstopped'.joined
      · cases hleaves with
        | join drained idle =>
            rcases hwinding o hkind hstopped with ⟨before, htasks⟩ | ⟨-, hsignals, -⟩
            · simp [drained] at htasks
            · exact ⟨drained, idle, hsignals⟩
    · exact h o ⟨hkind, hstopped, hjoin⟩
  rcases hchange with heq | hchange
  · exact heq ▸ hquiet
  · exact hchange.quiet hstopped hquiet

/-- They are quiet in every run. -/
theorem Reach.joined {ok : State → Label → Prop} (h : Runs.Reach (step env) ok initial s) :
    Joined s := by
  apply h.along (I := Joined)
  · intro o hstopped
    cases hstopped.kind
  · intro s l s' hreach hs _ hstep
    exact hs.step (Reach.wired hreach) (Reach.winding hreach) (step_cases hstep)

/-- What is registered belongs to an active operation and has its key and name. -/
def Owned (s : State) : Prop :=
  ∀ r ∈ s.registrations, (s.operations r.operation).Active ∧ r = s.registration r.operation

/-- Every step keeps the registrations those of active operations. -/
theorem Owned.step (h : Owned s) (hw : Wired s) (hwinding : ∀ o, (s.operations o).Winding)
    (hs : Step env s l s') : Owned s' := by
  have hkept : ∀ r ∈ s.registrations, r ∈ s'.registrations →
      (s'.operations r.operation).Active ∧ r = s'.registration r.operation := by
    intro r hr hr'
    obtain ⟨hactive, heq⟩ := h r hr
    refine ⟨?_, heq.trans (hw.subscribed_stays hs hactive.1).2.symm⟩
    rcases hw.change hs hactive.1 with hsame | hchange
    · exact hsame ▸ hactive
    · rcases hchange.unsubscribes (hw.valid _) hactive with hactive' | hunregisters
      · exact hactive'
      · have hkey : r.key = (s.operations r.operation).subscriptionKey := congrArg Registration.key heq
        rw [show s'.registrations = _ from hunregisters] at hr'
        exact absurd hkey (of_decide_eq_true (List.mem_filter.mp hr').2)
  intro r hr
  rcases hs.registrations with heq | ⟨o, key, name, hworker, -, hsub, rfl, rfl, heq⟩ | ⟨o, -, -, -, heq⟩
  · exact hkept r (heq ▸ hr) hr
  · rcases List.mem_cons.mp (heq ▸ hr) with rfl | hold
    · have hnone := ((hw.valid o).fresh (.inr hworker)).1
      refine ⟨?_, rfl⟩
      rcases hs.operation o with hsame | hchange | ⟨rfl, -⟩
      · simp [hsame, hnone] at hsub
      · exact hchange.activates (hw.valid o) (hwinding o) hnone hsub
      · have hkind := (hw.valid _).of_subscription (by rw [hworker]; rfl)
        simp [hw.unknown _ le_rfl] at hkind
    · exact hkept r hold hr
  · have hmem := hr
    rw [heq] at hmem
    exact hkept r (List.mem_of_mem_filter hmem) hr

/-- They are so in every run. -/
theorem Reach.owned {ok : State → Label → Prop} (h : Runs.Reach (step env) ok initial s) :
    Owned s := by
  apply h.along (I := Owned)
  · intro r hr
    cases hr
  · intro s l s' hreach hs _ hstep
    exact hs.step (Reach.wired hreach) (Reach.winding hreach) (step_cases hstep)

/-- The schema gives a subscription a key that no other operation has got before. -/
def NewKey (s : State) (l : Label) : Prop :=
  ∀ o key name, l = .subscribe o (.ok (key, name)) →
    ∀ o', (s.operations o').subscribed = true → (s.operations o').subscriptionKey ≠ key

/-- No two subscribed operations have the same key. -/
def DistinctKeys (s : State) : Prop :=
  ∀ o o', (s.operations o).subscribed = true → (s.operations o').subscribed = true →
    (s.operations o).subscriptionKey = (s.operations o').subscriptionKey → o = o'

/-- What subscribes an operation is `subscribe`, with the key that it gets. -/
theorem Step.subscribeLabel (hs : Step env s l s') {o : OperationId}
    (hnone : (s.operations o).subscribed = false) (hsub : (s'.operations o).subscribed = true) :
    ∃ name, l = .subscribe o (.ok ((s'.operations o).subscriptionKey, name)) := by
  have hnot : (s.operations o).subscribed ≠ true := by simp [hnone]
  have hreflect : ∀ {o₀ x'}, s'.operations = Function.update s.operations o₀ x' →
      (x'.subscribed = true → (s.operations o₀).subscribed = true) → False := by
    intro o₀ x' hchange hx'
    exact hnot (operations_reflect (P := fun x => x.subscribed = true) hchange hx' hsub)
  cases hs
  case subscribed o₀ key name subscribing fresh =>
    by_cases ho : o = o₀
    · subst ho
      exact ⟨name, by simp⟩
    · simp [ho, hnone] at hsub
  case messageStop stops | forceStop stops | stopNext stops =>
    cases stops
    case already => exact absurd hsub hnot
    all_goals
      refine (hreflect rfl ?_).elim
      exact fun h => h
  case httpStarted => exact (hreflect rfl nofun).elim
  case messageStart => exact (hreflect rfl nofun).elim
  all_goals first
    | exact absurd hsub hnot
    | refine (hreflect rfl ?_).elim
      exact fun h => h

/-- As long as keys are new, subscriptions have different ones. -/
theorem DistinctKeys.step (h : DistinctKeys s) (hw : Wired s) (hok : NewKey s l)
    (hs : Step env s l s') : DistinctKeys s' := by
  have hkey : ∀ {o}, (s.operations o).subscribed = true →
      (s'.operations o).subscriptionKey = (s.operations o).subscriptionKey := fun ho =>
    congrArg Registration.key (hw.subscribed_stays hs ho).2
  intro o o' hsub hsub' heq
  by_cases hold : (s.operations o).subscribed = true <;>
    by_cases hold' : (s.operations o').subscribed = true
  · rw [hkey hold, hkey hold'] at heq
    exact h o o' hold hold' heq
  · obtain ⟨name, hl⟩ := hs.subscribeLabel (by simpa using hold') hsub'
    rw [hkey hold] at heq
    exact absurd heq (hok o' _ name hl o hold)
  · obtain ⟨name, hl⟩ := hs.subscribeLabel (by simpa using hold) hsub
    rw [hkey hold'] at heq
    exact absurd heq.symm (hok o _ name hl o' hold')
  · obtain ⟨name, hl⟩ := hs.subscribeLabel (by simpa using hold) hsub
    obtain ⟨name', hl'⟩ := hs.subscribeLabel (by simpa using hold') hsub'
    rw [hl] at hl'
    cases hl'
    rfl

/-- The thread of a quiet operation has nothing to do. -/
theorem Operation.Quiet.disabled {o : OperationId} (h : (s.operations o).Quiet)
    (hl : l.ofThread o = true) : GraphQLServer.step env s l = none := by
  obtain ⟨htasks, hworker, -⟩ := h
  unfold GraphQLServer.step
  by_cases haborted : s.aborted = true
  · simp [haborted]
  · cases l
    case subscribe o' result =>
      cases result <;> simp_all [Label.ofThread, GraphQLServer.subscribe]
    all_goals simp_all [Label.ofThread, take, resolved, GraphQLServer.worker, Worker.resolves]

/-- `stop` has returned, and it stays so. -/
theorem Stopped.step (hw : Wired s) (hs : Step env s l s') {o : OperationId} (h : Stopped s o) :
    Stopped s' o where
  kind := hw.kind hs h.kind
  stopped := by
    rcases hs.operation o with heq | hchange | ⟨rfl, -⟩
    · exact heq ▸ h.stopped
    · by_contra hrunning
      have hrunning' := hchange.running (by simpa using hrunning)
      simp [h.stopped] at hrunning'
    · have hnone := hw.unknown _ le_rfl
      simp [h.kind] at hnone
  joined := by
    intro hjoin
    rcases hs.enters hjoin with hold | henters
    · exact h.joined hold
    · cases henters with
      | join running => simp [h.stopped] at running

/-- What is stopped stays so. -/
theorem Stopped.later {ok : State → Label → Prop} {o : OperationId}
    (h : Runs.Reach (GraphQLServer.step env) ok initial s)
    (hlater : Runs.Reach (GraphQLServer.step env) ok s s') (hstopped : Stopped s o) :
    Stopped s' o := by
  apply hlater.along (I := fun s => Stopped s o) hstopped
  intro s l s' hreach hs _ hstep
  exact hs.step (Reach.wired (h.trans hreach)) (step_cases hstep)

/-- **After `stop`.**  Once `stop` of a subscription has returned, and in every later
state, nothing of it is queued for its thread, running there or able to run, so it
does not reply; it observes nothing; and no registration is its own.  If the schema
does not use a key twice, nothing is registered under its key. -/
theorem stop_quiets {ok : State → Label → Prop} {o : OperationId}
    (h : Runs.Reach (step env) ok initial s) (hstopped : Stopped s o)
    (hlater : Runs.Reach (step env) ok s s') :
    (s'.operations o).Quiet ∧ (∀ l, l.ofThread o = true → step env s' l = none) ∧
      (∀ r ∈ s'.registrations, r.operation ≠ o) ∧
      ((∀ s l, ok s l → NewKey s l) → (s'.operations o).subscribed = true →
        ∀ r ∈ s'.registrations, r.key ≠ (s'.operations o).subscriptionKey) := by
  have hreach := h.trans hlater
  have hstopped' := hstopped.later h hlater
  have hquiet := Reach.joined hreach o hstopped'
  have hnone : ∀ r ∈ s'.registrations, r.operation ≠ o := by
    intro r hr ho
    obtain ⟨hactive, -⟩ := Reach.owned hreach r hr
    rw [ho] at hactive
    rcases hactive.2 hstopped'.stopped with htask | hworker
    · simp [hquiet.tasks] at htask
    · simp [hquiet.worker] at hworker
  refine ⟨hquiet, fun l => hquiet.disabled, hnone, ?_⟩
  intro hnew hsub r hr hkey
  have hdistinct : DistinctKeys s' := by
    apply hreach.along (I := DistinctKeys)
    · intro o o' hsub
      cases hsub
    · intro s l s' hreach hs hok hstep
      exact hs.step (Reach.wired hreach) (hnew s l hok) (step_cases hstep)
  obtain ⟨hactive, heq⟩ := Reach.owned hreach r hr
  apply hnone r hr
  apply hdistinct _ _ hactive.1 hsub
  rw [← hkey]
  exact (congrArg Registration.key heq).symm

set_option maxRecDepth 4000 in
/-- The first client stops its subscription and hears no more of it. -/
theorem stop_quiets_stopFirst :
    ∃ s, Runs.run (step vehicle) initial
        (connectSubscribe ++ .worker 0 :: (stopFirst ++ [.worker 0, .main])) = some s ∧
      (s.operations 0).subscribed = true ∧ (s.operations 0).Quiet ∧
      ∀ r ∈ s.registrations, r.operation ≠ 0 := by
  have hrun : Runs.run (step vehicle) initial
      (connectSubscribe ++ .worker 0 :: (stopFirst ++ [.worker 0, .main])) = some _ := rfl
  have hreach := Runs.reach_of_run hrun Runs.runMeets_always
  obtain ⟨hquiet, -, hnone, -⟩ := stop_quiets (o := 0) hreach ⟨rfl, rfl, by decide⟩ .refl
  exact ⟨_, hrun, rfl, hquiet, hnone⟩

end GraphQLServer
