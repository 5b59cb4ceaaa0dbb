import VssServer.LiveOperations
import VssServer.MainThread

/-!
# The handlers of a connection that is torn down

`tearDown` stops every operation of its connection and then empties the handlers.
By then each of them is stopped and its thread joined; a query that is still being
resolved has copied what it replies with.  Nobody waits for a signal slot that has
begun: it calls `notify` whenever it gets there.  As long as no slot has begun
when the handlers of its connection are emptied, no empty handler is invoked:
`handlers_present`.

* `Handled`: which connections have their handlers.
* `Copied`, `Slotted`: so do the threads and slots that are going to invoke them.
* `handlers_present`: no empty handler is invoked.
* `invokes_empty_handler`: a slot that outlives its connection does.
-/

namespace GraphQLServer

open Response Permissions

/-- The copy of `onReply` that the thread goes on with. -/
def Worker.copy : Worker → Option Bool
  | .resolving b | .replying b _ | .completing b | .delivering b _ | .deliveryReplying b _ => some b
  | _ => none

/-- Whether the handler that a step invokes is callable; a handled message posts to the
server or starts an operation with them. -/
def State.invoked (s : State) : Label → Option Bool
  | .worker o =>
      match (s.operations o).worker with
      | .replying b _ | .completing b | .deliveryReplying b _ => some b
      | .notifying => some (s.connections (s.operations o).connection).handlers
      | .delivered =>
          if (s.operations o).request.failedPermissionsCheck then
            some (s.connections (s.operations o).connection).handlers
          else none
      | _ => none
  | .slot o => some (s.connections (s.operations o).connection).handlers
  | .onFutureSubscription o =>
      if (s.operations o).stopped then none
      else some (s.connections (s.operations o).connection).handlers
  | .onWebSocketMessage c _ _ => some (s.connections c).handlers
  | _ => none

/-- The connection whose handlers the step empties. -/
def State.tearsDown (s : State) : Label → Option ConnectionId
  | .main =>
      match s.frames with
      | .tearDown c :: _ => some c
      | _ => none
  | _ => none

/-- The side condition on a step: no slot of a connection has begun when its handlers are
emptied. -/
def NoSlot (s : State) (l : Label) : Prop :=
  ∀ c ∈ s.tearsDown l, ∀ o ∈ s.slots, (s.operations o).connection ≠ c

instance (s : State) (l : Label) : Decidable (NoSlot s l) :=
  inferInstanceAs (Decidable (∀ _ ∈ _, _))

/-- An operation is to be stopped with its connection. -/
def Remaining (s : State) (o : OperationId) : Prop :=
  ∃ remaining, .stopOperations remaining ∈ s.frames ∧ o ∈ remaining

/-- Where the operations that are not stopped are, and which connections have their
handlers. -/
structure Handled (s : State) : Prop where
  live : ∀ c, (s.connections c).live = true → (s.connections c).handlers = true
  tearing : ∀ c, .tearDown c ∈ s.frames → (s.connections c).live = false
  erasing : ∀ c id o, .erase c id ∈ s.frames → (s.connections c).operations.lookup id = some o →
    (s.operations o).stopped = true
  placed : ∀ o, o < s.operationBound → (s.operations o).stopped = false →
    Kept s o ∨ Remaining s o
  running : ∀ o, o < s.operationBound → (s.operations o).stopped = false →
    (s.connections (s.operations o).connection).handlers = true
  joining : ∀ o, .join o ∈ s.frames →
    o < s.operationBound ∧ (s.connections (s.operations o).connection).handlers = true
  unknown : ∀ o, s.operationBound ≤ o →
    (s.operations o).tasks = [] ∧ (s.operations o).worker = .idle

variable {env : Environment} {s s' : State} {l : Label}

/-- The handlers of a connection are emptied by `tearDown` only. -/
theorem Step.handlers (hs : Step env s l s') {c : ConnectionId}
    (h : (s.connections c).handlers = true) :
    (s'.connections c).handlers = true ∨ s.tearsDown l = some c := by
  cases hs.touches c with
  | leaves eq | permits _ eq | inserts _ _ _ _ eq | erases _ eq | ends _ eq =>
      left
      rw [eq]
      exact h
  | opens _ _ _ eq | rejects _ _ eq | starts _ _ _ eq =>
      left
      rw [eq]
  | tearsDown label top _ => exact .inr (by simp [State.tearsDown, label, top])

/-- An entry stays until it is erased, or its connection is done. -/
theorem Step.kept (hs : Step env s l s') {c : ConnectionId} {id : String} {o : OperationId}
    (hc : c < s.connectionBound) (h : (s.connections c).operations.lookup id = some o) :
    (s'.connections c).operations.lookup id = some o ∨ .erase c id ∈ s.frames ∨ Remaining s' o := by
  cases hs.touches c with
  | leaves eq | permits _ eq | tearsDown _ _ eq =>
      left
      rw [eq]
      exact h
  | opens _ new _ _ | rejects new _ _ | starts new _ _ _ => exact absurd new hc.ne
  | @inserts message id₀ sub key label connected absent created eq =>
      left
      have hid : id ≠ id₀ := by
        rintro rfl
        simp [absent] at h
      rw [eq]
      exact (AList.lookup_insert_ne hid).trans h
  | @erases id₀ frame eq =>
      by_cases hid : id = id₀
      · subst hid
        exact .inr (.inl frame)
      · left
        rw [eq]
        exact (AList.lookup_erase_ne hid).trans h
  | ends frames _ =>
      refine .inr (.inr ⟨_, by rw [frames]; exact .head _, ?_⟩)
      exact List.mem_map.mpr ⟨⟨id, o⟩, AList.mem_lookup_iff.mp h, rfl⟩

/-- What creates a connection or an operation is a handler of its own. -/
theorem Step.creates_idle (hs : Step env s l s')
    (h : s'.operationBound ≠ s.operationBound ∨ s'.connectionBound ≠ s.connectionBound) :
    s.frames = [] ∧ s'.frames = [] := by
  cases hs
  case opened idle | httpMalformed idle | httpUnauthorized idle | httpFailed idle | httpStarted idle
    | messageStart asks made idle _ _ => exact ⟨idle, idle⟩
  case messageStop stops | forceStop stops | stopNext stops =>
    obtain ⟨hops, hconns⟩ := stops.bounds
    rcases h with h | h
    · exact absurd hops h
    · exact absurd hconns h
  all_goals
    rcases h with h | h
    · exact absurd rfl h
    · exact absurd rfl h

/-- A new operation is in the map of its connection. -/
private theorem kept_added (s : State) (c : ConnectionId) (id : String) (sub : Bool)
    (key : SubscriptionKey) :
    Kept (s.addConnectionOperation env c id sub key) s.operationBound := by
  have hnew : (s.addConnectionOperation env c id sub key).operations s.operationBound =
      newOperation env id c (s.connections c).permissions sub key := Function.update_self ..
  have hentry : ((s.addConnectionOperation env c id sub key).connections c).operations =
      (s.connections c).operations.insert id s.operationBound := by
    simp [State.addConnectionOperation]
  unfold Kept
  rw [hnew]
  dsimp only [newOperation]
  rw [hentry, AList.lookup_insert]

/-- An operation that has just been created is an entry of its connection. -/
theorem Step.creates_kept (hs : Step env s l s') (h : s'.operationBound ≠ s.operationBound) :
    Kept s' s.operationBound := by
  cases hs
  case httpStarted => exact kept_added _ _ _ _ _
  case messageStart => exact kept_added _ _ _ _ _
  case messageStop stops | forceStop stops | stopNext stops => exact absurd stops.bounds.1 h
  all_goals exact absurd rfl h

/-- What is stopped stays so. -/
theorem Step.stays_stopped (hs : Step env s l s') {o : OperationId} (ho : o < s.operationBound)
    (h : (s.operations o).stopped = true) : (s'.operations o).stopped = true := by
  rcases hs.operation o with heq | hchange | ⟨rfl, -⟩
  · rw [heq, h]
  · by_contra hrunning
    simp [hchange.running (by simpa using hrunning)] at h
  · exact absurd ho (lt_irrefl _)

/-- Nothing happens on the thread of an operation that does not exist. -/
theorem OperationStep.vacant {e : Effects} {x x' : Operation} (hs : OperationStep e x x')
    (hcalled : e.called → x.isSubscription = true) (hkind : x.isSubscription = false)
    (h : x.tasks = [] ∧ x.worker = .idle) : x'.tasks = [] ∧ x'.worker = .idle := by
  obtain ⟨htasks, hworker⟩ := h
  cases hs
  case resolvedStopped => exact ⟨htasks, rfl⟩
  all_goals simp_all

/-- `tearDown` is the frame on top. -/
theorem State.tearsDown_frames {c : ConnectionId} (h : s.tearsDown l = some c) :
    ∃ rest, s.frames = .tearDown c :: rest := by
  unfold State.tearsDown at h
  split at h
  · split at h
    · cases h
      exact ⟨_, ‹_›⟩
    · cases h
  · cases h

namespace Handled

/-- The handlers of an operation that is not stopped are not emptied. -/
theorem untorn (h : Handled s) (he : Entries s) (hstack : Stack s.frames) {o : OperationId}
    (ho : o < s.operationBound) (hrunning : (s.operations o).stopped = false) :
    s.tearsDown l ≠ some (s.operations o).connection := by
  intro htears
  obtain ⟨rest, top⟩ := s.tearsDown_frames htears
  have hrest : rest = [] := by
    rw [top] at hstack
    exact hstack.tearDown_last
  rcases h.placed o ho hrunning with hkept | ⟨remaining, hframe, -⟩
  · have hlive := (he.connection hkept).2
    rw [h.tearing _ (by rw [top]; exact .head _)] at hlive
    cases hlive
  · simp [top, hrest] at hframe

/-- A live connection has its handlers. -/
theorem step_live (h : Handled s) (hs : Step env s l s') :
    ∀ c, (s'.connections c).live = true → (s'.connections c).handlers = true := by
  intro c hlive
  rcases (hs.connectionChange c).live hlive with hold | ⟨-, -, hhandlers⟩
  · rcases hs.handlers (h.live c hold) with hhandlers | htears
    · exact hhandlers
    · obtain ⟨rest, top⟩ := s.tearsDown_frames htears
      rw [h.tearing c (by rw [top]; exact .head _)] at hold
      cases hold
  · exact hhandlers

/-- A connection that is torn down is done. -/
theorem step_tearing (h : Handled s) (hs : Step env s l s') :
    ∀ c, .tearDown c ∈ s'.frames → (s'.connections c).live = false := by
  intro c hframe
  rcases hs.enters hframe with hold | henters
  · by_contra hlive
    rcases (hs.connectionChange c).live (by simpa using hlive) with hlive | ⟨rfl, hbound, -⟩
    · simp [h.tearing c hold] at hlive
    · have hidle := (hs.creates_idle (.inr (by rw [hbound]; exact Nat.succ_ne_self _))).1
      simp [hidle] at hold
  · cases henters with
    | tearDown done => exact done

/-- What is about to be erased is stopped. -/
theorem step_erasing (h : Handled s) (he : Entries s) (hs : Step env s l s') :
    ∀ c id o, .erase c id ∈ s'.frames → (s'.connections c).operations.lookup id = some o →
      (s'.operations o).stopped = true := by
  intro c id o hframe hlookup
  rcases hs.entry hlookup with hold | ⟨rfl, hbound, -⟩
  · rcases hs.enters hframe with hframe | henters
    · exact hs.stays_stopped (he.entry c id o hold).1 (h.erasing c id o hframe hold)
    · cases henters with
      | erase entry stopped =>
          cases hold.symm.trans entry
          exact stopped
  · have hidle := (hs.creates_idle (.inl (by rw [hbound]; exact Nat.succ_ne_self _))).2
    simp [hidle] at hframe

/-- An operation that is running was so before, or has just been created. -/
theorem before (hs : Step env s l s') {o : OperationId} (ho : o < s'.operationBound)
    (hrunning : (s'.operations o).stopped = false) :
    (o < s.operationBound ∧ (s.operations o).stopped = false) ∨
      o = s.operationBound ∧ s'.operationBound ≠ s.operationBound := by
  rcases hs.created ho with hold | ⟨rfl, hbound, -⟩
  · refine .inl ⟨hold, ?_⟩
    by_contra hstopped
    simp [hs.stays_stopped hold (by simpa using hstopped)] at hrunning
  · exact .inr ⟨rfl, by rw [hbound]; exact Nat.succ_ne_self _⟩

/-- What runs is in its map, or the loop of `stop` has still to stop it. -/
theorem step_placed (h : Handled s) (he : Entries s) (hs : Step env s l s') :
    ∀ o, o < s'.operationBound → (s'.operations o).stopped = false →
      Kept s' o ∨ Remaining s' o := by
  intro o ho hrunning
  rcases before hs ho hrunning with ⟨hold, hbefore⟩ | ⟨rfl, hbound⟩
  · rcases h.placed o hold hbefore with hkept | ⟨remaining, hframe, hmem⟩
    · obtain ⟨hid, hconnection, -⟩ := hs.fixed hold
      unfold Kept
      rw [hid, hconnection]
      rcases hs.kept (he.connection hkept).1 hkept with hlookup | herase | hremaining
      · exact .inl hlookup
      · simp [h.erasing _ _ o herase hkept] at hbefore
      · exact .inr hremaining
    · right
      rcases hs.frame hframe with hstay | hleaves
      · exact ⟨remaining, hstay, hmem⟩
      · cases hleaves with
        | stopOperations stops =>
            rcases stops o hmem with hremaining | hstopped
            · exact hremaining
            · simp [hstopped] at hrunning
  · exact .inl (hs.creates_kept hbound)

/-- What runs has the handlers of its connection. -/
theorem step_running (h : Handled s) (he : Entries s) (hstack : Stack s.frames)
    (hs : Step env s l s') :
    ∀ o, o < s'.operationBound → (s'.operations o).stopped = false →
      (s'.connections (s'.operations o).connection).handlers = true := by
  intro o ho hrunning
  rcases before hs ho hrunning with ⟨hold, hbefore⟩ | ⟨rfl, hbound⟩
  · rw [(hs.fixed hold).2.1]
    rcases hs.handlers (h.running o hold hbefore) with hhandlers | htears
    · exact hhandlers
    · exact absurd htears (h.untorn he hstack hold hbefore)
  · exact h.step_live hs _ ((he.step hs).connection (hs.creates_kept hbound)).2

/-- So has what the main thread waits for. -/
theorem step_joining (h : Handled s) (hw : Wired s) (he : Entries s) (hstack : Stack s.frames)
    (hs : Step env s l s') :
    ∀ o, .join o ∈ s'.frames → o < s'.operationBound ∧
      (s'.connections (s'.operations o).connection).handlers = true := by
  intro o hframe
  have hstay : ∀ {o}, o < s.operationBound →
      (s.connections (s.operations o).connection).handlers = true →
      s.tearsDown l ≠ some (s.operations o).connection → o < s'.operationBound ∧
        (s'.connections (s'.operations o).connection).handlers = true := by
    intro o ho hhandlers huntorn
    rw [(hs.fixed ho).2.1]
    exact ⟨ho.trans_le hs.bounds.1, (hs.handlers hhandlers).resolve_right huntorn⟩
  rcases hs.enters hframe with hold | henters
  · obtain ⟨ho, hhandlers⟩ := h.joining o hold
    refine hstay ho hhandlers ?_
    intro htears
    obtain ⟨rest, top⟩ := s.tearsDown_frames htears
    obtain ⟨rest', top'⟩ := hstack.join_top hold
    cases top.symm.trans top'
  · cases henters with
    | join running kind =>
        have ho := hw.known kind
        exact hstay ho (h.running o ho running) (h.untorn he hstack ho running)

/-- An operation that does not exist yet has no task. -/
theorem step_unknown (h : Handled s) (hw : Wired s) (hs : Step env s l s') :
    ∀ o, s'.operationBound ≤ o → (s'.operations o).tasks = [] ∧ (s'.operations o).worker = .idle := by
  intro o ho
  have hunknown := hs.bounds.1.trans ho
  rcases hs.operation o with heq | hchange | ⟨rfl, hbound, -⟩
  · rw [heq]
    exact h.unknown o hunknown
  · exact hchange.vacant (hw.called o) (hw.unknown o hunknown) (h.unknown o hunknown)
  · rw [hbound] at ho
    exact absurd ho (Nat.not_succ_le_self _)

/-- Every step keeps the handlers where they are needed. -/
theorem step (h : Handled s) (hw : Wired s) (he : Entries s) (hstack : Stack s.frames)
    (hs : Step env s l s') : Handled s' where
  live := h.step_live hs
  tearing := h.step_tearing hs
  erasing := h.step_erasing he hs
  placed := h.step_placed he hs
  running := h.step_running he hstack hs
  joining := h.step_joining hw he hstack hs
  unknown := h.step_unknown hw hs

end Handled

/-- They are there in every run. -/
theorem Reach.handled {ok : State → Label → Prop} (h : Runs.Reach (step env) ok initial s) :
    Handled s := by
  apply h.along (I := Handled)
  · constructor
    · intro c hlive
      cases hlive
    · intro c hframe
      cases hframe
    · intro c id o hframe
      cases hframe
    · intro o ho
      exact absurd ho (Nat.not_lt_zero o)
    · intro o ho
      exact absurd ho (Nat.not_lt_zero o)
    · intro o hframe
      cases hframe
    · intro o _
      exact ⟨rfl, rfl⟩
  · intro s l s' hreach hs _ hstep
    exact hs.step (Reach.wired hreach) (Reach.entries hreach) (Reach.stack hreach)
      (step_cases hstep)

/-- The connection of a subscription that is not quiet has its handlers. -/
theorem Handled.busy (h : Handled s) (hw : Wired s) (hj : Joined s) {o : OperationId}
    (hkind : (s.operations o).isSubscription = true) (hbusy : ¬(s.operations o).Quiet) :
    o < s.operationBound ∧ (s.connections (s.operations o).connection).handlers = true := by
  by_cases hstopped : (s.operations o).stopped = true
  · exact h.joining o (hj.waits hkind hstopped hbusy)
  · have ho := hw.known hkind
    exact ⟨ho, h.running o ho (by simpa using hstopped)⟩

/-- A thread goes on with a copy of `onReply` only if that is callable. -/
theorem OperationStep.copy {e : Effects} {x x' : Operation} (hs : OperationStep e x x')
    (hcopies : ∀ b, e.copies b →
      x.tasks ≠ [] ∧ x.stopped = false ∨ x.worker = .subscribing → b = true)
    (h : x.worker.copy ≠ some false) : x'.worker.copy ≠ some false := by
  cases hs
  case takeResolve tasks onReply copies idle next running =>
    have hcopy := hcopies onReply copies (.inl ⟨by simp [next], running⟩)
    simp [Worker.copy, hcopy]
  case takeDelivery tasks onReply copies idle next running =>
    have hcopy := hcopies onReply copies (.inl ⟨by simp [next], running⟩)
    simp [Worker.copy, hcopy]
  case subscribeFailed w copies subscribing next =>
    rcases next with rfl | ⟨b, document, rfl⟩
    · simp [Worker.copy]
    · have hcopy := hcopies b (copies b _ rfl) (.inr subscribing)
      simp [Worker.copy, hcopy]
  all_goals simp_all [Worker.copy, Operation.schedule]

/-- Every copy of `onReply` is callable. -/
def Copied (s : State) : Prop :=
  ∀ o, (s.operations o).worker.copy ≠ some false

/-- The handler that a thread has copied is there, because its connection had it then. -/
theorem Copied.step (h : Copied s) (hh : Handled s) (hw : Wired s) (hj : Joined s)
    (hs : Step env s l s') : Copied s' := by
  apply hs.forall_operations (P := fun x => x.worker.copy ≠ some false) _ _ h
  · intro id c permissions sub key
    simp [newOperation, Worker.copy]
  · intro o x' hchange
    apply hchange.copy
    rintro b rfl hbusy
    rcases hbusy with ⟨htasks, hrunning⟩ | hsubscribing
    · refine hh.running o ?_ hrunning
      by_contra ho
      exact htasks (hh.unknown o (not_lt.mp ho)).1
    · have hkind := (hw.valid o).of_subscription (by rw [hsubscribing]; rfl)
      refine (hh.busy hw hj hkind ?_).2
      intro hquiet
      simp [hquiet.worker] at hsubscribing

/-- Every handler that a thread has copied is there. -/
theorem Reach.copied {ok : State → Label → Prop} (h : Runs.Reach (step env) ok initial s) :
    Copied s := by
  apply h.along (I := Copied)
  · intro o
    simp [initial, Worker.copy]
  · intro s l s' hreach hs _ hstep
    exact hs.step (Reach.handled hreach) (Reach.wired hreach) (Reach.joined hreach)
      (step_cases hstep)

/-- Only subscriptions observe something. -/
theorem OperationStep.observing {e : Effects} {x x' : Operation} (hs : OperationStep e x x')
    (h : 0 < x.signals → x.isSubscription = true) :
    0 < x'.signals → x'.isSubscription = true := by
  rw [hs.fixed.2.2]
  cases hs
  case observe kind => exact fun _ => kind
  case takeUnsubscribe => exact nofun
  all_goals exact h

/-- Only subscriptions observe. -/
theorem Reach.observing {ok : State → Label → Prop} (h : Runs.Reach (step env) ok initial s)
    (o : OperationId) : 0 < (s.operations o).signals → (s.operations o).isSubscription = true := by
  have hall : ∀ o, 0 < (s.operations o).signals → (s.operations o).isSubscription = true := by
    apply h.invariant (I := fun s => ∀ o, 0 < (s.operations o).signals →
      (s.operations o).isSubscription = true)
    · intro o hsignals
      cases hsignals
    · intro s l s' hs _ hstep
      apply (step_cases hstep).forall_operations
        (P := fun x => 0 < x.signals → x.isSubscription = true) _ _ hs
      · intro id c permissions sub key hsignals
        cases hsignals
      · intro o x' hchange
        exact hchange.observing
  exact hall o

/-- A slot has begun before, or this signal begins it. -/
theorem Step.begunSlots (hs : Step env s l s') {o : OperationId} (h : o ∈ s'.slots) :
    o ∈ s.slots ∨ l = .signal o ∧ 0 < (s.operations o).signals := by
  cases hs
  case messageStop stops | forceStop stops | stopNext stops =>
    left
    cases stops <;> exact h
  case signal o₀ observed =>
    rcases List.mem_cons.mp h with rfl | hold
    · exact .inr ⟨rfl, observed⟩
    · exact .inl hold
  case slot => exact .inl (List.mem_of_mem_erase h)
  all_goals exact .inl h

/-- The connection of a slot that has begun has its handlers. -/
def Slotted (s : State) : Prop :=
  ∀ o ∈ s.slots, o < s.operationBound ∧ (s.connections (s.operations o).connection).handlers = true

/-- As long as no slot outlives its connection, its handler is there. -/
theorem Slotted.step (h : Slotted s) (hh : Handled s) (hw : Wired s) (hj : Joined s)
    (hobserving : ∀ o, 0 < (s.operations o).signals → (s.operations o).isSubscription = true)
    (hok : NoSlot s l) (hs : Step env s l s') : Slotted s' := by
  intro o ho
  have hstay : o < s.operationBound → (s.connections (s.operations o).connection).handlers = true →
      s.tearsDown l ≠ some (s.operations o).connection → o < s'.operationBound ∧
        (s'.connections (s'.operations o).connection).handlers = true := by
    intro hknown hhandlers huntorn
    rw [(hs.fixed hknown).2.1]
    exact ⟨hknown.trans_le hs.bounds.1, (hs.handlers hhandlers).resolve_right huntorn⟩
  rcases hs.begunSlots ho with hold | ⟨rfl, hsignals⟩
  · obtain ⟨hknown, hhandlers⟩ := h o hold
    exact hstay hknown hhandlers fun htears => hok _ htears o hold rfl
  · have hbusy : ¬(s.operations o).Quiet := by
      intro hquiet
      simp [hquiet.signals] at hsignals
    obtain ⟨hknown, hhandlers⟩ := hh.busy hw hj (hobserving o hsignals) hbusy
    exact hstay hknown hhandlers nofun

/-- The slots that have begun have their handlers in every such run. -/
theorem Reach.slotted (h : Runs.Reach (step env) NoSlot initial s) : Slotted s := by
  apply h.along (I := Slotted)
  · intro o ho
    cases ho
  · intro s l s' hreach hs hok hstep
    exact hs.step (Reach.handled hreach) (Reach.wired hreach) (Reach.joined hreach)
      (Reach.observing hreach) hok (step_cases hstep)

/-- A callback is called only while the main thread is in `deliver` for it. -/
theorem called_of_callback {o : OperationId} (h : onFutureSubscription s o = some s') :
    Called s o := by
  unfold onFutureSubscription at h
  split at h
  case h_1 keys remaining frames top =>
    obtain ⟨hmem, -⟩ := Option.ite_none_right_eq_some.mp h
    exact .inr ⟨keys, remaining, by rw [top]; exact .head _, hmem⟩
  case h_2 => cases h

/-- **Callable handlers.**  As long as no signal slot has begun when the handlers of its
connection are emptied, no step invokes an empty handler. -/
theorem handlers_present (h : Runs.Reach (step env) NoSlot initial s)
    (hstep : step env s l = some s') : s.invoked l ≠ some false := by
  have hw := Reach.wired h
  have hh := Reach.handled h
  unfold step at hstep
  obtain ⟨-, hstep⟩ := Option.ite_none_left_eq_some.mp hstep
  cases l with
  | worker o =>
      have hcopy := Reach.copied h o
      have hbusy : (s.operations o).worker.ofSubscription = true →
          (s.connections (s.operations o).connection).handlers = true := by
        intro hworker
        refine (hh.busy hw (Reach.joined h) ((hw.valid o).of_subscription hworker) ?_).2
        intro hquiet
        simp [hquiet.worker, Worker.ofSubscription] at hworker
      cases hworker : (s.operations o).worker <;> rw [hworker] at hcopy hbusy
      case replying | completing | deliveryReplying =>
        simpa [State.invoked, hworker, Worker.copy] using hcopy
      case notifying => simp [State.invoked, hworker, hbusy rfl]
      case delivered => simp [State.invoked, hworker, hbusy rfl]
      all_goals simp [State.invoked, hworker]
  | slot o =>
      obtain ⟨hmem, -⟩ := Option.ite_none_right_eq_some.mp hstep
      simp [State.invoked, (Reach.slotted h o hmem).2]
  | onFutureSubscription o =>
      have ho := hw.known (hw.called o (called_of_callback hstep))
      by_cases hstopped : (s.operations o).stopped = true
      · simp [State.invoked, hstopped]
      · simp [State.invoked, hh.running o ho (by simpa using hstopped)]
  | onWebSocketMessage c message key =>
      obtain ⟨⟨-, -, -, hlive⟩, -⟩ := Option.ite_none_right_eq_some.mp hstep
      simp [State.invoked, hh.live c hlive]
  | _ => simp [State.invoked]

/-- A client closes its connection when its query is about to reply. -/
def closeReplying : List Label :=
  [.onWebSocketOpen, .onWebSocketMessage 0 (some (startMessage "1" "query")) 0, .take 0,
    .resolved 0 .null, .onWebSocketClose 0, .stopNext 0, .main, .main]

set_option maxRecDepth 4000 in
/-- The connection is closed while its thread replies: the copied handler is invoked. -/
theorem handlers_present_closeReplying :
    ∃ s, Runs.run (step vehicle) initial closeReplying = some s ∧
      (s.connections 0).handlers = false ∧ (step vehicle s (.worker 0)).isSome ∧
      s.invoked (.worker 0) ≠ some false := by
  have hrun : Runs.run (step vehicle) initial closeReplying = some _ := rfl
  have hreach := Runs.reach_of_run hrun (by decide : Runs.RunMeets _ NoSlot _ _)
  exact ⟨_, hrun, rfl, rfl, handlers_present hreach rfl⟩

/-- The first client closes its connection while its delivery is resolved; the thread of
its subscription unsubscribes, and the connection is torn down. -/
def closeFirst : List Label :=
  [.onWebSocketClose 0, .stopNext 0, .resolved 0 .null, .take 0, .worker 0, .main, .main, .main]

set_option maxRecDepth 4000 in
/-- A signal has begun to call the slot of the subscription, which gets to `notify` after
the connection is torn down. -/
theorem invokes_empty_handler :
    ∃ s s', Runs.run (step vehicle) initial
        (connectSubscribe ++ .worker 0 :: (deliverFirst ++ [.observe 0, .signal 0] ++ closeFirst)) =
          some s ∧
      step vehicle s (.slot 0) = some s' ∧ s.invoked (.slot 0) = some false ∧ s'.aborted = true :=
  ⟨_, _, rfl, rfl, rfl, rfl⟩

end GraphQLServer
