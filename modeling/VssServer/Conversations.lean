import VssServer.HttpAnswers
import VssServer.ReplyTasks

/-!
# What the clients are told

The server with a log of the tasks that were posted to its main thread, each with the
operation whose thread has posted it, and of those that were run, and with the documents
that the schema has answered an operation with.  What the thread of an operation sends to
its client is then exactly these documents, in their order, and a query's `complete` after
its only one; everything else that is sent answers a message.

* `Told`: the history and the server agree on what has been posted and what is still to come.
* `Told.step`: every step keeps them in agreement.
* `replies_exact`: every operation has told what it was answered with, in order.
* `query_told`: a query is told all or nothing.
* `replies_own`: nothing is sent to another client.
* `http_status`: the status code of a response.
-/

namespace GraphQLServer

open Response Permissions

/-- A task posted to the main thread: by the thread of an operation, by the handler of a
request or message of a connection, or otherwise. -/
structure Posting where
  thread : Option OperationId
  connection : Option ConnectionId
  task : Task

/-- The server and its log.  `documents` are those that have passed the second check of
`m_stopped`. -/
structure Conversation where
  server : State
  posted : List Posting
  done : List Task
  documents : OperationId → List Value

/-- The document that the thread is going to reply. -/
def Worker.document? : Worker → Option Value
  | .replying _ response | .deliveryReplying _ response => some response
  | _ => none

section Operations

variable {env : Environment} {s s' : State} {l : Label} {o : OperationId}

/-- Only the thread of an operation comes to a document, replies it or completes. -/
theorem Step.keepsDocument (hs : Step env s l s') (ho : o < s.operationBound)
    (hworker : l ≠ .worker o) (hresolved : ∀ response, l ≠ .resolved o response) :
    (s'.operations o).worker.document? = (s.operations o).worker.document? ∧
      (s'.operations o).completeSent = (s.operations o).completeSent := by
  by_cases hthread : l.ofThread o = true
  · cases l <;> simp only [Label.ofThread, Bool.false_eq_true, decide_eq_true_eq] at hthread <;>
      subst hthread
    case worker => exact absurd rfl hworker
    case resolved response => exact absurd rfl (hresolved response)
    case subscribe =>
      cases hs
      case subscribeFailed next copies subscribing =>
        rcases next with rfl | ⟨_, _, rfl⟩ <;> simp [Worker.document?, subscribing]
      all_goals simp_all [Worker.document?]
    all_goals cases hs <;> simp_all [Worker.document?]
  · have hsame : (s'.operations o).worker = (s.operations o).worker := by
      by_contra hne
      exact hthread (hs.ofThread ho hne)
    refine ⟨by rw [hsame], ?_⟩
    rcases hs.operation o with heq | hchange | ⟨rfl, -⟩
    · rw [heq]
    · generalize s'.operations o = x' at hchange hsame
      cases hchange
      case replyComplete completing => simp [completing] at hsame
      all_goals rfl
    · exact absurd ho (lt_irrefl _)

/-- The thread goes on from its document, or the process ends. -/
theorem Step.worker_document (hs : Step env s (.worker o) s') :
    (s'.operations o).worker.document? = none ∨ s'.operations o = s.operations o := by
  cases hs <;> simp [Worker.document?]

/-- The thread replies the document that it has come to, and completes with `complete`. -/
theorem Step.worker_replies (hs : Step env s (.worker o) s') (hgoes : s' ≠ s.abort) :
    (s'.operations o).worker.document? = none ∧
      (s'.operations o).completeSent =
        match (s.operations o).worker with
        | .completing _ => true
        | _ => (s.operations o).completeSent := by
  cases hs <;> simp_all [Worker.document?]

/-- `complete` is sent by the thread in its step only. -/
theorem Step.resolved_sends {response : Value} (hs : Step env s (.resolved o response) s') :
    (s'.operations o).completeSent = (s.operations o).completeSent := by
  cases hs <;> simp

/-- A document comes from a resolution. -/
theorem resolved_before {response : Value} (h : resolved s o response = some s') :
    (∃ b, (s.operations o).worker = .resolving b) ∨
      ∃ b document, (s.operations o).worker = .delivering b document := by
  unfold resolved at h
  dsimp only at h
  split at h
  · exact .inl ⟨_, ‹_›⟩
  · exact .inr ⟨_, _, ‹_›⟩
  · cases h

/-- A thread that resolves has no document yet. -/
theorem Worker.document?_resolving {w : Worker}
    (h : (∃ b, w = .resolving b) ∨ ∃ b document, w = .delivering b document) :
    w.document? = none := by
  rcases h with ⟨b, rfl⟩ | ⟨b, document, rfl⟩ <;> rfl

/-- The document that the thread has got. -/
def Worker.held? : Worker → Option Value
  | .replying _ response | .deliveryReplying _ response | .delivering _ (some response) =>
      some response
  | _ => none

/-- The document of a thread is the response it holds. -/
theorem Worker.held_document {w : Worker} {response : Value} (h : response ∈ w.document?) :
    response ∈ w.held? := by
  cases w <;> first | exact h | cases h

/-- What the schema has answered. -/
def Label.response? : Label → Option Value
  | .resolved _ response => some response
  | _ => none

/-- The document that `resolved` goes on with. -/
theorem resolved_goes {response : Value} (h : resolved s o response = some s') :
    (∃ b, (s.operations o).worker = .resolving b ∧
        (s'.operations o).worker = .replying b response) ∨
      (∃ b document, (s.operations o).worker = .delivering b document ∧
        (s'.operations o).worker = .deliveryReplying b (document.getD response)) ∨
      (s'.operations o).worker = .idle := by
  unfold resolved at h
  dsimp only at h
  split at h
  · rename_i b hw
    obtain rfl := Option.some.inj h
    by_cases hstopped : (s.operations o).stopped <;> simp [hstopped, hw]
  · rename_i b document hw
    obtain rfl := Option.some.inj h
    by_cases hstopped : (s.operations o).stopped <;> simp [hstopped, hw]
  · cases h

/-- A `subscribe` that has failed goes on with its errors. -/
theorem subscribe_goes {result : Except Value (SubscriptionKey × SubscriptionName)}
    (h : subscribe s o result = some s') :
    (s'.operations o).worker = .notifying ∨ (s'.operations o).worker = .idle ∨
      ∃ b errors, (s'.operations o).worker =
        .delivering b (some (.map [(GQL_DATA, .null), ("errors", errors)])) := by
  unfold subscribe at h
  split at h
  · split at h
    · obtain ⟨-, h⟩ := Option.ite_none_right_eq_some.mp h
      obtain rfl := Option.some.inj h
      simp
    · cases h
  · split at h
    · obtain rfl := Option.some.inj h
      by_cases hstopped : (s.operations o).stopped <;> simp [hstopped]
    · cases h

/-- A thread gets its document from the schema, or it is an object with the errors of a failed
`subscribe`. -/
theorem step_held (hstep : step env s l = some s') (ho : o < s.operationBound) {response : Value}
    (h : response ∈ (s'.operations o).worker.held?) :
    response ∈ (s.operations o).worker.held? ∨ l.response? = some response ∨
      response.isMap = true := by
  have hs := step_cases hstep
  by_cases hthread : l.ofThread o = true
  · obtain ⟨-, hnext⟩ := Option.ite_none_left_eq_some.mp hstep
    cases l <;> simp only [Label.ofThread, Bool.false_eq_true, decide_eq_true_eq] at hthread <;>
      subst hthread
    case resolved answer =>
      rcases resolved_goes hnext with ⟨b, hw, hw'⟩ | ⟨b, document, hw, hw'⟩ | hw' <;>
        rw [hw'] at h
      · exact .inr (.inl h)
      · cases document with
        | none => exact .inr (.inl h)
        | some document => exact .inl (by rw [hw]; exact h)
      · cases h
    case subscribe result =>
      rcases subscribe_goes hnext with hw' | hw' | ⟨b, errors, hw'⟩ <;> rw [hw'] at h
      · cases h
      · cases h
      · cases h
        exact .inr (.inr rfl)
    all_goals cases hs <;> simp_all [Worker.held?]
  · have hsame : (s'.operations o).worker = (s.operations o).worker := by
      by_contra hne
      exact hthread (hs.ofThread ho hne)
    exact .inl (hsame ▸ h)

end Operations

/-- How far a query or mutation has come, with the documents it was answered with. -/
def Progress (x : Operation) (documents : List Value) : Prop :=
  match x.worker with
  | .resolving _ => documents = [] ∧ x.tasks = [] ∧ x.completeSent = false
  | .replying _ _ | .completing _ =>
      documents.length = 1 ∧ x.tasks = [] ∧ x.completeSent = false
  | .completed => documents.length = 1 ∧ x.tasks = [] ∧ x.completeSent = true
  | .idle =>
      documents = [] ∧ x.completeSent = false ∧
          (x.tasks = [.resolve] ∨ x.tasks = [] ∧ x.stopped = true) ∨
        documents.length = 1 ∧ x.completeSent = true ∧ x.tasks = []
  | _ => False

/-- The documents after a step of the operation. -/
def documentsAfter (x x' : Operation) (documents : List Value) : List Value :=
  documents ++ if x.worker.document? = none then x'.worker.document?.toList else []

/-- A query or mutation keeps to its course: it is resolved once, then replies and completes. -/
theorem Progress.step {e : Effects} {x x' : Operation} {documents : List Value}
    (h : Progress x documents) (hs : OperationStep e x x') (kind : x.isSubscription = false)
    (hcalled : e.called → x.isSubscription = true) :
    Progress x' (documentsAfter x x' documents) := by
  unfold Progress documentsAfter at *
  cases hs
  case stopRegular =>
    cases hw : x.worker <;> simp_all [Worker.document?]
    exact h.imp_left fun h => ⟨h.1, h.2.1, .inl h.2.2⟩
  case expire | takeStopped | validate | signal =>
    cases hw : x.worker <;> simp_all [Worker.document?]
  case resolvedStopped resolving stopped =>
    rcases resolving with ⟨_, hw⟩ | ⟨_, _, hw⟩ <;> simp_all [Worker.document?]
  all_goals simp_all [Worker.document?]

/-- A subscription never sends `complete`. -/
theorem OperationStep.incomplete {e : Effects} {x x' : Operation} (hs : OperationStep e x x')
    (hvalid : x.Valid) (kind : x.isSubscription = true) (h : x.completeSent = false) :
    x'.completeSent = false := by
  have hregular := (hvalid.subscription kind).1
  cases hs
  case replyComplete completing => simp [completing, Worker.ofRegular] at hregular
  all_goals exact h

namespace Conversation

/-- The log after a step of the server to `server`. -/
@[simps]
def after (s : Conversation) (l : Label) (server : State) : Conversation where
  server := server
  posted := s.posted ++
    (server.queue.drop s.server.queue.length).map fun t => ⟨l.worker?, s.server.handled l, t⟩
  done := s.done ++ s.server.queue.take (s.server.queue.length - server.queue.length)
  documents o :=
    match l with
    | .resolved o' _ =>
        if o' = o then s.documents o ++ (server.operations o).worker.document?.toList
        else s.documents o
    | _ => s.documents o

def step (env : Environment) (s : Conversation) (l : Label) : Option Conversation :=
  (GraphQLServer.step env s.server l).map (s.after l)

def start : Conversation where
  server := initial
  posted := []
  done := []
  documents _ := []

/-- The replies that the thread of `o` has posted. -/
def share (s : Conversation) (o : OperationId) : List Task :=
  (s.posted.filter fun p => p.thread = some o ∧ p.task.isReply).map Posting.task

/-- The replies to the client of `o` with a document. -/
def reply (s : Conversation) (o : OperationId) (type : String) (payload : Value) : List Task :=
  let x := s.server.operations o
  replyTasks (s.server.connections x.connection).http x.connection type x.id payload

/-- What the client of `o` is to be told. -/
def owed (s : Conversation) (o : OperationId) : List Task :=
  (s.documents o).flatMap (s.reply o GQL_DATA) ++
    if (s.server.operations o).completeSent then s.reply o GQL_COMPLETE .null else []

/-- What the thread of `o` is about to tell its client. -/
def coming (s : Conversation) (o : OperationId) : List Task :=
  (s.server.operations o).worker.document?.toList.flatMap (s.reply o GQL_DATA)

variable {env : Environment} {ok : Conversation → Label → Prop} {s s' : Conversation} {l : Label}

/-- A step with its history is a step of the server and what it adds to the history. -/
theorem step_after (h : step env s l = some s') :
    GraphQLServer.step env s.server l = some s'.server ∧ s' = s.after l s'.server := by
  obtain ⟨server, hserver, rfl⟩ := Option.map_eq_some_iff.mp h
  exact ⟨hserver, rfl⟩

/-- A run with its log is a run of the server. -/
theorem Reach.server (h : Runs.Reach (step env) ok start s) :
    Runs.Reach (GraphQLServer.step env) Runs.always initial s.server := by
  apply h.invariant (I := fun s => Runs.Reach (GraphQLServer.step env) Runs.always initial s.server)
  · exact .refl
  · intro s l s' hs _ hstep
    exact hs.tail trivial (step_after hstep).1

/-- What was posted has been run or is queued, in the order in which it was posted. -/
theorem Reach.inOrder (h : Runs.Reach (step env) ok start s) :
    s.done ++ s.server.queue = s.posted.map Posting.task := by
  apply h.invariant (I := fun s => s.done ++ s.server.queue = s.posted.map Posting.task)
  · rfl
  · intro s l s' hs _ hstep
    obtain ⟨hserver, heq⟩ := step_after hstep
    rw [heq, after_done, after_posted, after_server, List.map_append, ← hs, List.map_map]
    rcases (step_cases hserver).queue with hqueue | ⟨t, hqueue, -⟩ | ⟨t, hqueue, -⟩
    · simp [hqueue]
    · simp [hqueue]
    · simp [hqueue]

/-- A task enters the share of the operation whose thread has posted it. -/
theorem share_after (s : Conversation) (l : Label) (server : State) (o : OperationId) :
    (s.after l server).share o = s.share o ++
      if l.worker? = some o then
        (server.queue.drop s.server.queue.length).filter Task.isReply
      else [] := by
  simp only [share, after_posted, List.filter_append, List.map_append, List.append_cancel_left_eq]
  generalize server.queue.drop s.server.queue.length = tasks
  by_cases hl : l.worker? = some o <;> simp [hl, List.filter_map, Function.comp_def]

/-- How the client is told stays. -/
theorem reply_after (hs : GraphQLServer.Step env s.server l s'.server) (he : Entries s.server)
    {o : OperationId} (ho : o < s.server.operationBound) : s'.reply o = s.reply o := by
  obtain ⟨hid, hconnection, -⟩ := hs.fixed ho
  funext type payload
  simp only [reply, hid, hconnection, hs.http (he.known o ho)]

/-- What the thread of `o` has told its client, and what it is about to tell it. -/
structure Kept (s : Conversation) (o : OperationId) : Prop where
  exact : s.share o ++ s.coming o = s.owed o
  query : (s.server.operations o).isSubscription = false →
    Progress (s.server.operations o) (s.documents o)
  subscription : (s.server.operations o).isSubscription = true →
    (s.server.operations o).completeSent = false

/-- While a document is resolved, or is all that was replied, `complete` is not sent. -/
theorem Kept.unsent {o : OperationId} (h : s.Kept o)
    (hw : (∃ b, (s.server.operations o).worker = .resolving b) ∨
      ∃ b, (s.server.operations o).worker = .completing b) :
    (s.server.operations o).completeSent = false := by
  by_cases kind : (s.server.operations o).isSubscription = true
  · exact h.subscription kind
  · have hprogress := h.query (by simpa using kind)
    unfold Progress at hprogress
    cases hworker : (s.server.operations o).worker <;> simp_all

/-- The documents of an operation grow by the one that its thread comes to. -/
theorem documents_after (hstep : GraphQLServer.step env s.server l = some s'.server)
    (hafter : s' = s.after l s'.server) {o : OperationId} (ho : o < s.server.operationBound) :
    s'.documents o =
      documentsAfter (s.server.operations o) (s'.server.operations o) (s.documents o) := by
  rw [hafter, after_documents, ← hafter]
  unfold documentsAfter
  have hs := step_cases hstep
  obtain ⟨-, hstep⟩ := Option.ite_none_left_eq_some.mp hstep
  have hkept : (s'.server.operations o).worker.document? =
      (s.server.operations o).worker.document? → s.documents o =
      s.documents o ++ if (s.server.operations o).worker.document? = none then
        (s'.server.operations o).worker.document?.toList else [] := by
    intro hsame
    rw [hsame]
    split <;> simp [*]
  cases l with
  | resolved o' response =>
      by_cases heq : o' = o
      · subst heq
        simp [Worker.document?_resolving (resolved_before hstep)]
      · simp only [heq, if_false]
        exact hkept (hs.keepsDocument ho nofun fun _ h => heq (by cases h; rfl)).1
  | worker o' =>
      by_cases heq : o' = o
      · subst heq
        rcases hs.worker_document with hnone | hsame
        · simp [hnone]
        · exact hkept (by rw [hsame])
      · exact hkept (hs.keepsDocument ho (fun h => heq (by cases h; rfl)) nofun).1
  | _ => exact hkept (hs.keepsDocument ho nofun nofun).1

/-- The share of an operation is up to its thread. -/
theorem share_other (hafter : s' = s.after l s'.server) {o : OperationId}
    (hl : l ≠ .worker o) : s'.share o = s.share o := by
  have hshare := share_after s l s'.server o
  have hnone : l.worker? ≠ some o := fun h => hl (Label.mem_worker?.mp h)
  rwa [← hafter, if_neg hnone, List.append_nil] at hshare

/-- The thread of an operation hands over the reply that it has come to. -/
theorem share_worker {o : OperationId}
    (hstep : GraphQLServer.step env s.server (.worker o) = some s'.server)
    (hafter : s' = s.after (.worker o) s'.server) :
    s'.server = s.server.abort ∧ s'.share o = s.share o ∨
      s'.server ≠ s.server.abort ∧ s'.share o = s.share o ++ s.server.nextReply o := by
  obtain ⟨-, hstep⟩ := Option.ite_none_left_eq_some.mp hstep
  have hshare := share_after s (.worker o) s'.server o
  rw [← hafter, if_pos (show (Label.worker o).worker? = some o from rfl)] at hshare
  rw [hshare]
  by_cases habort : s'.server = s.server.abort
  · exact .inl ⟨habort, by simp [habort]⟩
  · right
    rw [(worker_posts hstep).resolve_left habort, List.drop_left, List.filter_append,
      List.filter_eq_self.mpr fun t ht => State.nextReply_isReply ht,
      List.filter_eq_nil_iff.mpr fun t ht => by simp [State.nextNotice_isReply ht],
      List.append_nil]
    exact ⟨habort, rfl⟩

/-- What is next handed over, by where the thread is. -/
theorem nextReply_eq (s : Conversation) (o : OperationId) :
    s.server.nextReply o = s.coming o ++
      match (s.server.operations o).worker with
      | .completing _ => s.reply o GQL_COMPLETE .null
      | _ => [] := by
  unfold State.nextReply coming reply
  cases hw : (s.server.operations o).worker <;> simp [hw, Worker.document?]

/-- The thread of an operation posts what it owes. -/
theorem Kept.step_worker {o : OperationId} (h : s.Kept o)
    (hstep : GraphQLServer.step env s.server (.worker o) = some s'.server)
    (hafter : s' = s.after (.worker o) s'.server) (he : Entries s.server)
    (ho : o < s.server.operationBound) : s'.share o ++ s'.coming o = s'.owed o := by
  have hs := step_cases hstep
  have hreply := reply_after hs he ho
  have hdocuments : s'.documents o = s.documents o := by rw [hafter, after_documents]
  rcases share_worker hstep hafter with ⟨habort, hshare⟩ | ⟨hgoes, hshare⟩
  · have hcoming : s'.coming o = s.coming o := by
      unfold coming
      rw [hreply, habort, State.abort_operations]
    have howed : s'.owed o = s.owed o := by
      unfold owed
      rw [hreply, hdocuments, habort, State.abort_operations]
    rw [hshare, hcoming, howed, h.exact]
  · have hworker := hs.worker_replies hgoes
    have hcoming : s'.coming o = [] := by
      unfold coming
      rw [hworker.1]
      rfl
    have howed : s'.owed o = s.owed o ++
        match (s.server.operations o).worker with
        | .completing _ => s.reply o GQL_COMPLETE .null
        | _ => [] := by
      unfold owed
      rw [hreply, hdocuments, hworker.2]
      split
      · rename_i b hw
        simp [h.unsent (.inr ⟨b, hw⟩)]
      · simp
    rw [hshare, hcoming, howed, nextReply_eq, List.append_nil, ← List.append_assoc, h.exact]

/-- Elsewhere the documents that come are about to be told. -/
theorem Kept.step_other {o : OperationId} (h : s.Kept o)
    (hstep : GraphQLServer.step env s.server l = some s'.server)
    (hafter : s' = s.after l s'.server) (he : Entries s.server) (hl : l ≠ .worker o)
    (ho : o < s.server.operationBound) : s'.share o ++ s'.coming o = s'.owed o := by
  have hs := step_cases hstep
  have hreply := reply_after hs he ho
  have hdocuments := documents_after hstep hafter ho
  have hexact := h.exact
  rw [share_other hafter hl]
  unfold coming owed documentsAfter at *
  by_cases hresolved : ∃ response, l = .resolved o response
  · obtain ⟨response, rfl⟩ := hresolved
    obtain ⟨-, hstep⟩ := Option.ite_none_left_eq_some.mp hstep
    have hresolving := resolved_before hstep
    have hbefore := Worker.document?_resolving hresolving
    have hunsent : (s.server.operations o).completeSent = false := by
      rcases hresolving with hw | ⟨b, document, hw⟩
      · exact h.unsent (.inl hw)
      · by_cases kind : (s.server.operations o).isSubscription = true
        · exact h.subscription kind
        · have hprogress := h.query (by simpa using kind)
          simp [Progress, hw] at hprogress
    rw [hbefore] at hexact hdocuments
    rw [hreply, hdocuments, hs.resolved_sends]
    rw [hunsent] at hexact ⊢
    simp only [if_true, Option.toList_none, List.flatMap_nil, List.append_nil,
      Bool.false_eq_true, if_false, List.flatMap_append] at hexact ⊢
    rw [hexact]
  · obtain ⟨hsame, hsent⟩ := hs.keepsDocument ho hl fun response heq => hresolved ⟨response, heq⟩
    have hnothing : s'.documents o = s.documents o := by
      rw [hdocuments, hsame]
      split <;> simp [*]
    rw [hreply, hnothing, hsent, hsame, hexact]

/-- Every step keeps what is posted and what is still to come equal to what is owed. -/
theorem Kept.step {o : OperationId} (h : s.Kept o)
    (hstep : GraphQLServer.step env s.server l = some s'.server)
    (hafter : s' = s.after l s'.server) (hw : Wired s.server) (he : Entries s.server)
    (ho : o < s.server.operationBound) : s'.Kept o := by
  have hs := step_cases hstep
  have hkind := (hs.fixed ho).2.2
  refine ⟨?_, fun kind => ?_, fun kind => ?_⟩
  · by_cases hl : l = .worker o
    · subst hl
      exact h.step_worker hstep hafter he ho
    · exact h.step_other hstep hafter he hl ho
  · rw [hkind] at kind
    rw [documents_after hstep hafter ho]
    have hprogress := h.query kind
    rcases hs.operation o with heq | hchange | ⟨rfl, -⟩
    · rw [heq]
      unfold documentsAfter
      split <;> simp [*]
    · exact hprogress.step hchange kind (hw.called o)
    · exact absurd ho (lt_irrefl _)
  · rw [hkind] at kind
    rcases hs.operation o with heq | hchange | ⟨rfl, -⟩
    · rw [heq]
      exact h.subscription kind
    · exact hchange.incomplete (hw.valid o) kind (h.subscription kind)
    · exact absurd ho (lt_irrefl _)

/-- A new operation has told nothing. -/
theorem Kept.new {o : OperationId} (hcreates : Creates env s.server s'.server o)
    (hshare : s'.share o = []) (hdocuments : s'.documents o = []) : s'.Kept o := by
  obtain ⟨-, -, id, c, permissions, sub, key, heq, -⟩ := hcreates
  refine ⟨?_, fun kind => ?_, fun _ => ?_⟩
  · simp [coming, owed, hshare, hdocuments, heq, newOperation, Worker.document?]
  · rw [heq] at kind ⊢
    have hsub : sub = false := kind
    subst hsub
    simp [Progress, newOperation, hdocuments]
  · rw [heq]
    rfl

/-- The operations that were created have told what they have, the others nothing. -/
structure Told (s : Conversation) : Prop where
  unknown : ∀ o, s.server.operationBound ≤ o → s.share o = [] ∧ s.documents o = []
  known : ∀ o, o < s.server.operationBound → s.Kept o

/-- What does not exist does not speak. -/
theorem unspoken (hstep : GraphQLServer.step env s.server l = some s'.server)
    (hafter : s' = s.after l s'.server) (hh : Handled s.server) {o : OperationId}
    (ho : s.server.operationBound ≤ o) :
    s'.share o = s.share o ∧ s'.documents o = s.documents o := by
  obtain ⟨-, hstep⟩ := Option.ite_none_left_eq_some.mp hstep
  have hidle := (hh.unknown o ho).2
  constructor
  · refine share_other hafter ?_
    rintro rfl
    simp [worker, hidle] at hstep
  · rw [hafter, after_documents]
    split
    · split
      · rename_i response heq
        subst heq
        simp [resolved, hidle] at hstep
      · rfl
    · rfl

/-- Every step keeps the history and the server in agreement. -/
theorem Told.step (h : s.Told) (hstep : GraphQLServer.step env s.server l = some s'.server)
    (hafter : s' = s.after l s'.server) (hw : Wired s.server) (he : Entries s.server)
    (hh : Handled s.server) : s'.Told where
  unknown o ho := by
    have hold := (step_cases hstep).bounds.1.trans ho
    obtain ⟨hshare, hdocuments⟩ := unspoken hstep hafter hh hold
    rw [hshare, hdocuments]
    exact h.unknown o hold
  known o ho := by
    rcases (step_cases hstep).created ho with hold | hnew
    · exact (h.known o hold).step hstep hafter hw he hold
    · have hold : s.server.operationBound ≤ o := hnew.1.ge
      obtain ⟨hshare, hdocuments⟩ := unspoken hstep hafter hh hold
      rw [(h.unknown o hold).1] at hshare
      rw [(h.unknown o hold).2] at hdocuments
      exact .new hnew hshare hdocuments

/-- They agree in every run. -/
theorem Reach.told (h : Runs.Reach (step env) ok start s) : s.Told := by
  apply h.along (I := Told)
  · exact ⟨fun _ _ => ⟨rfl, rfl⟩, nofun⟩
  · intro s l s' hreach hs _ hstep
    have hserver := Reach.server hreach
    obtain ⟨hstep, hafter⟩ := step_after hstep
    exact hs.step hstep hafter (Reach.wired hserver) (Reach.entries hserver)
      (Reach.handled hserver)

/-- **Told in order.**  What was posted has been run or is queued, in the order in which it
was posted; and what the thread of an operation has posted for its client, and is about to
post, are its documents in their order, each once, and then `complete` where it was sent. -/
theorem replies_exact (h : Runs.Reach (step env) ok start s) :
    s.done ++ s.server.queue = s.posted.map Posting.task ∧
      ∀ o, o < s.server.operationBound → s.share o ++ s.coming o = s.owed o :=
  ⟨Reach.inOrder h, fun o ho => ((Reach.told h).known o ho).exact⟩

/-- The document of a query. -/
def document : Value :=
  .map [(GQL_DATA, .map [])]

/-- A client connects, authorizes itself and sends a query, which is replied. -/
def connectQuery : List Label :=
  [.onWebSocketOpen, .onWebSocketMessage 0 (some initMessage) 0,
    .onWebSocketMessage 0 (some (startMessage "1" "query")) 7, .take 0, .resolved 0 document,
    .worker 0, .main, .worker 0]

set_option maxRecDepth 4000 in
/-- A query has its `data` and its `complete`, in this order. -/
theorem replies_exact_connectQuery :
    ∃ s, Runs.run (step vehicle) start connectQuery = some s ∧
      s.done = [.sendWebSocket 0 (createResponse GQL_CONNECTION_ACK "" .null)] ∧
      s.share 0 = [.sendWebSocket 0 (createResponse GQL_DATA "1" document),
        .sendWebSocket 0 (createResponse GQL_COMPLETE "1" .null)] ∧
      s.done ++ s.server.queue = s.posted.map Posting.task ∧
      ∀ o, o < s.server.operationBound → s.share o ++ s.coming o = s.owed o := by
  have hrun : Runs.run (step vehicle) start connectQuery = some _ := rfl
  have hreach := Runs.reach_of_run hrun Runs.runMeets_always
  exact ⟨_, hrun, rfl, rfl, replies_exact hreach⟩

/-- **A query is told all or nothing.**  When the server has settled, everything that was
posted has been run; a query or mutation was stopped before it had its document and told
nothing, or told the document that it was answered with, and then `complete`. -/
theorem query_told (h : Runs.Reach (step env) ok start s) (hsettled : Settled s.server)
    {o : OperationId} (ho : o < s.server.operationBound)
    (hquery : (s.server.operations o).isSubscription = false) :
    s.done = s.posted.map Posting.task ∧
      (s.documents o = [] ∧ s.share o = [] ∧ (s.server.operations o).stopped = true ∨
        ∃ response, s.documents o = [response] ∧
          s.share o = s.reply o GQL_DATA response ++ s.reply o GQL_COMPLETE .null) := by
  have hkept := (Reach.told h).known o ho
  have hdone := Reach.inOrder h
  rw [hsettled.queue, List.append_nil] at hdone
  refine ⟨hdone, ?_⟩
  have hexact := hkept.exact
  have hprogress := hkept.query hquery
  unfold Progress at hprogress
  unfold coming owed at hexact
  rw [hsettled.worker o] at hprogress hexact
  simp only [Worker.document?, Option.toList_none, List.flatMap_nil, List.append_nil] at hexact
  rcases hprogress with ⟨hnone, hunsent, htasks⟩ | ⟨hone, hsent, -⟩
  · refine .inl ⟨hnone, by simpa [hnone, hunsent] using hexact, ?_⟩
    rcases htasks with htasks | ⟨-, hstopped⟩
    · rw [hsettled.tasks o] at htasks
      cases htasks
    · exact hstopped
  · obtain ⟨response, hresponse⟩ := List.length_eq_one_iff.mp hone
    refine .inr ⟨response, hresponse, ?_⟩
    simpa [hresponse, hsent] using hexact

set_option maxRecDepth 4000 in
/-- After both have been sent the query is told. -/
theorem query_told_connectQuery :
    ∃ s, Runs.run (step vehicle) start (connectQuery ++ [.main, .worker 0, .main]) = some s ∧
      s.documents 0 = [document] ∧ s.done = s.posted.map Posting.task ∧
      (s.documents 0 = [] ∧ s.share 0 = [] ∧ (s.server.operations 0).stopped = true ∨
        ∃ response, s.documents 0 = [response] ∧
          s.share 0 = s.reply 0 GQL_DATA response ++ s.reply 0 GQL_COMPLETE .null) := by
  have hrun : Runs.run (step vehicle) start (connectQuery ++ [.main, .worker 0, .main]) =
    some _ := rfl
  have hreach := Runs.reach_of_run hrun Runs.runMeets_always
  refine ⟨_, hrun, rfl, query_told hreach ?_ (by decide) rfl⟩
  refine Reach.settled (Reach.server hreach) ⟨rfl, rfl, rfl, rfl, rfl⟩ fun o ho => ?_
  obtain rfl : o = 0 := Nat.lt_one_iff.mp ho
  exact ⟨rfl, rfl, nofun⟩

/-- What no thread of an operation has posted is direct, for the connection whose request or
message was handled. -/
theorem Reach.direct (h : Runs.Reach (step env) ok start s) :
    ∀ p ∈ s.posted, p.thread = none → p.task.isReply = true →
      ∃ c, p.connection = some c ∧ c < s.server.connectionBound ∧
        Direct (s.server.connections c).http c p.task := by
  apply h.invariant (I := fun s => ∀ p ∈ s.posted, p.thread = none → p.task.isReply = true →
    ∃ c, p.connection = some c ∧ c < s.server.connectionBound ∧
      Direct (s.server.connections c).http c p.task)
  · exact nofun
  · intro s l s' hs _ hstep p hp hthread hreply
    obtain ⟨hstep, hafter⟩ := step_after hstep
    rw [hafter, after_posted] at hp
    rcases List.mem_append.mp hp with hold | hnew
    · obtain ⟨c, hconnection, hc, hdirect⟩ := hs p hold hthread hreply
      have hserver := step_cases hstep
      exact ⟨c, hconnection, hc.trans_le hserver.bounds.2, by rwa [hserver.http hc]⟩
    · obtain ⟨t, ht, rfl⟩ := List.mem_map.mp hnew
      exact step_posts hstep hthread ht hreply

/-- What the thread of an operation has posted for its client is a document of its own, or its
`complete`. -/
theorem Reach.spoken (h : Runs.Reach (step env) ok start s) {p : Posting} (hp : p ∈ s.posted)
    (hreply : p.task.isReply = true) {o : OperationId} (hthread : p.thread = some o) :
    o < s.server.operationBound ∧
      ((∃ response ∈ s.documents o, p.task ∈ s.reply o GQL_DATA response) ∨
        p.task ∈ s.reply o GQL_COMPLETE .null) := by
  have htold := Reach.told h
  have hshare : p.task ∈ s.share o :=
    List.mem_map_of_mem (List.mem_filter.mpr ⟨hp, by simp [hthread, hreply]⟩)
  have ho : o < s.server.operationBound := by
    by_contra hbound
    rw [(htold.unknown o (not_lt.mp hbound)).1] at hshare
    cases hshare
  have howed : p.task ∈ s.owed o :=
    (htold.known o ho).exact ▸ List.mem_append_left _ hshare
  refine ⟨ho, ?_⟩
  rcases List.mem_append.mp howed with hdata | hcomplete
  · exact .inl (List.mem_flatMap.mp hdata)
  · split at hcomplete
    · exact .inr hcomplete
    · cases hcomplete

/-- **No crosstalk.**  Whatever is sent to a client acknowledges or rejects the request or
message of its own connection that was being handled, or is a reply of an operation of that
connection: a document that this operation was answered with, or its `complete`. -/
theorem replies_own (h : Runs.Reach (step env) ok start s) {p : Posting} (hp : p ∈ s.posted)
    (hreply : p.task.isReply = true) :
    (∃ c, c < s.server.connectionBound ∧ p.thread = none ∧ p.connection = some c ∧
        Direct (s.server.connections c).http c p.task) ∨
      ∃ o, o < s.server.operationBound ∧ p.thread = some o ∧
        ((∃ response ∈ s.documents o, p.task ∈ s.reply o GQL_DATA response) ∨
          p.task ∈ s.reply o GQL_COMPLETE .null) := by
  cases hthread : p.thread with
  | none =>
      obtain ⟨c, hconnection, hc, hdirect⟩ := Reach.direct h p hp hthread hreply
      exact .inl ⟨c, hc, rfl, hconnection, hdirect⟩
  | some o =>
      obtain ⟨ho, hspoken⟩ := Reach.spoken h hp hreply hthread
      exact .inr ⟨o, ho, rfl, hspoken⟩

set_option maxRecDepth 4000 in
/-- The acknowledgement is a reply to the connection whose message asked for it. -/
theorem replies_own_connectQuery :
    ∃ s, Runs.run (step vehicle) start connectQuery = some s ∧
      ((∃ c, c < s.server.connectionBound ∧ (none : Option OperationId) = none ∧
          some 0 = some c ∧ Direct (s.server.connections c).http c
            (.sendWebSocket 0 (createResponse GQL_CONNECTION_ACK "" .null))) ∨
        ∃ o, o < s.server.operationBound ∧ none = some o ∧
          ((∃ response ∈ s.documents o,
              .sendWebSocket 0 (createResponse GQL_CONNECTION_ACK "" .null) ∈
                s.reply o GQL_DATA response) ∨
            .sendWebSocket 0 (createResponse GQL_CONNECTION_ACK "" .null) ∈
              s.reply o GQL_COMPLETE .null)) := by
  have hrun : Runs.run (step vehicle) start connectQuery = some _ := rfl
  have hreach := Runs.reach_of_run hrun Runs.runMeets_always
  exact ⟨_, hrun, replies_own hreach (.head _) rfl⟩

/-- The side condition: the schema answers with objects. -/
def AnswersObjects (_ : Conversation) (l : Label) : Prop :=
  ∀ response ∈ l.response?, response.isMap = true

instance (s : Conversation) (l : Label) : Decidable (AnswersObjects s l) :=
  inferInstanceAs (Decidable (∀ response ∈ l.response?, _))

/-- Then the documents are objects, and those that a thread has. -/
structure Objects (s : Conversation) : Prop where
  documents : ∀ o, ∀ response ∈ s.documents o, response.isMap = true
  held : ∀ o, o < s.server.operationBound → ∀ response ∈ (s.server.operations o).worker.held?,
    response.isMap = true

/-- As long as the schema answers with objects, every response is one. -/
theorem Objects.step (h : s.Objects) (hok : AnswersObjects s l)
    (hstep : GraphQLServer.step env s.server l = some s'.server)
    (hafter : s' = s.after l s'.server) (hh : Handled s.server) : s'.Objects := by
  have hheld : ∀ o, o < s'.server.operationBound →
      ∀ response ∈ (s'.server.operations o).worker.held?, response.isMap = true := by
    intro o ho response hresponse
    rcases (step_cases hstep).created ho with hold | ⟨-, -, _, _, _, _, _, heq, -⟩
    · rcases step_held hstep hold hresponse with hbefore | hl | hfailed
      · exact h.held o hold response hbefore
      · exact hok response hl
      · exact hfailed
    · rw [heq] at hresponse
      cases hresponse
  refine ⟨fun o response hmem => ?_, hheld⟩
  by_cases ho : o < s.server.operationBound
  · rw [documents_after hstep hafter ho] at hmem
    rcases List.mem_append.mp hmem with hold | hnew
    · exact h.documents o response hold
    · split at hnew
      · have hbound := ho.trans_le (step_cases hstep).bounds.1
        exact hheld o hbound response (Worker.held_document (Option.mem_toList.mp hnew))
      · cases hnew
  · rw [(unspoken hstep hafter hh (not_lt.mp ho)).2] at hmem
    exact h.documents o response hmem

/-- Every response of such a run is an object. -/
theorem Reach.objects (h : Runs.Reach (step env) AnswersObjects start s) : s.Objects := by
  apply h.along (I := Objects)
  · exact ⟨fun _ => nofun, nofun⟩
  · intro s l s' hreach hs hok hstep
    obtain ⟨hstep, hafter⟩ := step_after hstep
    exact hs.step hok hstep hafter (Reach.handled (Reach.server hreach))

/-- **The status of a response.**  As long as the schema answers with objects, every HTTP
response is a document that an operation of its connection was answered with, and its status
is 200 if and only if this has data and 400 otherwise; or it is an error, with the status
code that is in it. -/
theorem http_status (h : Runs.Reach (step env) AnswersObjects start s) {c : ConnectionId}
    {code : Int} {body : Value} (hsent : .sendHttp c code body ∈ s.done ++ s.server.queue) :
    (∃ o, o < s.server.operationBound ∧ (s.server.operations o).connection = c ∧
        body ∈ s.documents o ∧ code = if (body.find GQL_DATA).isSome then 200 else 400) ∨
      ∃ message, body = errorPayload message ∧ code = errorStatusCode message := by
  rw [Reach.inOrder h] at hsent
  obtain ⟨p, hp, htask⟩ := List.mem_map.mp hsent
  have hisReply : p.task.isReply = true := by rw [htask]; rfl
  cases hthread : p.thread with
  | none =>
      obtain ⟨c', -, -, hdirect⟩ := Reach.direct h p hp hthread hisReply
      rw [htask] at hdirect
      exact .inr hdirect.response
  | some o =>
      left
      obtain ⟨ho, hspoken⟩ := Reach.spoken h hp hisReply hthread
      rw [htask] at hspoken
      rcases hspoken with ⟨response, hresponse, hmem⟩ | hmem
      · obtain ⟨-, howner, -, hbody, hcode⟩ := mem_replyTasks_http hmem
        have hobject := (Reach.objects h).documents o response hresponse
        rw [objectOf, if_pos hobject] at hbody
        subst hbody
        exact ⟨o, ho, howner, hresponse, by simpa [httpStatusCode, hobject] using hcode⟩
      · exact absurd rfl (mem_replyTasks_http hmem).2.2.1

/-- A query is sent over HTTP and answered. -/
def httpDocument : List Label :=
  [.onHttp "token" (some (queryPayload "query")) 0, .take 0, .resolved 0 document, .worker 0]

set_option maxRecDepth 4000 in
/-- A document with data is sent with the code 200. -/
theorem http_status_httpDocument :
    ∃ s, Runs.run (step vehicle) start httpDocument = some s ∧
      ((∃ o, o < s.server.operationBound ∧ (s.server.operations o).connection = 0 ∧
          document ∈ s.documents o ∧
            (200 : Int) = if (document.find GQL_DATA).isSome then 200 else 400) ∨
        ∃ message, document = errorPayload message ∧ 200 = errorStatusCode message) := by
  have hrun : Runs.run (step vehicle) start httpDocument = some _ := rfl
  have hreach := Runs.reach_of_run hrun (by decide : Runs.RunMeets _ AnswersObjects _ _)
  exact ⟨_, hrun, http_status hreach (.head _)⟩

end Conversation

end GraphQLServer
