import Mathlib.Data.Finset.Lattice.Lemmas
import VssServer.Batches
import VssServer.Server

/-!
# Which keys a delivery announces

Signals announce themselves as `GraphQLNotifyTriggers`, objects that are handed
around by pointer: the first one posted under a name becomes the entry of
`m_pendingNotifyTriggers`, later ones are merged into it, and the entries of one
delivery are what `currentNotificationTriggers` points to.  `Notifier` is this part
of the server with its objects; anybody may post any keys under any name, at any
time.

`deliverNotifications_exact` follows from two facts: an object is written only
while it is merged, and the objects of the queue, of the pending entries and of
the delivery are different ones.

* `Sound`: the objects of the queue, of the pending entries and of the delivery are different
  ones.
* `Sound.step`: every step keeps them so.
* `deliverNotifications_exact`: which names a delivery calls, and with which keys.
-/

namespace GraphQLServer

open Batches (Event Trace Round Exact Complete)

/-- `GraphQLNotifyTriggers`. -/
structure GraphQLNotifyTriggers where
  subscriptionName : SubscriptionName
  subscriptionKeys : Finset SubscriptionKey
  deriving DecidableEq

/-- The address of a `GraphQLNotifyTriggers`. -/
abbrev TriggersId := Nat

/-- `std::set::merge`: the keys that `x` lacks move to it, the others stay. -/
def GraphQLNotifyTriggers.merge (x other : GraphQLNotifyTriggers) :
    GraphQLNotifyTriggers × GraphQLNotifyTriggers :=
  ({ x with subscriptionKeys := x.subscriptionKeys ∪ other.subscriptionKeys },
    { other with subscriptionKeys := other.subscriptionKeys ∩ x.subscriptionKeys })

def GraphQLNotifyTriggers.hasSubscriptionKey (x : GraphQLNotifyTriggers)
    (key : SubscriptionKey) : Bool :=
  key ∈ x.subscriptionKeys

/-- The tasks that notifications post to the main thread.  `name` and `keys` are
ghosts: what `notify` was called with. -/
inductive NotifierTask
  | notifyInMainThread (triggers : TriggersId) (name : SubscriptionName)
      (keys : Finset SubscriptionKey)
  | deliverNotifications

/-- Where the main thread is in `deliverNotifications`, with the names that its loop
has still to deliver. -/
inductive Delivering
  | idle
  | names (triggers : AList fun _ : SubscriptionName => TriggersId)
  /-- In `m_executableSchema.deliver`. -/
  | deliver (name : SubscriptionName) (triggers : AList fun _ : SubscriptionName => TriggersId)

/-- The notifications of a server.  `log` is a ghost: what was notified and delivered. -/
structure Notifier where
  objects : TriggersId → GraphQLNotifyTriggers
  bound : TriggersId
  notifyTimer : Timer
  pendingNotifyTriggers : AList fun _ : SubscriptionName => TriggersId
  currentNotificationTrigger : Option TriggersId
  queue : List NotifierTask
  delivering : Delivering
  log : List (Event SubscriptionName SubscriptionKey)

inductive NotifierLabel
  | notify (name : SubscriptionName) (keys : Finset SubscriptionKey)
  | expireNotify
  | main
  | deliverName (name : SubscriptionName)

namespace Notifier

def initial : Notifier where
  objects _ := ⟨"", ∅⟩
  bound := 0
  notifyTimer := .unset
  pendingNotifyTriggers := ∅
  currentNotificationTrigger := none
  queue := []
  delivering := .idle
  log := []

/-- `std::make_shared<GraphQLNotifyTriggers>` and `GraphQLServer::notify`. -/
def notify (n : Notifier) (name : SubscriptionName) (keys : Finset SubscriptionKey) : Notifier :=
  { n with
    objects := Function.update n.objects n.bound ⟨name, keys⟩
    bound := n.bound + 1
    queue := n.queue ++ [.notifyInMainThread n.bound name keys] }

/-- `existing->merge(*other)`. -/
def merge (n : Notifier) (existing other : TriggersId) : Notifier :=
  let merged := (n.objects existing).merge (n.objects other)
  { n with
    objects := Function.update (Function.update n.objects existing merged.1) other merged.2 }

/-- `notifyInMainThread`. -/
def notifyInMainThread (n : Notifier) (otherTriggers : TriggersId) : Notifier :=
  let name := (n.objects otherTriggers).subscriptionName
  let n :=
    match n.pendingNotifyTriggers.lookup name with
    | some existingTriggers => n.merge existingTriggers otherTriggers
    | none =>
        { n with pendingNotifyTriggers := n.pendingNotifyTriggers.insert name otherTriggers }
  if n.notifyTimer = .unset then { n with notifyTimer := .armed } else n

/-- `deliverNotifications`, up to its loop. -/
def deliverNotifications (n : Notifier) : Notifier :=
  { n with
    notifyTimer := .unset
    pendingNotifyTriggers := ∅
    delivering := .names n.pendingNotifyTriggers }

/-- `currentNotificationTriggers`, which throws a `logic_error`. -/
def currentNotificationTriggers (n : Notifier) : Except String GraphQLNotifyTriggers :=
  match n.currentNotificationTrigger with
  | none => .error "calling currentNotificationTriggers from outside a notification!"
  | some triggers => .ok (n.objects triggers)

/-- `shouldDispatchCurrentDelivery` of an operation with this key. -/
def shouldDispatchCurrentDelivery (n : Notifier) (key : SubscriptionKey) : Except String Bool :=
  n.currentNotificationTriggers.map fun triggers => triggers.hasSubscriptionKey key

/-- The main thread takes its next task, or goes on with its delivery. -/
def main (n : Notifier) : Option Notifier :=
  match n.delivering with
  | .idle =>
      match n.queue with
      | [] => none
      | .notifyInMainThread triggers name keys :: queue =>
          some { { n with queue := queue }.notifyInMainThread triggers with
            log := n.log ++ [.add name keys] }
      | .deliverNotifications :: queue =>
          some { { n with queue := queue }.deliverNotifications with log := n.log ++ [.take] }
  | .names triggers =>
      if triggers = ∅ then
        some { n with currentNotificationTrigger := none, delivering := .idle }
      else none
  -- `deliver` returns
  | .deliver _ triggers => some { n with delivering := .names triggers }

/-- The loop of `deliverNotifications` calls `deliver`. -/
def deliverName (n : Notifier) (name : SubscriptionName) : Option Notifier :=
  match n.delivering with
  | .names triggers =>
      match triggers.lookup name with
      | some t =>
          some { n with
            currentNotificationTrigger := some t
            delivering := .deliver name (triggers.erase name)
            log := n.log ++ [.hand name (n.objects t).subscriptionKeys] }
      | none => none
  | _ => none

/-- One step of the notifications. -/
def step (n : Notifier) : NotifierLabel → Option Notifier
  | .notify name keys => some (n.notify name keys)
  | .expireNotify =>
      if n.notifyTimer = .armed then
        some { n with notifyTimer := .expired, queue := n.queue ++ [.deliverNotifications] }
      else none
  | .main => n.main
  | .deliverName name => n.deliverName name

end Notifier

/-- The object that a task carries. -/
def NotifierTask.triggers : NotifierTask → Option TriggersId
  | .notifyInMainThread triggers _ _ => some triggers
  | .deliverNotifications => none

/-- The names that are still to be delivered. -/
def Delivering.remaining : Delivering → AList fun _ : SubscriptionName => TriggersId
  | .idle => ∅
  | .names triggers | .deliver _ triggers => triggers

namespace Notifier

variable {n n' : Notifier} {l : NotifierLabel} {t : TriggersId} {name : SubscriptionName}
  {keys : Finset SubscriptionKey}

def keysOf (n : Notifier) (t : TriggersId) : Finset SubscriptionKey :=
  (n.objects t).subscriptionKeys

/-- What is collected and what is being delivered, without the objects. -/
def tables (n : Notifier) : Batches.Tables SubscriptionName SubscriptionKey where
  pending name := (n.pendingNotifyTriggers.lookup name).map n.keysOf
  batch name := (n.delivering.remaining.lookup name).map n.keysOf

/-- During a call of `deliver`, the current triggers are what the log says. -/
def Announces (n : Notifier) : Prop :=
  ∀ name triggers, n.delivering = .deliver name triggers →
    ∃ before during keys t, n.log = before ++ .take :: (during ++ [.hand name keys]) ∧
      .take ∉ during ∧ n.currentNotificationTrigger = some t ∧ t < n.bound ∧
        n.objects t = ⟨name, keys⟩

/-- Posted objects are as they were built, and nobody else has them; the entries of
both maps are filed under their own names. -/
structure Sound (n : Notifier) : Prop where
  queued : ∀ t name keys, .notifyInMainThread t name keys ∈ n.queue →
    t < n.bound ∧ n.objects t = ⟨name, keys⟩
  distinct : (n.queue.filterMap NotifierTask.triggers).Nodup
  pending : ∀ name t, n.pendingNotifyTriggers.lookup name = some t →
    t < n.bound ∧ (n.objects t).subscriptionName = name ∧
      t ∉ n.queue.filterMap NotifierTask.triggers
  remaining : ∀ name t, n.delivering.remaining.lookup name = some t →
    t < n.bound ∧ (n.objects t).subscriptionName = name
  announces : n.Announces
  timer : n.notifyTimer = .unset ↔ n.pendingNotifyTriggers = ∅
  trace : Trace n.log n.tables

/-- The tables depend only on the objects that the entries point to. -/
theorem tables_congr (hpending : n'.pendingNotifyTriggers = n.pendingNotifyTriggers)
    (hremaining : n'.delivering.remaining = n.delivering.remaining)
    (hobjects : ∀ name t, n.pendingNotifyTriggers.lookup name = some t ∨
      n.delivering.remaining.lookup name = some t → n'.objects t = n.objects t) :
    n'.tables = n.tables := by
  have hkeys : ∀ name t, n.pendingNotifyTriggers.lookup name = some t ∨
      n.delivering.remaining.lookup name = some t → n'.keysOf t = n.keysOf t := by
    intro name t ht
    rw [keysOf, keysOf, hobjects name t ht]
  unfold tables
  rw [hpending, hremaining]
  congr 1 <;> funext name
  · exact Option.map_congr fun t ht => hkeys name t (.inl ht)
  · exact Option.map_congr fun t ht => hkeys name t (.inr ht)

/-- A posted object is a new one. -/
theorem notify_old {t : TriggersId} (ht : t < n.bound) :
    (n.notify name keys).objects t = n.objects t :=
  Function.update_of_ne ht.ne _ _

/-- A new notification changes no table. -/
theorem Sound.notify_tables (h : n.Sound) : (n.notify name keys).tables = n.tables := by
  refine tables_congr rfl rfl ?_
  rintro name' t (ht | ht)
  · exact notify_old (h.pending name' t ht).1
  · exact notify_old (h.remaining name' t ht).1

/-- A notification is posted. -/
theorem Sound.notify (h : n.Sound) : (n.notify name keys).Sound := by
  have hnew : n.bound ∉ n.queue.filterMap NotifierTask.triggers := by
    intro hmem
    obtain ⟨task, htask, htriggers⟩ := List.mem_filterMap.mp hmem
    cases task with
    | notifyInMainThread t name keys =>
        obtain rfl := Option.some.inj htriggers
        exact lt_irrefl _ (h.queued _ _ _ htask).1
    | deliverNotifications => cases htriggers
  have hqueue : (n.notify name keys).queue.filterMap NotifierTask.triggers =
      n.queue.filterMap NotifierTask.triggers ++ [n.bound] := List.filterMap_append
  refine ⟨?_, ?_, ?_, ?_, ?_, h.timer, ?_⟩
  · intro t name' keys' hmem
    rcases List.mem_append.mp hmem with hmem | hlast
    · obtain ⟨hbound, hobject⟩ := h.queued t name' keys' hmem
      exact ⟨hbound.trans (Nat.lt_succ_self _), (notify_old hbound).trans hobject⟩
    · cases List.mem_singleton.mp hlast
      exact ⟨Nat.lt_succ_self _, Function.update_self ..⟩
  · rw [hqueue, List.nodup_append']
    refine ⟨h.distinct, List.nodup_singleton _, ?_⟩
    intro t hmem hlast
    exact hnew (List.mem_singleton.mp hlast ▸ hmem)
  · intro name' t hlookup
    obtain ⟨hbound, hname, hmem⟩ := h.pending name' t hlookup
    refine ⟨hbound.trans (Nat.lt_succ_self _), by rwa [notify_old hbound], ?_⟩
    rw [hqueue, List.mem_append, List.mem_singleton]
    rintro (hqueued | rfl)
    · exact hmem hqueued
    · exact lt_irrefl _ hbound
  · intro name' t hlookup
    obtain ⟨hbound, hname⟩ := h.remaining name' t hlookup
    exact ⟨hbound.trans (Nat.lt_succ_self _), by rwa [notify_old hbound]⟩
  · intro name' triggers hdeliver
    obtain ⟨before, during, keys', t, hlog, hnone, hcurrent, hbound, hobject⟩ :=
      h.announces name' triggers hdeliver
    exact ⟨before, during, keys', t, hlog, hnone, hcurrent, hbound.trans (Nat.lt_succ_self _),
      (notify_old hbound).trans hobject⟩
  · exact h.notify_tables.symm ▸ h.trace

/-- What `notifyInMainThread` does with an object that it is the only one to have. -/
structure Merged (n n' : Notifier) (t : TriggersId) (name : SubscriptionName)
    (keys : Finset SubscriptionKey) : Prop where
  entry : ∃ e, n'.pendingNotifyTriggers.lookup name = some e ∧
    (e = t ∨ n.pendingNotifyTriggers.lookup name = some e) ∧
      n'.objects e = ⟨name, ((n.pendingNotifyTriggers.lookup name).map n.keysOf).getD ∅ ∪ keys⟩
  others : ∀ name', name' ≠ name →
    n'.pendingNotifyTriggers.lookup name' = n.pendingNotifyTriggers.lookup name'
  objects : ∀ t', t' ≠ t → n.pendingNotifyTriggers.lookup name ≠ some t' →
    n'.objects t' = n.objects t'
  timer : n'.notifyTimer = if n.notifyTimer = .unset then .armed else n.notifyTimer
  bound : n'.bound = n.bound
  queue : n'.queue = n.queue
  delivering : n'.delivering = n.delivering

/-- A notification is merged with what is pending for its name. -/
theorem notifyInMainThread_merged (hobject : n.objects t = ⟨name, keys⟩)
    (hentry : ∀ e, n.pendingNotifyTriggers.lookup name = some e →
      e ≠ t ∧ (n.objects e).subscriptionName = name) :
    Merged n (n.notifyInMainThread t) t name keys := by
  have harm : ∀ m : Notifier, m.notifyTimer = n.notifyTimer →
      Merged n { m with
        notifyTimer := if n.notifyTimer = .unset then .armed else n.notifyTimer } t name keys →
      Merged n (if m.notifyTimer = .unset then { m with notifyTimer := .armed } else m) t name
        keys := by
    intro m htimer hm
    rw [← htimer] at hm
    by_cases hset : m.notifyTimer = .unset
    · simpa only [if_pos hset] using hm
    · simpa only [if_neg hset] using hm
  unfold notifyInMainThread
  rw [hobject]
  refine harm _ (by dsimp only; split <;> rfl) ?_
  cases hlookup : n.pendingNotifyTriggers.lookup name with
  | none =>
      refine ⟨⟨t, AList.lookup_insert _, .inl rfl, ?_⟩, ?_, ?_, rfl, rfl, rfl, rfl⟩
      · simpa [hlookup] using hobject
      · intro name' hname
        exact AList.lookup_insert_ne hname
      · intros
        rfl
  | some e =>
      obtain ⟨hne, hname⟩ := hentry e hlookup
      refine ⟨⟨e, hlookup, .inr hlookup, ?_⟩, ?_, ?_, rfl, rfl, rfl, rfl⟩
      · simp [merge, GraphQLNotifyTriggers.merge, hne, hlookup, hobject, hname, keysOf]
      · intros
        rfl
      · intro t' ht hother
        have he : t' ≠ e := by
          rintro rfl
          exact hother hlookup
        exact (Function.update_of_ne ht _ _).trans (Function.update_of_ne he _ _)

/-- The object of the next task is nobody else's. -/
theorem Sound.head (h : n.Sound) {queue : List NotifierTask}
    (hqueue : n.queue = .notifyInMainThread t name keys :: queue) :
    t ∉ queue.filterMap NotifierTask.triggers ∧
      ∀ name' e, n.pendingNotifyTriggers.lookup name' = some e →
        e ≠ t ∧ e ∉ queue.filterMap NotifierTask.triggers := by
  have htriggers : n.queue.filterMap NotifierTask.triggers =
      t :: queue.filterMap NotifierTask.triggers := by rw [hqueue]; rfl
  refine ⟨(List.nodup_cons.mp (htriggers ▸ h.distinct)).1, ?_⟩
  intro name' e he
  have hmem := (h.pending name' e he).2.2
  rw [htriggers] at hmem
  exact List.ne_and_not_mem_of_not_mem_cons hmem

/-- The next notification of the queue is merged. -/
theorem Sound.merged (h : n.Sound) {queue : List NotifierTask}
    (hqueue : n.queue = .notifyInMainThread t name keys :: queue) :
    Merged { n with queue := queue } ({ n with queue := queue }.notifyInMainThread t) t name
      keys := by
  refine notifyInMainThread_merged (h.queued t name keys (hqueue ▸ .head _)).2 ?_
  intro e he
  exact ⟨((h.head hqueue).2 name e he).1, (h.pending name e he).2.1⟩

/-- The entries of other names are left alone. -/
theorem Sound.merged_same (h : n.Sound) {queue : List NotifierTask}
    (hqueue : n.queue = .notifyInMainThread t name keys :: queue)
    (hm : Merged { n with queue := queue } n' t name keys) {name' : SubscriptionName}
    {t' : TriggersId} (hname : name' ≠ name)
    (ht' : n.pendingNotifyTriggers.lookup name' = some t') : n'.objects t' = n.objects t' := by
  refine hm.objects t' ((h.head hqueue).2 name' t' ht').1 ?_
  intro hlookup
  exact hname ((h.pending name' t' ht').2.1.symm.trans (h.pending name t' hlookup).2.1)

/-- Merging adds its keys to those of its name. -/
theorem Sound.merged_tables (h : n.Sound) (hidle : n.delivering = .idle)
    {queue : List NotifierTask} (hqueue : n.queue = .notifyInMainThread t name keys :: queue)
    (hm : Merged { n with queue := queue } n' t name keys) :
    n'.tables = { n.tables with
      pending := Function.update n.tables.pending name
        (some ((n.tables.pending name).getD ∅ ∪ keys)) } := by
  obtain ⟨e, he, -, hmerged⟩ := hm.entry
  unfold tables
  rw [hm.delivering, hidle]
  congr 1
  funext name'
  by_cases hname : name' = name
  · subst hname
    rw [Function.update_self, he]
    exact congrArg some (congrArg GraphQLNotifyTriggers.subscriptionKeys hmerged)
  · rw [Function.update_of_ne hname, hm.others name' hname]
    exact Option.map_congr fun t' ht' =>
      congrArg GraphQLNotifyTriggers.subscriptionKeys (h.merged_same hqueue hm hname ht')

/-- A notification is collected under its name. -/
theorem Sound.runNotify (h : n.Sound) (hidle : n.delivering = .idle) {queue : List NotifierTask}
    (hqueue : n.queue = .notifyInMainThread t name keys :: queue) :
    Sound { { n with queue := queue }.notifyInMainThread t with
      log := n.log ++ [.add name keys] } := by
  obtain ⟨hfresh, hentry⟩ := h.head hqueue
  have hm := h.merged hqueue
  have htables := h.merged_tables hidle hqueue hm
  generalize { n with queue := queue }.notifyInMainThread t = n₁ at hm htables ⊢
  obtain ⟨e, he, hwas, hmerged⟩ := hm.entry
  refine ⟨?_, ?_, ?_, ?_, ?_, ?_, ?_⟩
  · intro t' name' keys' hmem
    rw [hm.queue] at hmem
    have hin : t' ∈ queue.filterMap NotifierTask.triggers := List.mem_filterMap.mpr ⟨_, hmem, rfl⟩
    obtain ⟨hbound', hobject'⟩ := h.queued t' name' keys' (hqueue ▸ .tail _ hmem)
    refine ⟨hm.bound.symm ▸ hbound', (hm.objects t' ?_ ?_).trans hobject'⟩
    · rintro rfl
      exact hfresh hin
    · intro hlookup
      exact (hentry name t' hlookup).2 hin
  · change (n₁.queue.filterMap NotifierTask.triggers).Nodup
    rw [hm.queue]
    have hdistinct := h.distinct
    rw [hqueue] at hdistinct
    exact (List.nodup_cons.mp hdistinct).2
  · intro name' t' ht'
    change t' < n₁.bound ∧ (n₁.objects t').subscriptionName = name' ∧
      t' ∉ n₁.queue.filterMap NotifierTask.triggers
    rw [hm.bound, hm.queue]
    by_cases hname : name' = name
    · subst hname
      obtain rfl : t' = e := Option.some.inj (ht'.symm.trans he)
      rcases hwas with rfl | hold
      · exact ⟨(h.queued t' name' keys (hqueue ▸ .head _)).1, by rw [hmerged], hfresh⟩
      · exact ⟨(h.pending _ _ hold).1, by rw [hmerged], (hentry _ _ hold).2⟩
    · have hold : n.pendingNotifyTriggers.lookup name' = some t' :=
        (hm.others name' hname).symm.trans ht'
      obtain ⟨hbound', hname', -⟩ := h.pending name' t' hold
      exact ⟨hbound', by rwa [h.merged_same hqueue hm hname hold], (hentry name' t' hold).2⟩
  · intro name' t' ht'
    rw [hm.delivering, hidle] at ht'
    cases ht'
  · intro name' triggers hdeliver
    rw [hm.delivering, hidle] at hdeliver
    cases hdeliver
  · have hset : n₁.notifyTimer ≠ .unset := by
      rw [hm.timer]
      split <;> simp_all
    refine iff_of_false hset ?_
    intro hnone
    rw [hnone] at he
    cases he
  · exact htables ▸ h.trace.add

/-- The timer posts the delivery. -/
theorem Sound.expireNotify (h : n.Sound) (harmed : n.notifyTimer = .armed) :
    Sound { n with notifyTimer := .expired, queue := n.queue ++ [.deliverNotifications] } := by
  have hqueue : (n.queue ++ [NotifierTask.deliverNotifications]).filterMap
      NotifierTask.triggers = n.queue.filterMap NotifierTask.triggers := by
    rw [List.filterMap_append]
    exact List.append_nil _
  refine ⟨?_, ?_, ?_, h.remaining, h.announces, ?_, h.trace⟩
  · intro t name keys hmem
    exact h.queued t name keys (by simpa using hmem)
  · rw [hqueue]
    exact h.distinct
  · intro name t ht
    obtain ⟨hbound, hname, hmem⟩ := h.pending name t ht
    exact ⟨hbound, hname, hqueue ▸ hmem⟩
  · rw [← h.timer, harmed]
    exact iff_of_false nofun nofun

/-- What was collected is what is delivered. -/
theorem Sound.runDeliver (h : n.Sound) (hidle : n.delivering = .idle)
    {queue : List NotifierTask} (hqueue : n.queue = .deliverNotifications :: queue) :
    Sound { { n with queue := queue }.deliverNotifications with log := n.log ++ [.take] } where
  queued t name keys hmem := h.queued t name keys (hqueue ▸ .tail _ hmem)
  distinct := by
    have hdistinct := h.distinct
    rwa [hqueue] at hdistinct
  pending := nofun
  remaining name t ht := ⟨(h.pending name t ht).1, (h.pending name t ht).2.1⟩
  announces := nofun
  timer := iff_of_true rfl rfl
  trace := by
    refine h.trace.take ?_
    intro name
    simp only [tables, hidle]
    rfl

/-- The loop ends. -/
theorem Sound.namesDone (h : n.Sound) {triggers : AList fun _ : SubscriptionName => TriggersId}
    (hnames : n.delivering = .names triggers) (hempty : triggers = ∅) :
    Sound { n with currentNotificationTrigger := none, delivering := .idle } where
  queued := h.queued
  distinct := h.distinct
  pending := h.pending
  remaining := nofun
  announces := nofun
  timer := h.timer
  trace := by
    have htrace := h.trace
    unfold tables at htrace ⊢
    rwa [hnames, hempty] at htrace

/-- `deliver` returns. -/
theorem Sound.delivered (h : n.Sound) {triggers : AList fun _ : SubscriptionName => TriggersId}
    (hdeliver : n.delivering = .deliver name triggers) :
    Sound { n with delivering := .names triggers } where
  queued := h.queued
  distinct := h.distinct
  pending := h.pending
  remaining := by
    have hremaining := h.remaining
    rwa [hdeliver] at hremaining
  announces := nofun
  timer := h.timer
  trace := by
    have htrace := h.trace
    unfold tables at htrace ⊢
    rwa [hdeliver] at htrace

/-- `deliver` is called with what was collected under the name. -/
theorem Sound.deliverName (h : n.Sound) {triggers : AList fun _ : SubscriptionName => TriggersId}
    (hnames : n.delivering = .names triggers) (hnext : triggers.lookup name = some t) :
    Sound { n with
      currentNotificationTrigger := some t
      delivering := .deliver name (triggers.erase name)
      log := n.log ++ [.hand name (n.keysOf t)] } where
  queued := h.queued
  distinct := h.distinct
  pending := h.pending
  remaining := by
    intro name' t' ht'
    have hremaining := h.remaining name' t'
    rw [hnames] at hremaining
    by_cases hname : name' = name
    · subst hname
      rw [Delivering.remaining, AList.lookup_erase] at ht'
      cases ht'
    · exact hremaining ((AList.lookup_erase_ne hname).symm.trans ht')
  announces := by
    rintro name' triggers' ⟨⟩
    have hbatch : n.tables.batch name = some (n.keysOf t) := by
      simp only [tables, hnames, Delivering.remaining, hnext, Option.map_some]
    obtain ⟨before, during, hlog, hnone⟩ := h.trace.started hbatch
    obtain ⟨hbound, hname⟩ := h.remaining name t (by rwa [hnames])
    refine ⟨before, during, n.keysOf t, t, by simp [hlog], hnone, rfl, hbound, ?_⟩
    simp [keysOf, ← hname]
  timer := h.timer
  trace := by
    have hbatch : n.tables.batch name = some (n.keysOf t) := by
      simp only [tables, hnames, Delivering.remaining, hnext, Option.map_some]
    have hrest : Function.update n.tables.batch name none =
        fun name' => ((triggers.erase name).lookup name').map n.keysOf := by
      funext name'
      by_cases hname : name' = name
      · subst hname
        rw [Function.update_self, AList.lookup_erase, Option.map_none]
      · rw [Function.update_of_ne hname, AList.lookup_erase_ne hname, tables, hnames]
        rfl
    have htrace := h.trace.hand hbatch
    rw [hrest] at htrace
    exact htrace

/-- Every step keeps the notifier sound. -/
theorem Sound.step (h : n.Sound) (hs : n.step l = some n') : n'.Sound := by
  cases l with
  | notify name keys => cases hs; exact h.notify
  | expireNotify =>
      obtain ⟨harmed, hs⟩ := Option.ite_none_right_eq_some.mp hs
      cases hs
      exact h.expireNotify harmed
  | main =>
      simp only [Notifier.step, main] at hs
      split at hs
      · rename_i hidle
        split at hs
        · cases hs
        · cases hs; exact h.runNotify hidle ‹_›
        · cases hs; exact h.runDeliver hidle ‹_›
      · rename_i hnames
        obtain ⟨hempty, hs⟩ := Option.ite_none_right_eq_some.mp hs
        cases hs
        exact h.namesDone hnames hempty
      · cases hs; exact h.delivered ‹_›
  | deliverName name =>
      simp only [Notifier.step, Notifier.deliverName] at hs
      split at hs
      · rename_i hnames
        split at hs
        · cases hs; exact h.deliverName hnames ‹_›
        · cases hs
      · cases hs

/-- The notifier is sound in every run. -/
theorem Reach.sound (h : Runs.Reach Notifier.step Runs.always initial n) : n.Sound := by
  apply h.invariant (I := Sound)
  · exact ⟨nofun, List.nodup_nil, nofun, nofun, nofun, iff_of_true rfl rfl, .nil⟩
  · intro n l n' hn _ hstep
    exact hn.step hstep

/-- **Notifications are delivered exactly.**  The timer is set as long as something
is collected; a delivery calls `deliver` once for every name that was notified since
the previous one and for no other name, with the union of the keys notified under it;
and these are the keys that an operation looks its own up in. -/
theorem deliverNotifications_exact (h : Runs.Reach Notifier.step Runs.always initial n) :
    (n.notifyTimer ≠ .unset ↔ n.pendingNotifyTriggers ≠ ∅) ∧
    (∀ before during after, Round n.log before during after →
      Exact before during ∧
        ((after = [] → n.delivering = .idle) → Complete before during)) ∧
    ∀ name triggers, n.delivering = .deliver name triggers →
      ∃ before during keys, n.log = before ++ .take :: (during ++ [.hand name keys]) ∧
        .take ∉ during ∧ n.currentNotificationTriggers = .ok ⟨name, keys⟩ ∧
          ∀ key, ∃ dispatch, n.shouldDispatchCurrentDelivery key = .ok dispatch ∧
            (dispatch = true ↔ ∃ keys', Batches.Added before name keys' ∧ key ∈ keys') := by
  have hsound := Reach.sound h
  refine ⟨not_congr hsound.timer, ?_, ?_⟩
  · intro before during after hround
    refine ⟨hsound.trace.exact hround, ?_⟩
    intro hover
    apply hsound.trace.complete hround
    intro hlast name
    simp only [tables, hover hlast]
    rfl
  · intro name triggers hdeliver
    obtain ⟨before, during, keys, t, hlog, hnone, hcurrent, -, hobject⟩ :=
      hsound.announces name triggers hdeliver
    have htriggers : n.currentNotificationTriggers = .ok ⟨name, keys⟩ := by
      rw [currentNotificationTriggers, hcurrent, ← hobject]
    have hround : Round n.log before (during ++ [.hand name keys]) [] :=
      ⟨by rw [hlog, List.append_nil], by simpa using hnone, .inl rfl⟩
    have hunion := ((hsound.trace.exact hround).union name keys (by simp)).2
    refine ⟨before, during, keys, hlog, hnone, htriggers, ?_⟩
    intro key
    refine ⟨decide (key ∈ keys), ?_, ?_⟩
    · rw [shouldDispatchCurrentDelivery, htriggers]
      rfl
    · rw [decide_eq_true_iff]
      exact hunion key

/-- Two names are notified, one of them twice, and a delivery of it begins. -/
def notifyVehicle : List NotifierLabel :=
  [.notify "vehicle" {1}, .notify "seat" {2}, .notify "vehicle" {1, 3}, .main, .main, .main,
    .expireNotify, .main, .deliverName "vehicle"]

set_option maxRecDepth 4000 in
/-- Two signals are delivered as one, with the union of their keys. -/
theorem deliverNotifications_exact_notifyVehicle :
    ∃ n, Runs.run Notifier.step initial notifyVehicle = some n ∧
      n.shouldDispatchCurrentDelivery 3 = .ok true ∧
      n.shouldDispatchCurrentDelivery 2 = .ok false ∧
      ∃ before during keys, n.log = before ++ .take :: (during ++ [.hand "vehicle" keys]) ∧
        n.currentNotificationTriggers = .ok ⟨"vehicle", keys⟩ := by
  have hrun : Runs.run Notifier.step initial notifyVehicle = some _ := rfl
  obtain ⟨before, during, keys, hlog, -, hcurrent, -⟩ :=
    (deliverNotifications_exact (Runs.reach_of_run hrun Runs.runMeets_always)).2.2 "vehicle" _ rfl
  exact ⟨_, hrun, rfl, rfl, before, during, keys, hlog, hcurrent⟩

end Notifier

end GraphQLServer
