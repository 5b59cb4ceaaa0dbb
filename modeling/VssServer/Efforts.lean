import VssServer.Measures
import VssServer.Deadlock
import VssServer.Operations

/-!
# Every run comes to rest

Whatever the schedule, the threads of a storage take only so many steps before they
wait for their clients: a creation pays for the `get`s in its body and for the
creations that they set off, a `Ref` for the chain of destructors that its drop sets
off, a disposed singleton for its collection.  `State.effort` adds this up, and every
step that is not the beginning of a client's call lowers it.

* `State.effort`: what the threads of a storage have still to do.
* `Step.effort_lt`: every step that is not the beginning of a call lowers it.
* `steps_bounded`: the threads come to rest whatever the schedule.
-/

namespace SingletonStorage

open Finset Measures

variable {K : Type}

/-- The type of which a call of a `create` gets the singleton. -/
def Call.needs : Call K → Option K
  | .get k => some k
  | .value _ => none

/-- The `create` of `k` gets the singleton of `k'`. -/
def Program.Needs (p : Program K) (k' k : K) : Prop :=
  ∃ c ∈ p.create k, c.needs = some k'

/-- What a frame has still to do, and what it can set off. -/
def Frame.effort (cost : K → Nat) : Frame K → Nat
  | .getLock k => cost k + 20
  | .getFind k => cost k + 19
  | .getCreate _ _ => 17
  | .getInsert _ _ => 14
  | .getRecycle _ _ => 13
  | .getUnlock _ => 12
  | .getRef _ => 11
  | .unrefLock _ => 9
  | .unrefLocked _ => 8
  | .unrefDelete _ => 3
  | .join _ => 2
  | .gcLock | .clearLock => 4
  | .gcRound _ _ => 3
  | .gcKeys none keys _ _ => 4 + 4 * keys.length
  | .gcKeys (some _) keys _ _ => 5 + 4 * keys.length
  | .clearDetach _ => 2
  | .unrefUnlock _ | .dropValue _ | .gcUnlock _ | .clearUnlock | .creating _ | .wait _ _ => 1

/-- What the creation of an object can still set off, and a `clear` that detaches it. -/
def Singleton.effort (cost : K → Nat) (x : Singleton K) : Nat :=
  (x.body.map (callCost Call.needs 21 cost)).sum + (if x.future = .deferred then 2 else 0) +
    if x.storage then 1 else 0

def load (cost : K → Nat) (frames : List (Frame K)) : Nat :=
  (frames.map (Frame.effort cost)).sum

/-- The threads there are with `m` clients. -/
def tids (m bound : Nat) : Finset Tid :=
  (range m).image .client ∪ (range bound).image .task

/-- What the threads have still to do. -/
def State.effort (cost : K → Nat) (m : Nat) (s : State K) : Nat :=
  10 * s.refs.length + 6 * s.disposed.card + ∑ t ∈ tids m s.bound, load cost (s.stack t) +
    ∑ o ∈ range s.bound, (s.singletons o).effort cost

/-- Only the first `m` clients are inside. -/
def Few (m : Nat) (s : State K) : Prop :=
  ∀ n, m ≤ n → s.stack (.client n) = []

/-- A `clear` detaches every object once. -/
def DetachesOnce (s : State K) : Prop :=
  ∀ t remaining, .clearDetach remaining ∈ s.stack t →
    remaining.Nodup ∧ ∀ o ∈ remaining, (s.singletons o).storage = true

section Sums

variable {cost : K → Nat} {m : Nat} {s s' : State K}

/-- A thread outside of the storage has nothing to do. -/
@[simp]
theorem load_nil : load cost [] = 0 := rfl

/-- The frame on top and those below. -/
@[simp]
theorem load_cons {f : Frame K} {frames : List (Frame K)} :
    load cost (f :: frames) = f.effort cost + load cost frames := by
  simp [load]

/-- Frames that are pushed. -/
@[simp]
theorem load_append {frames frames' : List (Frame K)} :
    load cost (frames ++ frames') = load cost frames + load cost frames' := by
  simp [load]

/-- The clients that count. -/
@[simp]
theorem mem_tids_client {bound n : Nat} : Tid.client n ∈ tids m bound ↔ n < m := by
  simp [tids]

/-- The tasks that count are those of the objects there are. -/
@[simp]
theorem mem_tids_task {bound : Nat} {o : Ptr} : Tid.task o ∈ tids m bound ↔ o < bound := by
  simp [tids]

/-- A new object adds its task. -/
theorem tids_succ (m bound : Nat) : tids m (bound + 1) = insert (.task bound) (tids m bound) := by
  ext t
  cases t with
  | client n => simp
  | task o =>
      simp only [mem_tids_task, mem_insert, Tid.task.injEq]
      exact Nat.lt_succ_iff_lt_or_eq.trans or_comm

/-- A thread that is inside counts. -/
theorem Few.mem_tids [DecidableEq K] (h : Few m s) (hsound : Sound s) {t : Tid} {f : Frame K}
    {rest : List (Frame K)} (top : s.stack t = f :: rest) : t ∈ tids m s.bound := by
  cases t with
  | client n =>
      rw [mem_tids_client]
      by_contra hn
      cases (h n (not_lt.mp hn)).symm.trans top
  | task o => exact mem_tids_task.mpr (hsound.tasks o (by simp [top])).1

/-- A change of one object changes the sum by its effort. -/
theorem State.sum_modify (cost : K → Nat) {o : Ptr} (ho : o < s.bound) (x : Singleton K) :
    ∑ o' ∈ range s.bound, (Function.update s.singletons o x o').effort cost +
        (s.singletons o).effort cost =
      ∑ o' ∈ range s.bound, (s.singletons o').effort cost + x.effort cost :=
  sum_update (mem_range.mpr ho) (Singleton.effort cost) s.singletons x

/-- An object that asks for less effort lowers the sum. -/
theorem State.sum_modify_le (o : Ptr) {x : Singleton K}
    (hle : x.effort cost ≤ (s.singletons o).effort cost) :
    ∑ o' ∈ range s.bound, (Function.update s.singletons o x o').effort cost ≤
      ∑ o' ∈ range s.bound, (s.singletons o').effort cost := by
  by_cases ho : o < s.bound
  · have hsum := State.sum_modify cost ho x
    omega
  · exact (sum_update_other (mem_range.not.mpr ho) (Singleton.effort cost) s.singletons x).le

end Sums

variable [DecidableEq K] {p : Program K} {cost : K → Nat} {m : Nat} {s s' : State K}
  {l : Label K}

/-- No client comes inside without a call. -/
theorem Step.few (hs : Step p s l s') (hl : ∀ n op, l = .start n op → n < m) (h : Few m s) :
    Few m s' := by
  intro n hn
  have hout : ∀ {t f rest}, s.stack t = f :: rest → .client n ≠ t := by
    rintro t f rest top rfl
    cases (h n hn).symm.trans top
  cases hs.moves with
  | stays _ _ eq => rw [eq, h n hn]
  | starts label _ eq =>
      have hne : Tid.client n ≠ .client _ := fun heq =>
        absurd (hl _ _ label) (Tid.client.inj heq ▸ hn).not_gt
      rw [eq, Function.update_of_ne hne, h n hn]
  | pushes _ top _ eq | leaves _ top _ eq => rw [eq, Function.update_of_ne (hout top), h n hn]
  | launches _ top eq =>
      rw [eq, Function.update_of_ne (hout top), Function.update_of_ne (by simp), h n hn]

/-- The entries are different objects. -/
theorem Sound.entries_nodup (h : Sound s) : (s.children.entries.map Sigma.snd).Nodup := by
  refine List.Nodup.map_on (fun e he e' he' heq => ?_) s.children.nodupKeys.nodup
  have hkey : ∀ e ∈ s.children.entries, (s.singletons e.2).key = e.1 := fun e he =>
    h.directory.key e.1 e.2 (AList.mem_lookup_iff.mpr he)
  exact Sigma.ext ((hkey e he).symm.trans (heq ▸ hkey e' he')) (heq_of_eq heq)

/-- What is left to detach are different objects. -/
theorem Step.detaching_nodup (hs : Step p s l s') (hsound : Sound s) (h : DetachesOnce s)
    {t : Tid} {remaining : List Ptr} (hf : .clearDetach remaining ∈ s'.stack t) :
    remaining.Nodup := by
  rcases hs.enters hf with hold | ⟨-, henters⟩ | hlaunches
  · exact (h t remaining hold).1
  · cases henters with
    | clearCollected top collected => exact hsound.entries_nodup
    | clearDetach top => exact ((h t _ (by rw [top]; exact .head _)).1).erase _
  · cases hlaunches

/-- The object that is detached is not one of those that are left. -/
theorem Step.detached_done (hs : Step p s l s') (hsound : Sound s) (h : DetachesOnce s)
    {t t' : Tid} {o : Ptr} {remaining remaining' : List Ptr} {rest : List (Frame K)}
    (label : l = .pick t' o) (top : s.stack t' = .clearDetach remaining' :: rest)
    (hf : .clearDetach remaining ∈ s'.stack t) : o ∉ remaining := by
  subst label
  cases hs
  case dropRef | createValue => cases top.symm.trans ‹s.stack t' = _›
  case clearDetach top' mem _ =>
    cases top.symm.trans top'
    have htop : .clearDetach remaining' ∈ s.stack t' := by simp [top]
    by_cases ht : t = t'
    · subst ht
      simp only [State.goto_stack, Function.update_self] at hf
      rcases List.mem_cons.mp hf with heq | hrest
      · cases heq
        exact (h t remaining' htop).1.not_mem_erase
      · simpa [Frame.deletes, Frame.waits] using (hsound.shaped.of_top top).below _ hrest
    · simp only [State.goto_stack, Function.update_of_ne ht] at hf
      exact absurd (hsound.owned.unique hsound.shaped htop rfl hf rfl).1 ht

/-- No step detaches an object twice. -/
theorem Step.detachesOnce (hs : Step p s l s') (hsound : Sound s) (h : DetachesOnce s) :
    DetachesOnce s' := by
  refine fun t remaining hf => ⟨hs.detaching_nodup hsound h hf, fun o ho => ?_⟩
  have hbefore : (s.singletons o).storage = true := by
    rcases hs.enters hf with hold | ⟨-, henters⟩ | hlaunches
    · exact (h t remaining hold).2 o ho
    · cases henters with
      | clearCollected top collected =>
          obtain ⟨e, he, rfl⟩ := List.mem_map.mp ho
          have hin := (State.inside_top hsound.owned top rfl).2
          have hentry : s.directory.entry e.1 = some e.2 := AList.mem_lookup_iff.mpr he
          refine (hsound.directory.attached e.1 e.2 hentry).resolve_right ?_
          rintro ⟨remaining, hphase⟩
          cases hin.symm.trans hphase
      | clearDetach top => exact (h t _ (by simp [top])).2 o (List.mem_of_mem_erase ho)
    · cases hlaunches
  cases hs.object o with
  | same eq => rw [eq, hbefore]
  | new _ _ _ _ eq => rw [eq]
  | alters eq step =>
      rw [eq]
      cases step with
      | detach label top _ => exact absurd ho (hs.detached_done hsound h label top hf)
      | _ => exact hbefore

section Measure

variable {t : Tid} {f : Frame K} {o : Ptr} {k : K} {rest : List (Frame K)}

/-- A step of one thread that pays with what it has left, or with what an object has. -/
theorem Few.effort_move (hfew : Few m s) (hsound : Sound s) (frames : List (Frame K))
    (top : s.stack t = f :: rest) (hbound : s'.bound = s.bound)
    (hstack : s'.stack = Function.update s.stack t (frames ++ rest))
    (hlt : 10 * s'.refs.length + 6 * s'.disposed.card + load cost frames +
        ∑ o ∈ range s.bound, (s'.singletons o).effort cost <
      10 * s.refs.length + 6 * s.disposed.card + f.effort cost +
        ∑ o ∈ range s.bound, (s.singletons o).effort cost) :
    s'.effort cost m < s.effort cost m := by
  have hsum := sum_update (hfew.mem_tids hsound top) (load cost) s.stack (frames ++ rest)
  rw [top, load_append, load_cons] at hsum
  simp only [State.effort, hbound, hstack]
  omega

/-- A step of one thread that leaves the objects what they have. -/
theorem Few.effort_step (hfew : Few m s) (hsound : Sound s) (frames : List (Frame K))
    (top : s.stack t = f :: rest) (hbound : s'.bound = s.bound)
    (hstack : s'.stack = Function.update s.stack t (frames ++ rest))
    (hobjects : ∑ o ∈ range s.bound, (s'.singletons o).effort cost ≤
      ∑ o ∈ range s.bound, (s.singletons o).effort cost)
    (hlt : 10 * s'.refs.length + 6 * s'.disposed.card + load cost frames <
      10 * s.refs.length + 6 * s.disposed.card + f.effort cost) :
    s'.effort cost m < s.effort cost m :=
  hfew.effort_move hsound frames top hbound hstack (by omega)

/-- The `get` of a type without an entry pays for what the creation sets off. -/
theorem Few.effort_allocate (hfew : Few m s) (hsound : Sound s)
    (top : s.stack t = .getFind k :: rest)
    (hcost : cost k = ((p.create k).map (callCost Call.needs 21 cost)).sum) :
    ((s.allocate p k).goto t (.getCreate k s.bound :: rest)).effort cost m < s.effort cost m := by
  have htask : s.stack (.task s.bound) = [] := by
    by_contra hstack
    exact (hsound.tasks s.bound hstack).1.false
  have hne : .task s.bound ≠ t := by
    rintro rfl
    cases htask.symm.trans top
  have hthreads := sum_update (hfew.mem_tids hsound top) (load cost) s.stack
    (.getCreate k s.bound :: rest)
  have hothers := sum_update_other (t := range s.bound) (i := s.bound) (by simp)
    (Singleton.effort cost) s.singletons { key := k, body := p.create k }
  rw [top] at hthreads
  simp only [State.effort, State.allocate, State.goto_refs, State.goto_disposed,
    State.goto_bound, State.goto_stack, State.goto_singletons, tids_succ]
  rw [sum_insert (by simp), sum_range_succ, Function.update_of_ne hne, htask, hothers]
  simp [Singleton.effort, Frame.effort, ← hcost] at hthreads ⊢
  omega

/-- A creation that begins is paid for by the `get` that begins it. -/
theorem Few.effort_createFuture (hfew : Few m s) (hsound : Sound s)
    (top : s.stack t = .getCreate k o :: rest) :
    ((s.createFuture p k o).goto t (.getInsert k o :: rest)).effort cost m <
      s.effort cost m := by
  have ho : o < s.bound := hsound.allocated.frames t (.getCreate k o) (by simp [top]) o (.head _)
  by_cases hasync : p.async k
  · have htask := hsound.task_idle top
    have hne : t ≠ .task o := by
      rintro rfl
      cases htask.symm.trans top
    have hlaunch := sum_update ((mem_tids_task (m := m)).mpr ho) (load cost) s.stack
      [.creating o]
    have hthreads := sum_update (hfew.mem_tids hsound top) (load cost)
      (Function.update s.stack (.task o) [.creating o]) (.getInsert k o :: rest)
    have hsum := State.sum_modify cost ho
      { s.singletons o with
        createCalls := (s.singletons o).createCalls + 1
        future := .running }
    rw [Function.update_of_ne hne, top] at hthreads
    rw [htask] at hlaunch
    simp [State.effort, hasync, Singleton.effort, Frame.effort] at hlaunch hthreads hsum ⊢
    omega
  · have hsum := State.sum_modify cost ho
      { s.singletons o with
        createCalls := (s.singletons o).createCalls + 1
        future := .deferred }
    refine hfew.effort_move hsound [_] top rfl (by simp [hasync]; rfl) ?_
    simp [hasync, Singleton.effort, Frame.effort] at hsum ⊢
    omega

end Measure

/-- **Measure.**  Every step that is not the beginning of a call lowers what is left. -/
theorem Step.effort_lt (hs : Step p s l s') (hsound : Sound s) (hfew : Few m s)
    (honce : DetachesOnce s) (hl : Running s l)
    (hcost : ∀ k, cost k = ((p.create k).map (callCost Call.needs 21 cost)).sum) :
    s'.effort cost m < s.effort cost m := by
  have hpointer : ∀ {t f rest}, s.stack t = f :: rest → ∀ o ∈ f.pointers, o < s.bound :=
    fun {t f rest} top => hsound.allocated.frames t f (by simp [top])
  cases hs
  case getMissing top _ => exact hfew.effort_allocate hsound top (hcost _)
  case getCreate top => exact hfew.effort_createFuture hsound top
  case getRecycle o _ top =>
    refine hfew.effort_step hsound [_] top rfl rfl le_rfl ?_
    have hle := s.disposed.card_erase_le (a := o)
    simp [Frame.effort]
    omega
  case getRef o rest top =>
    refine hfew.effort_step hsound [] top rfl rfl (State.sum_modify_le o le_rfl) ?_
    simp [Frame.effort]
    omega
  case unrefDispose o rest top _ =>
    refine hfew.effort_step hsound [_] top rfl rfl le_rfl ?_
    have hle := Finset.card_insert_le o s.disposed
    simp [Frame.effort]
    omega
  case dropRef v o rest top mem =>
    have hlength := List.length_erase_add_one mem
    by_cases hmore : 1 < (s.singletons o).refCount
    · refine hfew.effort_step hsound [.dropValue v] top rfl ?_ (State.sum_modify_le o le_rfl) ?_
      · simp only [State.unref, hmore, if_true]
        rfl
      simp [Frame.effort]
      omega
    · refine hfew.effort_step hsound [.unrefLock o, .dropValue v] top rfl ?_
        (State.sum_modify_le o le_rfl) ?_
      · simp only [State.unref, hmore, if_false]
        rfl
      simp [Frame.effort]
      omega
  case gcRound n caller rest top nonempty =>
    have hpos := List.length_pos_iff.mpr nonempty
    have hle : s.disposedKeys.length ≤ s.disposed.card := List.length_take_le ..
    refine hfew.effort_step hsound [_] top rfl rfl le_rfl ?_
    simp [Frame.effort]
    omega
  case gcDelete o keys n caller rest top entry mem =>
    have hlength := List.length_erase_add_one mem
    refine hfew.effort_step hsound [_, _] top rfl rfl (State.sum_modify_le o le_rfl) ?_
    simp [Frame.effort]
    omega
  case joinLast t o rest top _ _ =>
    refine hfew.effort_step hsound [_] top rfl rfl ?_ (by simp [Frame.effort])
    let x := { s.singletons o with shared := false, valueGone := true }
    have hidem : ((s.modify o fun x => { x with shared := false }).destroyValue t o
        rest).singletons = Function.update s.singletons o x :=
      (Function.update_idem _ _ _).trans (by simp [x])
    rw [hidem]
    exact State.sum_modify_le o le_rfl
  case createDone o rest top done =>
    refine hfew.effort_step hsound [] top rfl rfl (State.sum_modify_le o ?_)
      (by simp [Frame.effort])
    simp [Singleton.effort]
  case createGet t o k body rest top call =>
    have hsum := State.sum_modify cost (hpointer top o (by simp [Frame.pointers]))
      { s.singletons o with body := body }
    refine hfew.effort_move hsound [_, _] top rfl rfl ?_
    simp [Singleton.effort, call, Frame.effort, callCost, Call.needs] at hsum ⊢
    omega
  case createValue t v k o body rest top call _ _ =>
    have hsum := State.sum_modify cost (hpointer top v (by simp [Frame.pointers]))
      { s.singletons v with body := body }
    refine hfew.effort_move hsound [_, _] top rfl rfl ?_
    simp [Singleton.effort, call, Frame.effort, callCost, Call.needs] at hsum ⊢
    omega
  case waitDeferred t o keep rest top deferred =>
    have hsum := State.sum_modify cost (hpointer top o (by simp [Frame.pointers]))
      { s.singletons o with future := .running }
    refine hfew.effort_move hsound [_, _] top rfl rfl ?_
    simp [Singleton.effort, deferred, Frame.effort] at hsum ⊢
    omega
  case clearDetach t o remaining rest top mem _ =>
    have hattached := (honce t remaining (by simp [top])).2 o mem
    have hsum := State.sum_modify cost (hpointer top o mem)
      { s.singletons o with storage := false }
    refine hfew.effort_move hsound [_] top rfl rfl ?_
    simp [Singleton.effort, hattached, Frame.effort] at hsum ⊢
    omega
  case gcEnd top _ | clearCollected top _ =>
    refine hfew.effort_step hsound [_] top rfl rfl le_rfl ?_
    have hle : (∅ : Finset Ptr).card ≤ s.disposed.card := Nat.zero_le _
    simp only [State.goto_refs, Frame.effort, load_cons, load_nil]
    omega
  case unrefLock top _ | unrefDetached top _ | unrefDelete top =>
    exact hfew.effort_step hsound [_] top rfl rfl (State.sum_modify_le _ le_rfl)
      (by simp [Frame.effort])
  case unrefUnlock top | joinPinned top _ _ | waitReady top _ =>
    exact hfew.effort_step hsound [] top rfl rfl (State.sum_modify_le _ le_rfl)
      (by simp [Frame.effort])
  case getLock top _ | getFound top _ | getInsert top | getUnlock top | gcLock top _
    | clearLock top _ | gcErase top | gcKeysDone top | clearChildren top =>
    exact hfew.effort_step hsound [_] top rfl rfl le_rfl (by simp [Frame.effort])
  case dropDone top _ | gcUnlock top | clearUnlock top =>
    exact hfew.effort_step hsound [] top rfl rfl le_rfl (by simp [Frame.effort])
  all_goals exact absurd rfl (hl _ _)

omit [DecidableEq K] in
/-- More clients may be counted than there are. -/
theorem Few.mono {m' : Nat} (h : Few m s) (hle : m ≤ m') : Few m' s :=
  fun n hn => h n (hle.trans hn)

/-- In every state finitely many clients are inside of the storage. -/
theorem Reach.few [Inhabited K] {ok : State K → Label K → Prop}
    (h : Runs.Reach (step p) ok initial s) : ∃ m, Few m s := by
  refine h.invariant (I := fun s => ∃ m, Few m s) ⟨0, fun _ _ => rfl⟩ ?_
  rintro s l s' ⟨m, hfew⟩ - hstep
  have hs := step_cases hstep
  cases l with
  | start n op =>
      refine ⟨max m (n + 1), hs.few ?_ (hfew.mono (le_max_left ..))⟩
      rintro n' op' heq
      cases heq
      exact (Nat.lt_succ_self n).trans_le (le_max_right ..)
  | next | pickKey | pick => exact ⟨m, hs.few (by simp) hfew⟩

/-- No history detaches an object twice. -/
theorem Reach.detachesOnce [Inhabited K] {ok : State K → Label K → Prop}
    (h : Runs.Reach (step p) ok initial s) : DetachesOnce s :=
  h.along (fun _ _ hf => by cases hf) fun _ _ _ hs hI _ hstep =>
    (step_cases hstep).detachesOnce (Reach.sound hs) hI

/-- What is left bounds the steps until the next call. -/
theorem Few.run_length_le (hfew : Few m s) (hsound : Sound s) (honce : DetachesOnce s)
    (hcost : ∀ k, cost k = ((p.create k).map (callCost Call.needs 21 cost)).sum)
    {ls : List (Label K)} (hrun : Runs.run (step p) s ls = some s')
    (hgoes : ∀ l ∈ ls, ∀ n op, l ≠ .start n op) : ls.length ≤ s.effort cost m := by
  have hmeets : Runs.RunMeets (step p) Running s ls :=
    Runs.runMeets_of_labels fun l hl _ => hgoes l hl
  have hle : ls.length + s'.effort cost m ≤ s.effort cost m := by
    refine Runs.run_length_le (I := fun s => Sound s ∧ DetachesOnce s ∧ Few m s)
      (w := fun s => s.effort cost m) ?_ ⟨hsound, honce, hfew⟩ hrun hmeets
    rintro s l s' ⟨hsound, honce, hfew⟩ hok hstep
    have hs := step_cases hstep
    exact ⟨⟨hs.sound hsound, hs.detachesOnce hsound honce,
      hs.few (fun n op hl => absurd hl (hok n op)) hfew⟩, hs.effort_lt hsound hfew honce hok hcost⟩
  omega

/-- **Rest.**  From every state that any run reaches, where no type needs itself through
the types that it needs, the steps that all threads can take until a client begins the
next call are bounded in number, whatever the schedule. -/
theorem steps_bounded [Inhabited K] (h : Runs.Reach (step p) Runs.always initial s)
    (hwf : WellFounded p.Needs) :
    ∃ bound, ∀ ls s', Runs.run (step p) s ls = some s' →
      (∀ l ∈ ls, ∀ n op, l ≠ .start n op) → ls.length ≤ bound := by
  obtain ⟨cost, hcost⟩ := exists_cost p.create Call.needs 21 hwf
  obtain ⟨m, hfew⟩ := Reach.few h
  exact ⟨s.effort cost m, fun ls s' hrun hgoes =>
    hfew.run_length_le (Reach.sound h) (Reach.detachesOnce h) hcost hrun hgoes⟩

/-- The attribute needs its proxy, which needs nothing. -/
theorem attributes_wellFounded : WellFounded attributes.Needs := by
  refine Subrelation.wf (r := InvImage (· < ·) fun k => if k = "Attribute" then 1 else 0) ?_
    (InvImage.wf _ Nat.lt_wfRel.wf)
  rintro k' k ⟨c, hc, hneeds⟩
  by_cases hk : k = "Attribute"
  · simp only [attributes, hk, if_true, List.mem_cons, List.not_mem_nil, or_false] at hc
    rcases hc with rfl | rfl
    · cases hneeds
      simp [InvImage, hk]
    · cases hneeds
  · simp [attributes, hk] at hc

/-- While an attribute is created, a bounded number of steps is left. -/
theorem steps_bounded_attribute :
    ∃ s, Runs.run (step attributes) initial getAttribute = some s ∧
      (Runs.run (step attributes) s finishAttribute).isSome ∧
      ∃ bound, ∀ ls s', Runs.run (step attributes) s ls = some s' →
        (∀ l ∈ ls, ∀ n op, l ≠ .start n op) → ls.length ≤ bound := by
  have hrun : Runs.run (step attributes) initial getAttribute = some _ := rfl
  exact ⟨_, hrun, rfl, steps_bounded (Runs.reach_of_run hrun Runs.runMeets_always)
    attributes_wellFounded⟩

end SingletonStorage
