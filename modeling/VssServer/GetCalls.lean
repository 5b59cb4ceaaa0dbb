import VssServer.StorageDirectory

/-!
# The calls of `get`

What a run shows of its `get`s, in the order in which it happens: a thread calls `get`,
its access to `m_children` determines the instance, and it returns the `Ref` that it has
constructed.  Entries are removed, and the directory is emptied, in between.

* `GetCall`: one call, with its own access and its own return.
* `Happens`: what a step shows, and where its thread is; each fact about events is read off it.
* `Recorded`: what a state owes to the history that led to it; every thread that is
  inside of a `get` has called it, and `log` is what the history shows of `m_children`.
* `Recorded.own`: whatever is returned was determined by the access of the same call.
* `GetCall.same`: two calls without a removal between their accesses return the same
  instance.
-/

namespace SingletonStorage

variable {K : Type}

/-- What a step shows of the `get`s of the threads, and of the removals. -/
inductive Event (K : Type)
  | called (t : Tid) (key : K)
  | accessed (t : Tid) (key : K) (o : Ptr)
  | returned (t : Tid) (ref : Holder × Ptr)
  | removed (key : K)
  | cleared
  deriving DecidableEq

/-- The thread inside of whose `get` it happens. -/
def Event.tid : Event K → Option Tid
  | .called t _ | .accessed t _ _ | .returned t _ => some t
  | .removed _ | .cleared => none

/-- What the directory records of it. -/
def Event.access : Event K → Option (Directory.Event K Ptr)
  | .accessed _ k o => some (.got k o)
  | .removed k => some (.removed k)
  | .cleared => some .cleared
  | _ => none

/-- What the next step of thread `t` shows. -/
def State.nextShows (s : State K) (t : Tid) : List (Event K) :=
  match s.stack t with
  | .getRecycle k o :: _ | .getInsert k o :: _ => [.accessed t k o]
  | .getRef o :: rest => [.returned t (holderOf rest, o)]
  | .gcKeys (some k) _ _ _ :: _ => [.removed k]
  | .clearDetach [] :: _ => [.cleared]
  | .creating o :: _ =>
      match (s.singletons o).body with
      | .get k :: _ => [.called t k]
      | _ => []
  | _ => []

/-- What a step shows. -/
def State.shows (s : State K) : Label K → List (Event K)
  | .start n (.get k) => [.called (.client n) k]
  | .next t => s.nextShows t
  | _ => []

/-- None of it happens inside of a `get` of thread `t`. -/
def Without (t : Tid) (events : List (Event K)) : Prop :=
  ∀ e ∈ events, e.tid ≠ some t

/-- Thread `t` has called `get` of `k`, and not accessed `m_children` yet. -/
def Asked (history : List (Event K)) (t : Tid) (k : K) : Prop :=
  ∃ before during, history = before ++ .called t k :: during ∧ Without t during

/-- The access of the `get` of `k` that thread `t` is inside of has determined `o`. -/
def Answered (history : List (Event K)) (t : Tid) (k : K) (o : Ptr) : Prop :=
  ∃ before during, history = before ++ .accessed t k o :: during ∧ Asked before t k ∧
    Without t during

/-- A call of `get` of `k` by thread `t` that has returned `ref`: `before` is what happened
up to its access to `m_children`, `during` what happened until it returned. -/
structure GetCall (history : List (Event K)) (t : Tid) (k : K) (ref : Holder × Ptr)
    (before during after : List (Event K)) : Prop where
  happened : history = before ++ .accessed t k ref.2 :: (during ++ .returned t ref :: after)
  called : Asked before t k
  own : Without t during

/-- What a thread inside of a `get` owes to the history. -/
def Inside (history : List (Event K)) (t : Tid) : List (Frame K) → Prop
  | .getLock k :: _ | .getFind k :: _ | .getRecycle k _ :: _ | .getCreate k _ :: _
  | .getInsert k _ :: _ => Asked history t k
  | .getUnlock o :: _ | .getRef o :: _ => ∃ k, Answered history t k o
  | _ => True

/-- What a state owes to the history that led to it. -/
structure Recorded (s : State K) (history : List (Event K)) : Prop where
  log : s.log = history.filterMap Event.access
  inside : ∀ t, Inside history t (s.stack t)
  returned : ∀ t ref before after, history = before ++ .returned t ref :: after →
    ∃ k, Answered before t k ref.2
  keys : ∀ t k o, .accessed t k o ∈ history → o < s.bound ∧ (s.singletons o).key = k
  refs : ∀ r ∈ s.refs, ∃ t holder, .returned t (holder, r.2) ∈ history

/-- What a run shows, in its order. -/
def Program.history [Inhabited K] [DecidableEq K] (p : Program K) (ls : List (Label K)) :
    List (Event K) :=
  Runs.trace (step p) State.shows initial ls

variable {history events : List (Event K)} {t : Tid}

theorem Without.append (h : Without t history) (h' : Without t events) :
    Without t (history ++ events) := by
  intro e he
  exact (List.mem_append.mp he).elim (h e) (h' e)

theorem Asked.append {k : K} (h : Asked history t k) (hwithout : Without t events) :
    Asked (history ++ events) t k := by
  obtain ⟨before, during, rfl, hduring⟩ := h
  exact ⟨before, during ++ events, by simp, hduring.append hwithout⟩

theorem Answered.append {k : K} {o : Ptr} (h : Answered history t k o)
    (hwithout : Without t events) : Answered (history ++ events) t k o := by
  obtain ⟨before, during, rfl, hasked, hduring⟩ := h
  exact ⟨before, during ++ events, by simp, hasked, hduring.append hwithout⟩

/-- What others do leaves a thread where it is. -/
theorem Inside.append {frames : List (Frame K)} (h : Inside history t frames)
    (hwithout : Without t events) : Inside (history ++ events) t frames := by
  unfold Inside at h ⊢
  split
  case h_8 => trivial
  case h_6 | h_7 => exact h.imp fun k hanswered => hanswered.append hwithout
  all_goals exact Asked.append h hwithout

/-- Below a `get` there is none. -/
theorem inside_below {frames : List (Frame K)} (h : ∀ f ∈ frames, f.deletes ∨ f.waits) :
    Inside history t frames := by
  cases frames with
  | nil => trivial
  | cons f rest =>
      have hf := h f (.head _)
      cases f <;> first | trivial | simp [Frame.deletes, Frame.waits] at hf

/-- **Own access.**  Whatever is returned was determined by the access of the same call. -/
theorem Recorded.own {s : State K} (h : Recorded s history) {ref : Holder × Ptr}
    {before after : List (Event K)} (heq : history = before ++ .returned t ref :: after) :
    ∃ k earlier during, GetCall history t k ref earlier during after := by
  obtain ⟨k, earlier, during, rfl, hasked, hwithout⟩ := h.returned t ref before after heq
  exact ⟨k, earlier, during, by simp [heq], hasked, hwithout⟩

/-- Of two calls, the one whose access comes first has it in what happened up to the access
of the other one. -/
theorem GetCall.between {t t' : Tid} {k k' : K} {ref ref' : Holder × Ptr}
    {before during after before' during' after' : List (Event K)}
    (h : GetCall history t k ref before during after)
    (h' : GetCall history t' k' ref' before' during' after')
    (hle : before.length ≤ before'.length) :
    ref.2 = ref'.2 ∨ ∃ between, before' = before ++ .accessed t k ref.2 :: between := by
  rcases List.append_eq_append_iff.mp (h.happened.symm.trans h'.happened) with
    ⟨events, hbefore, hrest⟩ | ⟨events, hbefore, hrest⟩
  · cases events with
    | nil =>
        obtain ⟨hsame, -⟩ := List.cons_eq_cons.mp hrest
        exact .inl (Event.accessed.inj hsame).2.2
    | cons e between =>
        rw [List.cons_append] at hrest
        obtain ⟨rfl, -⟩ := List.cons_eq_cons.mp hrest
        exact .inr ⟨between, hbefore⟩
  · have hnil : events = [] := by
      rw [hbefore, List.length_append] at hle
      exact List.eq_nil_of_length_eq_zero (by omega)
    rw [hnil] at hrest
    obtain ⟨hsame, -⟩ := List.cons_eq_cons.mp hrest
    exact .inl (Event.accessed.inj hsame).2.2.symm

variable {s s' : State K} {l : Label K}

/-- What a step shows, and where its thread is. -/
inductive Happens (s : State K) : Label K → Event K → Prop
  | start {n k} : Happens s (.start n (.get k)) (.called (.client n) k)
  | recycle {t k o rest} (top : s.stack t = .getRecycle k o :: rest) :
      Happens s (.next t) (.accessed t k o)
  | insert {t k o rest} (top : s.stack t = .getInsert k o :: rest) :
      Happens s (.next t) (.accessed t k o)
  | getRef {t o rest} (top : s.stack t = .getRef o :: rest) :
      Happens s (.next t) (.returned t (holderOf rest, o))
  | gcErase {t k keys count caller rest}
      (top : s.stack t = .gcKeys (some k) keys count caller :: rest) :
      Happens s (.next t) (.removed k)
  | clearChildren {t rest} (top : s.stack t = .clearDetach [] :: rest) :
      Happens s (.next t) .cleared
  | create {t o k rest body} (top : s.stack t = .creating o :: rest)
      (call : (s.singletons o).body = .get k :: body) : Happens s (.next t) (.called t k)

/-- A step shows one event at most. -/
theorem State.shows_cases (s : State K) (l : Label K) :
    s.shows l = [] ∨ ∃ e, s.shows l = [e] ∧ Happens s l e := by
  unfold State.shows State.nextShows
  split
  · exact .inr ⟨_, rfl, .start⟩
  · split
    next top => exact .inr ⟨_, rfl, .recycle top⟩
    next top => exact .inr ⟨_, rfl, .insert top⟩
    next top => exact .inr ⟨_, rfl, .getRef top⟩
    next top => exact .inr ⟨_, rfl, .gcErase top⟩
    next top => exact .inr ⟨_, rfl, .clearChildren top⟩
    next top =>
      split
      next call => exact .inr ⟨_, rfl, .create top call⟩
      next => exact .inl rfl
    next => exact .inl rfl
  · exact .inl rfl

/-- Whatever a step shows happens with it. -/
theorem State.shows_of_mem {e : Event K} (h : e ∈ s.shows l) : Happens s l e := by
  rcases s.shows_cases l with hnone | ⟨e', hshows, hs⟩
  · rw [hnone] at h
    cases h
  · rw [hshows] at h
    obtain rfl := List.mem_singleton.mp h
    exact hs

/-- Only the thread that takes a step calls, accesses or returns with it. -/
theorem State.shows_without (s : State K) (l : Label K) {t : Tid} (ht : t ≠ l.tid) :
    Without t (s.shows l) := by
  intro e he heq
  cases State.shows_of_mem he with
  | gcErase | clearChildren => cases heq
  | _ => exact ht (Option.some.inj heq).symm

/-- A thread returns the `Ref` that its `get` constructs. -/
theorem State.shows_returned {ref : Holder × Ptr} (h : .returned t ref ∈ s.shows l) :
    ∃ rest, s.stack t = .getRef ref.2 :: rest := by
  cases State.shows_of_mem h with
  | getRef top => exact ⟨_, top⟩

/-- A thread accesses `m_children` for its `get`. -/
theorem State.shows_accessed {k : K} {o : Ptr} (h : .accessed t k o ∈ s.shows l) :
    ∃ rest, s.stack t = .getRecycle k o :: rest ∨ s.stack t = .getInsert k o :: rest := by
  cases State.shows_of_mem h with
  | recycle top => exact ⟨_, .inl top⟩
  | insert top => exact ⟨_, .inr top⟩

/-- What a step shows that a `get` returns was determined by its access. -/
theorem Recorded.step_returned (h : Recorded s history) {ref : Holder × Ptr}
    {before after : List (Event K)}
    (heq : history ++ s.shows l = before ++ .returned t ref :: after) :
    ∃ k, Answered before t k ref.2 := by
  rcases s.shows_cases l with hnone | ⟨e, hshows, -⟩
  · rw [hnone, List.append_nil] at heq
    exact h.returned t ref before after heq
  · rw [hshows] at heq
    rcases List.eq_nil_or_concat after with rfl | ⟨init, last, rfl⟩
    · obtain ⟨rfl, hlast⟩ := List.append_inj' heq rfl
      have hmem : .returned t ref ∈ s.shows l := by simp [hshows, hlast]
      obtain ⟨rest, top⟩ := State.shows_returned hmem
      have hinside := h.inside t
      rw [top] at hinside
      exact hinside
    · rw [List.concat_eq_append, ← List.cons_append, ← List.append_assoc] at heq
      obtain ⟨hold, -⟩ := List.append_inj' heq rfl
      exact h.returned t ref before init hold

variable [DecidableEq K] {p : Program K}

/-- A step records in `log` what it shows of `m_children`. -/
theorem Step.log_shows (hs : Step p s l s') :
    s'.log = s.log ++ (s.shows l).filterMap Event.access := by
  cases hs <;> simp [State.shows, State.nextShows, Event.access, *]

/-- The frames of the other threads stay, but for the task that is started. -/
theorem Step.stack_other (hs : Step p s l s') (ht : t ≠ l.tid) :
    s'.stack t = s.stack t ∨ ∃ o, t = .task o ∧ s'.stack t = [.creating o] := by
  cases hs.moves with
  | stays _ _ eq => exact .inl (by rw [eq])
  | @starts n _ _ label _ eq =>
      subst label
      have ht : t ≠ .client n := ht
      exact .inl (by rw [eq, Function.update_of_ne ht])
  | pushes tid _ _ eq | leaves tid _ _ eq =>
      subst tid
      exact .inl (by rw [eq, Function.update_of_ne ht])
  | @launches t₀ k o rest tid _ eq =>
      subst tid
      rw [eq, Function.update_of_ne ht]
      by_cases ho : t = .task o
      · subst ho
        exact .inr ⟨o, rfl, Function.update_self ..⟩
      · exact .inl (Function.update_of_ne ho ..)

/-- The thread that takes a step goes on inside of its `get`. -/
theorem Step.inside_own (hs : Step p s l s') (hshaped : Shaped s)
    (h : Inside history l.tid (s.stack l.tid)) :
    Inside (history ++ s.shows l) l.tid (s'.stack l.tid) := by
  have hbelow : ∀ {t f rest}, s.stack t = f :: rest → ∀ {events}, Inside events t rest :=
    fun top => inside_below (hshaped.of_top top).below
  have hcalled : ∀ {t k}, Asked (history ++ [.called t k]) t k := fun {t k} =>
    ⟨history, [], rfl, by simp [Without]⟩
  cases hs
  case startGet n k idle =>
    simp only [Label.tid, State.goto_stack, Function.update_self]
    exact hcalled
  case createGet t o k body rest top call =>
    simp only [Label.tid, State.goto_stack, Function.update_self, State.shows, State.nextShows,
      top, call]
    exact hcalled
  case getLock top _ | getFound top _ | getMissing top _ | getCreate top | getUnlock top =>
    simp only [Label.tid, top] at h
    simp only [Label.tid, State.goto_stack, Function.update_self, State.shows, State.nextShows,
      top, List.append_nil]
    exact h
  case getRecycle t k o rest top | getInsert t k o rest top =>
    simp only [Label.tid, top] at h
    simp only [Label.tid, State.goto_stack, Function.update_self, State.shows, State.nextShows,
      top]
    exact ⟨k, history, [], rfl, h, by simp [Without]⟩
  case startCopy idle _ | startMove idle _ | startRelease idle _ _ =>
    simp [Label.tid, idle, Inside]
  case startDrop idle _ =>
    simp only [Label.tid, State.unref, State.goto_stack, Function.update_self]
    split <;> trivial
  case dropRef top _ =>
    simp only [Label.tid, State.unref, State.goto_stack, Function.update_self]
    split <;> trivial
  case gcEnd | clearCollected | gcRound | gcErase | clearChildren | startValue | startReleaseLast
      | startCollect | startClear | gcLock | clearLock | gcKeysDone | gcDelete | clearDetach
      | unrefLock | unrefDispose | unrefDetached | unrefDelete | joinLast | createValue
      | waitDeferred =>
    simp only [Label.tid, State.goto_stack, State.delete, State.destroyValue, Function.update_self]
    trivial
  all_goals
    simp only [Label.tid, State.goto_stack, Function.update_self]
    exact hbelow ‹s.stack _ = _›

/-- Every thread stays inside of its `get`. -/
theorem Step.inside (hs : Step p s l s') (hshaped : Shaped s)
    (h : ∀ t, Inside history t (s.stack t)) (t : Tid) :
    Inside (history ++ s.shows l) t (s'.stack t) := by
  by_cases ht : t = l.tid
  · subst ht
    exact hs.inside_own hshaped (h l.tid)
  · rcases hs.stack_other ht with heq | ⟨o, -, heq⟩
    · rw [heq]
      exact (h t).append (s.shows_without l ht)
    · rw [heq]
      trivial

/-- The instance a `get` of `k` determines has the key `k`. -/
theorem Sound.key_of_top (h : Sound s) {t : Tid} {k : K} {o : Ptr} {rest : List (Frame K)}
    (top : s.stack t = .getRecycle k o :: rest ∨ s.stack t = .getInsert k o :: rest) :
    (s.singletons o).key = k := by
  rcases top with top | top
  · have hin := State.inside_top h.owned top rfl
    exact h.directory.key k o (h.directory.found k o hin.2)
  · have hin := State.inside_top h.owned top rfl
    exact (h.directory.pending k o (.inr hin.2)).1

/-- **Preservation.**  Every step keeps what the state owes to the history. -/
theorem Recorded.step (h : Recorded s history) (hsound : Sound s) (hs : Step p s l s') :
    Recorded s' (history ++ s.shows l) where
  log := by rw [hs.log_shows, h.log, List.filterMap_append]
  inside := hs.inside hsound.shaped h.inside
  returned t ref before after := h.step_returned
  keys t k o hmem := by
    have hkept : o < s.bound → (s.singletons o).key = k →
        o < s'.bound ∧ (s'.singletons o).key = k :=
      fun ho hkey => ⟨ho.trans_le hs.bound_le, by rw [hs.key_eq ho, hkey]⟩
    rcases List.mem_append.mp hmem with hold | hnew
    · obtain ⟨ho, hkey⟩ := h.keys t k o hold
      exact hkept ho hkey
    · obtain ⟨rest, top⟩ := State.shows_accessed hnew
      refine hkept ?_ (hsound.key_of_top top)
      rcases top with top | top <;>
        exact hsound.allocated.frames t _ (by rw [top]; exact .head _) o (by simp [Frame.pointers])
  refs r hr := by
    have hold : r ∈ s.refs → ∃ t holder, .returned t (holder, r.2) ∈ history ++ s.shows l :=
      fun hr => (h.refs r hr).imp fun t => Exists.imp fun holder => List.mem_append_left _
    cases hs
    case startCopy r' idle live =>
      rcases List.mem_cons.mp hr with rfl | hr
      · exact (h.refs r' live).imp fun t => Exists.imp fun holder => List.mem_append_left _
      · exact hold hr
    case getRef t o rest top =>
      rcases List.mem_cons.mp hr with rfl | hr
      · exact ⟨t, holderOf rest, by simp [State.shows, State.nextShows, top]⟩
      · exact hold hr
    case startDrop | dropRef => exact hold (List.mem_of_mem_erase hr)
    all_goals exact hold hr

/-- **Every run** keeps it. -/
theorem recorded_of_run [Inhabited K] {ls : List (Label K)}
    (h : Runs.run (step p) initial ls = some s) : Recorded s (p.history ls) := by
  apply Runs.run_along (I := fun ls s => Recorded s (p.history ls)) ?_ ?_ h
  · refine ⟨rfl, fun _ => trivial, ?_, nofun, nofun⟩
    intro t ref before after hnil
    simp [Program.history, Runs.trace] at hnil
  · intro ls s l s' hrun hs hstep
    rw [Program.history, Runs.trace_concat hrun]
    have hreach := Runs.reach_of_run hrun Runs.runMeets_always
    exact hs.step (Reach.sound hreach) (step_cases hstep)

/-- **Same instance.**  Two calls between whose accesses neither the entry nor all entries
are removed return the same instance. -/
theorem GetCall.same (h : Recorded s events) (hsound : Sound s) {t t' : Tid} {k : K}
    {ref ref' : Holder × Ptr} {before during after before' during' after' : List (Event K)}
    (hcall : GetCall events t k ref before during after)
    (hcall' : GetCall events t' k ref' before' during' after')
    (hle : before.length ≤ before'.length) (hremoved : .removed k ∉ before'.drop before.length)
    (hcleared : .cleared ∉ before'.drop before.length) : ref.2 = ref'.2 := by
  rcases hcall.between hcall' hle with heq | ⟨between, rfl⟩
  · exact heq
  · rw [List.drop_left] at hremoved hcleared
    have hlog := h.log
    rw [hcall'.happened] at hlog
    simp only [List.filterMap_append, List.filterMap_cons, Event.access] at hlog
    refine hsound.directory.stable.eq_of_kept hlog ⟨?_, ?_⟩
    · intro hmem
      obtain ⟨e, he, haccess⟩ := List.mem_filterMap.mp hmem
      cases e <;> cases haccess
      exact hremoved (.tail _ he)
    · intro hmem
      obtain ⟨e, he, haccess⟩ := List.mem_filterMap.mp hmem
      cases e <;> cases haccess
      exact hcleared (.tail _ he)

end SingletonStorage
