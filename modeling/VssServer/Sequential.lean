import VssServer.Retirement

/-!
# Sequential histories

A history is sequential when a client begins an operation only while no thread
is inside the storage, so that creations are finished by then.  At any point of
such a history the threads either all look up and create (`Getting`), or one
client releases and collects and every other thread is idle (`Releasing`); so
the windows that `Apart` closes never open.

* `Calm`: the threads get, or one client releases.
* `Reach.calm`: every sequential history is calm.
* `Calm.apart`: so the windows stay closed.
* `idle_of_run`: after a run every thread is idle, if its clients are.
-/

namespace SingletonStorage

variable {K : Type}

/-- No thread is inside a storage function. -/
def Idle (s : State K) : Prop :=
  ∀ t, s.stack t = []

/-- The side condition of a sequential history. -/
def Sequential (s : State K) (l : Label K) : Prop :=
  ∀ n op, l = .start n op → Idle s

/-- Every thread looks up, creates or waits. -/
def Getting (s : State K) : Prop :=
  ∀ t, ∀ f ∈ s.stack t, f.destroys = false ∧ f.collects = false

/-- Client `n` releases or collects, alone. -/
def Releasing (s : State K) (n : Nat) : Prop :=
  (∀ t, t ≠ .client n → s.stack t = []) ∧
    ∀ f ∈ s.stack (.client n), f.destroys ∨ f.collects

/-- What a client may begin while others look up, create or wait. -/
def Op.gets : Op K → Bool
  | .get _ | .value _ | .copy _ | .move _ => true
  | _ => false

/-- The two modes of a sequential history. -/
def Calm (s : State K) : Prop :=
  Getting s ∨ ∃ n, Releasing s n

/-- Where every thread is idle, none destroys or collects. -/
theorem Idle.getting {s : State K} (h : Idle s) : Getting s := by
  intro t f hf
  simp [h t] at hf

/-- An idle storage has handed out nothing. -/
theorem Idle.not_handed {s : State K} (h : Idle s) (o : Ptr) : ¬Handed s o := by
  rintro ⟨t, f, hf, -⟩
  simp [h t] at hf

/-- What is pending is so in a destructor. -/
theorem Frame.destroys_of_pending {f : Frame K} {o : Ptr} (h : f.pending = some o) :
    f.destroys := by
  cases f <;> first | rfl | cases h

/-- What is handed out is so in a `get`. -/
theorem Frame.of_handed {f : Frame K} {o : Ptr} (h : f.handed = some o) :
    f.destroys = false ∧ f.collects = false := by
  cases f <;> first | exact ⟨rfl, rfl⟩ | cases h

/-- In a calm state, two threads inside the storage are both getting, and a
thread that gets is not releasing. -/
theorem Calm.not_both {s : State K} (h : Calm s) {t t' : Tid} {f g : Frame K}
    (hf : f ∈ s.stack t) (hg : g ∈ s.stack t') (hfgets : f.destroys = false ∧ f.collects = false)
    (hg : g.destroys) : False := by
  rcases h with hgetting | ⟨n, hothers, hframes⟩
  · simp [(hgetting t' g ‹_›).1] at hg
  · by_cases ht : t = .client n
    · subst ht
      simpa [hfgets] using hframes f hf
    · simp [hothers t ht] at hf

/-- A calm state leaves drops and `get`s apart. -/
theorem Calm.apart {s : State K} {l : Label K} (h : Calm s) (hl : Sequential s l) :
    Apart s l where
  recycle := by
    rintro o ⟨t, k, rest, -, top⟩ ⟨t', f, hf, hpending⟩
    have htop : .getRecycle k o ∈ s.stack t := by simp [top]
    exact h.not_both htop hf ⟨rfl, rfl⟩ (Frame.destroys_of_pending hpending)
  drop := by
    rintro o ⟨-, ⟨n, hl'⟩ | ⟨t, v, rest, -, top⟩⟩
    · exact (hl n _ hl').not_handed o
    · rintro ⟨t', f, hf, hhanded⟩
      have htop : .dropValue v ∈ s.stack t := by simp [top]
      exact h.not_both hf htop (Frame.of_handed hhanded) rfl

variable [DecidableEq K] {p : Program K} {s s' : State K} {l : Label K}

/-- While clients only get, nothing is destroyed or collected. -/
theorem Step.stays_getting (hs : Step p s l s') (hl : ∀ n op, l = .start n op → op.gets)
    (h : Getting s) : Getting s' := by
  intro t f hf
  have htop : ∀ {t f rest}, s.stack t = f :: rest → f.destroys = false ∧ f.collects = false :=
    fun {t f rest} top => h t f (by simp [top])
  rcases hs.enters hf with hold | ⟨-, henters⟩ | hlaunches
  · exact h t f hold
  · cases henters with
    | startDrop label _ _ | releaseLast label _ _ | startCollect label | startClear label =>
        cases hl _ _ label
    | dropRef _ top _ _ | unrefLocked top | unrefUnlock top | unrefDelete top _ | unrefJoin _ top
    | gcJoin _ top _ _ | joinLast top _ | gcLock top _ | clearLock top _ | gcNext top
    | gcKeys top _ | gcErased top | gcDeleting _ top _ _ | gcUnlock top | clearCollected top _
    | clearDetach top | clearUnlock top =>
        simpa [Frame.destroys, Frame.collects] using htop top
    | _ => exact ⟨rfl, rfl⟩
  · cases hlaunches
    exact ⟨rfl, rfl⟩

/-- The threads that get go on getting. -/
theorem Step.getting (hs : Step p s l s') (hl : ∀ n op, l ≠ .start n op) (h : Getting s) :
    Getting s' :=
  hs.stays_getting (fun n op heq => absurd heq (hl n op)) h

/-- The thread that is alone stays so. -/
theorem Step.releasing (hs : Step p s l s') (hl : ∀ n op, l ≠ .start n op) {n : Nat}
    (h : Releasing s n) : Releasing s' n := by
  obtain ⟨hothers, hframes⟩ := h
  have htop : ∀ {t f rest}, s.stack t = f :: rest →
      t = .client n ∧ (f.destroys ∨ f.collects) := by
    intro t f rest top
    have ht : t = .client n := by
      by_contra ht
      simp [hothers t ht] at top
    subst ht
    exact ⟨rfl, hframes f (by simp [top])⟩
  constructor
  · intro t ht
    cases hs.moves with
    | stays label _ _ | starts label _ _ => exact absurd label (hl _ _)
    | pushes _ top _ eq | leaves _ top _ eq =>
        obtain ⟨rfl, -⟩ := htop top
        rw [eq, Function.update_of_ne ht, hothers t ht]
    | launches _ top _ => simpa [Frame.destroys, Frame.collects] using (htop top).2
  · intro f hf
    rcases hs.enters hf with hold | ⟨-, henters⟩ | hlaunches
    · exact hframes f hold
    · cases henters with
      | startGet label | startValue label _ => exact absurd label (hl _ _)
      | createGet top _ | getFind top _ | getRecycle top _ | getCreate top | getInsert top
      | recycled _ top _ | inserted top _ | getRef top | createValue top _ _
      | waitDeferred top _ => simpa [Frame.destroys, Frame.collects] using (htop top).2
      | _ => simp [Frame.destroys, Frame.collects]
    · cases hlaunches

/-- The first step of an operation decides the mode. -/
theorem Step.calm_of_start {n : Nat} {op : Op K} (hs : Step p s (.start n op) s')
    (h : Idle s) : Calm s' := by
  have hgoto : ∀ {frames : List (Frame K)}, (∀ f ∈ frames, f.destroys ∨ f.collects) →
      (∀ t, s'.stack t = Function.update s.stack (.client n) frames t) → Calm s' := by
    intro frames hframes hstack
    refine .inr ⟨n, fun t ht => ?_, fun f hf => ?_⟩
    · simp [hstack, ht, h t]
    · exact hframes f (by simpa [hstack] using hf)
  cases hs
  case startGet | startValue =>
    left
    intro t f hf
    by_cases ht : t = .client n
    · subst ht
      simp only [State.goto_stack, Function.update_self, List.mem_singleton] at hf
      subst hf
      exact ⟨rfl, rfl⟩
    · simp [ht, h t] at hf
  case startCopy | startMove | startRelease => exact .inl h.getting
  case startDrop => exact hgoto (by split <;> simp [Frame.destroys]) fun _ => rfl
  case startReleaseLast => exact hgoto (by simp [Frame.destroys]) fun _ => rfl
  case startCollect | startClear => exact hgoto (by simp [Frame.collects]) fun _ => rfl

/-- Every step of a sequential history keeps it calm. -/
theorem Step.calm (hs : Step p s l s') (hl : Sequential s l) (h : Calm s) : Calm s' := by
  by_cases hstart : ∃ n op, l = .start n op
  · obtain ⟨n, op, rfl⟩ := hstart
    exact hs.calm_of_start (hl n op rfl)
  · have hgoes : ∀ n op, l ≠ .start n op := fun n op heq => hstart ⟨n, op, heq⟩
    exact h.imp (hs.getting hgoes) fun ⟨n, hn⟩ => ⟨n, hs.releasing hgoes hn⟩

/-- A sequential history is calm. -/
theorem Reach.calm [Inhabited K] (h : Runs.Reach (step p) Sequential initial s) : Calm s :=
  h.invariant (.inl fun _ _ hf => by cases hf) fun _ _ _ hs hok hstep =>
    (step_cases hstep).calm hok hs

/-- Sequential histories keep drops and `get`s apart. -/
theorem Reach.apart [Inhabited K] (h : Runs.Reach (step p) Sequential initial s) :
    Runs.Reach (step p) Apart initial s :=
  h.weaken (fun _ => Reach.calm) fun _ _ _ hcalm hok _ => hcalm.apart hok

/-- Without asynchronous creations a step leaves the other threads alone. -/
theorem Step.stack_eq (hs : Step p s l s') (hasync : ∀ k, p.async k = false) {t : Tid}
    (ht : t ≠ l.tid) : s'.stack t = s.stack t := by
  cases hs <;> simp_all [Label.tid]

/-- Threads that take no step of a run keep their frames. -/
theorem run_stack_eq (hasync : ∀ k, p.async k = false) {ls : List (Label K)}
    (hrun : Runs.run (step p) s ls = some s') {t : Tid} (ht : ∀ l ∈ ls, t ≠ l.tid) :
    s'.stack t = s.stack t := by
  induction ls generalizing s with
  | nil => cases hrun; rfl
  | cons l ls ih =>
      obtain ⟨m, hstep, hrest⟩ := Option.bind_eq_some_iff.mp hrun
      rw [ih hrest fun l hmem => ht l (.tail _ hmem)]
      exact (step_cases hstep).stack_eq hasync (ht l (.head _))

/-- A client that uses the storage alone runs sequentially. -/
theorem reach_of_solo (hasync : ∀ k, p.async k = false) {n : Nat} {ls : List (Label K)}
    (hls : ∀ l ∈ ls, l.tid = .client n) (hothers : ∀ t, t ≠ .client n → s.stack t = [])
    (hrun : Runs.run (step p) s ls = some s') : Runs.Reach (step p) Sequential s s' := by
  induction ls generalizing s with
  | nil => cases hrun; exact .refl
  | cons l ls ih =>
      obtain ⟨m, hstep, hrest⟩ := Option.bind_eq_some_iff.mp hrun
      have hl : l.tid = .client n := hls l (by simp)
      have hok : Sequential s l := by
        rintro n' op rfl t
        by_cases ht : t = .client n
        · obtain ⟨hidle, -⟩ := Option.ite_none_right_eq_some.mp hstep
          rw [ht, ← hl]
          exact hidle
        · exact hothers t ht
      have hm : ∀ t, t ≠ .client n → m.stack t = [] := fun t ht => by
        rw [(step_cases hstep).stack_eq hasync (hl ▸ ht)]
        exact hothers t ht
      exact (Runs.Reach.tail .refl hok hstep).trans
        (ih (fun l hmem => hls l (.tail _ hmem)) hm hrest)

/-- Where the clients of a run are outside of the storage at its end, and nobody else was
inside of it, every thread is outside. -/
theorem idle_of_run (hasync : ∀ k, p.async k = false) {ls : List (Label K)} {P : Tid → Prop}
    (hls : ∀ l ∈ ls, P l.tid) (hothers : ∀ t, ¬P t → s.stack t = [])
    (hrun : Runs.run (step p) s ls = some s') (hdone : ∀ t, P t → s'.stack t = []) :
    Idle s' := by
  intro t
  by_cases ht : P t
  · exact hdone t ht
  · have hnot : ∀ l ∈ ls, t ≠ l.tid := fun l hl heq => ht (heq ▸ hls l hl)
    rw [run_stack_eq hasync hrun hnot, hothers t ht]

/-- Where the only client of a storage is outside of it, every thread is. -/
theorem idle_of_solo (hasync : ∀ k, p.async k = false) {n : Nat} {ls : List (Label K)}
    (hls : ∀ l ∈ ls, l.tid = .client n) (hothers : ∀ t, t ≠ .client n → s.stack t = [])
    (hrun : Runs.run (step p) s ls = some s') (hdone : s'.stack (.client n) = []) :
    Idle s' :=
  idle_of_run (P := fun t => t = .client n) hasync hls hothers hrun fun _ ht => ht ▸ hdone

end SingletonStorage
