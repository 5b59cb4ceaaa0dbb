import Mathlib.Logic.Function.Basic
import VssServer.Runs

/-!
# Critical sections under a spin lock

Threads that take a flag by `testAndSet`, go through a section step by step and `clear`
the flag, beside threads that perform a section at once.  What a section does is a
parameter: a partial function of what is shared and of the thread's own state, undefined
where the section ends.  Every run of the first machine is one of the second, with the
same sections in the order in which they end: `atomic_of_locked`.

* `Locked`: threads that go through their sections under the flag, step by step.
* `Atomic`: threads that perform each section at once.
* `Simulates`: how a state of the second machine goes with one of the first.
* `atomic_of_locked`: what happens under the lock happens at once, in the order in which
  sections end.
-/

namespace CriticalSections

variable {ι σ α : Type}

/-- Where a thread is with the lock. -/
inductive Phase
  | outside
  | spinning
  | inside
  deriving DecidableEq

/-- The threads and the flag.  `history` has the sections that have ended. -/
structure Locked (ι σ α : Type) where
  flag : Bool
  shared : σ
  phase : ι → Phase
  task : ι → α
  history : List (ι × α)

/-- A step of a thread. -/
inductive LockLabel (ι α : Type)
  | call (i : ι) (a : α)
  | testAndSet (i : ι)
  | go (i : ι)
  | clear (i : ι)

/-- The section that a thread goes for. -/
def LockLabel.called? : LockLabel ι α → Option α
  | .call _ a => some a
  | _ => none

/-- Where no thread is in a section. -/
def Locked.start (shared : σ) (task : ι → α) : Locked ι σ α where
  flag := false
  shared := shared
  phase _ := .outside
  task := task
  history := []

variable [DecidableEq ι]

/-- One step of a thread; `testAndSet` leaves a flag that is set. -/
def Locked.step (body : σ → α → Option (σ × α)) (s : Locked ι σ α) :
    LockLabel ι α → Option (Locked ι σ α)
  | .call i a =>
      if s.phase i = .outside then
        some { s with
          phase := Function.update s.phase i .spinning
          task := Function.update s.task i a }
      else none
  | .testAndSet i =>
      if s.phase i = .spinning then
        if s.flag then some s
        else some { s with flag := true, phase := Function.update s.phase i .inside }
      else none
  | .go i =>
      if s.phase i = .inside then
        (body s.shared (s.task i)).map fun next =>
          { s with shared := next.1, task := Function.update s.task i next.2 }
      else none
  | .clear i =>
      if s.phase i = .inside ∧ (body s.shared (s.task i)).isNone then
        some { s with
          flag := false
          phase := Function.update s.phase i .outside
          history := s.history ++ [(i, s.task i)] }
      else none

/-- The threads with sections that are performed at once. -/
structure Atomic (ι σ α : Type) where
  shared : σ
  waiting : ι → Bool
  task : ι → α
  history : List (ι × α)

/-- `perform` takes the `n` steps that the section has. -/
inductive AtomicLabel (ι α : Type)
  | call (i : ι) (a : α)
  | perform (i : ι) (n : Nat)

def AtomicLabel.called? : AtomicLabel ι α → Option α
  | .call _ a => some a
  | _ => none

def Atomic.start (shared : σ) (task : ι → α) : Atomic ι σ α where
  shared := shared
  waiting _ := false
  task := task
  history := []

/-- `n` steps of a section. -/
def iterate (body : σ → α → Option (σ × α)) : Nat → σ × α → Option (σ × α)
  | 0, x => some x
  | n + 1, x => (iterate body n x).bind fun y => body y.1 y.2

def Atomic.step (body : σ → α → Option (σ × α)) (s : Atomic ι σ α) :
    AtomicLabel ι α → Option (Atomic ι σ α)
  | .call i a =>
      if s.waiting i = false then
        some { s with
          waiting := Function.update s.waiting i true
          task := Function.update s.task i a }
      else none
  | .perform i n =>
      if s.waiting i then
        match iterate body n (s.shared, s.task i) with
        | some (shared, a) =>
            if (body shared a).isNone then
              some {
                shared := shared
                waiting := Function.update s.waiting i false
                task := Function.update s.task i a
                history := s.history ++ [(i, a)] }
            else none
        | none => none
      else none

/-- The thread in its section is `n` steps ahead. -/
structure Ahead (body : σ → α → Option (σ × α)) (a : Atomic ι σ α) (s : Locked ι σ α) (i : ι) :
    Prop where
  inside : s.phase i = .inside
  alone : ∀ j, s.phase j = .inside → j = i
  steps : ∃ n, iterate body n (a.shared, a.task i) = some (s.shared, s.task i)

/-- The atomic state that the threads are seen in. -/
structure Simulates (body : σ → α → Option (σ × α)) (a : Atomic ι σ α) (s : Locked ι σ α) :
    Prop where
  history : a.history = s.history
  waiting : ∀ i, a.waiting i = true ↔ s.phase i ≠ .outside
  task : ∀ i, s.phase i ≠ .inside → a.task i = s.task i
  free : s.flag = false → a.shared = s.shared ∧ ∀ i, s.phase i ≠ .inside
  held : s.flag = true → ∃ i, Ahead body a s i

variable {body : σ → α → Option (σ × α)} {a : Atomic ι σ α} {s s' : Locked ι σ α}

theorem Atomic.step_perform {i : ι} {n : Nat} {shared : σ} {t : α} (hwaiting : a.waiting i = true)
    (hsteps : iterate body n (a.shared, a.task i) = some (shared, t))
    (hend : (body shared t).isNone = true) :
    a.step body (.perform i n) =
      some {
        shared := shared
        waiting := Function.update a.waiting i false
        task := Function.update a.task i t
        history := a.history ++ [(i, t)] } := by
  simp [Atomic.step, hwaiting, hsteps, hend]

namespace Simulates

omit [DecidableEq ι] in
theorem start (shared : σ) (task : ι → α) :
    Simulates body (Atomic.start shared task) (Locked.start shared task) where
  history := rfl
  waiting i := by simp [Atomic.start, Locked.start]
  task _ _ := rfl
  free _ := ⟨rfl, fun _ => nofun⟩
  held := nofun

omit [DecidableEq ι] in
/-- A thread in its section holds the flag. -/
theorem ahead (h : Simulates body a s) {i : ι} (hi : s.phase i = .inside) :
    s.flag = true ∧ Ahead body a s i := by
  have hflag : s.flag = true := by
    by_contra hfree
    exact (h.free (by simpa using hfree)).2 i hi
  obtain ⟨j, hj⟩ := h.held hflag
  obtain rfl := hj.alone i hi
  exact ⟨hflag, hj⟩

theorem call (h : Simulates body a s) {i : ι} {t : α} (hout : s.phase i = .outside) :
    Simulates body
      { a with
        waiting := Function.update a.waiting i true
        task := Function.update a.task i t }
      { s with
        phase := Function.update s.phase i .spinning
        task := Function.update s.task i t } where
  history := h.history
  waiting j := by
    by_cases hj : j = i
    · simp [hj]
    · simp [hj, h.waiting j]
  task j hne := by
    by_cases hj : j = i
    · simp [hj]
    · simpa [hj] using h.task j (by simpa [hj] using hne)
  free hfree := by
    refine ⟨(h.free hfree).1, fun j => ?_⟩
    by_cases hj : j = i
    · simp [hj]
    · simpa [hj] using (h.free hfree).2 j
  held hheld := by
    obtain ⟨k, hk⟩ := h.held hheld
    have hki : k ≠ i := by
      rintro rfl
      simp [hk.inside] at hout
    refine ⟨k, ⟨by simp [hki, hk.inside], fun j hj => ?_, by simpa [hki] using hk.steps⟩⟩
    by_cases hji : j = i
    · simp [hji] at hj
    · exact hk.alone j (by simpa [hji] using hj)

/-- The flag is taken. -/
theorem take (h : Simulates body a s) {i : ι} (hspin : s.phase i = .spinning)
    (hfree : s.flag = false) :
    Simulates body a { s with flag := true, phase := Function.update s.phase i .inside } where
  history := h.history
  waiting j := by
    by_cases hj : j = i
    · simp [hj, h.waiting, hspin]
    · simp [hj, h.waiting j]
  task j hne := by
    have hj : j ≠ i := by
      rintro rfl
      simp at hne
    exact h.task j (by simpa [hj] using hne)
  free := nofun
  held _ := by
    obtain ⟨hshared, hnobody⟩ := h.free hfree
    refine ⟨i, ⟨by simp, fun j hj => ?_, 0, ?_⟩⟩
    · by_contra hji
      exact hnobody j (by simpa [hji] using hj)
    · simp [iterate, hshared, h.task i (by simp [hspin])]

/-- The thread goes on in its section. -/
theorem go (h : Simulates body a s) {i : ι} (hi : s.phase i = .inside) {next : σ × α}
    (hbody : body s.shared (s.task i) = some next) :
    Simulates body a
      { s with shared := next.1, task := Function.update s.task i next.2 } where
  history := h.history
  waiting := h.waiting
  task j hne := by
    have hj : j ≠ i := by
      rintro rfl
      exact hne hi
    simpa [hj] using h.task j hne
  free hfree := absurd hi ((h.free hfree).2 i)
  held _ := by
    obtain ⟨-, hahead⟩ := h.ahead hi
    obtain ⟨n, hn⟩ := hahead.steps
    exact ⟨i, ⟨hi, hahead.alone, n + 1, by simp [iterate, hn, hbody]⟩⟩

/-- The section ends: it is performed. -/
theorem clear (h : Simulates body a s) {i : ι} (hi : s.phase i = .inside)
    (hend : (body s.shared (s.task i)).isNone = true) :
    ∃ n a', Atomic.step body a (.perform i n) = some a' ∧
      Simulates body a'
        { s with
          flag := false
          phase := Function.update s.phase i .outside
          history := s.history ++ [(i, s.task i)] } := by
  obtain ⟨-, hahead⟩ := h.ahead hi
  obtain ⟨n, hn⟩ := hahead.steps
  have hwaiting : a.waiting i = true := (h.waiting i).mpr (by simp [hi])
  refine ⟨n, _, Atomic.step_perform hwaiting hn hend, ?_⟩
  refine ⟨?_, fun j => ?_, fun j hne => ?_, fun _ => ⟨rfl, fun j => ?_⟩, nofun⟩
  · simp [h.history]
  · by_cases hj : j = i
    · simp [hj]
    · simp [hj, h.waiting j]
  · by_cases hj : j = i
    · simp [hj]
    · simpa [hj] using h.task j (by simpa [hj] using hne)
  · by_cases hj : j = i
    · simp [hj]
    · simpa [hj] using fun hinside => hj (hahead.alone j hinside)

end Simulates

/-- The side condition: threads go for sections with `P` only. -/
def Calling (P : α → Prop) (_ : Locked ι σ α) (l : LockLabel ι α) : Prop :=
  ∀ t ∈ l.called?, P t

instance (P : α → Prop) [DecidablePred P] (s : Locked ι σ α) (l : LockLabel ι α) :
    Decidable (Calling P s l) :=
  inferInstanceAs (Decidable (∀ t ∈ l.called?, P t))

def Atomic.Calling (P : α → Prop) (_ : Atomic ι σ α) (l : AtomicLabel ι α) : Prop :=
  ∀ t ∈ l.called?, P t

/-- A step of a thread is no step of the atomic machine, or one that calls the same. -/
theorem Simulates.step (h : Simulates body a s) {l : LockLabel ι α}
    (hstep : s.step body l = some s') :
    Simulates body a s' ∨
      ∃ l' a', l'.called? = l.called? ∧ a.step body l' = some a' ∧ Simulates body a' s' := by
  cases l with
  | call i t =>
      obtain ⟨hout, hstep⟩ := Option.ite_none_right_eq_some.mp hstep
      obtain rfl := Option.some.inj hstep
      have hnot : a.waiting i = false := by simpa [hout] using h.waiting i
      exact .inr ⟨.call i t, _, rfl, by simp [Atomic.step, hnot], h.call hout⟩
  | testAndSet i =>
      obtain ⟨hspin, hstep⟩ := Option.ite_none_right_eq_some.mp hstep
      left
      by_cases hflag : s.flag = true
      · rw [if_pos hflag] at hstep
        obtain rfl := Option.some.inj hstep
        exact h
      · rw [if_neg hflag] at hstep
        obtain rfl := Option.some.inj hstep
        exact h.take hspin (by simpa using hflag)
  | go i =>
      obtain ⟨hi, hstep⟩ := Option.ite_none_right_eq_some.mp hstep
      obtain ⟨next, hbody, rfl⟩ := Option.map_eq_some_iff.mp hstep
      exact .inl (h.go hi hbody)
  | clear i =>
      obtain ⟨⟨hi, hend⟩, hstep⟩ := Option.ite_none_right_eq_some.mp hstep
      obtain rfl := Option.some.inj hstep
      obtain ⟨n, a', hperform, hsim⟩ := h.clear hi hend
      exact .inr ⟨.perform i n, a', rfl, hperform, hsim⟩

/-- **Atomicity.**  What threads do under the lock is what they do with sections that are
performed at once, in the order in which they end. -/
theorem atomic_of_locked {P : α → Prop} {shared : σ} {task : ι → α}
    (h : Runs.Reach (Locked.step body) (Calling P) (Locked.start shared task) s) :
    ∃ a, Runs.Reach (Atomic.step body) (Atomic.Calling P) (Atomic.start shared task) a ∧
      Simulates body a s := by
  apply h.invariant (I := fun s => ∃ a, Runs.Reach (Atomic.step body) (Atomic.Calling P)
    (Atomic.start shared task) a ∧ Simulates body a s)
  · exact ⟨_, .refl, .start shared task⟩
  · rintro s l s' ⟨a, ha, hsim⟩ hcalls hstep
    rcases hsim.step hstep with hsame | ⟨l', a', hcalled, hstep', hsim'⟩
    · exact ⟨a, ha, hsame⟩
    · refine ⟨a', ha.tail ?_ hstep', hsim'⟩
      intro t ht
      exact hcalls t (hcalled ▸ ht)

end CriticalSections
