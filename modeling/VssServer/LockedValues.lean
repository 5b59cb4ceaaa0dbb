import VssServer.CriticalSections

/-!
# The value of an attribute under its lock

`getValue`, `setValue` and `mutateValue` of a cached attribute take its `SpinLock`.  They
read and write the value field by field, and call the slots of `signal` before they release
the lock.  The value is a register all the same: `getValue` never sees half of a change,
and slots see exactly what was stored.

* `Legal`: the history of a register whose value has fields.
* `Within.step`: a call goes through its section field by field.
* `values_linearizable`: the history of the calls is legal, in the order of their sections.
-/

namespace CommonAPI.LockedValue

open CriticalSections

variable {ι F W : Type} [DecidableEq F]

/-- What a thread calls; a `mutateValue` carries what the remote service answers to the
`changeValue` of this call, and nothing where it gives no answer. -/
inductive Access (F W : Type)
  | getValue
  | setValue (value : F → W)
  | mutateValue (input : F → W) (changed : Option (F → W))

/-- How far it is, under the lock. -/
inductive Progress (F W : Type)
  | begun
  | copying (copied : List (F × W)) (remaining : List F)
  | storing (value : F → W) (remaining : List F)
  | signalled (seen : F → W)

def Progress.isBegun : Progress F W → Bool
  | .begun => true
  | _ => false

/-- One step under the lock.  `changeValue` throws where the remote service gives no answer:
the guard releases the lock. -/
def body (fields : List F) (m_value : F → W) :
    Access F W × Progress F W → Option ((F → W) × (Access F W × Progress F W))
  | (.getValue, .begun) => some (m_value, .getValue, .copying [] fields)
  | (.setValue value, .begun) => some (m_value, .setValue value, .storing value fields)
  | (.mutateValue input changed, .begun) =>
      changed.map fun value => (m_value, .mutateValue input changed, .storing value fields)
  | (access, .copying copied (f :: rest)) =>
      some (m_value, access, .copying (copied ++ [(f, m_value f)]) rest)
  | (access, .storing value (f :: rest)) =>
      some (Function.update m_value f (value f), access, .storing value rest)
  | (access, .storing _ []) => some (m_value, access, .signalled m_value)
  | (_, .copying _ []) | (_, .signalled _) => none

/-- The accesses that a register with the `initial` value can make one after the other,
and what it has then. -/
inductive Legal (fields : List F) (initial : F → W) :
    List (ι × Access F W × Progress F W) → (F → W) → Prop
  | nil : Legal fields initial [] initial
  | getValue {history m i} (before : Legal fields initial history m) :
      Legal fields initial
        (history ++ [(i, .getValue, .copying (fields.map fun f => (f, m f)) [])]) m
  | setValue {history m i value} (before : Legal fields initial history m) :
      Legal fields initial
        (history ++ [(i, .setValue value, .signalled value)]) value
  | mutateValue {history m i input value} (before : Legal fields initial history m) :
      Legal fields initial
        (history ++ [(i, .mutateValue input (some value), .signalled value)]) value
  | failed {history m i input} (before : Legal fields initial history m) :
      Legal fields initial (history ++ [(i, .mutateValue input none, .begun)]) m

/-- What a thread that has begun with the value `m` has read or stored so far. -/
def Within (fields : List F) (m : F → W) (m_value : F → W) : Access F W × Progress F W → Prop
  | (_, .begun) => m_value = m
  | (access, .copying copied remaining) =>
      access = .getValue ∧ m_value = m ∧
        copied ++ remaining.map (fun f => (f, m f)) = fields.map fun f => (f, m f)
  | (access, .storing value remaining) =>
      (access = .setValue value ∨
        ∃ input, access = .mutateValue input (some value)) ∧
      ∀ f ∈ fields, f ∈ remaining ∨ m_value f = value f
  | (access, .signalled seen) =>
      (access = .setValue seen ∨
        ∃ input, access = .mutateValue input (some seen)) ∧ m_value = seen

variable {fields : List F} {m m_value : F → W}

theorem Within.step (hall : ∀ f, f ∈ fields) {t : Access F W × Progress F W}
    (h : Within fields m m_value t) {next : (F → W) × (Access F W × Progress F W)}
    (hbody : body fields m_value t = some next) :
    Within fields m next.1 next.2 := by
  unfold body at hbody
  split at hbody
  case h_1 =>
    cases hbody
    exact ⟨rfl, h, rfl⟩
  case h_2 =>
    cases hbody
    exact ⟨.inl rfl, fun f hf => .inl hf⟩
  case h_3 =>
    obtain ⟨value, rfl, rfl⟩ := Option.map_eq_some_iff.mp hbody
    exact ⟨.inr ⟨_, rfl⟩, fun f hf => .inl hf⟩
  case h_4 =>
    cases hbody
    obtain ⟨haccess, rfl, hcopied⟩ := h
    exact ⟨haccess, rfl, by simpa using hcopied⟩
  case h_5 access value f rest =>
    cases hbody
    refine ⟨h.1, fun f' hf' => ?_⟩
    by_cases heq : f' = f
    · exact .inr (by simp [heq])
    · show f' ∈ rest ∨ Function.update m_value f (value f) f' = value f'
      rw [Function.update_of_ne heq]
      exact (h.2 f' hf').imp_left fun hmem => (List.mem_cons.mp hmem).resolve_left heq
  case h_6 access value =>
    cases hbody
    have hstored : m_value = value := funext fun f => (h.2 f (hall f)).resolve_left nofun
    exact ⟨hstored ▸ h.1, rfl⟩
  all_goals cases hbody

/-- A section that has begun with `m` goes on from it. -/
theorem within_iterate (hall : ∀ f, f ∈ fields) {access : Access F W} {n : Nat}
    {next : (F → W) × (Access F W × Progress F W)}
    (h : iterate (body fields) n (m, access, .begun) = some next) :
    Within fields m next.1 next.2 := by
  induction n generalizing next with
  | zero =>
      cases h
      rfl
  | succ n ih =>
      obtain ⟨before, hbefore, hbody⟩ := Option.bind_eq_some_iff.mp h
      exact (ih hbefore).step hall hbody

/-- Where it ends, it has made a legal access. -/
theorem Legal.perform {initial : F → W} {history : List (ι × Access F W × Progress F W)}
    (h : Legal fields initial history m) {t : Access F W × Progress F W}
    (hwithin : Within fields m m_value t)
    (hend : (body fields m_value t).isNone = true) (i : ι) :
    Legal fields initial (history ++ [(i, t)]) m_value := by
  obtain ⟨access, progress⟩ := t
  cases progress with
  | begun =>
      obtain rfl : m_value = m := hwithin
      cases access with
      | mutateValue input changed =>
          obtain rfl : changed = none := by simpa [body] using hend
          exact h.failed
      | _ => simp [body] at hend
  | copying copied remaining =>
      obtain ⟨rfl, rfl, hcopied⟩ := hwithin
      cases remaining with
      | nil =>
          obtain rfl : copied = _ := by simpa using hcopied
          exact h.getValue
      | cons f rest => simp [body] at hend
  | storing value remaining => cases remaining <;> simp [body] at hend
  | signalled seen =>
      obtain ⟨haccess, rfl⟩ := hwithin
      rcases haccess with rfl | ⟨input, rfl⟩
      · exact h.setValue
      · exact h.mutateValue

/-- What a thread calls has not begun. -/
def Begun (t : Access F W × Progress F W) : Prop :=
  t.2.isBegun = true

instance (t : Access F W × Progress F W) : Decidable (Begun t) :=
  inferInstanceAs (Decidable (_ = _))

omit [DecidableEq F] in
theorem Begun.eq {t : Access F W × Progress F W} (h : Begun t) : t = (t.1, .begun) := by
  obtain ⟨access, progress⟩ := t
  cases progress with
  | begun => rfl
  | _ => cases h

variable [DecidableEq ι]

/-- The threads, in front of an attribute with the `initial` value. -/
def start (initial : F → W) : Locked ι (F → W) (Access F W × Progress F W) :=
  .start initial fun _ => (.getValue, .begun)

/-- The atomic accesses are legal. -/
theorem Reach.legal (hall : ∀ f, f ∈ fields) {initial : F → W}
    {a : Atomic ι (F → W) (Access F W × Progress F W)}
    (h : Runs.Reach (Atomic.step (body fields))
      (Atomic.Calling Begun) (Atomic.start initial fun _ => (.getValue, .begun)) a) :
    Legal fields initial a.history a.shared := by
  have hall' : Legal fields initial a.history a.shared ∧
      ∀ i, a.waiting i = true → Begun (a.task i) := by
    apply h.invariant (I := fun a => Legal fields initial a.history a.shared ∧
      ∀ i, a.waiting i = true → Begun (a.task i))
    · exact ⟨.nil, nofun⟩
    · rintro a l a' ⟨hlegal, hbegun⟩ hcalls hstep
      cases l with
      | call i t =>
          obtain ⟨-, hstep⟩ := Option.ite_none_right_eq_some.mp hstep
          obtain rfl := Option.some.inj hstep
          refine ⟨hlegal, fun j hj => ?_⟩
          by_cases hji : j = i
          · subst hji
            simpa using hcalls t rfl
          · simpa [hji] using hbegun j (by simpa [hji] using hj)
      | perform i n =>
          obtain ⟨hwaiting, hstep⟩ := Option.ite_none_right_eq_some.mp hstep
          split at hstep
          · rename_i shared t hsteps
            obtain ⟨hend, hstep⟩ := Option.ite_none_right_eq_some.mp hstep
            obtain rfl := Option.some.inj hstep
            rw [(hbegun i hwaiting).eq] at hsteps
            have hwithin := within_iterate hall hsteps
            refine ⟨hlegal.perform hwithin hend i, fun j hj => ?_⟩
            by_cases hji : j = i
            · simp [hji] at hj
            · simpa [hji] using hbegun j (by simpa [hji] using hj)
          · cases hstep
  exact hall'.1

/-- **A linearizable value.**  Whatever threads access the value under the spin lock, one
step at a time and in any order of their steps, at most one is inside, the flag is set
while it is, and what they have read, stored and signalled are the accesses of a register
one after the other, in the order in which they ended. -/
theorem values_linearizable (hall : ∀ f, f ∈ fields) {initial : F → W}
    {s : Locked ι (F → W) (Access F W × Progress F W)}
    (h : Runs.Reach (Locked.step (body fields)) (Calling Begun)
      (start initial) s) :
    (∀ i j, s.phase i = .inside → s.phase j = .inside → i = j) ∧
      (s.flag = true ↔ ∃ i, s.phase i = .inside) ∧
      ∃ m, Legal fields initial s.history m ∧ (s.flag = false → s.shared = m) := by
  obtain ⟨a, ha, hsim⟩ := atomic_of_locked h
  refine ⟨fun i j hi hj => (hsim.ahead hj).2.alone i hi, ⟨fun hflag => ?_, ?_⟩, a.shared, ?_, ?_⟩
  · obtain ⟨i, hi⟩ := hsim.held hflag
    exact ⟨i, hi.inside⟩
  · rintro ⟨i, hi⟩
    exact (hsim.ahead hi).1
  · rw [← hsim.history]
    exact Reach.legal hall ha
  · intro hfree
    exact (hsim.free hfree).1.symm

/-- Thread 1 waits for thread 0 to store both coordinates that the remote service answers. -/
def storePoint : List (LockLabel Nat (Access Bool Nat × Progress Bool Nat)) :=
  [.call 0 (.mutateValue (fun _ => 3) (some fun f => if f then 3 else 4), .begun),
    .testAndSet 0, .go 0, .go 0, .call 1 (.getValue, .begun), .testAndSet 1, .go 0, .go 0,
    .clear 0, .testAndSet 1, .go 1, .go 1, .go 1, .clear 1]

theorem values_linearizable_storePoint :
    ∃ s, Runs.run (Locked.step (body [false, true]))
        (start fun _ => 0) storePoint = some s ∧
      (s.history.map Prod.fst) = [0, 1] ∧
      (∃ m, Legal [false, true] (fun _ => 0) s.history m ∧
        (s.flag = false → s.shared = m)) := by
  have hrun : Runs.run (Locked.step (body [false, true]))
      (start fun _ => 0) storePoint = some _ := rfl
  have hreach := Runs.reach_of_run hrun (by decide : Runs.RunMeets _ (Calling Begun) _ _)
  exact ⟨_, hrun, rfl, (values_linearizable (by simp) hreach).2.2⟩

end CommonAPI.LockedValue
