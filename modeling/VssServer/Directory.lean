import Mathlib.Data.Set.Insert
import Mathlib.Logic.Function.Basic
import Mathlib.Tactic.Common

/-!
# A directory of instances behind one lock

A directory holds at most one instance for each key.  Whoever owns its lock
is in some `Phase`: it looks a key up and either finds the entry or creates an
instance and enters it, or it retires entries one at a time, or it detaches
all of them and empties the directory.  `Step` is the only way a directory
changes; `Valid` is the invariant, and everything that holds while the lock is
free, such as the uniqueness of the instance of a key, is read off `Valid` at
the phase `none`.

Keys and instances are arbitrary types.  `log` is the history of the accesses
in the order in which they took effect, and `current` replays it.

* `Valid`: the invariant of a directory, with its phase.
* `Step.valid`: every change keeps a directory valid.
* `Step.log_stable`: two accesses to a key have the same instance, unless it was removed in
  between.
-/

namespace Directory

variable {K O : Type}

/-- An access: an instance was determined for a key, an entry was retired, or
the directory was emptied. -/
inductive Event (K O : Type)
  | got (key : K) (o : O)
  | removed (key : K)
  | cleared
  deriving DecidableEq

/-- What the owner of the lock is doing.  `retiring (some k)` has destroyed the
instance at `k` and is about to remove the entry. -/
inductive Phase (K O : Type)
  | lookup (key : K)
  | found (key : K) (o : O)
  | creating (key : K) (o : O)
  | created (key : K) (o : O)
  | retiring (current : Option K)
  | detaching (remaining : List O)
  | leaving

/-- The entries, the instances known so far with the facts about each, and the
phase of the owner of the lock. -/
@[ext]
structure State (K O : Type) where
  entry : K → Option O
  known : Set O
  key : O → K
  attached : O → Prop
  deleted : O → Prop
  created : O → Nat
  phase : Option (Phase K O)
  log : List (Event K O)

/-- The instance of `k` after the accesses of a history. -/
def current [DecidableEq K] (k : K) : List (Event K O) → Option O :=
  List.foldl (fun now e => match e with
    | .got k' o => if k' = k then some o else now
    | .removed k' => if k' = k then none else now
    | .cleared => none) none

/-- Every access determines the instance that its key has at that point. -/
def Stable [DecidableEq K] (log : List (Event K O)) : Prop :=
  ∀ before after k o, log = before ++ .got k o :: after →
    ∀ o', current k before = some o' → o' = o

/-- How a directory changes. -/
inductive Step [DecidableEq K] [DecidableEq O] : State K O → State K O → Prop
  | stay {d} : Step d d
  | lock {d ph} (free : d.phase = none) (first : (∃ k, ph = .lookup k) ∨ ph = .retiring none) :
      Step d { d with phase := some ph }
  | find {d k o} (here : d.phase = some (.lookup k)) (entry : d.entry k = some o) :
      Step d { d with phase := some (.found k o) }
  | recycle {d k o} (here : d.phase = some (.found k o)) :
      Step d { d with phase := some .leaving, log := d.log ++ [.got k o] }
  | allocate {d k o} (here : d.phase = some (.lookup k)) (entry : d.entry k = none)
      (new : o ∉ d.known) :
      Step d
        { d with
          known := insert o d.known
          key := Function.update d.key o k
          attached := Function.update d.attached o True
          deleted := Function.update d.deleted o False
          created := Function.update d.created o 0
          phase := some (.creating k o) }
  | create {d k o} (here : d.phase = some (.creating k o)) :
      Step d
        { d with
          created := Function.update d.created o (d.created o + 1)
          phase := some (.created k o) }
  | enter {d k o} (here : d.phase = some (.created k o)) :
      Step d
        { d with
          entry := Function.update d.entry k (some o)
          phase := some .leaving
          log := d.log ++ [.got k o] }
  | unlock {d} (here : d.phase = some .leaving) : Step d { d with phase := none }
  | retire {d k o} (here : d.phase = some (.retiring none)) (entry : d.entry k = some o) :
      Step d
        { d with
          deleted := Function.update d.deleted o True
          phase := some (.retiring (some k)) }
  | remove {d k} (here : d.phase = some (.retiring (some k))) :
      Step d
        { d with
          entry := Function.update d.entry k none
          phase := some (.retiring none)
          log := d.log ++ [.removed k] }
  | retired {d} (here : d.phase = some (.retiring none)) : Step d { d with phase := some .leaving }
  | detachAll {d remaining} (here : d.phase = some (.retiring none))
      (all : ∀ k o, d.entry k = some o → o ∈ remaining) :
      Step d { d with phase := some (.detaching remaining) }
  | detach {d o remaining} (here : d.phase = some (.detaching remaining)) :
      Step d
        { d with
          attached := Function.update d.attached o False
          phase := some (.detaching (remaining.erase o)) }
  | empty {d} (here : d.phase = some (.detaching [])) :
      Step d
        { d with
          entry := fun _ => none
          phase := some .leaving
          log := d.log ++ [.cleared] }
  | deleteDetached {d o} (detached : ¬d.attached o) :
      Step d { d with deleted := Function.update d.deleted o True }

/-- **The directory invariant.**  Entries are attached living instances of
their own key unless the owner of the lock is just removing or detaching them,
every attached living instance is an entry or about to become one, and the
history replays to the entries. -/
structure Valid [DecidableEq K] (d : State K O) : Prop where
  key : ∀ k o, d.entry k = some o → d.key o = k
  known : ∀ k o, d.entry k = some o → o ∈ d.known
  attached : ∀ k o, d.entry k = some o →
    d.attached o ∨ ∃ remaining, d.phase = some (.detaching remaining)
  detaching : ∀ remaining, d.phase = some (.detaching remaining) →
    ∀ k o, d.entry k = some o → d.attached o → o ∈ remaining
  alive : ∀ k o, d.entry k = some o → d.attached o → d.deleted o →
    d.phase = some (.retiring (some k))
  retiring : ∀ k o, d.phase = some (.retiring (some k)) → d.entry k = some o → d.deleted o
  found : ∀ k o, d.phase = some (.found k o) → d.entry k = some o
  pending : ∀ k o, d.phase = some (.creating k o) ∨ d.phase = some (.created k o) →
    d.key o = k ∧ d.entry k = none ∧ o ∈ d.known ∧ d.attached o ∧ ¬d.deleted o
  entered : ∀ o ∈ d.known, d.attached o → ¬d.deleted o → d.entry (d.key o) = some o ∨
    d.phase = some (.creating (d.key o) o) ∨ d.phase = some (.created (d.key o) o)
  created : ∀ o ∈ d.known, (d.created o = 1 ∧ d.phase ≠ some (.creating (d.key o) o)) ∨
    (d.created o = 0 ∧ d.phase = some (.creating (d.key o) o))
  log : ∀ k, d.entry k = current k d.log
  stable : Stable d.log

variable [DecidableEq K]

/-- What the log says last about a key. -/
theorem current_append (k : K) (log : List (Event K O)) (e : Event K O) :
    current k (log ++ [e]) = match e with
      | .got k' o => if k' = k then some o else current k log
      | .removed k' => if k' = k then none else current k log
      | .cleared => none := by
  simp only [current, List.foldl_append, List.foldl_cons, List.foldl_nil]

/-- A history stays stable when the next access finds the current instance. -/
theorem Stable.append {log : List (Event K O)} (h : Stable log) {e : Event K O}
    (hnew : ∀ k o, e = .got k o → ∀ o', current k log = some o' → o' = o) :
    Stable (log ++ [e]) := by
  intro before after k o hsplit
  rcases List.eq_nil_or_concat after with rfl | ⟨init, last, rfl⟩
  · obtain ⟨rfl, hlast⟩ := List.append_inj' hsplit rfl
    exact hnew k o (List.singleton_inj.mp hlast)
  · rw [List.concat_eq_append, ← List.cons_append, ← List.append_assoc] at hsplit
    obtain ⟨hlog, -⟩ := List.append_inj' hsplit rfl
    exact h before init k o hlog

/-- Accesses that neither remove the entry of `k` nor empty the directory keep
the current instance of `k`. -/
theorem Stable.current_kept {log between after : List (Event K O)} (h : Stable log) {k : K}
    {o : O} (hkept : .removed k ∉ between ∧ .cleared ∉ between) {before : List (Event K O)}
    (hlog : log = before ++ between ++ after) (hbefore : current k before = some o) :
    current k (before ++ between) = some o := by
  induction between generalizing before with
  | nil => simpa using hbefore
  | cons e between ih =>
      have hsplit : before ++ e :: between = (before ++ [e]) ++ between := by simp
      rw [hsplit] at hlog ⊢
      refine ih ⟨fun h => hkept.1 (.tail _ h), fun h => hkept.2 (.tail _ h)⟩ hlog ?_
      rw [current_append]
      cases e with
      | got k' o' =>
          by_cases hk : k' = k
          · subst hk
            have heq := h before (between ++ after) k' o' (by simp [hlog]) o hbefore
            simp [heq]
          · simpa [hk] using hbefore
      | removed k' =>
          have hk : k' ≠ k := by
            rintro rfl
            exact hkept.1 (.head _)
          simpa [hk] using hbefore
      | cleared => exact absurd (.head _) hkept.2

/-- Between two accesses of a stable history that determine different
instances of a key, its entry was removed or the directory was emptied. -/
theorem Stable.eq_of_kept {log before between after : List (Event K O)} (h : Stable log)
    {k : K} {o o' : O} (hlog : log = before ++ .got k o :: between ++ .got k o' :: after)
    (hkept : .removed k ∉ between ∧ .cleared ∉ between) : o = o' := by
  have hbefore : current k (before ++ [.got k o]) = some o := by simp [current_append]
  have hsplit : log = before ++ [.got k o] ++ between ++ .got k o' :: after := by simp [hlog]
  have hcurrent := h.current_kept hkept hsplit hbefore
  exact h (before ++ [.got k o] ++ between) after k o' (by simp [hlog]) o hcurrent

/-- While the lock is free, the attached living instances are exactly the
entries, each under its own key. -/
theorem Valid.entry_iff {d : State K O} (h : Valid d) (hfree : d.phase = none) {o : O}
    (ho : o ∈ d.known) :
    d.entry (d.key o) = some o ↔ d.attached o ∧ ¬d.deleted o := by
  constructor
  · intro hentry
    have hattached : d.attached o := by simpa [hfree] using h.attached _ _ hentry
    refine ⟨hattached, fun hdeleted => ?_⟩
    simpa [hfree] using h.alive _ _ hentry hattached hdeleted
  · rintro ⟨hattached, halive⟩
    simpa [hfree] using h.entered o ho hattached halive

/-- While the lock is free, every known instance has been created once. -/
theorem Valid.created_eq_one {d : State K O} (h : Valid d) (hfree : d.phase = none) {o : O}
    (ho : o ∈ d.known) : d.created o = 1 := by
  simpa [hfree] using h.created o ho

/-- A directory nobody has used yet is valid. -/
theorem valid_empty {d : State K O} (hentry : ∀ k, d.entry k = none) (hknown : d.known = ∅)
    (hphase : d.phase = none) (hlog : d.log = []) : Valid d := by
  have hstable : Stable d.log := by
    intro before after k o hsplit
    simp [hlog] at hsplit
  refine ⟨?_, ?_, ?_, ?_, ?_, ?_, ?_, ?_, ?_, ?_, ?_, hstable⟩ <;>
    simp [hentry, hknown, hphase, hlog, current]

variable [DecidableEq O] {d d' : State K O}

/-- An entry is a known object of its key. -/
theorem Step.entries_known (hs : Step d d') (h : Valid d) (k : K) (o : O)
    (hentry : d'.entry k = some o) : d'.key o = k ∧ o ∈ d'.known := by
  have hkey := h.key
  have hknown := h.known
  have hpending := h.pending
  cases hs <;> grind

/-- An entry is attached, or is being detached. -/
theorem Step.entries_attached (hs : Step d d') (h : Valid d) (k : K) (o : O)
    (hentry : d'.entry k = some o) :
    d'.attached o ∨ ∃ remaining, d'.phase = some (.detaching remaining) := by
  have hknown := h.known
  have hattached := h.attached
  have hpending := h.pending
  cases hs <;> grind

/-- What is still an entry and attached has still to be detached. -/
theorem Step.entries_remaining (hs : Step d d') (h : Valid d) (remaining : List O)
    (hphase : d'.phase = some (.detaching remaining)) (k : K) (o : O)
    (hentry : d'.entry k = some o) (hattached : d'.attached o) : o ∈ remaining := by
  have hdetaching := h.detaching
  cases hs <;> grind

/-- A deleted entry is about to be erased. -/
theorem Step.entries_alive (hs : Step d d') (h : Valid d) (k : K) (o : O)
    (hentry : d'.entry k = some o) (hattached : d'.attached o) (hdeleted : d'.deleted o) :
    d'.phase = some (.retiring (some k)) := by
  have hkey := h.key
  have hknown := h.known
  have halive := h.alive
  have hpending := h.pending
  cases hs <;> grind

/-- What is about to be erased has been deleted. -/
theorem Step.retiring_deleted (hs : Step d d') (h : Valid d) (k : K) (o : O)
    (hphase : d'.phase = some (.retiring (some k))) (hentry : d'.entry k = some o) :
    d'.deleted o := by
  have hretiring := h.retiring
  cases hs <;> grind

/-- What a `get` has found is the entry while it has the lock. -/
theorem Step.found_entry (hs : Step d d') (h : Valid d) (k : K) (o : O)
    (hphase : d'.phase = some (.found k o)) : d'.entry k = some o := by
  have hfound := h.found
  cases hs <;> grind

/-- What a `get` creates is new and has no entry before it. -/
theorem Step.pending_new (hs : Step d d') (h : Valid d) (k : K) (o : O)
    (hphase : d'.phase = some (.creating k o) ∨ d'.phase = some (.created k o)) :
    d'.key o = k ∧ d'.entry k = none ∧ o ∈ d'.known ∧ d'.attached o ∧ ¬d'.deleted o := by
  have hpending := h.pending
  cases hs <;> grind

/-- What is attached and lives is an entry, or is becoming one. -/
theorem Step.attached_entered (hs : Step d d') (h : Valid d) (o : O) (ho : o ∈ d'.known)
    (hattached : d'.attached o) (halive : ¬d'.deleted o) : d'.entry (d'.key o) = some o ∨
      d'.phase = some (.creating (d'.key o) o) ∨ d'.phase = some (.created (d'.key o) o) := by
  have hdetaching := h.detaching
  have hretiring := h.retiring
  have hentered := h.entered
  have hpending := h.pending
  cases hs <;> grind

/-- `create` is called once for an object. -/
theorem Step.created_once (hs : Step d d') (h : Valid d) (o : O) (ho : o ∈ d'.known) :
    (d'.created o = 1 ∧ d'.phase ≠ some (.creating (d'.key o) o)) ∨
      (d'.created o = 0 ∧ d'.phase = some (.creating (d'.key o) o)) := by
  have hpending := h.pending
  have hcreated := h.created
  cases hs <;> grind

/-- The entries are what the log says last. -/
theorem Step.log_current (hs : Step d d') (h : Valid d) (k : K) :
    d'.entry k = current k d'.log := by
  have hfound := h.found
  have hlog := h.log k
  cases hs <;> grind [current_append]

/-- Every step keeps the log stable. -/
theorem Step.log_stable (hs : Step d d') (h : Valid d) : Stable d'.log := by
  have hfound := h.found
  have hpending := h.pending
  have hlog := h.log
  cases hs
  case recycle | enter | remove | empty => exact h.stable.append (by grind)
  all_goals exact h.stable

/-- **Preservation.**  Every change of a directory keeps it valid. -/
theorem Step.valid (hs : Step d d') (h : Valid d) : Valid d' where
  key k o hentry := (hs.entries_known h k o hentry).1
  known k o hentry := (hs.entries_known h k o hentry).2
  attached := hs.entries_attached h
  detaching := hs.entries_remaining h
  alive := hs.entries_alive h
  retiring := hs.retiring_deleted h
  found := hs.found_entry h
  pending := hs.pending_new h
  entered := hs.attached_entered h
  created := hs.created_once h
  log := hs.log_current h
  stable := hs.log_stable h

/-- An entry goes when it is removed or the directory is emptied. -/
theorem Step.entry_kept (hs : Step d d') (h : Valid d) {k : K} {o : O}
    (hentry : d.entry k = some o) : d'.entry k = some o ∨
      d.phase = some (.retiring (some k)) ∨ ∃ remaining, d.phase = some (.detaching remaining) := by
  have hpending := h.pending
  cases hs <;> grind

/-- An instance is detached when the directory is about to be emptied. -/
theorem Step.attached_kept (hs : Step d d') {o : O} (hattached : d.attached o) :
    d'.attached o ∨ ∃ remaining, d.phase = some (.detaching remaining) := by
  cases hs <;> grind

end Directory
