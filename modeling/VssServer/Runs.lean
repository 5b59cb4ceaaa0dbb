import Mathlib.Data.List.Induction
import Mathlib.Logic.Function.Basic
import Mathlib.Order.Basic
import Mathlib.Tactic.Push

/-!
# Runs of a labelled step function

A system is an executable step function `σ → ι → Option σ`; everything that
a scheduler, an environment or a client may choose is in the label `ι`, so a
list of labels is one interleaving.  `Reach step ok start` collects the
states that runs from `start` visit when each of their steps meets the side
condition `ok`, a predicate on the state before the step and its label.

The rules of this file are the only inductions over runs that the systems
built on it need: `Reach.invariant` turns a step lemma into a run lemma,
`Reach.weaken` moves a result to a stronger side condition, and
`reach_of_run` puts one evaluated run into the set of reached states.  Where
a result is about the order in which things happened, `trace` is what the
steps of a run show of them, and `run_along` is the invariant rule.
-/

namespace Runs

variable {σ ι : Type*}

/-- States visited by runs from `start` whose steps all meet `ok`. -/
inductive Reach (step : σ → ι → Option σ) (ok : σ → ι → Prop) (start : σ) :
    σ → Prop
  | refl : Reach step ok start start
  | tail {s s' : σ} {l : ι} (before : Reach step ok start s)
      (hok : ok s l) (hstep : step s l = some s') : Reach step ok start s'

/-- The side condition of an unrestricted run. -/
def always (_ : σ) (_ : ι) : Prop := True

variable {step : σ → ι → Option σ} {ok ok' : σ → ι → Prop} {start : σ}

/-- The invariant rule, for an invariant whose step lemma uses what is known of
reached states. -/
theorem Reach.along {I : σ → Prop} (hstart : I start)
    (hstep : ∀ s l s', Reach step ok start s → I s → ok s l → step s l = some s' → I s')
    {s : σ} (h : Reach step ok start s) : I s := by
  induction h with
  | refl => exact hstart
  | tail before hok hs ih => exact hstep _ _ _ before ih hok hs

/-- **Invariant rule.**  What holds initially and survives every allowed
step holds in every reached state. -/
theorem Reach.invariant {I : σ → Prop} (hstart : I start)
    (hstep : ∀ s l s', I s → ok s l → step s l = some s' → I s')
    {s : σ} (h : Reach step ok start s) : I s :=
  h.along hstart fun s l s' _ => hstep s l s'

/-- A side condition that implies another one wherever an invariant holds
visits no further states. -/
theorem Reach.weaken {I : σ → Prop} (hI : ∀ s, Reach step ok start s → I s)
    (himp : ∀ s l s', I s → ok s l → step s l = some s' → ok' s l)
    {s : σ} (h : Reach step ok start s) : Reach step ok' start s := by
  induction h with
  | refl => exact .refl
  | tail before hok hs ih => exact ih.tail (himp _ _ _ (hI _ before) hok hs) hs

/-- Runs compose at a reached state. -/
theorem Reach.trans {middle s : σ} (hleft : Reach step ok start middle)
    (hright : Reach step ok middle s) : Reach step ok start s := by
  induction hright with
  | refl => exact hleft
  | tail _ hok hs ih => exact ih.tail hok hs

/-- Take the labels in order; `none` as soon as one of them is not enabled. -/
def run (step : σ → ι → Option σ) : σ → List ι → Option σ
  | s, [] => some s
  | s, l :: ls => (step s l).bind fun s' => run step s' ls

/-- A run ends with its last label. -/
theorem run_concat {ls : List ι} {l : ι} {s s' : σ} :
    run step s (ls ++ [l]) = some s' ↔ ∃ m, run step s ls = some m ∧ step m l = some s' := by
  induction ls generalizing s with
  | nil =>
      simp only [List.nil_append, run, Option.some.injEq, exists_eq_left']
      cases step s l <;> simp
  | cons l' ls ih =>
      simp only [List.cons_append, run, Option.bind_eq_some_iff, ih]
      constructor
      · rintro ⟨m, hm, m', hm', hlast⟩
        exact ⟨m', ⟨m, hm, hm'⟩, hlast⟩
      · rintro ⟨m', ⟨m, hm, hm'⟩, hlast⟩
        exact ⟨m, hm, m', hm', hlast⟩

/-- The invariant rule for what a state owes to the labels that led to it. -/
theorem run_along {I : List ι → σ → Prop} (hstart : I [] start)
    (hstep : ∀ ls s l s', run step start ls = some s → I ls s → step s l = some s' →
      I (ls ++ [l]) s')
    {ls : List ι} {s : σ} (h : run step start ls = some s) : I ls s := by
  induction ls using List.reverseRecOn generalizing s with
  | nil => cases h; exact hstart
  | append_singleton ls l ih =>
      obtain ⟨m, hm, hlast⟩ := run_concat.mp h
      exact hstep ls m l s hm (ih hm) hlast

/-- What the steps of a run show, in their order. -/
def trace {ε : Type*} (step : σ → ι → Option σ) (shows : σ → ι → List ε) : σ → List ι → List ε
  | _, [] => []
  | s, l :: ls => shows s l ++ (step s l).elim [] fun s' => trace step shows s' ls

/-- The last step of a run shows its part last. -/
theorem trace_concat {ε : Type*} {shows : σ → ι → List ε} {ls : List ι} {l : ι} {s m : σ}
    (h : run step s ls = some m) :
    trace step shows s (ls ++ [l]) = trace step shows s ls ++ shows m l := by
  induction ls generalizing s with
  | nil =>
      cases h
      cases hl : step m l <;> simp [trace, hl]
  | cons l' ls ih =>
      obtain ⟨s', hs', hrest⟩ := Option.bind_eq_some_iff.mp h
      simp [trace, hs', ih hrest]

/-- Every label of the run meets the side condition where it is taken. -/
def RunMeets (step : σ → ι → Option σ) (ok : σ → ι → Prop) : σ → List ι → Prop
  | _, [] => True
  | s, l :: ls => ok s l ∧ ∀ s', step s l = some s' → RunMeets step ok s' ls

/-- Whether a run meets a decidable side condition is decided along it. -/
instance decidableRunMeets [∀ s l, Decidable (ok s l)] :
    ∀ s ls, Decidable (RunMeets step ok s ls)
  | _, [] => isTrue trivial
  | s, l :: ls =>
      match h : step s l with
      | none => decidable_of_iff (ok s l) (by simp [RunMeets, h])
      | some s' =>
          have := decidableRunMeets s' ls
          decidable_of_iff (ok s l ∧ RunMeets step ok s' ls) (by simp [RunMeets, h])

/-- An evaluated run visits its final state. -/
theorem reach_of_run {ls : List ι} {s s' : σ} (h : run step s ls = some s')
    (hok : RunMeets step ok s ls) : Reach step ok s s' := by
  induction ls generalizing s with
  | nil => cases h; exact .refl
  | cons l ls ih =>
      obtain ⟨m, hm, hrest⟩ := Option.bind_eq_some_iff.mp h
      exact (Reach.tail .refl hok.1 hm).trans (ih hrest (hok.2 m hm))

/-- A run meets a side condition that a property of the states grants for each of its
labels, where each of its labels keeps the property. -/
theorem runMeets_of_kept {I : σ → Prop} {ls : List ι} {s : σ} (hs : I s)
    (h : ∀ l ∈ ls, ∀ s, I s → ok s l ∧ ∀ s', step s l = some s' → I s') :
    RunMeets step ok s ls := by
  induction ls generalizing s with
  | nil => trivial
  | cons l ls ih =>
      obtain ⟨hok, hkept⟩ := h l (.head _) s hs
      exact ⟨hok, fun s' hstep => ih (hkept s' hstep) fun l hl => h l (.tail _ hl)⟩

/-- A side condition on the labels alone. -/
theorem runMeets_of_labels {ls : List ι} {s : σ} (h : ∀ l ∈ ls, ∀ s, ok s l) :
    RunMeets step ok s ls :=
  runMeets_of_kept (I := fun _ => True) trivial fun l hl s _ => ⟨h l hl s, fun _ _ => trivial⟩

/-- An unrestricted run needs no side condition. -/
theorem runMeets_always {ls : List ι} {s : σ} : RunMeets step always s ls :=
  runMeets_of_labels fun _ _ _ => trivial

/-- **Termination rule.**  Where every allowed step lowers a measure, the measure
bounds the length of runs. -/
theorem run_length_le {I : σ → Prop} {w : σ → Nat}
    (hstep : ∀ s l s', I s → ok s l → step s l = some s' → I s' ∧ w s' < w s)
    {ls : List ι} {s s' : σ} (hstart : I s) (h : run step s ls = some s')
    (hok : RunMeets step ok s ls) : ls.length + w s' ≤ w s := by
  induction ls generalizing s with
  | nil => cases h; simp
  | cons l ls ih =>
      obtain ⟨m, hm, hrest⟩ := Option.bind_eq_some_iff.mp h
      obtain ⟨hI, hlt⟩ := hstep s l m hstart hok.1 hm
      have hle := ih hI hrest (hok.2 m hm)
      rw [List.length_cons]
      omega

/-- **Settling rule.**  Where every allowed step lowers a measure, some run of allowed steps
ends where none is enabled. -/
theorem exists_stuck {I : σ → Prop} {w : σ → Nat}
    (hstep : ∀ s l s', I s → ok s l → step s l = some s' → I s' ∧ w s' < w s)
    {s : σ} (hstart : I s) :
    ∃ ls s', run step s ls = some s' ∧ RunMeets step ok s ls ∧
      ∀ l, ok s' l → step s' l = none := by
  induction hn : w s using Nat.strongRecOn generalizing s with
  | _ n ih =>
      by_cases hstuck : ∀ l, ok s l → step s l = none
      · exact ⟨[], s, rfl, trivial, hstuck⟩
      · push Not at hstuck
        obtain ⟨l, hok, henabled⟩ := hstuck
        obtain ⟨m, hm⟩ := Option.ne_none_iff_exists'.mp henabled
        obtain ⟨hI, hlt⟩ := hstep s l m hstart hok hm
        obtain ⟨ls, s', hrun, hmeets, hend⟩ := ih (w m) (hn ▸ hlt) hI rfl
        refine ⟨l :: ls, s', by simp [run, hm, hrun], ⟨hok, ?_⟩, hend⟩
        intro m' hm'
        cases hm.symm.trans hm'
        exact hmeets

end Runs
