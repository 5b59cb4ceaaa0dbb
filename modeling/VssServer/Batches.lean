import Mathlib.Data.Finset.Basic
import Mathlib.Data.List.Basic
import Mathlib.Logic.Function.Basic
import VssServer.Histories

/-!
# Collecting items by name and handing them over in batches

Items are added under names until somebody takes all that was collected; the
names of what was taken are then handed over one by one, before anything is taken
again.  `Trace` is the whole protocol: two tables, the one that items are added to
and the one that is handed over, and the log of what was done.

`Trace.exact` and `Trace.complete` say what a log owes its reader without the
tables: between two takes each name that was added to since the previous one is
handed over once, with the union of what was added.

* `Trace.exact`: a name is handed over once, with all that was added.
* `Trace.complete`: a round that is over has handed over everything.
-/

namespace Batches

open Histories (concat_split)

variable {ν κ : Type*}

/-- What can be done to a batch. -/
inductive Event (ν κ : Type*)
  | add (name : ν) (items : Finset κ)
  | take
  | hand (name : ν) (items : Finset κ)
  deriving DecidableEq

/-- What was collected, and what was taken and has still to be handed over. -/
structure Tables (ν κ : Type*) where
  pending : ν → Option (Finset κ)
  batch : ν → Option (Finset κ)

/-- The tables that a log leads to. -/
inductive Trace [DecidableEq ν] [DecidableEq κ] : List (Event ν κ) → Tables ν κ → Prop
  | nil : Trace [] ⟨fun _ => none, fun _ => none⟩
  | add {log t name items} (before : Trace log t) :
      Trace (log ++ [.add name items])
        { t with
          pending := Function.update t.pending name (some ((t.pending name).getD ∅ ∪ items)) }
  | take {log t} (before : Trace log t) (handed : ∀ name, t.batch name = none) :
      Trace (log ++ [.take]) ⟨fun _ => none, t.pending⟩
  | hand {log t name items} (before : Trace log t) (next : t.batch name = some items) :
      Trace (log ++ [.hand name items])
        { t with batch := Function.update t.batch name none }

/-- `items` were added under `name`, and nothing was taken since. -/
def Added (log : List (Event ν κ)) (name : ν) (items : Finset κ) : Prop :=
  ∃ before after, log = before ++ .add name items :: after ∧ .take ∉ after

/-- An entry of a table holds what was added under its name since the last `take`. -/
def Collects (log : List (Event ν κ)) (name : ν) : Option (Finset κ) → Prop
  | none => ∀ items, ¬Added log name items
  | some items =>
      (∃ items', Added log name items') ∧
        ∀ item, item ∈ items ↔ ∃ items', Added log name items' ∧ item ∈ items'

/-- What follows one `take`, up to the next one or the end. -/
structure Round (log before during after : List (Event ν κ)) : Prop where
  split : log = before ++ .take :: (during ++ after)
  none_taken : .take ∉ during
  ends : after = [] ∨ ∃ rest, after = .take :: rest

/-- The name that an event hands over. -/
def Event.handed : Event ν κ → Option ν
  | .hand name _ => some name
  | _ => none

/-- What was taken after `before` is handed over during a round: no name twice, and
with all that was collected under it. -/
structure Exact (before during : List (Event ν κ)) : Prop where
  once : (during.filterMap Event.handed).Nodup
  union : ∀ name items, .hand name items ∈ during → Collects before name (some items)

/-- Everything that was taken is handed over. -/
def Complete (before during : List (Event ν κ)) : Prop :=
  ∀ name items, Added before name items → ∃ items', .hand name items' ∈ during ∧ items ⊆ items'

variable {log before during after : List (Event ν κ)} {t : Tables ν κ} {name : ν}

theorem added_concat {e : Event ν κ} {items : Finset κ} :
    Added (log ++ [e]) name items ↔ e = .add name items ∨ e ≠ .take ∧ Added log name items := by
  constructor
  · rintro ⟨before, after, hlog, htake⟩
    rcases concat_split hlog with ⟨-, he, -⟩ | ⟨rest, rfl, hrest⟩
    · exact .inl he
    · have hnone : .take ∉ rest ∧ .take ≠ e := by simpa using htake
      exact .inr ⟨hnone.2.symm, before, rest, hrest, hnone.1⟩
  · rintro (rfl | ⟨hne, before, after, rfl, htake⟩)
    · exact ⟨log, [], rfl, nofun⟩
    · refine ⟨before, after ++ [e], by simp, ?_⟩
      simpa using ⟨htake, hne.symm⟩

/-- An event that adds nothing under `name` leaves what is collected under it. -/
theorem Collects.concat {entry : Option (Finset κ)} {e : Event ν κ}
    (h : Collects log name entry) (htake : e ≠ .take) (hadd : ∀ items, e ≠ .add name items) :
    Collects (log ++ [e]) name entry := by
  have hsame : ∀ items, Added (log ++ [e]) name items ↔ Added log name items := by
    intro items
    simp [added_concat, hadd items, htake]
  cases entry <;> simpa only [Collects, hsame] using h

/-- Nothing is collected when everything has just been taken. -/
theorem collects_take : Collects (log ++ [.take]) name none := by
  intro items hadded
  rcases added_concat.mp hadded with hadd | ⟨htake, -⟩
  · cases hadd
  · exact htake rfl

theorem Collects.add [DecidableEq κ] {entry : Option (Finset κ)} {items : Finset κ}
    (h : Collects log name entry) :
    Collects (log ++ [.add name items]) name (some (entry.getD ∅ ∪ items)) := by
  have hadded : ∀ items', Added (log ++ [.add name items]) name items' ↔
      items = items' ∨ Added log name items' := by
    intro items'
    simp [added_concat]
  refine ⟨⟨items, (hadded items).mpr (.inl rfl)⟩, ?_⟩
  intro item
  simp only [hadded, Finset.mem_union]
  cases entry with
  | none =>
      constructor
      · rintro (hnone | hitem)
        · exact absurd hnone (Finset.notMem_empty item)
        · exact ⟨items, .inl rfl, hitem⟩
      · rintro ⟨items', rfl | hold, hitem⟩
        · exact .inr hitem
        · exact absurd hold (h items')
  | some collected =>
      rw [Option.getD_some, h.2 item]
      constructor
      · rintro (⟨items', hold, hitem⟩ | hitem)
        · exact ⟨items', .inr hold, hitem⟩
        · exact ⟨items, .inl rfl, hitem⟩
      · rintro ⟨items', rfl | hold, hitem⟩
        · exact .inr hitem
        · exact .inl ⟨items', hold, hitem⟩

theorem mem_handed : name ∈ during.filterMap Event.handed ↔
    ∃ items, .hand name items ∈ during := by
  rw [List.mem_filterMap]
  constructor
  · rintro ⟨e, hmem, he⟩
    cases e with
    | hand name' items =>
        obtain rfl := Option.some.inj he
        exact ⟨items, hmem⟩
    | add | take => cases he
  · rintro ⟨items, hmem⟩
    exact ⟨_, hmem, rfl⟩

/-- To add something changes nothing about what is handed over. -/
theorem Exact.add {name : ν} {items : Finset κ} (h : Exact before during) :
    Exact before (during ++ [.add name items]) where
  once := by
    have hnothing : [Event.add name items].filterMap Event.handed = [] := rfl
    rw [List.filterMap_append, hnothing, List.append_nil]
    exact h.once
  union := by
    intro name' items' hmem
    exact h.union name' items' (by simpa using hmem)

/-- A name that is still owed can be handed over. -/
theorem Exact.hand {items : Finset κ} (h : Exact before during)
    (hnew : ∀ items', .hand name items' ∉ during) (hcollects : Collects before name (some items)) :
    Exact before (during ++ [.hand name items]) where
  once := by
    rw [List.filterMap_append, List.nodup_append']
    refine ⟨h.once, List.nodup_singleton _, ?_⟩
    intro name' hmem hlast
    obtain rfl := List.mem_singleton.mp hlast
    obtain ⟨items', hmem⟩ := mem_handed.mp hmem
    exact hnew items' hmem
  union := by
    intro name' items' hmem
    rcases List.mem_append.mp hmem with hmem | hlast
    · exact h.union name' items' hmem
    · obtain ⟨rfl, rfl⟩ : name' = name ∧ items' = items := by simpa using hlast
      exact hcollects

namespace Trace

variable [DecidableEq ν] [DecidableEq κ]

/-- The first table holds what was added since the last `take`. -/
theorem pending (h : Trace log t) (name : ν) : Collects log name (t.pending name) := by
  induction h with
  | nil =>
      rintro items ⟨before, after, hnil, -⟩
      simp at hnil
  | @add log t name' items before ih =>
      by_cases hname : name = name'
      · subst hname
        simpa using ih.add
      · simp only [Function.update_of_ne hname]
        refine ih.concat nofun ?_
        rintro items' ⟨⟩
        exact hname rfl
  | take => exact collects_take
  | hand before next ih => exact ih.concat nofun nofun

/-- The second table holds what was taken and is not handed over. -/
def Owes (t : Tables ν κ) (before during : List (Event ν κ)) : Prop :=
  ∀ name, (∃ items, .hand name items ∈ during) ∧ t.batch name = none ∨
    (∀ items, .hand name items ∉ during) ∧ Collects before name (t.batch name)

/-- A round hands over what it owes. -/
theorem last_round (h : Trace log t) (hlog : log = before ++ .take :: during)
    (hnone : .take ∉ during) : Exact before during ∧ Owes t before during := by
  induction h generalizing during with
  | nil => simp at hlog
  | @take log t hbefore handed ih =>
      rcases concat_split hlog with ⟨rfl, -, rfl⟩ | ⟨rest, rfl, -⟩
      · refine ⟨⟨List.nodup_nil, nofun⟩, ?_⟩
        intro name
        exact .inr ⟨nofun, hbefore.pending name⟩
      · simp at hnone
  | @add log t name items hbefore ih =>
      rcases concat_split hlog with ⟨-, he, -⟩ | ⟨rest, rfl, hrest⟩
      · cases he
      · obtain ⟨hexact, howes⟩ := ih hrest (by simpa using hnone)
        refine ⟨hexact.add, ?_⟩
        intro name'
        simpa using howes name'
  | @hand log t name items hbefore next ih =>
      rcases concat_split hlog with ⟨-, he, -⟩ | ⟨rest, rfl, hrest⟩
      · cases he
      · obtain ⟨hexact, howes⟩ := ih hrest (by simpa using hnone)
        have howed : (∀ items', .hand name items' ∉ rest) ∧ Collects before name (some items) := by
          rcases howes name with ⟨-, hgone⟩ | hstill
          · simp [next] at hgone
          · rwa [next] at hstill
        refine ⟨hexact.hand howed.1 howed.2, ?_⟩
        intro name'
        by_cases hname : name' = name
        · subst hname
          exact .inl ⟨⟨items, by simp⟩, Function.update_self ..⟩
        · simpa [hname] using howes name'

/-- What has still to be handed over was taken in the last round. -/
theorem started (h : Trace log t) {items : Finset κ} (hbatch : t.batch name = some items) :
    ∃ before during, log = before ++ .take :: during ∧ .take ∉ during := by
  induction h with
  | nil => cases hbatch
  | @take log t hbefore handed ih => exact ⟨log, [], rfl, nofun⟩
  | @add log t name' items' hbefore ih =>
      obtain ⟨before, during, rfl, hnone⟩ := ih hbatch
      exact ⟨before, during ++ [.add name' items'], by simp, by simpa using hnone⟩
  | @hand log t name' items' hbefore next ih =>
      have hother : name ≠ name' := by
        rintro rfl
        simp at hbatch
      obtain ⟨before, during, rfl, hnone⟩ := ih (by simpa [hother] using hbatch)
      exact ⟨before, during ++ [.hand name' items'], by simp, by simpa using hnone⟩

/-- A log that goes on has a trace to where it went on. -/
theorem split_take (h : Trace log t) (hlog : log = before ++ .take :: after) :
    ∃ t', Trace before t' ∧ ∀ name, t'.batch name = none := by
  induction h generalizing after with
  | nil => simp at hlog
  | @take log t hbefore handed ih =>
      rcases concat_split hlog with ⟨rfl, -, -⟩ | ⟨rest, -, hrest⟩
      · exact ⟨t, hbefore, handed⟩
      · exact ih hrest
  | add before ih | hand before next ih =>
      rcases concat_split hlog with ⟨-, he, -⟩ | ⟨rest, -, hrest⟩
      · cases he
      · exact ih hrest

/-- Every round is the last one of some trace, one that has handed everything over
if the round is over. -/
theorem round (h : Trace log t) (hround : Round log before during after) :
    ∃ t', Exact before during ∧ Owes t' before during ∧
      (after = [] ∧ t' = t ∨ ∀ name, t'.batch name = none) := by
  obtain ⟨hlog, hnone, rfl | ⟨rest, rfl⟩⟩ := hround
  · rw [List.append_nil] at hlog
    obtain ⟨hexact, howes⟩ := h.last_round hlog hnone
    exact ⟨t, hexact, howes, .inl ⟨rfl, rfl⟩⟩
  · have hsplit : log = (before ++ .take :: during) ++ .take :: rest := by simpa using hlog
    obtain ⟨t', htrace, hempty⟩ := h.split_take hsplit
    obtain ⟨hexact, howes⟩ := htrace.last_round rfl hnone
    exact ⟨t', hexact, howes, .inr hempty⟩

/-- **Exactness.**  In every round a name is handed over at most once, and with the
union of what was added under it between the last two takes. -/
theorem exact (h : Trace log t) (hround : Round log before during after) :
    Exact before during :=
  (h.round hround).choose_spec.1

/-- **Completeness.**  A round that is over has handed over whatever was added. -/
theorem complete (h : Trace log t) (hround : Round log before during after)
    (hover : after = [] → ∀ name, t.batch name = none) : Complete before during := by
  obtain ⟨t', hexact, howes, hend⟩ := h.round hround
  have hempty : ∀ name, t'.batch name = none := by
    rcases hend with ⟨hafter, rfl⟩ | hempty
    · exact hover hafter
    · exact hempty
  intro name items hadded
  rcases howes name with ⟨⟨items', hhanded⟩, -⟩ | ⟨-, hcollects⟩
  · refine ⟨items', hhanded, ?_⟩
    intro item hitem
    exact ((hexact.union name items' hhanded).2 item).mpr ⟨items, hadded, hitem⟩
  · rw [hempty name] at hcollects
    exact absurd hadded (hcollects items)

end Trace

end Batches
