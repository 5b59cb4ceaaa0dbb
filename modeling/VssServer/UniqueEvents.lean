import Mathlib.Data.List.Basic
import VssServer.EventAttribute

/-!
# The value of an accumulative attribute

`processEvent` of `CommonAPIAccumulativeUniqueEventSubscriptionProxyAttribute` replaces in
place the entry that `findPredicate` finds, and puts the event at the end when there is
none.  For a `findPredicate` that is an equivalence this keeps the last event of each
class, at the place of the first one.

* `Accumulated`: the last event of each class, in the order of the first ones.
* `accumulated_foldl`: processing an event keeps the value so.
* `processEvents_accumulated`: the value and the signals after any sequence of events.
-/

namespace CommonAPI

variable {ε ν : Type*} {findPredicate : ε → ε → Bool} {event : ε} {events value : List ε}

/-- Either the first entry of the event's class is replaced, or there is none and the event
comes last. -/
theorem replaceOrAppend_cases (findPredicate : ε → ε → Bool) (event : ε) (value : List ε) :
    (∃ front other back, value = front ++ other :: back ∧ findPredicate event other = true ∧
      replaceOrAppend findPredicate event value = front ++ event :: back) ∨
    ((∀ other ∈ value, ¬ findPredicate event other = true) ∧
      replaceOrAppend findPredicate event value = value ++ [event]) := by
  induction value with
  | nil => exact Or.inr ⟨by simp, rfl⟩
  | cons other rest ih =>
      by_cases hfound : findPredicate event other = true
      · refine Or.inl ⟨[], other, rest, rfl, hfound, ?_⟩
        rw [replaceOrAppend, if_pos hfound, List.nil_append]
      · rw [replaceOrAppend, if_neg hfound]
        rcases ih with ⟨front, found, back, rfl, hother, heq⟩ | ⟨hnone, heq⟩
        · exact Or.inl ⟨other :: front, found, back, rfl, hother, by rw [heq]; rfl⟩
        · refine Or.inr ⟨?_, by rw [heq]; rfl⟩
          intro x hx
          rcases List.mem_cons.mp hx with rfl | hx
          · exact hfound
          · exact hnone x hx

/-- `entry` is the last of its class among `events`. -/
def IsLatest (findPredicate : ε → ε → Bool) (events : List ε) (entry : ε) : Prop :=
  ∃ earlier later, events = earlier ++ entry :: later ∧
    ∀ event ∈ later, ¬ findPredicate entry event = true

/-- The class of `entry` occurs among `events` before that of `other` does. -/
def OccursBefore (findPredicate : ε → ε → Bool) (events : List ε) (entry other : ε) : Prop :=
  ∃ earlier first later, events = earlier ++ first :: later ∧ findPredicate entry first = true ∧
    ∀ event ∈ earlier ++ [first], ¬ findPredicate other event = true

/-- `value` has one entry for each class that occurred among `events`: the last event of
this class, and the entries are in the order in which their classes first occurred. -/
structure Accumulated (findPredicate : ε → ε → Bool) (events value : List ε) : Prop where
  occurred : ∀ event ∈ events, ∃ entry ∈ value, findPredicate event entry = true
  unique : value.Pairwise fun entry other => ¬ findPredicate entry other = true
  latest : ∀ entry ∈ value, IsLatest findPredicate events entry
  ordered : value.Pairwise (OccursBefore findPredicate events)

/-- An event of another kind leaves the latest of a kind the latest. -/
theorem IsLatest.append {entry : ε} (h : IsLatest findPredicate events entry)
    (hne : ¬ findPredicate entry event = true) :
    IsLatest findPredicate (events ++ [event]) entry := by
  obtain ⟨earlier, later, rfl, hlater⟩ := h
  refine ⟨earlier, later ++ [event], by simp, ?_⟩
  intro x hx
  rcases List.mem_append.mp hx with hx | hx
  · exact hlater x hx
  · rwa [List.mem_singleton.mp hx]

/-- The last event is the latest of its kind. -/
theorem IsLatest.last (events : List ε) (event : ε) :
    IsLatest findPredicate (events ++ [event]) event :=
  ⟨events, [], rfl, nofun⟩

/-- What comes later does not change which kind occurred first. -/
theorem OccursBefore.append {entry other : ε}
    (h : OccursBefore findPredicate events entry other) (event : ε) :
    OccursBefore findPredicate (events ++ [event]) entry other := by
  obtain ⟨earlier, first, later, rfl, hfirst, hother⟩ := h
  exact ⟨earlier, first, later ++ [event], by simp, hfirst, hother⟩

/-- The order of first occurrences does not see which event of a class it is asked for. -/
theorem OccursBefore.congr {entry other entry' other' : ε}
    (hequiv : Equivalence fun a b => findPredicate a b = true)
    (hentry : findPredicate entry' entry = true) (hother : findPredicate other' other = true)
    (h : OccursBefore findPredicate events entry other) :
    OccursBefore findPredicate events entry' other' := by
  obtain ⟨earlier, first, later, heq, hfirst, hnot⟩ := h
  refine ⟨earlier, first, later, heq, hequiv.trans hentry hfirst, ?_⟩
  intro x hx hsame
  exact hnot x hx (hequiv.trans (hequiv.symm hother) hsame)

namespace Accumulated

/-- Nothing is accumulated before the first event. -/
theorem nil : Accumulated findPredicate [] [] :=
  ⟨by simp, List.Pairwise.nil, by simp, List.Pairwise.nil⟩

/-- An entry replaced by an event of its class: every other entry is of another class. -/
theorem replace {other : ε} {front back : List ε}
    (hequiv : Equivalence fun a b => findPredicate a b = true)
    (h : Accumulated findPredicate events (front ++ other :: back))
    (hfound : findPredicate event other = true) :
    Accumulated findPredicate (events ++ [event]) (front ++ event :: back) := by
  have hunique := List.pairwise_append.mp h.unique
  have hordered := List.pairwise_append.mp h.ordered
  have hfront : ∀ x ∈ front, ¬ findPredicate x event = true := by
    intro x hx hsame
    exact hunique.2.2 x hx other (by simp) (hequiv.trans hsame hfound)
  have hback : ∀ x ∈ back, ¬ findPredicate event x = true := by
    intro x hx hsame
    exact (List.pairwise_cons.mp hunique.2.1).1 x hx
      (hequiv.trans (hequiv.symm hfound) hsame)
  refine ⟨?_, ?_, ?_, ?_⟩
  case refine_1 =>
    intro x hx
    rcases List.mem_append.mp hx with hx | hx
    · obtain ⟨entry, hentry, hsame⟩ := h.occurred x hx
      rcases List.mem_append.mp hentry with hentry | hentry
      · exact ⟨entry, by simp [hentry], hsame⟩
      · rcases List.mem_cons.mp hentry with rfl | hentry
        · exact ⟨event, by simp, hequiv.trans hsame (hequiv.symm hfound)⟩
        · exact ⟨entry, by simp [hentry], hsame⟩
    · rw [List.mem_singleton.mp hx]
      exact ⟨event, by simp, hequiv.refl event⟩
  case refine_2 =>
    refine List.pairwise_append.mpr ⟨hunique.1, ?_, ?_⟩
    · exact List.pairwise_cons.mpr ⟨hback, (List.pairwise_cons.mp hunique.2.1).2⟩
    · intro x hx y hy
      rcases List.mem_cons.mp hy with rfl | hy
      · exact hfront x hx
      · exact hunique.2.2 x hx y (List.mem_cons_of_mem _ hy)
  case refine_3 =>
    intro entry hentry
    rcases List.mem_append.mp hentry with hmem | hmem
    · exact (h.latest entry (by simp [hmem])).append (hfront entry hmem)
    · rcases List.mem_cons.mp hmem with rfl | hmem
      · exact IsLatest.last events entry
      · refine (h.latest entry (by simp [hmem])).append ?_
        exact fun hsame => hback entry hmem (hequiv.symm hsame)
  case refine_4 =>
    refine List.pairwise_append.mpr ⟨?_, ?_, ?_⟩
    · exact hordered.1.imp fun hbefore => hbefore.append event
    · have htail := List.pairwise_cons.mp hordered.2.1
      refine List.pairwise_cons.mpr ⟨?_, htail.2.imp fun hbefore => hbefore.append event⟩
      intro x hx
      exact ((htail.1 x hx).congr hequiv hfound (hequiv.refl x)).append event
    · intro x hx y hy
      rcases List.mem_cons.mp hy with rfl | hy
      · have hbefore := hordered.2.2 x hx other (by simp)
        exact (hbefore.congr hequiv (hequiv.refl x) hfound).append y
      · exact (hordered.2.2 x hx y (List.mem_cons_of_mem _ hy)).append event

/-- A new entry at the end: its class has not occurred. -/
theorem append (hequiv : Equivalence fun a b => findPredicate a b = true)
    (h : Accumulated findPredicate events value)
    (hnone : ∀ other ∈ value, ¬ findPredicate event other = true) :
    Accumulated findPredicate (events ++ [event]) (value ++ [event]) := by
  have hnew : ∀ x ∈ events, ¬ findPredicate event x = true := by
    intro x hx hsame
    obtain ⟨entry, hentry, hclass⟩ := h.occurred x hx
    exact hnone entry hentry (hequiv.trans hsame hclass)
  refine ⟨?_, ?_, ?_, ?_⟩
  case refine_1 =>
    intro x hx
    rcases List.mem_append.mp hx with hx | hx
    · obtain ⟨entry, hentry, hclass⟩ := h.occurred x hx
      exact ⟨entry, by simp [hentry], hclass⟩
    · rw [List.mem_singleton.mp hx]
      exact ⟨event, by simp, hequiv.refl event⟩
  case refine_2 =>
    refine List.pairwise_append.mpr ⟨h.unique, List.pairwise_singleton _ _, ?_⟩
    intro x hx y hy hsame
    rw [List.mem_singleton.mp hy] at hsame
    exact hnone x hx (hequiv.symm hsame)
  case refine_3 =>
    intro entry hentry
    rcases List.mem_append.mp hentry with hmem | hmem
    · refine (h.latest entry hmem).append ?_
      exact fun hsame => hnone entry hmem (hequiv.symm hsame)
    · rw [List.mem_singleton.mp hmem]
      exact IsLatest.last events event
  case refine_4 =>
    refine List.pairwise_append.mpr
      ⟨h.ordered.imp fun hbefore => hbefore.append event, List.pairwise_singleton _ _, ?_⟩
    -- the class of an old entry has occurred, and that of the event has not
    intro x hx y hy
    rw [List.mem_singleton.mp hy]
    obtain ⟨earlier, later, rfl, -⟩ := h.latest x hx
    refine ⟨earlier, x, later ++ [event], by simp, hequiv.refl x, ?_⟩
    intro z hz
    exact hnew z (by
      rcases List.mem_append.mp hz with hz | hz
      · simp [hz]
      · simp [List.mem_singleton.mp hz])

/-- One event more. -/
theorem replaceOrAppend (hequiv : Equivalence fun a b => findPredicate a b = true)
    (h : Accumulated findPredicate events value) (event : ε) :
    Accumulated findPredicate (events ++ [event])
      (replaceOrAppend findPredicate event value) := by
  rcases replaceOrAppend_cases findPredicate event value with
    ⟨front, other, back, rfl, hfound, heq⟩ | ⟨hnone, heq⟩
  · rw [heq]
    exact h.replace hequiv hfound
  · rw [heq]
    exact h.append hequiv hnone

end Accumulated

namespace EventAttribute

variable {cls : EventClass ε ν} {s s' : EventAttribute ε ν}

/-- The events are processed one after the other. -/
def processEvents (cls : EventClass ε ν) (s : EventAttribute ε ν) (events : List ε) :
    EventAttribute ε ν :=
  events.foldl (store cls) s

/-- No events change nothing. -/
@[simp]
theorem processEvents_nil (s : EventAttribute ε ν) : processEvents cls s [] = s :=
  rfl

/-- Events are processed one after the other. -/
@[simp]
theorem processEvents_append (s : EventAttribute ε ν) (earlier : List ε) (event : ε) :
    processEvents cls s (earlier ++ [event]) = (processEvents cls s earlier).store cls event := by
  simp [processEvents]

/-- With its members alive, an event makes a new value, which is signalled. -/
theorem store_eq {v : ν} (hmembers : s.members = some v) (event : ε) :
    s.store cls event = (s.setValue (cls.processEvent v event)).handle .idle := by
  rw [store, hmembers]

/-- What the members hold after some events. -/
theorem processEvents_members {v : ν} (hmembers : s.members = some v) (events : List ε) :
    (processEvents cls s events).members = some (events.foldl cls.processEvent v) := by
  induction events using List.reverseRecOn with
  | nil => exact hmembers
  | append_singleton earlier event ih =>
      rw [processEvents_append, store_eq ih, List.foldl_concat]
      rfl

/-- One value is signalled for each event, the one after it. -/
theorem processEvents_signalled {v : ν} (hmembers : s.members = some v) (events : List ε) :
    (processEvents cls s events).signalled =
      s.signalled ++ (List.range events.length).map fun i =>
        (events.take (i + 1)).foldl cls.processEvent v := by
  induction events using List.reverseRecOn with
  | nil => simp
  | append_singleton earlier event ih =>
      rw [processEvents_append, store_eq (processEvents_members hmembers earlier)]
      rw [handle_signalled, setValue_signalled, ih, List.length_append, List.length_singleton,
        List.range_succ, List.map_append, List.append_assoc]
      congr 2
      · apply List.map_congr_left
        intro i hi
        rw [List.take_append_of_le_length (by have := List.mem_range.mp hi; omega)]
      · rw [List.map_singleton, ← List.length_singleton, ← List.length_append, List.take_length,
          List.foldl_concat]

end EventAttribute

/-- `processEvent` keeps the accumulated value what it should be, event by event. -/
theorem accumulated_foldl (hequiv : Equivalence fun a b => findPredicate a b = true)
    (events : List ε) :
    Accumulated findPredicate events
      (events.foldl (accumulativeUnique findPredicate).processEvent []) := by
  induction events using List.reverseRecOn with
  | nil => exact Accumulated.nil
  | append_singleton earlier event ih =>
      rw [List.foldl_concat]
      exact ih.replaceOrAppend hequiv event

namespace EventAttribute

/-- **The last event of each class.**  However many events are processed, the value has one
entry for each class that occurred, its last event, in the order of the first
occurrences; `signal` is called once for each event, with the value of the events up to
this one. -/
theorem processEvents_accumulated (hequiv : Equivalence fun a b => findPredicate a b = true)
    (s : EventAttribute ε (List ε)) (hbuilt : s.members = some [])
    (events : List ε) :
    ∃ value, (processEvents (accumulativeUnique findPredicate) s events).members = some value ∧
      Accumulated findPredicate events value ∧
      ∃ signalled, (processEvents (accumulativeUnique findPredicate) s events).signalled =
          s.signalled ++ signalled ∧
        signalled.length = events.length ∧
        ∀ i, i < events.length → signalled[i]? =
          (processEvents (accumulativeUnique findPredicate) s (events.take (i + 1))).members := by
  refine ⟨_, processEvents_members hbuilt events, accumulated_foldl hequiv events,
    _, processEvents_signalled hbuilt events, by simp, ?_⟩
  intro i hi
  rw [processEvents_members hbuilt, List.getElem?_map, List.getElem?_range hi]
  rfl

/-- Three events, of which the last has the key of the first. -/
theorem processEvents_accumulated_sameKey :
    ∃ value, (processEvents (accumulativeUnique fun event other : ℕ × ℕ => event.1 == other.1)
        (start.enter .complete (some [])) [(1, 5), (2, 7), (1, 6)]).members = some value ∧
      value = [(1, 6), (2, 7)] ∧
      Accumulated (fun event other => event.1 == other.1) [(1, 5), (2, 7), (1, 6)] value := by
  have hequiv : Equivalence fun event other : ℕ × ℕ => (event.1 == other.1) = true :=
    ⟨fun _ => by simp, fun h => by simpa using Eq.symm (by simpa using h),
      fun h h' => by simpa using Eq.trans (by simpa using h) (by simpa using h')⟩
  obtain ⟨value, hvalue, haccumulated, -⟩ := processEvents_accumulated hequiv
    (start.enter .complete (some [])) rfl [(1, 5), (2, 7), (1, 6)]
  refine ⟨value, hvalue, ?_, haccumulated⟩
  have hrun : some [(1, 6), (2, 7)] = some value := hvalue
  exact (Option.some.inj hrun).symm

end EventAttribute

end CommonAPI
