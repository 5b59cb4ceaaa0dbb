import VssServer.OneInstance
import VssServer.Sequential

/-!
# When a singleton is deleted

A destructor must meet nobody who can still use the object.  The code does not
always keep this: between the decrement in `unref` and the insertion into
`m_disposed` another thread can `get` the object, whose `recycle` then finds
nothing to take back, and the late dispose lets the next collection delete an
object that is in use.  `deletion_safe` says that the two windows excluded by
`Apart` are the only ones, over all runs and with `clear`, dependent types and
values in play.

* `SafeDelete`: nobody can still use what is deleted.
* `deletion_safe`: every deletion of an `Apart` run is safe.
* `deletes_singleton_in_use`: a deletion that is not.
-/

namespace SingletonStorage

variable {K : Type}

/-- Nobody can use `o` any more: no `Ref` points to it, no `get` has determined
it, and its counter is zero. -/
structure SafeDelete (s : State K) (o : Ptr) : Prop where
  refs : ∀ r ∈ s.refs, r.2 ≠ o
  handed : ¬Handed s o
  found : ∀ t k, .getRecycle k o ∉ s.stack t
  count : (s.singletons o).refCount = 0

variable [DecidableEq K] {p : Program K} {s s' : State K} {l : Label K}

/-- An object that a `get` has just found is attached and no collection is
under way. -/
theorem Deletes.not_found (hsound : Sound s) {o : Ptr} (h : Deletes s l o) (t : Tid) (k : K) :
    .getRecycle k o ∉ s.stack t := by
  intro hmem
  have hin : s.inside = some (.found k o) :=
    State.inside_of_mem hsound.owned hsound.shaped hmem rfl
  rcases h with ⟨t', rest, -, top⟩ | ⟨t', k', keys, n, caller, rest, -, top, -⟩
  · have hattached : s.directory.attached o :=
      (hsound.directory.attached k o (hsound.directory.found k o hin)).resolve_right
        (by simp [State.directory, hin])
    have hdetached := hsound.detached t' o (by simp [top])
    simp [State.directory, hdetached] at hattached
  · have hretiring := (State.inside_top hsound.owned top rfl).2
    simp [hin, Frame.phase] at hretiring

/-- **Safe deletion.**  In every run in which no `get` recycles an object whose
dispose is outstanding, and no object loses its last `Ref` while a `get` has
still to construct one, whatever is deleted has counter zero, no `Ref`, and no
`get` about to return it. -/
theorem deletion_safe [Inhabited K] (h : Runs.Reach (step p) Apart initial s) {o : Ptr}
    (hdeletes : Deletes s l o) : SafeDelete s o := by
  obtain ⟨hsound, hgone⟩ := Reach.gone h
  have hretired : Retired s o :=
    hdeletes.retired.elim (fun h => .inr (.inl h)) fun h => .inr (.inr (.inl h))
  obtain ⟨hcount, hhanded⟩ := hgone o hretired
  refine ⟨fun r hr heq => ?_, hhanded, hdeletes.not_found hsound, hcount⟩
  have hpos := hsound.counted.pos hr
  rw [heq, hcount] at hpos
  exact lt_irrefl _ hpos

/-- Client 0 gets a singleton, drops it and collects. -/
def getDropCollect : List (Label String) :=
  [.start 0 (.get "Speed"), .next (.client 0), .next (.client 0), .next (.client 0),
    .next (.client 0), .next (.client 0), .next (.client 0), .start 0 (.drop 0),
    .next (.client 0), .next (.client 0), .next (.client 0), .start 0 .garbageCollect,
    .next (.client 0), .next (.client 0)]

theorem deletion_safe_getDropCollect :
    ∃ s, Runs.run (step independent) initial getDropCollect = some s ∧
      Deletes s (.pickKey (.client 0) "Speed") 0 ∧ SafeDelete s 0 := by
  have hrun : Runs.run (step independent) initial getDropCollect = some _ := rfl
  have hreach := reach_of_solo (n := 0) independent_async (by decide) (fun _ _ => rfl) hrun
  suffices hdeletes : Deletes _ (.pickKey (.client 0) "Speed") 0 from
    ⟨_, hrun, hdeletes, deletion_safe (Reach.apart hreach) hdeletes⟩
  exact .inr ⟨.client 0, "Speed", ["Speed"], 0, .garbageCollect, [], rfl, rfl, .head _, rfl⟩

/-- Client 0 gets a singleton and drops it; client 1 gets it between the
decrement and the dispose of that drop. -/
def dropDuringGet : List (Label String) :=
  [.start 0 (.get "Speed"), .next (.client 0), .next (.client 0), .next (.client 0),
    .next (.client 0), .next (.client 0), .next (.client 0), .start 0 (.drop 0),
    .start 1 (.get "Speed"), .next (.client 1), .next (.client 1), .next (.client 1),
    .next (.client 1), .next (.client 0), .next (.client 0), .next (.client 0)]

/-- Client 2 collects. -/
def collect : List (Label String) :=
  [.start 2 .garbageCollect, .next (.client 2), .next (.client 2)]

/-- The collection deletes a singleton that client 1 is about to return from
its `get`, or, when client 1 is one step further, one that it has a `Ref` to
and whose counter is one. -/
theorem deletes_singleton_in_use :
    (∃ s, Runs.run (step independent) initial (dropDuringGet ++ collect) = some s ∧
      (step independent s (.pickKey (.client 2) "Speed")).isSome ∧
      Deletes s (.pickKey (.client 2) "Speed") 0 ∧ Handed s 0) ∧
    ∃ s, Runs.run (step independent) initial
        (dropDuringGet ++ .next (.client 1) :: collect) = some s ∧
      (step independent s (.pickKey (.client 2) "Speed")).isSome ∧
      Deletes s (.pickKey (.client 2) "Speed") 0 ∧
      (.client, 0) ∈ s.refs ∧ (s.singletons 0).refCount = 1 := by
  refine ⟨⟨_, rfl, rfl, .inr ⟨.client 2, "Speed", ["Speed"], 0, .garbageCollect, [], rfl, rfl, ?_, rfl⟩,
    .client 1, .getRef 0, ?_, rfl⟩, _, rfl, rfl,
    .inr ⟨.client 2, "Speed", ["Speed"], 0, .garbageCollect, [], rfl, rfl, ?_, rfl⟩, ?_, rfl⟩
  · exact .head _
  · exact .head _
  · exact .head _
  · exact .head _

end SingletonStorage
