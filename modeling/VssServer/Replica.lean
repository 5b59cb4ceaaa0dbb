import Mathlib.Data.List.GetD
import Mathlib.Tactic.Simps.Basic

/-!
# A copy that follows a remote value

The remote value announces each of its changes, and the announcements arrive in
their order.  Once they have all arrived the copy is what the last of them says, so
a copy is right in the end exactly if the last announcement that is under way, or
the copy itself when there is none, has the remote value.  This is kept by changes
and arrivals; a value from elsewhere may be stored only if it keeps it.

* `Replica.Settled`: the last announcement on its way, or the copy, has the remote value.
* `settled_store`: what may be stored from elsewhere.
-/

variable {α : Type*}

/-- A remote value, its copy, and the announcements that are under way. -/
structure Replica (α : Type*) where
  remote : α
  events : List α
  value : α

namespace Replica

/-- The remote value changes. -/
@[simps]
def change (r : Replica α) (v : α) : Replica α :=
  { r with remote := v, events := r.events ++ [v] }

/-- The first announcement arrives. -/
@[simps]
def deliver (r : Replica α) (v : α) (events : List α) : Replica α :=
  { r with events := events, value := v }

/-- The copy is overwritten. -/
@[simps]
def store (r : Replica α) (v : α) : Replica α :=
  { r with value := v }

/-- A copy with the value `v` is right once all announcements have arrived. -/
def Settles (r : Replica α) (v : α) : Prop :=
  r.events.getLastD v = r.remote

/-- The copy is right once all announcements have arrived. -/
def Settled (r : Replica α) : Prop :=
  r.Settles r.value

theorem settles_change (r : Replica α) (v w : α) : (r.change v).Settles w := by
  simp [Settles]

/-- The remote value itself may always be stored. -/
theorem Settled.settles_remote {r : Replica α} (h : r.Settled) : r.Settles r.remote := by
  unfold Settled Settles at h
  unfold Settles
  cases hevents : r.events with
  | nil => rfl
  | cons v events =>
      rw [hevents, List.getLastD_cons] at h
      rw [List.getLastD_cons, h]

theorem settled_deliver {r : Replica α} {v : α} {events : List α} (h : r.Settled)
    (hnext : r.events = v :: events) : (r.deliver v events).Settled := by
  unfold Settled Settles at h ⊢
  rw [hnext, List.getLastD_cons] at h
  exact h

theorem settled_store {r : Replica α} {v : α} : (r.store v).Settled ↔ r.Settles v :=
  Iff.rfl

/-- When nothing is under way, a copy that is right in the end is right. -/
theorem Settled.value_eq {r : Replica α} (h : r.Settled) (hnone : r.events = []) :
    r.value = r.remote := by
  unfold Settled Settles at h
  rwa [hnone] at h

end Replica
