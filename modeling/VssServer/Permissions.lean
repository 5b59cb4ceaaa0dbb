import Mathlib.Data.Finset.Basic

/-!
# Client permissions and the check that resolvers make

`GraphQLRequestState::validate` is what guards a node of the graph: a resolver
calls it with the permissions the node requires, and it returns normally or
throws.  This file is the pure part, the set a client holds and the two flags
of a request; which calls happen when is up to the runs of the server.

* `ClientPermissions`: the set of keys that a client holds.
* `validate_iff`: when it has all that a node requires.
* `validate_checked`, `validate_unchecked`: the check of a request, before and after it is
  switched off.
-/

namespace Permissions

/-- `ClientPermissions::Key`. -/
abbrev Key := UInt16

/-- The exceptions of `validate`: `ContextException` and `PermissionException`. -/
inductive Failure
  | context
  | permission
  deriving DecidableEq

/-- `ClientPermissions`: the set `m_lookup`. -/
structure ClientPermissions where
  lookup : Finset Key
  deriving DecidableEq

namespace ClientPermissions

/-- `ClientPermissions::contains`. -/
def contains (p : ClientPermissions) (permission : Key) : Bool :=
  permission ∈ p.lookup

/-- `ClientPermissions::validate`: the first permission, then the `rest`. -/
def validate (p : ClientPermissions) (permission : Key) : List Key → Except Failure Unit
  | [] => if p.contains permission then .ok () else .error .permission
  | next :: rest =>
      if p.contains permission then p.validate next rest else .error .permission

/-- The recursion over the parameter pack checks all of them. -/
theorem validate_iff (p : ClientPermissions) (permission : Key) (rest : List Key) :
    p.validate permission rest = .ok () ↔ ∀ k ∈ permission :: rest, p.contains k := by
  induction rest generalizing permission with
  | nil =>
      unfold validate
      split <;> simp_all
  | cons next rest ih =>
      unfold validate
      split
      · rw [ih]
        simp_all
      · simp_all

/-- It throws nothing but the missing permission. -/
theorem validate_error {p : ClientPermissions} {permission : Key} {rest : List Key}
    {e : Failure} (h : p.validate permission rest = .error e) : e = .permission := by
  induction rest generalizing permission with
  | nil =>
      unfold validate at h
      split at h
      · cases h
      · exact (Except.error.inj h).symm
  | cons next rest ih =>
      unfold validate at h
      split at h
      · exact ih h
      · exact (Except.error.inj h).symm

end ClientPermissions

/-- The fields of `GraphQLRequestState` that `validate` uses. -/
structure RequestState where
  permissions : Option ClientPermissions
  didPermissionsCheck : Bool
  failedPermissionsCheck : Bool := false
  deriving DecidableEq

namespace RequestState

/-- The client has the permission. -/
def has (r : RequestState) (k : Key) : Prop :=
  ∃ p, r.permissions = some p ∧ p.contains k

/-- `GraphQLRequestState::validate`: the outcome, and the request afterwards. -/
def validate (r : RequestState) (permission : Key) (rest : List Key) :
    Except Failure Unit × RequestState :=
  if r.didPermissionsCheck then (.ok (), r)
  else
    match r.permissions with
    | none => (.error .context, { r with failedPermissionsCheck := true })
    | some p =>
        match p.validate permission rest with
        | .ok () => (.ok (), r)
        | .error e => (.error e, { r with failedPermissionsCheck := true })

/-- The end of a delivery: the check is switched off unless one has failed. -/
def finishDelivery (r : RequestState) : RequestState :=
  if r.failedPermissionsCheck then r else { r with didPermissionsCheck := true }

variable {r : RequestState} {permission : Key} {rest : List Key}

/-- `validate` changes nothing but the flag of a failed check. -/
theorem validate_fields (r : RequestState) (permission : Key) (rest : List Key) :
    (r.validate permission rest).2.permissions = r.permissions ∧
      (r.validate permission rest).2.didPermissionsCheck = r.didPermissionsCheck := by
  unfold validate
  split
  · exact ⟨rfl, rfl⟩
  · split
    · exact ⟨rfl, rfl⟩
    · split <;> exact ⟨rfl, rfl⟩

/-- A call that makes the check passes exactly if the client has everything it
requires, and is remembered otherwise. -/
theorem validate_checked (h : r.didPermissionsCheck = false) :
    ((r.validate permission rest).1 = .ok () ∧ (r.validate permission rest).2 = r ∧
      ∀ k ∈ permission :: rest, r.has k) ∨
    ((r.validate permission rest).1 ≠ .ok () ∧
      (r.validate permission rest).2.failedPermissionsCheck = true ∧
      ¬∀ k ∈ permission :: rest, r.has k) := by
  have hhas : ∀ {p}, r.permissions = some p →
      ((∀ k ∈ permission :: rest, r.has k) ↔ ∀ k ∈ permission :: rest, p.contains k) := by
    intro p hp
    simp [has, hp]
  unfold validate
  rw [if_neg (by simp [h])]
  cases hp : r.permissions with
  | none =>
      right
      refine ⟨by simp, rfl, ?_⟩
      intro hall
      obtain ⟨p, hsome, -⟩ := hall permission (.head _)
      simp [hp] at hsome
  | some p =>
      rw [hhas hp, ← p.validate_iff]
      cases hv : p.validate permission rest with
      | ok => simp [hv]
      | error e => simp [hv]

/-- Once the check is switched off every call returns normally. -/
theorem validate_unchecked (h : r.didPermissionsCheck = true) :
    r.validate permission rest = (.ok (), r) := by
  unfold validate
  exact if_pos h

end RequestState

end Permissions
