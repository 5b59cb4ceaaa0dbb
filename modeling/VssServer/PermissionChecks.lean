import VssServer.OperationSteps

/-!
# What a passed permission check is worth

A subscription makes the checks of its resolvers again and again, so after a
delivery without a failed check the server switches them off for the operation.
That delivery need not have reached every guarded resolver.  A later one may
reach another, and the permission it requires is not looked at any more.
`permissions_enforced` says that this is the only way past the check.

* `Verified`: what an operation has checked is granted, once its check is switched off.
* `OperationStep.verified`: every change of an operation keeps it so.
* `permissions_enforced`: where later resolvers require nothing new, nobody gets past the
  check.
* `unchecked_permission_passes`: where one does, it is not looked at.
-/

namespace GraphQLServer

open Response Permissions

/-- Unless a check has failed before the flag was set, the client has everything
that was checked. -/
def Operation.Verified (x : Operation) : Prop :=
  x.request.failedPermissionsCheck = false ∨ x.request.didPermissionsCheck = true →
    ∀ k ∈ x.checked, x.request.has k

/-- The side condition on a step: once the check is switched off, resolvers
require only permissions that an earlier call of the operation has checked. -/
def Covered (s : State) (l : Label) : Prop :=
  ∀ o permission rest, l = .validate o permission rest →
    (s.operations o).request.didPermissionsCheck = true →
      ∀ k ∈ permission :: rest, k ∈ (s.operations o).checked

/-- The call of `validate` that a step is. -/
def Label.validates : Label → Option (OperationId × Permissions.Key × List Permissions.Key)
  | .validate o permission rest => some (o, permission, rest)
  | _ => none

instance (s : State) (l : Label) : Decidable (Covered s l) :=
  decidable_of_iff (∀ v ∈ l.validates, (s.operations v.1).request.didPermissionsCheck = true →
      (v.2.1 :: v.2.2).all (· ∈ (s.operations v.1).checked) = true) <| by
    simp only [List.all_eq_true, decide_eq_true_iff]
    constructor
    · rintro h o permission rest rfl
      exact h (o, permission, rest) rfl
    · intro h v hv
      cases l with
      | validate o permission rest =>
          cases hv
          exact h o permission rest rfl
      | _ => cases hv

theorem verified_new (env : Environment) (id : String) (c : ConnectionId)
    (permissions : Option ClientPermissions) (sub : Bool) (key : SubscriptionKey) :
    (newOperation env id c permissions sub key).Verified := by
  intro _ k hk
  cases hk

/-- A call of `validate` keeps what is verified. -/
theorem Operation.Verified.validate {x : Operation} (h : x.Verified)
    (permission : Permissions.Key) (rest : List Permissions.Key) :
    Operation.Verified
      { x with
        request := (x.request.validate permission rest).2
        checked :=
          if x.request.didPermissionsCheck then x.checked
          else permission :: rest ++ x.checked } := by
  intro hpassed k hk
  by_cases hdid : x.request.didPermissionsCheck
  · rw [RequestState.validate_unchecked hdid] at hpassed ⊢
    simp only [hdid, if_true] at hk
    exact h hpassed k hk
  · have hdid' : x.request.didPermissionsCheck = false := by simpa using hdid
    have hflag := (x.request.validate_fields permission rest).2
    rcases RequestState.validate_checked hdid' with ⟨-, hsame, hall⟩ | ⟨-, hfailed, -⟩
    · rw [hsame] at hpassed ⊢
      simp only [hdid', Bool.false_eq_true, if_false] at hk
      rcases List.mem_append.mp hk with hnew | hold
      · exact hall k hnew
      · exact h hpassed k hold
    · rcases hpassed with hpassed | hpassed
      · simp [hfailed] at hpassed
      · simp [hflag, hdid'] at hpassed

theorem OperationStep.verified {e : Effects} {x x' : Operation}
    (hs : OperationStep e x x') (h : x.Verified) : x'.Verified := by
  cases hs
  case validate permission rest resolves => exact h.validate permission rest
  case deliveryPassed delivered =>
    unfold RequestState.finishDelivery
    by_cases hfailed : x.request.failedPermissionsCheck
    · rw [if_pos hfailed]
      exact h
    · rw [if_neg hfailed]
      intro _
      exact h (.inl (by simpa using hfailed))
  all_goals exact h

variable {env : Environment} {s : State}

theorem Reach.verified {ok : State → Label → Prop} (h : Runs.Reach (step env) ok initial s)
    (o : OperationId) : (s.operations o).Verified := by
  have hall : ∀ o, (s.operations o).Verified := by
    apply h.invariant (I := fun s => ∀ o, (s.operations o).Verified)
    · intro o _ k hk
      cases hk
    · intro s l s' hs _ hstep
      exact (step_cases hstep).forall_operations (verified_new env)
        (fun _ _ hx => hx.verified) hs
  exact hall o

/-- **Enforced permissions.**  In every run in which, once the check of an
operation is switched off, its resolvers require only what was checked before,
`validate` returns normally only for clients that have every required
permission. -/
theorem permissions_enforced (h : Runs.Reach (step env) Covered initial s) {o : OperationId}
    {permission : Permissions.Key} {rest : List Permissions.Key}
    (hcovered : Covered s (.validate o permission rest))
    (hreturns : ((s.operations o).request.validate permission rest).1 = .ok ()) :
    ∃ p, (s.operations o).request.permissions = some p ∧
      ∀ k ∈ permission :: rest, p.contains k := by
  have hhas : ∀ k ∈ permission :: rest, (s.operations o).request.has k := by
    by_cases hdid : (s.operations o).request.didPermissionsCheck
    · intro k hk
      exact Reach.verified h o (.inr hdid) k (hcovered o permission rest rfl hdid k hk)
    · rcases RequestState.validate_checked (by simpa using hdid) with ⟨-, -, hall⟩ | ⟨hthrows, -⟩
      · exact hall
      · exact absurd hreturns hthrows
  obtain ⟨p, hp, -⟩ := hhas permission (.head _)
  refine ⟨p, hp, ?_⟩
  intro k hk
  obtain ⟨p', hp', hcontains⟩ := hhas k hk
  cases hp.symm.trans hp'
  exact hcontains

/-- A delivery that reaches no guarded resolver, and a change of an observed value. -/
def deliverUnguarded : List Label :=
  [.observe 0, .resolved 0 .null, .worker 0, .worker 0, .main, .signal 0, .slot 0]

/-- A delivery whose resolver requires what the client holds, and such a change. -/
def deliverGuarded : List Label :=
  .validate 0 1 [] :: deliverUnguarded

/-- Two deliveries, of which the second one requires what the first one has checked. -/
def deliverGuardedTwice : List Label :=
  connectSubscribe ++ .worker 0 :: (deliverFirst ++ deliverGuarded ++ deliverFirst)

set_option maxRecDepth 4000 in
/-- The check is switched off when the second delivery requires what the first one has
checked. -/
theorem permissions_enforced_first_delivery :
    ∃ s, Runs.run (step vehicle) initial deliverGuardedTwice = some s ∧
      (s.operations 0).request.didPermissionsCheck = true ∧
      ((s.operations 0).request.validate 1 []).1 = .ok () ∧
      ∃ p, (s.operations 0).request.permissions = some p ∧ ∀ k ∈ [1], p.contains k := by
  have hrun : Runs.run (step vehicle) initial deliverGuardedTwice = some _ := rfl
  have hreach := Runs.reach_of_run hrun (by decide : Runs.RunMeets _ Covered _ _)
  refine ⟨_, hrun, rfl, rfl, permissions_enforced hreach ?_ rfl⟩
  intro o permission rest heq _ k hk
  cases heq
  exact hk

set_option maxRecDepth 4000 in
/-- The client does not hold the permission 2.  Its first delivery reaches no
guarded resolver, and in the second one a resolver that requires it is let
through. -/
theorem unchecked_permission_passes :
    ∃ s, Runs.run (step vehicle) initial
        (connectSubscribe ++ .worker 0 :: (deliverFirst ++ deliverUnguarded ++ deliverFirst)) = some s ∧
      (step vehicle s (.validate 0 2 [])).isSome ∧
      ((s.operations 0).request.validate 2 []).1 = .ok () ∧
      (s.operations 0).request.permissions = some ⟨{1}⟩ ∧
      (⟨{1}⟩ : ClientPermissions).contains 2 = false :=
  ⟨_, rfl, rfl, rfl, rfl, rfl⟩

end GraphQLServer
