import Mathlib.Data.Nat.Notation
import Mathlib.Logic.Function.Basic
import Mathlib.Tactic.Simps.Basic
import VssServer.Replica
import VssServer.Runs

/-!
# The cached value of a subscription attribute

`CommonAPISubscriptionProxyAttribute` subscribes to the changes of a remote value,
waits for the first event, and then fetches the value itself.  The handler of the
events, `refreshValue` and `mutateValue` overwrite the same `m_value`.  `mutateValue`
holds the lock from its remote call to its store; `refreshValue` fetches before it
takes the lock, and the constructor takes none.

* `Coherent`: the cache is right once all events are delivered, and so is what a thread in
  `mutateValue` is going to store.
* `Coherent.step`: every step that meets the side condition keeps it so.
* `cache_follows`: with all events delivered the cache has the remote value.
-/

namespace CommonAPI

variable {α : Type*}

abbrev Thread := Nat

/-- Where a thread is in a call: in `fetchValue` of `refreshValue`, with the value it has
fetched, in `changeValue` of `mutateValue`, with the value this has returned. -/
inductive Call (α : Type*)
  | idle
  | fetching
  | fetched (v : α)
  | changing
  | changed (v : α)

/-- The call has the lock. -/
def Call.locks : Call α → Bool
  | .changing | .changed _ => true
  | _ => false

/-- Where the constructor is: it waits for the first event, is in `fetchValue` of
`refreshValueUnlocked`, has fetched, has returned. -/
inductive Construction (α : Type*)
  | subscribing
  | fetching
  | fetched (v : α)
  | done

/-- The remote value, the change events to be delivered and `m_value`, with the lock and
the calls of the threads. -/
structure Attribute (α : Type*) where
  replica : Replica α
  lock : Option Thread
  calls : Thread → Call α
  construction : Construction α

/-- One step.  A label carries the value that the remote side determines. -/
inductive Label (α : Type*)
  | change (v : α)
  | deliver
  | getInitialValue
  | refreshValueUnlocked
  | refreshValue (t : Thread)
  | getValue (t : Thread)
  | mutateValue (t : Thread)
  | setValue (t : Thread) (result : α)
  | fail (t : Thread)
  | store (t : Thread)

namespace Attribute

/-- The remote value and its copy change. -/
@[simps]
def follow (s : Attribute α) (r : Replica α) : Attribute α :=
  { s with replica := r }

/-- The thread `t` goes on. -/
@[simps]
def call (s : Attribute α) (t : Thread) (c : Call α) : Attribute α :=
  { s with calls := Function.update s.calls t c }

@[simps]
def setLock (s : Attribute α) (lock : Option Thread) : Attribute α :=
  { s with lock := lock }

@[simps]
def construct (s : Attribute α) (c : Construction α) : Attribute α :=
  { s with construction := c }

/-- The handler of the events; the first one answers the subscription. -/
def deliver (s : Attribute α) : Option (Attribute α) :=
  match s.replica.events, s.lock with
  | v :: events, none =>
      let s' := s.follow (s.replica.deliver v events)
      match s.construction with
      | .subscribing => some (s'.construct .fetching)
      | _ => some s'
  | _, _ => none

/-- The remote side applies what `mutateValue` sends. -/
def applied [DecidableEq α] (s : Attribute α) (result : α) : Replica α :=
  if result = s.replica.remote then s.replica else s.replica.change result

/-- One atomic step. -/
def step [DecidableEq α] (s : Attribute α) : Label α → Option (Attribute α)
  | .change v => some (s.follow (s.replica.change v))
  | .deliver => s.deliver
  | .getInitialValue =>
      match s.construction with
      | .fetching => some (s.construct (.fetched s.replica.remote))
      | _ => none
  | .refreshValueUnlocked =>
      match s.construction with
      | .fetched v => some ((s.follow (s.replica.store v)).construct .done)
      | _ => none
  | .refreshValue t =>
      match s.construction, s.calls t with
      | .done, .idle => some (s.call t .fetching)
      | _, _ => none
  | .getValue t =>
      match s.calls t with
      | .fetching => some (s.call t (.fetched s.replica.remote))
      | _ => none
  | .mutateValue t =>
      match s.construction, s.calls t, s.lock with
      | .done, .idle, none => some ((s.call t .changing).setLock (some t))
      | _, _, _ => none
  | .setValue t result =>
      match s.calls t with
      | .changing => some ((s.follow (s.applied result)).call t (.changed result))
      | _ => none
  | .fail t =>
      match s.calls t with
      | .fetching => some (s.call t .idle)
      | .changing => some ((s.call t .idle).setLock none)
      | _ => none
  | .store t =>
      match s.calls t, s.lock with
      | .fetched v, none => some ((s.follow (s.replica.store v)).call t .idle)
      | .changed v, _ => some (((s.follow (s.replica.store v)).call t .idle).setLock none)
      | _, _ => none

/-- The attribute has subscribed, and the event that answers the subscription is under
way; `value` is what a new `m_value` happens to be. -/
def start (remote value : α) : Attribute α where
  replica := { remote := remote, events := [remote], value := value }
  lock := none
  calls _ := .idle
  construction := .subscribing

end Attribute

namespace Attribute

variable {s s' : Attribute α} {l : Label α}

/-- The value that a step stores after it was fetched without the lock. -/
def storesFetched (s : Attribute α) : Label α → Option α
  | .refreshValueUnlocked =>
      match s.construction with
      | .fetched v => some v
      | _ => none
  | .store t =>
      match s.calls t with
      | .fetched v => some v
      | _ => none
  | _ => none

/-- The side condition on a step: what is stored after it was fetched without the lock is
still the remote value, or a later change is still to be delivered, the last of which
has the remote value. -/
def StoresCurrent (s : Attribute α) (l : Label α) : Prop :=
  ∀ v ∈ s.storesFetched l, s.replica.Settles v

instance [DecidableEq α] (s : Attribute α) (l : Label α) : Decidable (StoresCurrent s l) :=
  inferInstanceAs (Decidable (∀ v ∈ s.storesFetched l, s.replica.events.getLastD v = s.replica.remote))

/-- The cache is right once all events are delivered; so is the result that a thread has
got from `changeValue`, and until it is stored this thread has the lock. -/
structure Coherent (s : Attribute α) : Prop where
  settled : s.replica.Settled
  locked : ∀ t, (s.calls t).locks = true → s.lock = some t
  changed : ∀ t v, s.calls t = .changed v → s.replica.Settles v

namespace Coherent

/-- Nobody is in `mutateValue` while the lock is free. -/
theorem free (h : Coherent s) (hfree : s.lock = none) (t : Thread) : (s.calls t).locks = false := by
  by_contra hlocks
  have hlock := h.locked t (by simpa using hlocks)
  rw [hfree] at hlock
  cases hlock

/-- While a thread has the lock, no other one is in `mutateValue`. -/
theorem alone (h : Coherent s) {t t' : Thread} (hlocks : (s.calls t).locks = true)
    (ht : t' ≠ t) : (s.calls t').locks = false := by
  by_contra hlocks'
  have hlock := h.locked t' (by simpa using hlocks')
  rw [h.locked t hlocks] at hlock
  exact ht (Option.some.inj hlock).symm

/-- The progress of a constructor does not touch the cache. -/
theorem construct (h : Coherent s) (c : Construction α) : Coherent (s.construct c) where
  settled := h.settled
  locked := h.locked
  changed := h.changed

/-- The remote value and the cache may change when nobody is in `mutateValue`, or the
results there stay right. -/
theorem follow (h : Coherent s) {r : Replica α} (hr : r.Settled)
    (hchanged : ∀ t v, s.calls t = .changed v → r.Settles v) : Coherent (s.follow r) where
  settled := hr
  locked := h.locked
  changed := hchanged

/-- A thread goes on, with the lock if it needs it. -/
theorem call (h : Coherent s) {t : Thread} {c : Call α} (hreplica : s'.replica = s.replica)
    (hcalls : s'.calls = Function.update s.calls t c) (hlock : c.locks = true → s'.lock = some t)
    (hothers : ∀ t', t' ≠ t → (s.calls t').locks = true → s'.lock = s.lock)
    (hchanged : ∀ v, c = .changed v → s.replica.Settles v) : Coherent s' where
  settled := hreplica ▸ h.settled
  locked := by
    intro t' hlocks
    rw [hcalls] at hlocks
    by_cases ht : t' = t
    · subst ht
      rw [Function.update_self] at hlocks
      exact hlock hlocks
    · rw [Function.update_of_ne ht] at hlocks
      rw [hothers t' ht hlocks]
      exact h.locked t' hlocks
  changed := by
    intro t' v hcall
    rw [hcalls] at hcall
    rw [hreplica]
    by_cases ht : t' = t
    · subst ht
      rw [Function.update_self] at hcall
      exact hchanged v hcall
    · rw [Function.update_of_ne ht] at hcall
      exact h.changed t' v hcall

/-- The handler of an event finds the lock free, so it overwrites no result of
`mutateValue`. -/
theorem step_deliver (h : Coherent s) (hstep : s.deliver = some s') : Coherent s' := by
  unfold deliver at hstep
  split at hstep
  case h_1 v events hevents hfree =>
    have hfollow : Coherent (s.follow (s.replica.deliver v events)) := by
      apply h.follow (Replica.settled_deliver h.settled hevents)
      intro t w hcall
      have hlocks := h.free hfree t
      rw [hcall] at hlocks
      cases hlocks
    split at hstep <;> cases hstep
    · exact hfollow.construct .fetching
    · exact hfollow
  case h_2 => cases hstep

end Coherent

variable [DecidableEq α]

/-- The result of `changeValue` is the remote value until the next change. -/
theorem settled_applied (h : s.replica.Settled) (result : α) :
    (s.applied result).Settled ∧ (s.applied result).Settles result := by
  unfold applied
  split
  case isTrue heq =>
    rw [heq]
    exact ⟨h, h.settles_remote⟩
  case isFalse =>
    exact ⟨s.replica.settles_change result _, s.replica.settles_change result result⟩

namespace Coherent

/-- What is stored is current, by the side condition or under the lock. -/
theorem step_store (h : Coherent s) {t : Thread} (hok : StoresCurrent s (.store t))
    (hstep : s.step (.store t) = some s') : Coherent s' := by
  have hstores : ∀ {v}, s.replica.Settles v → Coherent (s.follow (s.replica.store v)) :=
    fun hv => h.follow (Replica.settled_store.mpr hv) h.changed
  simp only [Attribute.step] at hstep
  split at hstep
  case h_1 v hcall hfree =>
    cases hstep
    have hv := hok v (by simp [storesFetched, hcall])
    exact (hstores hv).call rfl rfl nofun (fun _ _ _ => rfl) nofun
  case h_2 v hcall =>
    cases hstep
    have hlocks : (s.calls t).locks = true := by rw [hcall]; rfl
    refine (hstores (h.changed t v hcall)).call rfl rfl nofun ?_ nofun
    intro t' ht hlocks'
    simp [h.alone hlocks ht] at hlocks'
  case h_3 => cases hstep

/-- `setValue` of the remote side has its result under way, or it changes nothing. -/
theorem step_setValue (h : Coherent s) {t : Thread} {result : α}
    (hstep : s.step (.setValue t result) = some s') : Coherent s' := by
  simp only [Attribute.step] at hstep
  split at hstep
  case h_1 hcall =>
    cases hstep
    have hlocks : (s.calls t).locks = true := by rw [hcall]; rfl
    obtain ⟨hsettled, hresult⟩ := settled_applied h.settled result
    have hfollow : Coherent (s.follow (s.applied result)) := by
      apply h.follow hsettled
      intro t' v hcall'
      by_cases ht : t' = t
      · rw [ht, hcall] at hcall'
        cases hcall'
      · have hlocks' := h.alone hlocks ht
        rw [hcall'] at hlocks'
        cases hlocks'
    refine hfollow.call rfl rfl (fun _ => h.locked t hlocks) (fun _ _ _ => rfl) ?_
    intro v heq
    cases heq
    exact hresult
  case h_2 => cases hstep

/-- A mutation that fails stores nothing. -/
theorem step_fail (h : Coherent s) {t : Thread} (hstep : s.step (.fail t) = some s') :
    Coherent s' := by
  simp only [Attribute.step] at hstep
  split at hstep
  case h_1 hcall =>
    cases hstep
    exact h.call rfl rfl nofun (fun _ _ _ => rfl) nofun
  case h_2 hcall =>
    cases hstep
    have hlocks : (s.calls t).locks = true := by rw [hcall]; rfl
    refine h.call rfl rfl nofun ?_ nofun
    intro t' ht hlocks'
    simp [h.alone hlocks ht] at hlocks'
  case h_3 => cases hstep

/-- Every step that meets the side condition keeps the cache coherent. -/
theorem step (h : Coherent s) (hok : StoresCurrent s l) (hstep : s.step l = some s') :
    Coherent s' := by
  cases l with
  | change v =>
      cases hstep
      exact h.follow (s.replica.settles_change v _) fun _ _ _ => s.replica.settles_change v _
  | deliver => exact h.step_deliver hstep
  | getInitialValue =>
      simp only [Attribute.step] at hstep
      split at hstep <;> cases hstep
      exact h.construct _
  | refreshValueUnlocked =>
      simp only [Attribute.step] at hstep
      split at hstep
      case h_1 v hconstruction =>
        cases hstep
        have hv := hok v (by simp [storesFetched, hconstruction])
        exact (h.follow (Replica.settled_store.mpr hv) h.changed).construct _
      case h_2 => cases hstep
  | refreshValue t =>
      simp only [Attribute.step] at hstep
      split at hstep <;> cases hstep
      exact h.call rfl rfl nofun (fun _ _ _ => rfl) nofun
  | getValue t =>
      simp only [Attribute.step] at hstep
      split at hstep <;> cases hstep
      exact h.call rfl rfl nofun (fun _ _ _ => rfl) nofun
  | mutateValue t =>
      simp only [Attribute.step] at hstep
      split at hstep
      case h_1 hfree =>
        cases hstep
        refine h.call rfl rfl (fun _ => rfl) ?_ nofun
        intro t' ht hlocks'
        simp [h.free hfree t'] at hlocks'
      case h_2 => cases hstep
  | setValue t result => exact h.step_setValue hstep
  | fail t => exact h.step_fail hstep
  | store t => exact h.step_store hok hstep

end Coherent

/-- **The cache follows.**  As long as what is stored after it was fetched without the
lock is the remote value or a later change is still to be delivered, the cache has the
remote value whenever all change events are delivered. -/
theorem cache_follows {remote value : α}
    (h : Runs.Reach step StoresCurrent (start remote value) s) (hdelivered : s.replica.events = []) :
    s.replica.value = s.replica.remote := by
  have hcoherent : Coherent s := by
    apply h.invariant (I := Coherent)
    · exact ⟨rfl, nofun, nofun⟩
    · intro s l s' hs hok hstep
      exact hs.step hok hstep
  exact hcoherent.settled.value_eq hdelivered

/-- A client changes the value through the attribute, and the event of this change arrives. -/
def constructAndMutate : List (Label ℕ) :=
  [.deliver, .getInitialValue, .refreshValueUnlocked, .mutateValue 0, .setValue 0 7, .store 0,
    .deliver]

/-- After a construction and a mutation the cache has the remote value. -/
theorem cache_follows_constructAndMutate :
    ∃ s, Runs.run step (start 3 0) constructAndMutate = some s ∧ s.replica.remote = 7 ∧
      s.replica.value = s.replica.remote := by
  have hrun : Runs.run step (start 3 0) constructAndMutate = some _ := rfl
  have hreach := Runs.reach_of_run hrun (by decide : Runs.RunMeets _ StoresCurrent _ _)
  exact ⟨_, hrun, rfl, cache_follows hreach rfl⟩

/-- The value changes, and the event of this arrives, between the fetch of the
constructor and its store. -/
def changeWhileConstructing : List (Label ℕ) :=
  [.deliver, .getInitialValue, .change 4, .deliver, .refreshValueUnlocked]

/-- Everything is delivered and nothing is in progress, and the cache has an old value. -/
theorem cache_stale :
    ∃ s, Runs.run step (start 3 0) changeWhileConstructing = some s ∧
      s.replica.events = [] ∧ (∀ t, s.calls t = .idle) ∧ s.construction = .done ∧
      s.replica.remote = 4 ∧ s.replica.value = 3 :=
  ⟨_, rfl, rfl, fun _ => rfl, rfl, rfl, rfl⟩

end Attribute

end CommonAPI
