import VssServer.StoppedSubscriptions

/-!
# The server and the attributes that it observes

The attributes that resolvers read, joined to the server.  An attribute is changed under
its lock: the value is stored, and `signal` calls the slots of those who observe it one
after the other before the lock is released.  A resolver observes the attribute when it
gets the singleton for the first time, and reads it under the same lock.  What the
resolvers have read, and what was delivered, are ghosts.

* `Observed`: the server with the attributes and those who observe them.
* `emissionStep_cases`: whoever is to be told is told, or is still to be told.
-/

namespace GraphQLServer

open Response Permissions

/-- Where the thread that changes an attribute is.  It has the lock unless it is idle; in
`signal` it has still to call the slots of `remaining`, or is in the slot of `o`. -/
inductive Emission
  | idle
  | stored
  | calling (remaining : Finset OperationId)
  | inSlot (o : OperationId) (remaining : Finset OperationId)
  deriving DecidableEq

/-- The operation is told when the change goes on. -/
def Emission.tells (o : OperationId) : Emission → Prop
  | .idle => False
  | .stored => True
  | .calling remaining | .inSlot _ remaining => o ∈ remaining

/-- The server with the attributes `A` of values `V`.  `observers` are the operations whose
scoped connections an attribute has; `reads` is what the resolution that an operation has
begun last has read so far, and `delivered` what the delivery was resolved from that it has
handed over last. -/
structure Observed (A V : Type) where
  server : State
  value : A → V
  emission : A → Emission
  observers : A → Finset OperationId
  reads : OperationId → List (A × V)
  delivered : OperationId → Option (List (A × V))

/-- A step of the server, of a resolver or of a thread that changes an attribute. -/
inductive ObservedLabel (A V : Type)
  | server (l : Label)
  /-- `getSingleton`, for the first time. -/
  | observe (o : OperationId) (a : A)
  | getValue (o : OperationId) (a : A)
  | setValue (a : A) (v : V)
  /-- `signal` is called. -/
  | signal (a : A)
  | callSlot (a : A) (o : OperationId)
  /-- The connection of `o` is gone before its slot is called. -/
  | skipSlot (a : A) (o : OperationId)
  | returnSlot (a : A)
  | unlock (a : A)

/-- The steps of the server that an attribute takes part in. -/
def Label.ofAttribute : Label → Bool
  | .observe _ | .signal _ | .slot _ => true
  | _ => false

namespace Observed

variable {A V : Type}

@[simps]
def goto (s : Observed A V) (server : State) : Observed A V :=
  { s with server := server }

/-- The resolution of `o` begins. -/
@[simps]
def clearReads (s : Observed A V) (o : OperationId) : Observed A V :=
  { s with reads := Function.update s.reads o [] }

/-- `o` clears its scoped connections. -/
@[simps]
def disconnect (s : Observed A V) (o : OperationId) : Observed A V :=
  { s with observers := fun a => (s.observers a).erase o }

/-- `o` hands a delivery over. -/
@[simps]
def deliver (s : Observed A V) (o : OperationId) : Observed A V :=
  { s with delivered := Function.update s.delivered o (some (s.reads o)) }

/-- What a step of the server to `server` is for the attributes. -/
def after (s : Observed A V) (l : Label) (server : State) : Observed A V :=
  match l with
  | .take o =>
      match (server.operations o).worker with
      | .delivering _ none => (s.clearReads o).goto server
      | .unsubscribing => (s.disconnect o).goto server
      | _ => s.goto server
  | .worker o =>
      match (s.server.operations o).worker with
      | .deliveryReplying _ _ => (s.deliver o).goto server
      | _ => s.goto server
  | _ => s.goto server

@[simp]
theorem after_server (s : Observed A V) (l : Label) (server : State) :
    (s.after l server).server = server := by
  unfold after
  split
  · split <;> rfl
  · split <;> rfl
  · rfl

variable [DecidableEq A]

@[simps]
def emit (s : Observed A V) (a : A) (e : Emission) : Observed A V :=
  { s with emission := Function.update s.emission a e }

@[simps]
def connect (s : Observed A V) (a : A) (o : OperationId) : Observed A V :=
  { s with observers := Function.update s.observers a (insert o (s.observers a)) }

@[simps]
def read (s : Observed A V) (o : OperationId) (a : A) : Observed A V :=
  { s with reads := Function.update s.reads o ((a, s.value a) :: s.reads o) }

@[simps]
def store (s : Observed A V) (a : A) (v : V) : Observed A V :=
  { s with value := Function.update s.value a v }

/-- The thread that changes the attribute `a` goes on. -/
def emissionStep (env : Environment) (s : Observed A V) (a : A) :
    ObservedLabel A V → Option (Observed A V)
  | .signal _ =>
      match s.emission a with
      | .stored => some (s.emit a (.calling (s.observers a)))
      | _ => none
  | .callSlot _ o =>
      match s.emission a with
      | .calling remaining =>
          if o ∈ remaining ∧ o ∈ s.observers a then
            (GraphQLServer.step env s.server (.signal o)).map fun server =>
              (s.emit a (.inSlot o (remaining.erase o))).goto server
          else none
      | _ => none
  | .skipSlot _ o =>
      match s.emission a with
      | .calling remaining =>
          if o ∈ remaining ∧ o ∉ s.observers a then some (s.emit a (.calling (remaining.erase o)))
          else none
      | _ => none
  | .returnSlot _ =>
      match s.emission a with
      | .inSlot o remaining =>
          (GraphQLServer.step env s.server (.slot o)).map fun server =>
            (s.emit a (.calling remaining)).goto server
      | _ => none
  | .unlock _ => if s.emission a = .calling ∅ then some (s.emit a .idle) else none
  | _ => none

/-- One atomic step. -/
def step (env : Environment) (s : Observed A V) (l : ObservedLabel A V) :
    Option (Observed A V) :=
  if s.server.aborted then none
  else
    match l with
    | .server l =>
        if l.ofAttribute then none else (GraphQLServer.step env s.server l).map (s.after l)
    | .observe o a =>
        if o ∈ s.observers a then none
        else
          (GraphQLServer.step env s.server (.observe o)).map fun server =>
            (s.connect a o).goto server
    | .getValue o a =>
        if (s.server.operations o).worker.resolves ∧ s.emission a = .idle ∧
            ((s.server.operations o).isSubscription → o ∈ s.observers a) then some (s.read o a)
        else none
    | .setValue a v =>
        if s.emission a = .idle then some ((s.store a v).emit a .stored) else none
    | .signal a | .callSlot a _ | .skipSlot a _ | .returnSlot a | .unlock a =>
        s.emissionStep env a l

/-- The server before its first connection, with attributes that nobody observes. -/
def start (value : A → V) : Observed A V where
  server := initial
  value := value
  emission _ := .idle
  observers _ := ∅
  reads _ := []
  delivered _ := none

/-- The side condition on a step: `OwnKey` of the server. -/
def OwnKeys (s : Observed A V) (l : ObservedLabel A V) : Prop :=
  ∀ l', l = .server l' → OwnKey s.server l'

instance (s : Observed A V) : ∀ l, Decidable (OwnKeys s l)
  | .server l => decidable_of_iff (OwnKey s.server l) (by simp [OwnKeys])
  | .observe _ _ | .getValue _ _ | .setValue _ _ | .signal _ | .callSlot _ _ | .skipSlot _ _
  | .returnSlot _ | .unlock _ => isTrue nofun

variable {env : Environment} {s s' : Observed A V}

/-- An operation that is told is dirty. -/
theorem signal_dirty {o : OperationId} {server server' : State}
    (hstep : GraphQLServer.step env server (.signal o) = some server') :
    (server'.operations o).dirty = true := by
  obtain ⟨-, hstep⟩ := Option.ite_none_left_eq_some.mp hstep
  obtain ⟨-, hstep⟩ := Option.ite_none_right_eq_some.mp hstep
  cases hstep
  simp

/-- **An emission leaves nobody out.**  It goes on by itself, and whoever observes the attribute
and is to be told still is; or with a step of the server, which makes dirty whom it tells. -/
theorem emissionStep_cases {a : A} {l : ObservedLabel A V}
    (hstep : s.emissionStep env a l = some s') :
    (∃ e, s' = s.emit a e ∧
      ∀ o, o ∈ s.observers a → (s.emission a).tells o → e.tells o) ∨
    ∃ e l' server, l'.ofAttribute = true ∧ GraphQLServer.step env s.server l' = some server ∧
      s' = (s.emit a e).goto server ∧
        ∀ o, (s.emission a).tells o → e.tells o ∨ (server.operations o).dirty = true := by
  unfold emissionStep at hstep
  split at hstep
  case h_1 =>
    split at hstep
    case h_1 hstored =>
      cases hstep
      exact .inl ⟨_, rfl, fun o hobserves _ => hobserves⟩
    case h_2 => cases hstep
  case h_2 o =>
    split at hstep
    case h_1 remaining hcalling =>
      obtain ⟨-, hstep⟩ := Option.ite_none_right_eq_some.mp hstep
      obtain ⟨server, hserver, rfl⟩ := Option.map_eq_some_iff.mp hstep
      refine .inr ⟨_, _, server, rfl, hserver, rfl, fun o' htold => ?_⟩
      rw [hcalling] at htold
      by_cases ho : o' = o
      · exact .inr (ho ▸ signal_dirty hserver)
      · exact .inl (Finset.mem_erase_of_ne_of_mem ho htold)
    case h_2 => cases hstep
  case h_3 o =>
    split at hstep
    case h_1 remaining hcalling =>
      obtain ⟨⟨-, hgone⟩, hstep⟩ := Option.ite_none_right_eq_some.mp hstep
      cases hstep
      refine .inl ⟨_, rfl, fun o' hobserves htold => ?_⟩
      rw [hcalling] at htold
      have ho : o' ≠ o := by
        rintro rfl
        exact hgone hobserves
      exact Finset.mem_erase_of_ne_of_mem ho htold
    case h_2 => cases hstep
  case h_4 =>
    split at hstep
    case h_1 o remaining hslot =>
      obtain ⟨server, hserver, rfl⟩ := Option.map_eq_some_iff.mp hstep
      refine .inr ⟨_, _, server, rfl, hserver, rfl, fun o' htold => ?_⟩
      rw [hslot] at htold
      exact .inl htold
    case h_2 => cases hstep
  case h_5 =>
    obtain ⟨hcalled, hstep⟩ := Option.ite_none_right_eq_some.mp hstep
    cases hstep
    refine .inl ⟨_, rfl, fun o _ htold => ?_⟩
    rw [hcalled] at htold
    exact absurd htold (Finset.notMem_empty o)
  case h_6 => cases hstep

/-- What the server does in a step, if it does anything. -/
theorem step_server {l : ObservedLabel A V} (hstep : s.step env l = some s') :
    s'.server = s.server ∨
      ∃ l', GraphQLServer.step env s.server l' = some s'.server ∧
        (l = .server l' ∨ l'.ofAttribute = true) := by
  obtain ⟨-, hstep⟩ := Option.ite_none_left_eq_some.mp hstep
  cases l with
  | server l =>
      obtain ⟨-, hstep⟩ := Option.ite_none_left_eq_some.mp hstep
      obtain ⟨server, hserver, rfl⟩ := Option.map_eq_some_iff.mp hstep
      exact .inr ⟨l, by rwa [after_server], .inl rfl⟩
  | observe o a =>
      obtain ⟨-, hstep⟩ := Option.ite_none_left_eq_some.mp hstep
      obtain ⟨server, hserver, rfl⟩ := Option.map_eq_some_iff.mp hstep
      exact .inr ⟨.observe o, hserver, .inr rfl⟩
  | getValue o a =>
      obtain ⟨-, hstep⟩ := Option.ite_none_right_eq_some.mp hstep
      cases hstep
      exact .inl rfl
  | setValue a v =>
      obtain ⟨-, hstep⟩ := Option.ite_none_right_eq_some.mp hstep
      cases hstep
      exact .inl rfl
  | signal a | callSlot a o | skipSlot a o | returnSlot a | unlock a =>
      rcases emissionStep_cases hstep with ⟨e, rfl, -⟩ | ⟨e, l', server, hl, hserver, rfl, -⟩
      · exact .inl rfl
      · exact .inr ⟨l', hserver, .inr hl⟩

/-- The server runs as it does without the attributes. -/
theorem Reach.server {value : A → V} (h : Runs.Reach (step env) OwnKeys (start value) s) :
    Runs.Reach (GraphQLServer.step env) OwnKey initial s.server := by
  induction h with
  | refl => exact .refl
  | tail before hok hstep ih =>
      rcases step_server hstep with hsame | ⟨l', hserver, hl⟩
      · exact hsame ▸ ih
      · refine ih.tail ?_ hserver
        rcases hl with rfl | hattribute
        · exact hok l' rfl
        · rintro o rfl
          cases hattribute

end Observed

end GraphQLServer
