import Mathlib.Data.List.Basic

/-!
# Executable documents

The tree that the parser makes of a document, with the operations and fragments that
are in it, and the fields that a list of selections has once the fragments are replaced
by what is in them.

* `Selects`: the operation that a name selects in a document.
* `Fields`: the fields of a list of selections, with the fragments replaced.
* `Fields.append`: the fields of two lists of selections.
-/

namespace GraphQL

/-- The rules of the grammar that nodes are told apart by. -/
inductive NodeType
  | operationDefinition
  | operationType
  | operationName
  | fragmentDefinition
  | fragmentName
  | selectionSet
  | field
  | fieldName
  | fragmentSpread
  | inlineFragment
  | other (rule : String)
  deriving DecidableEq

/-- Nodes that stand for a selection. -/
def NodeType.isSelection : NodeType → Bool
  | .field | .fragmentSpread | .inlineFragment => true
  | _ => false

/-- A `peg::ast_node`. -/
inductive Node
  | mk (type : NodeType) (stringView : String) (children : List Node)

namespace Node

def type : Node → NodeType
  | .mk type _ _ => type

def stringView : Node → String
  | .mk _ stringView _ => stringView

def children : Node → List Node
  | .mk _ _ children => children

/-- The first child of a type. -/
def child (n : Node) (type : NodeType) : Option Node :=
  n.children.find? fun c => c.type = type

/-- The text of the first child of a type. -/
def text (n : Node) (type : NodeType) : Option String :=
  (n.child type).map stringView

/-- The selections of an operation, a fragment or a field. -/
def selections (n : Node) : List Node :=
  match n.child .selectionSet with
  | some set => set.children
  | none => []

/-- The keyword of an operation; the shorthand has none. -/
def isSubscription (n : Node) : Bool :=
  n.text .operationType = some "subscription"

/-- The operations of a document. -/
def operations (root : Node) : List Node :=
  root.children.filter fun c => c.type = .operationDefinition

/-- The fragments of a document. -/
def fragments (root : Node) : List Node :=
  root.children.filter fun c => c.type = .fragmentDefinition

/-- The fragment of a name, the first one if there are more. -/
def fragment (root : Node) (name : String) : Option Node :=
  root.fragments.find? fun d => d.text .fragmentName = some name

end Node

/-- The operation of this name is `op`; without a name, `op` is the only operation. -/
def Selects (root : Node) (operationName : String) (op : Node) : Prop :=
  (operationName = "" ∧ root.operations = [op]) ∨
    (operationName ≠ "" ∧ op ∈ root.operations ∧ op.text .operationName = some operationName)

/-- What is selected is an operation of the document. -/
theorem Selects.mem {root op : Node} {operationName : String} (h : Selects root operationName op) :
    op ∈ root.operations := by
  rcases h with ⟨-, honly⟩ | ⟨-, hmem, -⟩
  · rw [honly]
    exact .head _
  · exact hmem

/-- The fields of a list of selections, where `inside` says which selections take the
place of a fragment that has some. -/
inductive Fields (root : Node) (inside : List Node → List Node) : List Node → List Node → Prop
  | nil : Fields root inside [] []
  | field {c : Node} {cs fs : List Node} (htype : c.type = .field)
      (hrest : Fields root inside cs fs) : Fields root inside (c :: cs) (c :: fs)
  | spread {c d : Node} {cs gs fs : List Node} {name : String} (htype : c.type = .fragmentSpread)
      (hname : c.text .fragmentName = some name) (hdefined : root.fragment name = some d)
      (hinside : Fields root inside (inside d.selections) gs)
      (hrest : Fields root inside cs fs) : Fields root inside (c :: cs) (gs ++ fs)
  | inline {c : Node} {cs gs fs : List Node} (htype : c.type = .inlineFragment)
      (hinside : Fields root inside (inside c.selections) gs)
      (hrest : Fields root inside cs fs) : Fields root inside (c :: cs) (gs ++ fs)

/-- The root fields of an operation, with all spreads and inline fragments expanded. -/
def RootFields (root op : Node) (fs : List Node) : Prop :=
  Fields root id op.selections fs

namespace Fields

variable {root : Node} {inside : List Node → List Node} {cs cs' fs fs' : List Node}

/-- The fields of two lists of selections. -/
theorem append (h : Fields root inside cs fs) (h' : Fields root inside cs' fs') :
    Fields root inside (cs ++ cs') (fs ++ fs') := by
  induction h with
  | nil => exact h'
  | field htype _ ih => exact .field htype ih
  | spread htype hname hdefined hinside _ _ ih =>
      rw [List.cons_append, List.append_assoc]
      exact .spread htype hname hdefined hinside ih
  | inline htype hinside _ _ ih =>
      rw [List.cons_append, List.append_assoc]
      exact .inline htype hinside ih

/-- A field comes first. -/
theorem of_field {c : Node} (h : Fields root inside (c :: cs) fs) (htype : c.type = .field) :
    ∃ gs, fs = c :: gs ∧ Fields root inside cs gs := by
  cases h with
  | field _ hrest => exact ⟨_, rfl, hrest⟩
  | spread htype' | inline htype' => simp [htype] at htype'

/-- The fields of a spread are those of its fragment. -/
theorem of_spread {c d : Node} {name : String} (h : Fields root inside (c :: cs) fs)
    (htype : c.type = .fragmentSpread) (hname : c.text .fragmentName = some name)
    (hdefined : root.fragment name = some d) :
    ∃ gs gs', fs = gs ++ gs' ∧ Fields root inside (inside d.selections) gs ∧
      Fields root inside cs gs' := by
  cases h with
  | field htype' | inline htype' => simp [htype] at htype'
  | spread _ hname' hdefined' hinside hrest =>
      cases hname.symm.trans hname'
      cases hdefined.symm.trans hdefined'
      exact ⟨_, _, rfl, hinside, hrest⟩

/-- The fields of an inline fragment are its own. -/
theorem of_inline {c : Node} (h : Fields root inside (c :: cs) fs)
    (htype : c.type = .inlineFragment) :
    ∃ gs gs', fs = gs ++ gs' ∧ Fields root inside (inside c.selections) gs ∧
      Fields root inside cs gs' := by
  cases h with
  | field htype' | spread htype' => simp [htype] at htype'
  | inline _ hinside hrest => exact ⟨_, _, rfl, hinside, hrest⟩

/-- The fields of two lists are those of the one before those of the other. -/
theorem of_append (h : Fields root inside (cs ++ cs') fs) :
    ∃ gs gs', fs = gs ++ gs' ∧ Fields root inside cs gs ∧ Fields root inside cs' gs' := by
  induction cs generalizing fs with
  | nil => exact ⟨[], fs, rfl, .nil, h⟩
  | cons c cs ih =>
      cases h with
      | field htype hrest =>
          obtain ⟨gs, gs', rfl, hgs, hgs'⟩ := ih hrest
          exact ⟨c :: gs, gs', rfl, .field htype hgs, hgs'⟩
      | @spread _ d _ gd _ name htype hname hdefined hinside hrest =>
          obtain ⟨gs, gs', rfl, hgs, hgs'⟩ := ih hrest
          exact ⟨gd ++ gs, gs', (List.append_assoc ..).symm,
            .spread htype hname hdefined hinside hgs, hgs'⟩
      | @inline _ _ gi _ htype hinside hrest =>
          obtain ⟨gs, gs', rfl, hgs, hgs'⟩ := ih hrest
          exact ⟨gi ++ gs, gs', (List.append_assoc ..).symm, .inline htype hinside hgs, hgs'⟩

/-- The fields of lists one after the other. -/
theorem flatMap {α : Type*} {f : α → List Node} {as : List α}
    (h : ∀ a ∈ as, ∃ fs, Fields root inside (f a) fs) :
    ∃ fs, Fields root inside (as.flatMap f) fs := by
  induction as with
  | nil => exact ⟨[], .nil⟩
  | cons a as ih =>
      obtain ⟨fs, hfs⟩ := h a (.head _)
      obtain ⟨gs, hgs⟩ := ih fun a' ha' => h a' (.tail _ ha')
      exact ⟨fs ++ gs, hfs.append hgs⟩

/-- The fields of selections one after the other. -/
theorem of_each (h : ∀ c ∈ cs, ∃ fs, Fields root inside [c] fs) :
    ∃ fs, Fields root inside cs fs := by
  have hall := flatMap (f := fun c => [c]) h
  rwa [List.flatMap_singleton'] at hall

end Fields

namespace Node

/-- A node without children. -/
def token (type : NodeType) (stringView : String) : Node :=
  .mk type stringView []

/-- The selection set of a field; a leaf has none. -/
def selectionSet : List Node → List Node
  | [] => []
  | c :: cs => [.mk .selectionSet "" (c :: cs)]

/-- `name { selections }`. -/
def field (name : String) (selections : List Node) : Node :=
  .mk .field name (token .fieldName name :: selectionSet selections)

/-- `...name`. -/
def spread (name : String) : Node :=
  .mk .fragmentSpread name [token .fragmentName name]

/-- `keyword name { selections }`. -/
def operation (keyword name : String) (selections : List Node) : Node :=
  .mk .operationDefinition name
    (token .operationType keyword :: token .operationName name :: selectionSet selections)

/-- `fragment name on type { selections }`. -/
def define (name type : String) (selections : List Node) : Node :=
  .mk .fragmentDefinition name
    (token .fragmentName name :: token (.other "type_condition") type :: selectionSet selections)

/-- The document with these definitions. -/
def document (definitions : List Node) : Node :=
  .mk (.other "document") "" definitions

end Node

end GraphQL
