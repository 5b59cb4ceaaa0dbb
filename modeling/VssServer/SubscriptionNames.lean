import VssServer.Document

/-!
# The name of a subscription

Deliveries reach a subscription by the name of its root field, which
`getSubscriptionName` reads off the document.  `SubscriptionDefinitionNameVisitor::visit`
takes an operation and looks at the selections of its last child; the visitors of spreads
and inline fragments call it on each selection of the fragment, so that it looks one
level below them.

* `Fields.visited`: the visitors leave the name of the last field that is met.
* `MetFields.returns`: this is the name that `getSubscriptionName` returns.
-/

namespace GraphQL

/-- What cppgraphqlgen has for its trees: the children that `for_each_child` and
`on_first_child` pass on, and the selection set of a `Fragment`. -/
structure Peg where
  forEachChild : NodeType → Node → List Node
  onFirstChild : NodeType → Node → Option Node
  getSelection : Node → Node
  forEachChild_eq : ∀ type n, forEachChild type n = n.children.filter fun c => c.type = type
  onFirstChild_eq : ∀ type n, onFirstChild type n = n.children.find? fun c => c.type = type
  getSelection_eq : ∀ d set, d.type = .fragmentDefinition → d.children.getLast? = some set →
    getSelection d = set

/-- The fragments by their names. -/
abbrev FragmentMap := List (String × Node)

/-- `emplace` keeps what there is. -/
def FragmentMap.emplace (fragments : FragmentMap) (name : String) (d : Node) : FragmentMap :=
  if (fragments.lookup name).isSome then fragments else fragments ++ [(name, d)]

/-- `FragmentDefinitionVisitor::visit`; `front` of no children is undefined. -/
def visitDefinition (fragments : FragmentMap) (d : Node) : Option FragmentMap :=
  d.children.head?.map fun front => fragments.emplace front.stringView d

/-- `visitField`: the new `_field`. -/
def visitField (peg : Peg) (field : String) (n : Node) : String :=
  match peg.onFirstChild .fieldName n with
  | some c => c.stringView
  | none => field

/-- `visitFragmentSpread`; a fragment that is not there is undefined. -/
def visitFragmentSpread (peg : Peg) (fragments : FragmentMap)
    (visit : String → Node → Option String) (field : String) (n : Node) : Option String :=
  n.children.head?.bind fun front =>
    (fragments.lookup front.stringView).bind fun d =>
      (peg.getSelection d).children.foldlM visit field

/-- `visitInlineFragment`. -/
def visitInlineFragment (peg : Peg) (visit : String → Node → Option String) (field : String)
    (n : Node) : Option String :=
  match peg.onFirstChild .selectionSet n with
  | some set => set.children.foldlM visit field
  | none => some field

/-- The loop body of `SubscriptionDefinitionNameVisitor::visit`. -/
def visitChild (peg : Peg) (fragments : FragmentMap) (visit : String → Node → Option String)
    (field : String) (child : Node) : Option String :=
  match child.type with
  | .field => some (visitField peg field child)
  | .fragmentSpread => visitFragmentSpread peg fragments visit field child
  | .inlineFragment => visitInlineFragment peg visit field child
  | _ => some field

/-- `SubscriptionDefinitionNameVisitor::visit`, with so many calls of itself on the stack. -/
def visit (peg : Peg) (fragments : FragmentMap) : Nat → String → Node → Option String
  | 0, _, _ => none
  | fuel + 1, field, n =>
      n.children.getLast?.bind fun selection =>
        selection.children.foldlM (visitChild peg fragments (visit peg fragments fuel)) field

/-- `getSubscriptionName`. -/
def getSubscriptionName (peg : Peg) (fuel : Nat) (root : Node) : Option String :=
  ((peg.forEachChild .fragmentDefinition root).foldlM visitDefinition []).bind fun fragments =>
    (peg.forEachChild .operationDefinition root).foldlM (visit peg fragments fuel) ""

/-- `getSubscriptionName` terminates with this result. -/
def Returns (peg : Peg) (root : Node) (name : String) : Prop :=
  ∃ k, ∀ fuel, k ≤ fuel → getSubscriptionName peg fuel root = some name

namespace Node

/-- The name of a field. -/
def name (n : Node) : String :=
  (n.text .fieldName).getD ""

/-- The last child is the selection set. -/
def EndsWithSet (n : Node) : Prop :=
  ∃ set, n.children.getLast? = some set ∧ n.child .selectionSet = some set

/-- The last child is the selection set, or there is none and the last child has no
selections in it. -/
def EndsWithSelections (n : Node) : Prop :=
  n.EndsWithSet ∨ n.child .selectionSet = none ∧
    ∃ last, n.children.getLast? = some last ∧ ∀ c ∈ last.children, c.type.isSelection = false

end Node

/-- The selections that the parser builds; `P` holds of the fragments that are spread. -/
inductive Selection (P : String → Prop) : Node → Prop
  | field {c : Node} {name : String} (htype : c.type = .field)
      (hname : c.text .fieldName = some name) (hends : c.EndsWithSelections)
      (hselections : ∀ s ∈ c.selections, Selection P s) : Selection P c
  | spread {c front : Node} (htype : c.type = .fragmentSpread)
      (hfront : c.children.head? = some front) (hname : front.type = .fragmentName)
      (hnone : c.child .selectionSet = none) (hends : c.EndsWithSelections)
      (hdefined : P front.stringView) : Selection P c
  | inline {c : Node} (htype : c.type = .inlineFragment) (hends : c.EndsWithSet)
      (hselections : ∀ s ∈ c.selections, Selection P s) : Selection P c

/-- A fragment is defined. -/
def Defined (root : Node) (name : String) : Prop :=
  (root.fragment name).isSome = true

/-- The shape of a document, whose fragments are all defined and without cycles. -/
structure Accepted (root : Node) : Prop where
  operations : ∀ op ∈ root.operations, op.EndsWithSet ∧
    ∀ c ∈ op.selections, Selection (Defined root) c
  fragments : ∃ rank : String → Nat, ∀ d ∈ root.fragments, d.EndsWithSet ∧
    ∃ front, d.children.head? = some front ∧ front.type = .fragmentName ∧
      ∀ c ∈ d.selections,
        Selection (fun name => Defined root name ∧ rank name < rank front.stringView) c

/-- What the visitors go on with in a fragment: not its selections, but what stands in
them. -/
def deeper (selections : List Node) : List Node :=
  selections.flatMap Node.selections

/-- The fields that are met in a document which is walked through in this way. -/
def MetFields (root : Node) (fs : List Node) : Prop :=
  Fields root deeper (root.operations.flatMap Node.selections) fs

/-- What `subscribe` accepts: the selected operation is a subscription with one root field. -/
structure Subscribable (root : Node) (operationName : String) (op r : Node) : Prop where
  accepted : Accepted root
  selects : Selects root operationName op
  subscription : op.isSubscription = true
  rootField : RootFields root op [r]

/-- The name after these fields have been visited. -/
def named (field : String) (fs : List Node) : String :=
  match fs.getLast? with
  | some f => f.name
  | none => field

/-- The last of more fields gives the name. -/
theorem named_append (field : String) (fs gs : List Node) :
    named field (fs ++ gs) = named (named field fs) gs := by
  unfold named
  rw [List.getLast?_append]
  cases gs.getLast? <;> simp

variable {root : Node} {peg : Peg} {fragments : FragmentMap} {P : String → Prop}

/-- `emplace` keeps an entry that is there. -/
theorem FragmentMap.lookup_emplace (fragments : FragmentMap) (name name' : String) (d : Node) :
    (fragments.emplace name d).lookup name' =
      (fragments.lookup name').or (if name = name' then some d else none) := by
  unfold emplace
  split
  case isTrue hthere =>
    by_cases heq : name = name'
    · subst heq
      obtain ⟨d', hd'⟩ := Option.isSome_iff_exists.mp hthere
      simp [hd']
    · simp [heq]
  case isFalse =>
    rw [List.lookup_append]
    by_cases heq : name = name'
    · subst heq
      simp [List.lookup_cons_self]
    · have hne : (name' == name) = false := by simpa using Ne.symm heq
      rw [List.lookup_cons, hne]
      simp [heq]

/-- The first child of a fragment definition is its name. -/
theorem Node.text_of_front {d front : Node} {type : NodeType}
    (hfront : d.children.head? = some front) (htype : front.type = type) :
    d.text type = some front.stringView := by
  obtain ⟨rest, hrest⟩ : ∃ rest, d.children = front :: rest := by
    cases hchildren : d.children with
    | nil => simp [hchildren] at hfront
    | cons c rest =>
        rw [hchildren] at hfront
        cases hfront
        exact ⟨rest, rfl⟩
  simp [text, child, hrest, htype]

/-- The map has the first definition of each name. -/
theorem visitDefinitions_lookup {ds : List Node} (fragments : FragmentMap)
    (hds : ∀ d ∈ ds, ∃ front, d.children.head? = some front ∧ front.type = .fragmentName) :
    ∃ fragments', ds.foldlM visitDefinition fragments = some fragments' ∧
      ∀ name, fragments'.lookup name =
        (fragments.lookup name).or (ds.find? fun d => d.text .fragmentName = some name) := by
  induction ds generalizing fragments with
  | nil => exact ⟨fragments, rfl, by simp⟩
  | cons d ds ih =>
      obtain ⟨front, hfront, htype⟩ := hds d (.head _)
      obtain ⟨fragments', hfold, hlookup⟩ :=
        ih (fragments.emplace front.stringView d) fun d' hd' => hds d' (.tail _ hd')
      refine ⟨fragments', ?_, ?_⟩
      · simp [visitDefinition, hfront, hfold]
      · intro name
        rw [hlookup, FragmentMap.lookup_emplace, List.find?_cons, Node.text_of_front hfront htype]
        by_cases heq : front.stringView = name
        · simp [heq]
        · simp [heq]

/-- The selections of a node are the children of its last child. -/
theorem Node.EndsWithSet.selections {n : Node} (h : n.EndsWithSet) :
    ∃ set, n.children.getLast? = some set ∧ set.children = n.selections := by
  obtain ⟨set, hlast, hset⟩ := h
  exact ⟨set, hlast, by simp [Node.selections, hset]⟩

/-- The selection set of a selection comes last. -/
theorem Selection.ends {c : Node} (h : Selection P c) : c.EndsWithSelections := by
  cases h with
  | field _ _ hends _ => exact hends
  | spread _ _ _ _ hends _ => exact hends
  | inline _ hends _ => exact .inl hends

/-- What stands in a selection are selections. -/
theorem Selection.inside {c : Node} (h : Selection P c) : ∀ s ∈ c.selections, Selection P s := by
  cases h with
  | field _ _ _ hselections => exact hselections
  | spread _ _ _ hnone _ _ =>
      intro s hs
      simp [Node.selections, hnone] at hs
  | inline _ _ hselections => exact hselections

/-- Children that are no selections are not visited. -/
theorem foldlM_visitChild_of_none {visit : String → Node → Option String} {cs : List Node}
    (h : ∀ c ∈ cs, c.type.isSelection = false) (field : String) :
    cs.foldlM (visitChild peg fragments visit) field = some field := by
  induction cs with
  | nil => rfl
  | cons c cs ih =>
      have htype := h c (.head _)
      have hchild : visitChild peg fragments visit field c = some field := by
        unfold visitChild
        split <;> simp_all [NodeType.isSelection]
      rw [List.foldlM_cons, hchild]
      exact ih fun c' hc' => h c' (.tail _ hc')

/-- `visit` goes through the selections of a node. -/
theorem visit_eq {n : Node} (h : n.EndsWithSelections) (fuel : Nat) (field : String) :
    visit peg fragments (fuel + 1) field n =
      n.selections.foldlM (visitChild peg fragments (visit peg fragments fuel)) field := by
  rcases h with hset | ⟨hnone, last, hlast, hleaf⟩
  · obtain ⟨set, hlast, hselections⟩ := hset.selections
    simp [visit, hlast, hselections]
  · simp [visit, hlast, Node.selections, hnone, foldlM_visitChild_of_none hleaf]

/-- Visiting each of several nodes goes through all their selections. -/
theorem foldlM_visit {ns : List Node} (h : ∀ n ∈ ns, n.EndsWithSelections) (fuel : Nat)
    (field : String) :
    ns.foldlM (visit peg fragments (fuel + 1)) field =
      (ns.flatMap Node.selections).foldlM (visitChild peg fragments (visit peg fragments fuel))
        field := by
  induction ns generalizing field with
  | nil => rfl
  | cons n ns ih =>
      rw [List.foldlM_cons, List.flatMap_cons, List.foldlM_append, visit_eq (h n (.head _))]
      apply bind_congr
      intro field'
      exact ih (fun n' hn' => h n' (.tail _ hn')) field'

/-- A field gives its own name. -/
theorem visitField_selection {c : Node} (h : Selection P c) (htype : c.type = .field)
    (field : String) : visitField peg field c = c.name := by
  cases h with
  | @field _ name _ hname _ _ =>
      obtain ⟨n, hn, rfl⟩ := Option.map_eq_some_iff.mp hname
      have hfirst : peg.onFirstChild .fieldName c = some n := (peg.onFirstChild_eq _ _).trans hn
      simp [visitField, hfirst, Node.name, hname]
  | spread htype' => simp [htype] at htype'
  | inline htype' => simp [htype] at htype'

/-- A spread begins with the name of its fragment. -/
theorem Selection.front {c : Node} (h : Selection P c) (htype : c.type = .fragmentSpread) :
    ∃ front, c.children.head? = some front ∧ c.text .fragmentName = some front.stringView ∧
      P front.stringView := by
  cases h with
  | @spread _ front _ hfront hname _ _ hdefined =>
      exact ⟨front, hfront, Node.text_of_front hfront hname, hdefined⟩
  | field htype' => simp [htype] at htype'
  | inline htype' => simp [htype] at htype'

/-- The selections of the fragment that a spread names. -/
theorem Accepted.fragment (h : Accepted root) {name : String} {d : Node}
    (hd : root.fragment name = some d) :
    d.type = .fragmentDefinition ∧ d.EndsWithSet ∧ ∃ P, ∀ c ∈ d.selections, Selection P c := by
  obtain ⟨rank, hfragments⟩ := h.fragments
  have hmem := List.mem_of_find?_eq_some hd
  obtain ⟨hset, front, -, -, hselections⟩ := hfragments d hmem
  exact ⟨by simpa [Node.fragments] using (List.mem_filter.mp hmem).2, hset, _, hselections⟩

/-- What the visitors do with the selections of a fragment. -/
theorem foldlM_inside {ss gs : List Node} {k : ℕ} (hss : ∀ s ∈ ss, Selection P s)
    (h : ∀ fuel, k ≤ fuel → ∀ field,
      (deeper ss).foldlM (visitChild peg fragments (visit peg fragments fuel)) field =
        some (named field gs)) :
    ∀ fuel, k + 1 ≤ fuel → ∀ field,
      ss.foldlM (visit peg fragments fuel) field = some (named field gs) := by
  intro fuel hfuel field
  obtain ⟨fuel, rfl⟩ : ∃ m, fuel = m + 1 := ⟨fuel - 1, by omega⟩
  rw [foldlM_visit (fun s hs => (hss s hs).ends)]
  exact h fuel (by omega) field

/-- One selection and those after it. -/
theorem foldlM_cons_named {c : Node} {cs gs fs : List Node} {visit : String → Node → Option String}
    {field : String} (hc : visitChild peg fragments visit field c = some (named field gs))
    (hcs : ∀ field, cs.foldlM (visitChild peg fragments visit) field = some (named field fs)) :
    (c :: cs).foldlM (visitChild peg fragments visit) field = some (named field (gs ++ fs)) := by
  rw [List.foldlM_cons, hc, named_append]
  exact hcs _

/-- **Walk.**  The visitors leave the name of the last field that is met. -/
theorem Fields.visited {cs fs : List Node} (h : Fields root deeper cs fs)
    (haccepted : Accepted root) (hmap : ∀ name, fragments.lookup name = root.fragment name)
    (peg : Peg) : ∀ {P : String → Prop}, (∀ c ∈ cs, Selection P c) →
      ∃ k, ∀ fuel, k ≤ fuel → ∀ field,
        cs.foldlM (visitChild peg fragments (visit peg fragments fuel)) field =
          some (named field fs) := by
  induction h with
  | nil => exact fun _ => ⟨0, fun _ _ _ => rfl⟩
  | @field c cs fs htype _ ih =>
      intro P hcs
      obtain ⟨k, hk⟩ := ih fun c' hc' => hcs c' (.tail _ hc')
      refine ⟨k, fun fuel hfuel field => ?_⟩
      have hfield : visitChild peg fragments (visit peg fragments fuel) field c =
          some (named field [c]) := by
        simp [visitChild, htype, visitField_selection (hcs c (.head _)) htype, named]
      exact foldlM_cons_named hfield (hk fuel hfuel)
  | @spread c d cs gs fs name htype hname hdefined _ _ ihinside ih =>
      intro P hcs
      obtain ⟨hfragment, hset, P', hselections⟩ := haccepted.fragment hdefined
      obtain ⟨k, hk⟩ := ih fun c' hc' => hcs c' (.tail _ hc')
      obtain ⟨k', hk'⟩ := ihinside fun c' hc' => by
        obtain ⟨s, hs, hc'⟩ := List.mem_flatMap.mp hc'
        exact (hselections s hs).inside c' hc'
      obtain ⟨front, hfront, htext, -⟩ := (hcs c (.head _)).front htype
      obtain ⟨set, hlast, hchildren⟩ := hset.selections
      obtain rfl : front.stringView = name := Option.some.inj (htext.symm.trans hname)
      refine ⟨max k (k' + 1), fun fuel hfuel field => ?_⟩
      refine foldlM_cons_named ?_ (hk fuel (by omega))
      simp only [visitChild, htype, visitFragmentSpread, hfront, hmap, hdefined,
        Option.bind_some, peg.getSelection_eq d set hfragment hlast, hchildren]
      exact foldlM_inside hselections hk' fuel (by omega) field
  | @inline c cs gs fs htype _ _ ihinside ih =>
      intro P hcs
      have hselections := (hcs c (.head _)).inside
      obtain ⟨k, hk⟩ := ih fun c' hc' => hcs c' (.tail _ hc')
      obtain ⟨k', hk'⟩ := ihinside fun c' hc' => by
        obtain ⟨s, hs, hc'⟩ := List.mem_flatMap.mp hc'
        exact (hselections s hs).inside c' hc'
      refine ⟨max k (k' + 1), fun fuel hfuel field => ?_⟩
      refine foldlM_cons_named ?_ (hk fuel (by omega))
      cases hcs c (.head _) with
      | field htype' => simp [htype] at htype'
      | spread htype' => simp [htype] at htype'
      | inline _ hset _ =>
          obtain ⟨set, -, hchild⟩ := hset
          have hfirst : peg.onFirstChild .selectionSet c = some set :=
            (peg.onFirstChild_eq _ _).trans hchild
          have hchildren : set.children = c.selections := by simp [Node.selections, hchild]
          simp only [visitChild, htype, visitInlineFragment, hfirst, hchildren]
          exact foldlM_inside hselections hk' fuel (by omega) field

/-- A fragment can be gone into. -/
def Enters (root : Node) (name : String) : Prop :=
  ∃ d, root.fragment name = some d ∧ ∃ fs, Fields root deeper (deeper d.selections) fs

/-- Selections whose fragments can be gone into can be walked through, and gone into. -/
theorem Selection.walks {c : Node} (hP : ∀ name, P name → Enters root name)
    (h : Selection P c) :
    (∃ fs, Fields root deeper [c] fs) ∧ ∃ fs, Fields root deeper c.selections fs := by
  induction h with
  | field htype _ _ _ ih => exact ⟨⟨_, .field htype .nil⟩, Fields.of_each fun s hs => (ih s hs).1⟩
  | spread htype hfront hname hnone _ hdefined =>
      obtain ⟨d, hd, fs, hfs⟩ := hP _ hdefined
      refine ⟨⟨_, .spread htype (Node.text_of_front hfront hname) hd hfs .nil⟩, ?_⟩
      exact ⟨[], by simpa [Node.selections, hnone] using Fields.nil⟩
  | inline htype _ _ ih =>
      obtain ⟨fs, hfs⟩ := Fields.flatMap fun s hs => (ih s hs).2
      exact ⟨⟨_, .inline htype hfs .nil⟩, Fields.of_each fun s hs => (ih s hs).1⟩

/-- Without cycles every defined fragment can be gone into. -/
theorem Accepted.enters (h : Accepted root) {name : String} (hdefined : Defined root name) :
    Enters root name := by
  obtain ⟨rank, hfragments⟩ := h.fragments
  -- the fragments that a fragment spreads have a smaller rank
  induction hrank : rank name using Nat.strongRecOn generalizing name with
  | ind n ih =>
      obtain ⟨d, hd⟩ := Option.isSome_iff_exists.mp hdefined
      have hmem := List.mem_of_find?_eq_some hd
      obtain ⟨-, front, hfront, htype, hselections⟩ := hfragments d hmem
      have hname : front.stringView = name := by
        have htext : d.text .fragmentName = some name := by
          unfold Node.fragment at hd
          have hfound := List.find?_some hd
          exact of_decide_eq_true hfound
        rw [Node.text_of_front hfront htype] at htext
        exact Option.some.inj htext
      refine ⟨d, hd, Fields.flatMap fun s hs => ?_⟩
      refine ((hselections s hs).walks ?_).2
      rintro name' ⟨hdefined', hlt⟩
      rw [hname, hrank] at hlt
      exact ih (rank name') hlt hdefined' rfl

/-- Some fields are met in every document. -/
theorem Accepted.met (h : Accepted root) : ∃ fs, MetFields root fs := by
  apply Fields.flatMap
  intro op hop
  apply Fields.of_each
  intro c hc
  exact (((h.operations op hop).2 c hc).walks fun name => h.enters).1

/-- **Result.**  `getSubscriptionName` terminates with the name of the last field that is
met. -/
theorem MetFields.returns {fs : List Node} (h : MetFields root fs) (haccepted : Accepted root)
    (peg : Peg) : Returns peg root (named "" fs) := by
  obtain ⟨rank, hfragments⟩ := haccepted.fragments
  have hfronts : ∀ d ∈ root.fragments, ∃ front, d.children.head? = some front ∧
      front.type = .fragmentName :=
    fun d hd => (hfragments d hd).2.imp fun front hfront => ⟨hfront.1, hfront.2.1⟩
  obtain ⟨fragments, hfold, hlookup⟩ := visitDefinitions_lookup [] hfronts
  have hmap : ∀ name, fragments.lookup name = root.fragment name := by
    intro name
    rw [hlookup]
    rfl
  have hselections : ∀ c ∈ root.operations.flatMap Node.selections, Selection (Defined root) c := by
    intro c hc
    obtain ⟨op, hop, hc⟩ := List.mem_flatMap.mp hc
    exact (haccepted.operations op hop).2 c hc
  obtain ⟨k, hk⟩ := h.visited haccepted hmap peg hselections
  refine ⟨k + 1, fun fuel hfuel => ?_⟩
  obtain ⟨fuel, rfl⟩ : ∃ m, fuel = m + 1 := ⟨fuel - 1, by omega⟩
  have hfragments : peg.forEachChild .fragmentDefinition root = root.fragments :=
    peg.forEachChild_eq _ _
  have hoperations : peg.forEachChild .operationDefinition root = root.operations :=
    peg.forEachChild_eq _ _
  rw [getSubscriptionName, hfragments, hoperations, hfold, Option.bind_some,
    foldlM_visit fun op hop => .inl (haccepted.operations op hop).1]
  exact hk fuel (by omega) ""

/-- The visitor returns one name. -/
theorem Returns.unique {name name' : String} (h : Returns peg root name)
    (h' : Returns peg root name') : name = name' := by
  obtain ⟨k, hk⟩ := h
  obtain ⟨k', hk'⟩ := h'
  exact Option.some.inj ((hk (max k k') (by omega)).symm.trans (hk' (max k k') (by omega)))

end GraphQL
