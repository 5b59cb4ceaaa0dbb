import VssServer.SubscriptionNames

/-!
# Where the root field is found

The visitors of spreads and inline fragments look one level below the selections of a
fragment.  So they find a root field that stands in the operation itself, or in an inline
fragment that stands in a fragment, and so on by two levels at a time; in a fragment they
miss it, and may meet fields below it.  And they go on with the next operations.

## Main definitions

* `LooksAt`: the visitors come from a selection to a field.
* `Within`: a field is anywhere in a selection, with all fragments expanded.
* `Prevails`: the root field stands where the visitors look, and nothing does in the
  operations after that of the subscription.
* `Unmistakable`: no field of another operation or below the root field has its name.

## Main results

* `Fields.mem_iff`: the fields that are met are the ones that are looked at.
* `Fields.alone`: of an operation with one root field either this one is met or only fields
  below it.
* `getSubscriptionName_root`: `getSubscriptionName` terminates; its result is the name of
  the root field where that prevails, and only there unless another field has that name.
-/

namespace GraphQL

/-- The visitors come from a selection to the field `f`: it is the selection itself, or they
come to it from what stands in a selection of the fragment; `opens` restricts which of the
selections of a fragment they look into. -/
inductive LooksAt (root : Node) (opens : NodeType → Prop) (f : Node) : Node → Prop
  | field (htype : f.type = .field) : LooksAt root opens f f
  | spread {c d e s : Node} {name : String} (htype : c.type = .fragmentSpread)
      (hname : c.text .fragmentName = some name) (hdefined : root.fragment name = some d)
      (hselection : e ∈ d.selections) (hopens : opens e.type) (hinside : s ∈ e.selections)
      (hlooks : LooksAt root opens f s) : LooksAt root opens f c
  | inline {c e s : Node} (htype : c.type = .inlineFragment) (hselection : e ∈ c.selections)
      (hopens : opens e.type) (hinside : s ∈ e.selections)
      (hlooks : LooksAt root opens f s) : LooksAt root opens f c

/-- The visitors look into all selections of a fragment, those of fields too. -/
def anywhere (_ : NodeType) : Prop :=
  True

def inlineOnly (type : NodeType) : Prop :=
  type = .inlineFragment

/-- The field `f` is in a selection, at whatever depth, in fragments or in other fields. -/
inductive Within (root : Node) (f : Node) : Node → Prop
  | self (htype : f.type = .field) : Within root f f
  | inside {c s : Node} (hinside : s ∈ c.selections) (hwithin : Within root f s) :
      Within root f c
  | spread {c d s : Node} {name : String} (hname : c.text .fragmentName = some name)
      (hdefined : root.fragment name = some d) (hinside : s ∈ d.selections)
      (hwithin : Within root f s) : Within root f c

/-- The visitors find the root field from these selections, without a look into a field. -/
def Stands (root r : Node) (cs : List Node) : Prop :=
  ∃ c ∈ cs, LooksAt root inlineOnly r c

/-- They find it from what stands in the inline fragments among these selections. -/
def StandsInside (root r : Node) (cs : List Node) : Prop :=
  ∃ e ∈ cs, e.type = .inlineFragment ∧ Stands root r e.selections

/-- The visitors find no field in an operation. -/
def Silent (root op : Node) : Prop :=
  ∀ c ∈ op.selections, ∀ f, ¬LooksAt root anywhere f c

/-- The root field stands where the visitors look, and they find nothing after it. -/
def Prevails (root op r : Node) : Prop :=
  Stands root r op.selections ∧ ∃ before after, root.operations = before ++ op :: after ∧
    ∀ op' ∈ after, Silent root op'

/-- A field below the root field. -/
def Below (root r f : Node) : Prop :=
  ∃ c ∈ r.selections, Within root f c

/-- No field of another operation has the name of the root field, and none below it. -/
structure Unmistakable (root op r : Node) : Prop where
  nonempty : r.name ≠ ""
  operations : ∀ op' ∈ root.operations, op' ≠ op → ∀ c ∈ op'.selections, ∀ f,
    Within root f c → f.name ≠ r.name
  below : ∀ f, Below root r f → f.name ≠ r.name

variable {root op r f c d : Node} {cs fs gs : List Node} {opens : NodeType → Prop} {name : String}

section Positions

/-- A field is looked at itself. -/
theorem looksAt_field (htype : c.type = .field) : LooksAt root opens f c ↔ c = f := by
  constructor
  · intro h
    cases h with
    | field => rfl
    | spread htype' | inline htype' => simp [htype] at htype'
  · rintro rfl
    exact .field htype

/-- A spread is looked at through the selection sets of its fragment. -/
theorem looksAt_spread (htype : c.type = .fragmentSpread)
    (hname : c.text .fragmentName = some name) (hdefined : root.fragment name = some d) :
    LooksAt root opens f c ↔
      ∃ e ∈ d.selections, opens e.type ∧ ∃ s ∈ e.selections, LooksAt root opens f s := by
  constructor
  · intro h
    cases h with
    | field htype' | inline htype' => simp [htype] at htype'
    | spread _ hname' hdefined' hselection hopens hinside hlooks =>
        cases hname.symm.trans hname'
        cases hdefined.symm.trans hdefined'
        exact ⟨_, hselection, hopens, _, hinside, hlooks⟩
  · rintro ⟨e, hselection, hopens, s, hinside, hlooks⟩
    exact .spread htype hname hdefined hselection hopens hinside hlooks

/-- An inline fragment is looked at through its selection sets. -/
theorem looksAt_inline (htype : c.type = .inlineFragment) : LooksAt root opens f c ↔
    ∃ e ∈ c.selections, opens e.type ∧ ∃ s ∈ e.selections, LooksAt root opens f s := by
  constructor
  · intro h
    cases h with
    | field htype' | spread htype' => simp [htype] at htype'
    | inline _ hselection hopens hinside hlooks =>
        exact ⟨_, hselection, hopens, _, hinside, hlooks⟩
  · rintro ⟨e, hselection, hopens, s, hinside, hlooks⟩
    exact .inline htype hselection hopens hinside hlooks

/-- What the visitors look at is in the selection. -/
theorem LooksAt.within (h : LooksAt root opens f c) : Within root f c := by
  induction h with
  | field htype => exact .self htype
  | spread _ hname hdefined hselection _ hinside _ ih =>
      exact .spread hname hdefined hselection (.inside hinside ih)
  | inline _ hselection _ hinside _ ih => exact .inside hselection (.inside hinside ih)

/-- **Fields that are met.**  They are those that the visitors look at. -/
theorem Fields.mem_iff (h : Fields root deeper cs fs) (f : Node) :
    f ∈ fs ↔ ∃ c ∈ cs, LooksAt root anywhere f c := by
  have hdeeper : ∀ ss : List Node, (∃ s ∈ deeper ss, LooksAt root anywhere f s) ↔
      ∃ e ∈ ss, anywhere e.type ∧ ∃ s ∈ e.selections, LooksAt root anywhere f s := by
    intro ss
    simp only [deeper, List.mem_flatMap, anywhere, true_and]
    exact ⟨fun ⟨s, ⟨e, he, hs⟩, hlooks⟩ => ⟨e, he, s, hs, hlooks⟩,
      fun ⟨e, he, s, hs, hlooks⟩ => ⟨s, ⟨e, he, hs⟩, hlooks⟩⟩
  induction h with
  | nil => simp
  | field htype _ ih =>
      exact (List.mem_cons.trans (or_congr (eq_comm.trans (looksAt_field htype).symm) ih)).trans
        (List.exists_mem_cons_iff ..).symm
  | spread htype hname hdefined _ _ ihinside ih =>
      have hspread := (ihinside.trans (hdeeper _)).trans (looksAt_spread htype hname hdefined).symm
      exact (List.mem_append.trans (or_congr hspread ih)).trans (List.exists_mem_cons_iff ..).symm
  | inline htype _ _ ihinside ih =>
      have hinline := (ihinside.trans (hdeeper _)).trans (looksAt_inline htype).symm
      exact (List.mem_append.trans (or_congr hinline ih)).trans (List.exists_mem_cons_iff ..).symm

/-- A field stands at a selection of a list, or later. -/
theorem stands_cons : Stands root r (c :: cs) ↔
    LooksAt root inlineOnly r c ∨ Stands root r cs :=
  List.exists_mem_cons_iff ..

/-- The same inside of the inline fragments of a list. -/
theorem standsInside_cons : StandsInside root r (c :: cs) ↔
    c.type = .inlineFragment ∧ Stands root r c.selections ∨ StandsInside root r cs :=
  List.exists_mem_cons_iff ..

/-- Nothing stands inside of what is no inline fragment. -/
theorem standsInside_cons_of_ne (htype : c.type ≠ .inlineFragment) :
    StandsInside root r (c :: cs) ↔ StandsInside root r cs := by
  simp [standsInside_cons, htype]

/-- What stands is a root field. -/
theorem Fields.of_stands (h : Fields root id cs gs) :
    (Stands root r cs → r ∈ gs) ∧ (StandsInside root r cs → r ∈ gs) := by
  induction h with
  | nil => simp [Stands, StandsInside]
  | field htype _ ih =>
      rw [stands_cons, looksAt_field htype, standsInside_cons_of_ne (by simp [htype]),
        List.mem_cons, eq_comm]
      exact ⟨Or.imp_right ih.1, fun h => .inr (ih.2 h)⟩
  | spread htype hname hdefined _ _ ihinside ih =>
      rw [stands_cons, looksAt_spread htype hname hdefined,
        standsInside_cons_of_ne (by simp [htype]), List.mem_append]
      exact ⟨Or.imp ihinside.2 ih.1, fun h => .inr (ih.2 h)⟩
  | inline htype _ _ ihinside ih =>
      rw [stands_cons, looksAt_inline htype, standsInside_cons, List.mem_append]
      exact ⟨Or.imp ihinside.2 ih.1, Or.imp (fun h => ihinside.1 h.2) ih.2⟩

end Positions

section Alone

/-- What stands in the first selection, and in the others. -/
theorem deeper_cons (c : Node) (cs : List Node) : deeper (c :: cs) = c.selections ++ deeper cs :=
  rfl

/-- A spread has no selections of its own. -/
theorem Selection.spread_selections {P : String → Prop} (h : Selection P c)
    (htype : c.type = .fragmentSpread) : c.selections = [] := by
  cases h with
  | field htype' | inline htype' => simp [htype] at htype'
  | spread _ _ _ hnone => simp [Node.selections, hnone]

/-- No field is met in these selections, nor in what stands in them. -/
def NoneMet (root : Node) (cs : List Node) : Prop :=
  (∀ fs, Fields root deeper cs fs → fs = []) ∧ ∀ fs, Fields root deeper (deeper cs) fs → fs = []

/-- Selections without root fields: no field is met. -/
theorem Fields.none_met (h : Fields root id cs gs) (haccepted : Accepted root) :
    ∀ {P : String → Prop}, (∀ c ∈ cs, Selection P c) → gs = [] → NoneMet root cs := by
  induction h with
  | nil =>
      intro P _ _
      constructor <;> (intro fs hfs; cases hfs; rfl)
  | field => exact fun _ hnil => by cases hnil
  | @spread c d cs gs gs' name htype hname hdefined _ _ ihinside ih =>
      intro P hcs hnil
      obtain ⟨rfl, rfl⟩ := List.append_eq_nil_iff.mp hnil
      obtain ⟨-, -, P', hselections⟩ := haccepted.fragment hdefined
      obtain ⟨hmet, hdeeper⟩ := ih (fun c' hc' => hcs c' (.tail _ hc')) rfl
      obtain ⟨-, hinside⟩ := ihinside hselections rfl
      constructor
      · intro fs hfs
        obtain ⟨fs, fs', rfl, hfs, hfs'⟩ := hfs.of_spread htype hname hdefined
        rw [hinside fs hfs, hmet fs' hfs', List.append_nil]
      · intro fs hfs
        rw [deeper_cons, (hcs c (.head _)).spread_selections htype] at hfs
        exact hdeeper fs hfs
  | @inline c cs gs gs' htype _ _ ihinside ih =>
      intro P hcs hnil
      obtain ⟨rfl, rfl⟩ := List.append_eq_nil_iff.mp hnil
      obtain ⟨hmet, hdeeper⟩ := ih (fun c' hc' => hcs c' (.tail _ hc')) rfl
      obtain ⟨hmet', hinside⟩ := ihinside (hcs c (.head _)).inside rfl
      constructor
      · intro fs hfs
        obtain ⟨fs, fs', rfl, hfs, hfs'⟩ := hfs.of_inline htype
        rw [hinside fs hfs, hmet fs' hfs', List.append_nil]
      · intro fs hfs
        rw [deeper_cons] at hfs
        obtain ⟨fs, fs', rfl, hfs, hfs'⟩ := hfs.of_append
        rw [hmet' fs hfs, hdeeper fs' hfs', List.append_nil]

/-- Where the root field stands it is the only one that is met, else fields below it are. -/
def Alone (root r : Node) (stands : Prop) (fs : List Node) : Prop :=
  stands ∧ fs = [r] ∨ ¬stands ∧ ∀ f ∈ fs, Below root r f

/-- The same of the fields that are met in these selections, and in what stands in them. -/
def AloneIn (root r : Node) (cs : List Node) : Prop :=
  (∀ fs, Fields root deeper cs fs → Alone root r (Stands root r cs) fs) ∧
    ∀ fs, Fields root deeper (deeper cs) fs → Alone root r (StandsInside root r cs) fs

/-- If the root field does not stand at the second of two places, the first one decides. -/
theorem Alone.left {p q : Prop} (h : Alone root r p fs) (hq : ¬q) : Alone root r (p ∨ q) fs :=
  h.imp (And.imp_left .inl) (And.imp_left fun hp => not_or.mpr ⟨hp, hq⟩)

/-- If it does not stand at the first, the second one decides. -/
theorem Alone.right {p q : Prop} (h : Alone root r q fs) (hp : ¬p) : Alone root r (p ∨ q) fs :=
  h.imp (And.imp_left .inr) (And.imp_left fun hq => not_or.mpr ⟨hp, hq⟩)

/-- Where there is no root field, none stands. -/
theorem Fields.not_stands (h : Fields root id cs []) :
    ¬Stands root r cs ∧ ¬StandsInside root r cs :=
  ⟨fun hr => List.not_mem_nil (h.of_stands.1 hr), fun hr => List.not_mem_nil (h.of_stands.2 hr)⟩

/-- The root field is the first selection. -/
theorem Fields.alone_field (hrest : Fields root id cs []) (hnone : NoneMet root cs)
    (htype : c.type = .field) : AloneIn root c (c :: cs) := by
  constructor
  · intro fs hfs
    obtain ⟨fs', rfl, hfs'⟩ := hfs.of_field htype
    rw [hnone.1 fs' hfs']
    exact .inl ⟨stands_cons.mpr (.inl (.field htype)), rfl⟩
  · intro fs hfs
    rw [deeper_cons] at hfs
    obtain ⟨fs, fs', rfl, hfs, hfs'⟩ := hfs.of_append
    rw [hnone.2 fs' hfs', List.append_nil, Alone, standsInside_cons_of_ne (by simp [htype])]
    refine .inr ⟨hrest.not_stands.2, fun f hf => ?_⟩
    obtain ⟨s, hs, hlooks⟩ := (hfs.mem_iff f).mp hf
    exact ⟨s, hs, hlooks.within⟩

section Spread

variable (htype : c.type = .fragmentSpread) (hname : c.text .fragmentName = some name)
  (hdefined : root.fragment name = some d) (hempty : c.selections = [])

include htype hname hdefined hempty

/-- The root field is in the fragment whose spread is the first selection. -/
theorem AloneIn.spread (h : AloneIn root r d.selections) (hrest : Fields root id cs [])
    (hnone : NoneMet root cs) : AloneIn root r (c :: cs) := by
  constructor
  · intro fs hfs
    obtain ⟨fs, fs', rfl, hfs, hfs'⟩ := hfs.of_spread htype hname hdefined
    rw [hnone.1 fs' hfs', List.append_nil, stands_cons, looksAt_spread htype hname hdefined]
    exact (h.2 fs hfs).left hrest.not_stands.1
  · intro fs hfs
    rw [deeper_cons, hempty, List.nil_append] at hfs
    rw [hnone.2 fs hfs, standsInside_cons_of_ne (by simp [htype])]
    exact .inr ⟨hrest.not_stands.2, nofun⟩

/-- It is not in that fragment. -/
theorem AloneIn.after_spread (h : AloneIn root r cs) (hinside : Fields root id d.selections [])
    (hnone : NoneMet root d.selections) : AloneIn root r (c :: cs) := by
  constructor
  · intro fs hfs
    obtain ⟨fs, fs', rfl, hfs, hfs'⟩ := hfs.of_spread htype hname hdefined
    rw [hnone.2 fs hfs, stands_cons, looksAt_spread htype hname hdefined]
    exact (h.1 fs' hfs').right hinside.not_stands.2
  · intro fs hfs
    rw [deeper_cons, hempty, List.nil_append] at hfs
    rw [standsInside_cons_of_ne (by simp [htype])]
    exact h.2 fs hfs

end Spread

/-- The root field is in the inline fragment that is the first selection. -/
theorem AloneIn.inline (htype : c.type = .inlineFragment) (h : AloneIn root r c.selections)
    (hrest : Fields root id cs []) (hnone : NoneMet root cs) : AloneIn root r (c :: cs) := by
  constructor
  · intro fs hfs
    obtain ⟨fs, fs', rfl, hfs, hfs'⟩ := hfs.of_inline htype
    rw [hnone.1 fs' hfs', List.append_nil, stands_cons, looksAt_inline htype]
    exact (h.2 fs hfs).left hrest.not_stands.1
  · intro fs hfs
    rw [deeper_cons] at hfs
    obtain ⟨fs, fs', rfl, hfs, hfs'⟩ := hfs.of_append
    rw [hnone.2 fs' hfs', List.append_nil, standsInside_cons, and_iff_right htype]
    exact (h.1 fs hfs).left hrest.not_stands.2

/-- It is not in that inline fragment. -/
theorem AloneIn.after_inline (htype : c.type = .inlineFragment) (h : AloneIn root r cs)
    (hinside : Fields root id c.selections []) (hnone : NoneMet root c.selections) :
    AloneIn root r (c :: cs) := by
  constructor
  · intro fs hfs
    obtain ⟨fs, fs', rfl, hfs, hfs'⟩ := hfs.of_inline htype
    rw [hnone.2 fs hfs, stands_cons, looksAt_inline htype]
    exact (h.1 fs' hfs').right hinside.not_stands.2
  · intro fs hfs
    rw [deeper_cons] at hfs
    obtain ⟨fs, fs', rfl, hfs, hfs'⟩ := hfs.of_append
    rw [hnone.1 fs hfs, standsInside_cons]
    exact (h.2 fs' hfs').right fun hr => hinside.not_stands.1 hr.2

/-- **One root field.**  Of selections with one root field, either it stands and is the only
field that is met, or only fields below it are; and so for what stands in them. -/
theorem Fields.alone (h : Fields root id cs gs) (haccepted : Accepted root) :
    ∀ {P : String → Prop}, (∀ c ∈ cs, Selection P c) → gs = [r] → AloneIn root r cs := by
  induction h with
  | nil => exact fun _ hone => by cases hone
  | field htype hrest _ =>
      intro P hcs hone
      obtain ⟨rfl, rfl⟩ := List.cons.inj hone
      have hcs' := fun c' hc' => hcs c' (.tail _ hc')
      exact hrest.alone_field (hrest.none_met haccepted hcs' rfl) htype
  | spread htype hname hdefined hinside hrest ihinside ih =>
      intro P hcs hone
      have hcs' := fun c' hc' => hcs c' (.tail _ hc')
      have hempty := (hcs _ (.head _)).spread_selections htype
      obtain ⟨-, -, P', hselections⟩ := haccepted.fragment hdefined
      rcases List.append_eq_singleton_iff.mp hone with ⟨rfl, rfl⟩ | ⟨rfl, rfl⟩
      · exact .after_spread htype hname hdefined hempty (ih hcs' rfl) hinside
          (hinside.none_met haccepted hselections rfl)
      · exact .spread htype hname hdefined hempty (ihinside hselections rfl) hrest
          (hrest.none_met haccepted hcs' rfl)
  | inline htype hinside hrest ihinside ih =>
      intro P hcs hone
      have hcs' := fun c' hc' => hcs c' (.tail _ hc')
      have hselections := (hcs _ (.head _)).inside
      rcases List.append_eq_singleton_iff.mp hone with ⟨rfl, rfl⟩ | ⟨rfl, rfl⟩
      · exact .after_inline htype (ih hcs' rfl) hinside
          (hinside.none_met haccepted hselections rfl)
      · exact .inline htype (ihinside hselections rfl) hrest
          (hrest.none_met haccepted hcs' rfl)

end Alone

section Operations

/-- An operation in which no field is met is silent. -/
theorem Fields.silent {ops : List Node}
    (h : Fields root deeper (ops.flatMap Node.selections) []) {op : Node} (hop : op ∈ ops) :
    Silent root op := by
  intro c hc f hlooks
  exact List.not_mem_nil ((h.mem_iff f).mpr ⟨c, List.mem_flatMap.mpr ⟨op, hop, hc⟩, hlooks⟩)

/-- The last field that is met is met in an operation after which all are silent. -/
theorem Fields.last_met {ops : List Node} {fs : List Node}
    (h : Fields root deeper (ops.flatMap Node.selections) fs) (hlast : fs.getLast? = some f) :
    ∃ before op after gs, ops = before ++ op :: after ∧ Fields root deeper op.selections gs ∧
      f ∈ gs ∧ ∀ op' ∈ after, Silent root op' := by
  induction ops generalizing fs with
  | nil =>
      cases h
      cases hlast
  | cons op ops ih =>
      obtain ⟨gs, gs', rfl, hgs, hgs'⟩ := h.of_append
      by_cases hnil : gs' = []
      · subst hnil
        rw [List.append_nil] at hlast
        exact ⟨[], op, ops, gs, rfl, hgs, List.mem_of_getLast? hlast, fun _ => hgs'.silent⟩
      · rw [List.getLast?_append_of_ne_nil _ hnil] at hlast
        obtain ⟨before, op', after, fs', rfl, hrest⟩ := ih hgs' hlast
        exact ⟨op :: before, op', after, fs', rfl, hrest⟩

/-- Where the root field prevails it is the last field that is met. -/
theorem Prevails.last {operationName : String} (h : Prevails root op r)
    (hsubscribes : Subscribable root operationName op r) (hmet : MetFields root fs) :
    named "" fs = r.name := by
  obtain ⟨hstands, before, after, hsplit, hsilent⟩ := h
  have hselections := (hsubscribes.accepted.operations op hsubscribes.selects.mem).2
  unfold MetFields at hmet
  rw [hsplit, List.flatMap_append, List.flatMap_cons] at hmet
  obtain ⟨gs, _, rfl, -, hrest⟩ := hmet.of_append
  obtain ⟨gs', gs'', rfl, hop, hafter⟩ := hrest.of_append
  have hempty : gs'' = [] := by
    refine List.eq_nil_iff_forall_not_mem.mpr fun f hf => ?_
    obtain ⟨c, hc, hlooks⟩ := (hafter.mem_iff f).mp hf
    obtain ⟨op', hop', hc⟩ := List.mem_flatMap.mp hc
    exact hsilent op' hop' c hc f hlooks
  have hroot : gs' = [r] := by
    have halone := (hsubscribes.rootField.alone hsubscribes.accepted hselections rfl).1 gs' hop
    exact (halone.resolve_right fun hnot => hnot.1 hstands).2
  rw [hempty, hroot, List.append_nil, named_append]
  rfl

/-- Where no other field has its name, the root field prevails if the last field that is met
has this name. -/
theorem Unmistakable.prevails {operationName : String} (h : Unmistakable root op r)
    (hsubscribes : Subscribable root operationName op r) (hmet : MetFields root fs)
    (hname : named "" fs = r.name) : Prevails root op r := by
  cases hlast : fs.getLast? with
  | none =>
      rw [named, hlast] at hname
      exact absurd hname.symm h.nonempty
  | some f =>
      rw [named, hlast] at hname
      obtain ⟨before, op', after, gs, hsplit, hgs, hf, hsilent⟩ := Fields.last_met hmet hlast
      have hop' : op' ∈ root.operations := by simp [hsplit]
      by_cases hsame : op' = op
      · subst hsame
        have hselections := (hsubscribes.accepted.operations op' hop').2
        rcases (hsubscribes.rootField.alone hsubscribes.accepted hselections rfl).1 gs hgs with
          ⟨hstands, -⟩ | ⟨-, hbelow⟩
        · exact ⟨hstands, before, after, hsplit, hsilent⟩
        · exact absurd hname (h.below f (hbelow f hf))
      · obtain ⟨c, hc, hlooks⟩ := (hgs.mem_iff f).mp hf
        exact absurd hname (h.operations op' hop' hsame c hc f hlooks.within)

/-- **Name of the root field.**  For what `subscribe` accepts, `getSubscriptionName`
terminates.  It returns the name of the root field where that stands where the visitors look
and no operation after its own has a field where they look; and only there, unless a field
of another operation or below the root field has the same name. -/
theorem getSubscriptionName_root (peg : Peg) {operationName : String} {op r : Node}
    (h : Subscribable root operationName op r) :
    (∃ name, Returns peg root name) ∧
      (Prevails root op r → Returns peg root r.name) ∧
      (Unmistakable root op r → Returns peg root r.name → Prevails root op r) := by
  obtain ⟨fs, hmet⟩ := h.accepted.met
  have hreturns := hmet.returns h.accepted peg
  refine ⟨⟨_, hreturns⟩, fun hprevails => ?_, fun hunmistakable hroot => ?_⟩
  · rw [← hprevails.last h hmet]
    exact hreturns
  · exact hunmistakable.prevails h hmet (hreturns.unique hroot)

end Operations

namespace Node

/-- A selection set of the grammar is missing or one node. -/
theorem selectionSet_cases (ss : List Node) :
    (ss = [] ∧ selectionSet ss = []) ∨ selectionSet ss = [.mk .selectionSet "" ss] := by
  cases ss with
  | nil => exact .inl ⟨rfl, rfl⟩
  | cons s ss => exact .inr rfl

/-- The selections of a field are those of its selection set. -/
theorem selections_field (name : String) (ss : List Node) : (field name ss).selections = ss := by
  rcases selectionSet_cases ss with ⟨rfl, -⟩ | hset
  · rfl
  · simp [selections, child, field, children, hset, token, type]

/-- The selection set of a field comes last. -/
theorem endsWithSelections_field (name : String) (ss : List Node) :
    (field name ss).EndsWithSelections := by
  rcases selectionSet_cases ss with ⟨rfl, -⟩ | hset
  · exact .inr ⟨rfl, token .fieldName name, rfl, nofun⟩
  · refine .inl ⟨.mk .selectionSet "" ss, ?_, ?_⟩
    · simp [field, children, hset]
    · simp [child, field, children, hset, token, type]

end Node

/-- A field of selections is a selection. -/
theorem selection_field {name : String} {ss : List Node} (h : ∀ s ∈ ss, Selection P s) :
    Selection P (.field name ss) := by
  have hname : (Node.field name ss).text .fieldName = some name := rfl
  refine .field rfl hname (Node.endsWithSelections_field name ss) ?_
  rwa [Node.selections_field]

/-- A spread of a defined fragment is a selection. -/
theorem selection_spread {name : String} (h : P name) : Selection P (.spread name) :=
  .spread rfl rfl rfl rfl (.inr ⟨rfl, _, rfl, nofun⟩) h

/-- What cppgraphqlgen has. -/
def cppgraphqlgen : Peg where
  forEachChild type n := n.children.filter fun c => c.type = type
  onFirstChild type n := n.children.find? fun c => c.type = type
  getSelection d := d.children.getLast?.getD d
  forEachChild_eq _ _ := rfl
  onFirstChild_eq _ _ := rfl
  getSelection_eq := by
    intro d set _ hlast
    rw [hlast]
    rfl

/-- `speed { value }`. -/
def speed : Node :=
  .field "speed" [.field "value" []]

/-- The subscription to `speed` after a query. -/
def querySpeed : Node :=
  .document [.operation "query" "Fuel" [.field "fuel" []],
    .operation "subscription" "Speed" [speed]]

/-- The subscription to `speed` before a query. -/
def speedQuery : Node :=
  .document [.operation "subscription" "Speed" [speed],
    .operation "query" "Fuel" [.field "fuel" []]]

/-- The subscription to `speed` through a fragment. -/
def speedFragment : Node :=
  .document [.operation "subscription" "" [.spread "Speed"],
    .define "Speed" "Subscription" [speed]]

/-- The field `speed` with its subfield is a selection. -/
theorem selection_speed : Selection P speed := by
  refine selection_field fun s hs => ?_
  obtain rfl := List.mem_singleton.mp hs
  exact selection_field nofun

/-- A document with one subscription is accepted. -/
theorem accepted_querySpeed : Accepted querySpeed where
  operations := by
    intro op hop
    rcases List.mem_cons.mp hop with rfl | hop
    · refine ⟨⟨_, rfl, rfl⟩, fun c hc => ?_⟩
      obtain rfl := List.mem_singleton.mp hc
      exact selection_field nofun
    · obtain rfl := List.mem_singleton.mp hop
      refine ⟨⟨_, rfl, rfl⟩, fun c hc => ?_⟩
      obtain rfl := List.mem_singleton.mp hc
      exact selection_speed
  fragments := ⟨fun _ => 0, nofun⟩

/-- `speed` alone. -/
theorem fields_speed (root : Node) : Fields root id [speed] [speed] :=
  .field rfl .nil

/-- The name of its only root field is returned. -/
theorem getSubscriptionName_root_querySpeed :
    Prevails querySpeed (.operation "subscription" "Speed" [speed]) speed ∧
      Returns cppgraphqlgen querySpeed "speed" := by
  have haccepts :
      Subscribable querySpeed "Speed" (.operation "subscription" "Speed" [speed]) speed :=
    ⟨accepted_querySpeed, .inr ⟨by decide, .tail _ (.head _), rfl⟩, rfl, fields_speed _⟩
  have hprevails : Prevails querySpeed (.operation "subscription" "Speed" [speed]) speed :=
    ⟨⟨speed, .head _, .field rfl⟩, [_], [], rfl, nofun⟩
  exact ⟨hprevails, (getSubscriptionName_root cppgraphqlgen haccepts).2.1 hprevails⟩

/-- A document with a query after the subscription is accepted. -/
theorem accepted_speedQuery : Accepted speedQuery where
  operations := by
    intro op hop
    exact accepted_querySpeed.operations op (List.mem_reverse.mp hop)
  fragments := ⟨fun _ => 0, nofun⟩

/-- A document with a fragment on `Subscription` is accepted. -/
theorem accepted_speedFragment : Accepted speedFragment where
  operations := by
    intro op hop
    obtain rfl := List.mem_singleton.mp hop
    refine ⟨⟨_, rfl, rfl⟩, fun c hc => ?_⟩
    obtain rfl := List.mem_singleton.mp hc
    exact selection_spread rfl
  fragments := by
    refine ⟨fun _ => 0, fun d hd => ?_⟩
    obtain rfl := List.mem_singleton.mp hd
    refine ⟨⟨_, rfl, rfl⟩, _, rfl, rfl, fun c hc => ?_⟩
    obtain rfl := List.mem_singleton.mp hc
    exact selection_speed

/-- A query after the subscription gives it its name; through a fragment, a field below the
root field does. -/
theorem getSubscriptionName_other :
    (Subscribable speedQuery "Speed" (.operation "subscription" "Speed" [speed]) speed ∧
      Returns cppgraphqlgen speedQuery "fuel") ∧
    (Subscribable speedFragment "" (.operation "subscription" "" [.spread "Speed"]) speed ∧
      Returns cppgraphqlgen speedFragment "value") ∧ speed.name = "speed" := by
  refine ⟨⟨⟨accepted_speedQuery, ?_, rfl, ?_⟩, ?_⟩,
    ⟨⟨accepted_speedFragment, ?_, rfl, ?_⟩, ?_⟩, rfl⟩
  · exact .inr ⟨by decide, .head _, rfl⟩
  · exact fields_speed _
  · refine ⟨1, fun fuel hfuel => ?_⟩
    obtain ⟨fuel, rfl⟩ : ∃ m, fuel = m + 1 := ⟨fuel - 1, by omega⟩
    rfl
  · exact .inl ⟨rfl, rfl⟩
  · have hspread : Fields speedFragment id [.spread "Speed"] ([speed] ++ []) :=
      .spread rfl rfl rfl (fields_speed _) .nil
    exact hspread
  · refine ⟨2, fun fuel hfuel => ?_⟩
    obtain ⟨fuel, rfl⟩ : ∃ m, fuel = m + 2 := ⟨fuel - 2, by omega⟩
    rfl

end GraphQL
