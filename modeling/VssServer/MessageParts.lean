import VssServer.Response

/-!
# The parts of a message, in any order

A client may write the members of a message in any order, repeat a name and add
members of its own.  Both readers find the same three parts: the first string of
a name that is not empty, and the first object of a name.  With distinct names
the order does not matter, and members that a reader does not look for never do.

* `carried_perm`, `carriedObject_perm`: the order of the members does not matter.
* `carried_inserted`, `carriedObject_inserted`: nor do members that are not looked for.
* `readers_take_first`: what both readers find.
-/

namespace Response

/-- The object that an object carries under a name: the first one. -/
def Value.carriedObject (name : String) : Value → Option Value
  | .map members => members.findSome? fun m => if m.1 = name ∧ m.2.isMap then some m.2 else none
  | _ => none

/-- A member that a reader does not look for: another name, or a value of another type. -/
def Ignored (first second value : String) (m : String × Value) : Prop :=
  match m.2 with
  | .string _ => m.1 ≠ first ∧ m.1 ≠ second
  | .map _ => m.1 ≠ value
  | _ => True

/-- The second list is the first one with members inserted anywhere. -/
inductive Inserted (new : String × Value → Prop) :
    List (String × Value) → List (String × Value) → Prop
  | nil : Inserted new [] []
  | keep (m : String × Value) {members members' : List (String × Value)} :
      Inserted new members members' → Inserted new (m :: members) (m :: members')
  | insert {m : String × Value} {members members' : List (String × Value)} :
      new m → Inserted new members members' → Inserted new members (m :: members')

/-- What a reader of three parts returns for every object. -/
structure ReadsFirst (read : Value → Except String Parts) (first second value : String) :
    Prop where
  result (members : List (String × Value)) :
    read (.map members) = .ok {
      first := ((Value.map members).carried first).getD ""
      second := ((Value.map members).carried second).getD ""
      value := ((Value.map members).carriedObject value).getD .null }
  permuted {members members' : List (String × Value)} :
    (members.map Prod.fst).Nodup → members.Perm members' →
      read (.map members') = read (.map members)
  inserted {members members' : List (String × Value)} :
    Inserted (Ignored first second value) members members' →
      read (.map members') = read (.map members)

/-- What one member adds to the text. -/
private theorem member_first {first second value : String} (p : Parts) (name : String)
    (v : Value) :
    (Parts.member first second value p (name, v)).first =
      match v with
      | .string s => if p.first.isEmpty ∧ name = first then s else p.first
      | _ => p.first := by
  unfold Parts.member
  cases v with
  | string s =>
      by_cases hfirst : p.first.isEmpty ∧ name = first
      · simp [hfirst]
      · simp only [hfirst, if_false]
        split <;> rfl
  | map members => simp only; split <;> rfl
  | _ => rfl

/-- The scan finds the first text under the name that is not empty. -/
private theorem scan_first {first second value : String} (members : List (String × Value))
    (p : Parts) :
    (members.foldl (Parts.member first second value) p).first =
      if p.first.isEmpty then ((Value.map members).carried first).getD "" else p.first := by
  induction members generalizing p with
  | nil =>
      simp only [List.foldl_nil, Value.carried, List.findSome?_nil, Option.getD_none]
      split
      · exact String.isEmpty_iff.mp ‹_›
      · rfl
  | cons m members ih =>
      obtain ⟨name, v⟩ := m
      rw [List.foldl_cons, ih, member_first]
      simp only [Value.carried, List.findSome?_cons]
      cases v with
      | string s =>
          by_cases hempty : p.first.isEmpty
          · by_cases hname : name = first
            · by_cases hs : s.isEmpty <;> simp [hempty, hname, hs]
            · simp [hempty, hname]
          · simp [hempty]
      | _ => rfl

/-- What one member adds to the value. -/
private theorem member_value {first second value : String} (p : Parts) (name : String)
    (v : Value) :
    (Parts.member first second value p (name, v)).value =
      if p.value.isNull ∧ name = value ∧ v.isMap then v else p.value := by
  unfold Parts.member
  cases v with
  | string s =>
      simp only [Value.isMap]
      split
      · simp
      · split <;> simp
  | map members =>
      simp only [Value.isMap, and_true]
      split <;> rfl
  | _ => simp [Value.isMap]

/-- The scan finds the first object under the name. -/
private theorem scan_value {first second value : String} (members : List (String × Value))
    (p : Parts) :
    (members.foldl (Parts.member first second value) p).value =
      if p.value.isNull then ((Value.map members).carriedObject value).getD .null
      else p.value := by
  induction members generalizing p with
  | nil =>
      cases hvalue : p.value <;> simp [Value.carriedObject, Value.isNull, hvalue]
  | cons m members ih =>
      obtain ⟨name, v⟩ := m
      rw [List.foldl_cons, ih, member_value]
      simp only [Value.carriedObject, List.findSome?_cons]
      by_cases hnull : p.value.isNull
      · by_cases hfound : name = value ∧ v.isMap
        · -- what was found is an object, so nothing replaces it
          have hv : v.isNull = false := by
            cases v <;> simp_all [Value.isMap, Value.isNull]
          simp [hnull, hfound, hv]
        · simp [hnull, hfound]
      · simp [hnull]

/-- The three parts do not shadow each other: each is found on its own. -/
theorem scan_map {error first second value : String} (hne : second ≠ first)
    (members : List (String × Value)) :
    Parts.scan error first second value (.map members) = .ok {
      first := ((Value.map members).carried first).getD ""
      second := ((Value.map members).carried second).getD ""
      value := ((Value.map members).carriedObject value).getD .null } := by
  have hfirst : (members.foldl (Parts.member first second value) {}).first =
      ((Value.map members).carried first).getD "" := scan_first members {}
  have hsecond : (members.foldl (Parts.member first second value) {}).second =
      ((Value.map members).carried second).getD "" := scan_second hne members {}
  have hvalue : (members.foldl (Parts.member first second value) {}).value =
      ((Value.map members).carriedObject value).getD .null := scan_value members {}
  rw [← hfirst, ← hsecond, ← hvalue]
  rfl

/-- A search for one name does not depend on the order of distinct names. -/
private theorem findSome?_perm {β : Type} {find : String × Value → Option β} (name : String)
    (hfind : ∀ m, m.1 ≠ name → find m = none) {members members' : List (String × Value)}
    (hnodup : (members.map Prod.fst).Nodup) (hperm : members.Perm members') :
    members'.findSome? find = members.findSome? find := by
  induction hperm with
  | nil => rfl
  | cons m hperm ih =>
      rw [List.findSome?_cons, List.findSome?_cons, ih hnodup.of_cons]
  | swap m m' rest =>
      -- at most one of the two has the name
      have hne : m'.1 ≠ m.1 := by
        intro heq
        simp [heq] at hnodup
      by_cases hm : m.1 = name
      · have hm' := hfind m' (hm ▸ hne)
        simp [List.findSome?_cons, hm']
      · simp [List.findSome?_cons, hfind m hm]
  | trans hperm hperm' ih ih' =>
      rw [ih' ((hperm.map Prod.fst).nodup_iff.mp hnodup), ih hnodup]

/-- A search does not see what is inserted if it finds nothing there. -/
private theorem findSome?_inserted {β : Type} {new : String × Value → Prop}
    {find : String × Value → Option β} (hnew : ∀ m, new m → find m = none)
    {members members' : List (String × Value)} (h : Inserted new members members') :
    members'.findSome? find = members.findSome? find := by
  induction h with
  | nil => rfl
  | keep m h ih => rw [List.findSome?_cons, List.findSome?_cons, ih]
  | insert hm h ih => rw [List.findSome?_cons, hnew _ hm, ih]

/-- The order of different members does not matter to the text. -/
theorem carried_perm (name : String) {members members' : List (String × Value)}
    (hnodup : (members.map Prod.fst).Nodup) (hperm : members.Perm members') :
    (Value.map members').carried name = (Value.map members).carried name := by
  refine findSome?_perm name (fun m hm => ?_) hnodup hperm
  obtain ⟨name', v⟩ := m
  cases v with
  | string s => exact if_neg fun h => hm h.1
  | _ => rfl

/-- Nor to the object. -/
theorem carriedObject_perm (name : String) {members members' : List (String × Value)}
    (hnodup : (members.map Prod.fst).Nodup) (hperm : members.Perm members') :
    (Value.map members').carriedObject name = (Value.map members).carriedObject name :=
  findSome?_perm name (fun _ hm => if_neg fun h => hm h.1) hnodup hperm

/-- Members of other names or kinds do not matter to the text. -/
theorem carried_inserted {new : String × Value → Prop} {name : String}
    (hnew : ∀ s, ¬ new (name, .string s)) {members members' : List (String × Value)}
    (h : Inserted new members members') :
    (Value.map members').carried name = (Value.map members).carried name := by
  refine findSome?_inserted (fun m hm => ?_) h
  obtain ⟨name', v⟩ := m
  cases v with
  | string s =>
      refine if_neg fun hfound => hnew s ?_
      rw [← hfound.1]
      exact hm
  | _ => rfl

/-- Nor to the object. -/
theorem carriedObject_inserted {new : String × Value → Prop} {name : String}
    (hnew : ∀ members, ¬ new (name, .map members)) {members members' : List (String × Value)}
    (h : Inserted new members members') :
    (Value.map members').carriedObject name = (Value.map members).carriedObject name := by
  refine findSome?_inserted (fun m hm => ?_) h
  obtain ⟨name', v⟩ := m
  cases v with
  | map inner =>
      refine if_neg fun hfound => hnew inner ?_
      rw [← hfound.1]
      exact hm
  | _ => exact if_neg fun hfound => Bool.false_ne_true hfound.2

/-- A scan for three parts with distinct string names finds the first of each. -/
theorem scan_readsFirst {error first second value : String} (hne : second ≠ first) :
    ReadsFirst (Parts.scan error first second value) first second value where
  result := scan_map hne
  permuted hnodup hperm := by
    rw [scan_map hne, scan_map hne, carried_perm first hnodup hperm,
      carried_perm second hnodup hperm, carriedObject_perm value hnodup hperm]
  inserted h := by
    have hfirst : ∀ s, ¬ Ignored first second value (first, .string s) := fun _ hm => hm.1 rfl
    have hsecond : ∀ s, ¬ Ignored first second value (second, .string s) := fun _ hm => hm.2 rfl
    have hvalue : ∀ inner, ¬ Ignored first second value (value, .map inner) := fun _ hm => hm rfl
    rw [scan_map hne, scan_map hne, carried_inserted hfirst h, carried_inserted hsecond h,
      carriedObject_inserted hvalue h]

/-- **Both readers take the first of each name.**  Whatever the members of an object
are and in whatever order, a reader returns the first string of each of its two names
that is not empty, and the first object of its third name. -/
theorem readers_take_first :
    ReadsFirst toMessageParts GQL_TYPE GQL_ID GQL_PAYLOAD ∧
      ReadsFirst toOperationDefinitionParts GQL_QUERY GQL_OPERATION_NAME GQL_VARIABLES :=
  ⟨scan_readsFirst (by decide), scan_readsFirst (by decide)⟩

end Response
