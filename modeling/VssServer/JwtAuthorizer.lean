import Mathlib.Data.List.AList
import Mathlib.Data.Rat.Lemmas
import Mathlib.Tactic.NormNum
import VssServer.Permissions
import VssServer.Response

/-!
# The authorizer that reads JSON web tokens

`JwtAuthorizer::authorize` decodes a token, has it verified, and collects the permissions
of its claims into a set of 16-bit keys.  The items of the claim are names, which are
looked up, or numbers, which are converted from `double` as they are.

* `Grants`: the permissions that the items of a claim grant.
* `authorize_permissions`: when the returned set is the one that is granted, and that it does
  not depend on the order of the items.
-/

open Permissions Response

namespace JwtAuthorizer

/-- A `picojson::value`; null and the truth values are one case, `other`. -/
inductive Json
  | string (s : String)
  | number (q : ℚ)
  | array (items : List Json)
  | object (members : List (String × Json))
  | other

/-- What jwt-cpp and picojson throw, by the classes that matter to the handlers. -/
inductive LibraryError
  | signatureVerification (what : String)
  | tokenVerification (what : String)
  | invalidArgument (what : String)
  | runtimeError (what : String)
  | otherError (what : String)
  deriving DecidableEq

def LibraryError.what : LibraryError → String
  | .signatureVerification what | .tokenVerification what | .invalidArgument what
  | .runtimeError what | .otherError what => what

/-- What leaves `authorize`. -/
inductive Thrown
  | invalidToken (message : String)
  | library (e : LibraryError)
  deriving DecidableEq

/-- The text that `createErrorResponse` gets. -/
def Thrown.what : Thrown → String
  | .invalidToken message => InvalidToken message
  | .library e => e.what

def PERMISSIONS_CLAIM := "permissions"

end JwtAuthorizer

open JwtAuthorizer

/-- The authorizer.  `decode`, `verify` and `claims` are those of the libraries, for decoded
tokens `τ`; `typeMismatch` is what `get<double>` says about a value of another type, and
`outOfRange` the key that a double becomes which has none. -/
structure JwtAuthorizer (τ : Type*) where
  decode : String → Except LibraryError τ
  verify : τ → Except LibraryError Unit
  claims : τ → Json
  typeMismatch : String
  outOfRange : ℚ → Key
  knownPermissions : AList fun _ : String => Key

namespace JwtAuthorizer

variable {τ : Type*} (a : JwtAuthorizer τ)

/-- The conversion from `double` to `uint16_t`: the fraction is cut off, and what is then
out of range is not defined by the language. -/
def toKey (q : ℚ) : Key :=
  let k := q.num.tdiv q.den
  if 0 ≤ k ∧ k ≤ 65535 then UInt16.ofNat k.toNat else a.outOfRange q

/-- What an item of the claim inserts, if anything. -/
def itemKey : Json → Except Thrown (Option Key)
  | .string permission => .ok (a.knownPermissions.lookup permission)
  | .number q => .ok (some (a.toKey q))
  | _ => .error (.library (.runtimeError a.typeMismatch))

/-- The loop over the items. -/
def insertItems (permissions : ClientPermissions) : List Json → Except Thrown ClientPermissions
  | [] => .ok permissions
  | item :: items =>
      match a.itemKey item with
      | .error e => .error e
      | .ok none => insertItems permissions items
      | .ok (some k) => insertItems ⟨insert k permissions.lookup⟩ items

/-- The loop over the claims. -/
def readPermissions : List (String × Json) → Except Thrown ClientPermissions
  | [] => .error (.invalidToken "Token claims do not contain permissions")
  | (name, value) :: rest =>
      if name = PERMISSIONS_CLAIM then
        match value with
        | .array items => a.insertItems ⟨∅⟩ items
        | _ => .error (.invalidToken "Token claims permissions is not an array")
      else readPermissions rest

/-- The claims of a verified token. -/
def readClaims : Json → Except Thrown ClientPermissions
  | .object members => a.readPermissions members
  | _ => .error (.invalidToken "Token claims are not in a valid format")

/-- The two `catch` clauses. -/
def translate : Thrown → Thrown
  | .library (.signatureVerification what) | .library (.invalidArgument what) =>
      .invalidToken what
  | e => e

/-- The body of the `try` block. -/
def readToken (token : String) : Except Thrown ClientPermissions :=
  match a.decode token with
  | .error e => .error (.library e)
  | .ok decoded =>
      match a.verify decoded with
      | .error e => .error (.library e)
      | .ok () => a.readClaims (a.claims decoded)

/-- `JwtAuthorizer::authorize`; no token at all has a null pointer. -/
def authorize (token : String) : Except Thrown (Option ClientPermissions) :=
  if token.isEmpty then .ok none
  else
    match a.readToken token with
    | .error e => .error (translate e)
    | .ok permissions => .ok (some permissions)

variable {a}

/-- The number is a key. -/
def IsKey (q : ℚ) : Prop :=
  ∃ k : Key, q = k.toNat

/-- A permission that the items grant: a known name stands for it, or a number is equal to
it. -/
def Grants (a : JwtAuthorizer τ) (items : List Json) (k : Key) : Prop :=
  (∃ permission, .string permission ∈ items ∧ a.knownPermissions.lookup permission = some k) ∨
    Json.number k.toNat ∈ items

/-- The token is verified, and has these items in its claims. -/
def Carries (a : JwtAuthorizer τ) (token : String) (items : List Json) : Prop :=
  ∃ decoded members, a.decode token = .ok decoded ∧ a.verify decoded = .ok () ∧
    a.claims decoded = .object members ∧
      (members.find? fun m => m.1 = PERMISSIONS_CLAIM) = some (PERMISSIONS_CLAIM, .array items)

/-- A number that is a key is converted to this key. -/
theorem toKey_natCast (k : Key) : a.toKey k.toNat = k := by
  have hk : (k.toNat : ℤ) ≤ 65535 := by
    have := k.toNat_lt
    omega
  have htrunc : (k.toNat : ℚ).num.tdiv (k.toNat : ℚ).den = k.toNat := by simp
  unfold toKey
  simp only [htrunc]
  rw [if_pos ⟨Int.natCast_nonneg _, hk⟩]
  simp

/-- The keys after the loop are those before it and those of the items. -/
theorem mem_insertItems {items : List Json} {p p' : ClientPermissions}
    (h : a.insertItems p items = .ok p') (k : Key) :
    k ∈ p'.lookup ↔ k ∈ p.lookup ∨ ∃ item ∈ items, a.itemKey item = .ok (some k) := by
  induction items generalizing p with
  | nil =>
      cases h
      simp
  | cons item items ih =>
      unfold insertItems at h
      split at h
      case h_1 => cases h
      case h_2 hnone => simp [ih h, hnone]
      case h_3 k' hsome =>
        rw [ih h, List.exists_mem_cons_iff, hsome]
        simp only [Finset.mem_insert, Except.ok.injEq, Option.some.injEq]
        tauto

/-- The loop fails exactly at an item that is neither a name nor a number. -/
theorem insertItems_error {items : List Json} {p : ClientPermissions} {e : Thrown}
    (h : a.insertItems p items = .error e) :
    e = .library (.runtimeError a.typeMismatch) ∧ ∃ item ∈ items, a.itemKey item = .error e := by
  induction items generalizing p with
  | nil => cases h
  | cons item items ih =>
      unfold insertItems at h
      split at h
      case h_1 e' herror =>
        cases h
        refine ⟨?_, item, .head _, herror⟩
        cases item <;> cases herror
        all_goals rfl
      case h_2 | h_3 =>
        obtain ⟨he, item', hmem, herror⟩ := ih h
        exact ⟨he, item', List.mem_cons_of_mem _ hmem, herror⟩

theorem insertItems_ok {items : List Json} {p p' : ClientPermissions}
    (h : a.insertItems p items = .ok p') : ∀ item ∈ items, ∃ k, a.itemKey item = .ok k := by
  induction items generalizing p with
  | nil => simp
  | cons item items ih =>
      unfold insertItems at h
      split at h
      case h_1 => cases h
      case h_2 hitem =>
        exact List.forall_mem_cons.mpr ⟨⟨_, hitem⟩, ih h⟩
      case h_3 hitem =>
        exact List.forall_mem_cons.mpr ⟨⟨_, hitem⟩, ih h⟩

/-- The loop over the claims stops at the first one with the name. -/
theorem readPermissions_eq (members : List (String × Json)) :
    a.readPermissions members =
      match members.find? fun m => m.1 = PERMISSIONS_CLAIM with
      | none => .error (.invalidToken "Token claims do not contain permissions")
      | some (_, .array items) => a.insertItems ⟨∅⟩ items
      | some _ => .error (.invalidToken "Token claims permissions is not an array") := by
  induction members with
  | nil => rfl
  | cons m members ih =>
      obtain ⟨name, value⟩ := m
      unfold readPermissions
      by_cases hname : name = PERMISSIONS_CLAIM
      · rw [if_pos hname, List.find?_cons_of_pos (by simpa using hname)]
        cases value <;> rfl
      · rw [if_neg hname, List.find?_cons_of_neg (by simpa using hname)]
        exact ih

/-- A verified token has the permissions of its items. -/
theorem Carries.readToken {token : String} {items : List Json} (h : a.Carries token items) :
    a.readToken token = a.insertItems ⟨∅⟩ items := by
  obtain ⟨decoded, members, hdecode, hverify, hclaims, hfind⟩ := h
  simp only [JwtAuthorizer.readToken, hdecode, hverify, readClaims, hclaims]
  rw [readPermissions_eq, hfind]

/-- When `authorize` returns, every item was a name or a number. -/
theorem Carries.authorize {token : String} {items : List Json} (h : a.Carries token items)
    (htoken : token.isEmpty = false) {p : Option ClientPermissions} :
    a.authorize token = .ok p ↔ ∃ q, a.insertItems ⟨∅⟩ items = .ok q ∧ p = some q := by
  unfold JwtAuthorizer.authorize
  rw [h.readToken, htoken]
  cases a.insertItems ⟨∅⟩ items with
  | error e => simp
  | ok q => simp [eq_comm]

/-- Everything that the items grant is inserted. -/
theorem Grants.inserted {items : List Json} {k : Key} (h : a.Grants items k) :
    ∃ item ∈ items, a.itemKey item = .ok (some k) := by
  rcases h with ⟨permission, hmem, hknown⟩ | hmem
  · exact ⟨_, hmem, by rw [itemKey, hknown]⟩
  · exact ⟨_, hmem, by rw [itemKey, toKey_natCast]⟩

/-- What is inserted is granted, or comes from a number that is no key. -/
theorem inserted_cases {items : List Json} {k : Key} {item : Json} (hmem : item ∈ items)
    (h : a.itemKey item = .ok (some k)) :
    a.Grants items k ∨ ∃ q, .number q ∈ items ∧ ¬ IsKey q ∧ a.toKey q = k := by
  cases item with
  | string permission => exact Or.inl (Or.inl ⟨permission, hmem, by simpa [itemKey] using h⟩)
  | number q =>
      have hk : a.toKey q = k := by simpa [itemKey] using h
      by_cases hq : IsKey q
      · obtain ⟨k', rfl⟩ := hq
        rw [toKey_natCast] at hk
        exact Or.inl (Or.inr (hk ▸ hmem))
      · exact Or.inr ⟨q, hmem, hq, hk⟩
  | _ => cases h

/-- Lists with the same items make the same set of permissions. -/
theorem insertItems_congr {items items' : List Json} {p : ClientPermissions}
    (h : a.insertItems ⟨∅⟩ items = .ok p) (hsame : ∀ item, item ∈ items' ↔ item ∈ items) :
    a.insertItems ⟨∅⟩ items' = .ok p := by
  cases h' : a.insertItems ⟨∅⟩ items' with
  | error e =>
      obtain ⟨-, item, hmem, herror⟩ := insertItems_error h'
      obtain ⟨k, hok⟩ := insertItems_ok h item ((hsame item).mp hmem)
      rw [hok] at herror
      cases herror
  | ok p' =>
      have hlookup : p'.lookup = p.lookup := by
        ext k
        simp [mem_insertItems h', mem_insertItems h, hsame]
      exact congrArg Except.ok (congrArg ClientPermissions.mk hlookup)

/-- **The permissions of a token.**  The set that `authorize` returns does not depend on
the order or the repetition of the items, and is the one that they grant exactly if each
number that is no key is converted to a permission that is granted anyway. -/
theorem authorize_permissions {token : String} {items : List Json} {p : ClientPermissions}
    (hcarries : a.Carries token items) (hreturns : a.authorize token = .ok (some p)) :
    ((∀ k, k ∈ p.lookup ↔ a.Grants items k) ↔
      ∀ q, .number q ∈ items → ¬ IsKey q → a.Grants items (a.toKey q)) ∧
    ∀ token' items', token'.isEmpty = false → a.Carries token' items' →
      (∀ item, item ∈ items' ↔ item ∈ items) → a.authorize token' = .ok (some p) := by
  have htoken : token.isEmpty = false := by
    rw [Bool.eq_false_iff]
    intro hempty
    rw [authorize, if_pos hempty] at hreturns
    cases hreturns
  obtain ⟨p', hinsert, heq⟩ := (hcarries.authorize htoken).mp hreturns
  cases heq
  have hmem := fun k => mem_insertItems hinsert k
  simp only [Finset.notMem_empty, false_or] at hmem
  refine ⟨⟨?_, ?_⟩, ?_⟩
  · intro hexact q hq hnokey
    exact (hexact _).mp ((hmem _).mpr ⟨_, hq, rfl⟩)
  · intro hgranted k
    refine ⟨?_, fun hk => (hmem k).mpr hk.inserted⟩
    intro hk
    obtain ⟨item, hitem, hkey⟩ := (hmem k).mp hk
    rcases inserted_cases hitem hkey with hgrants | ⟨q, hq, hnokey, rfl⟩
    · exact hgrants
    · exact hgranted q hq hnokey
  · intro token' items' htoken' hcarries' hsame
    exact (hcarries'.authorize htoken').mpr ⟨p, insertItems_congr hinsert hsame, rfl⟩

/-- An authorizer for which every token is verified and carries these items. -/
def carrier (items : List Json) : JwtAuthorizer Unit where
  decode _ := .ok ()
  verify _ := .ok ()
  claims _ := .object [(PERMISSIONS_CLAIM, .array items)]
  typeMismatch := "type mismatch! call is<type>() before get<type>()"
  outOfRange _ := 0
  knownPermissions := (∅ : AList fun _ : String => Key).insert "door" 7

theorem carrier_carries (items : List Json) : (carrier items).Carries "token" items :=
  ⟨(), _, rfl, rfl, rfl, rfl⟩

theorem authorize_permissions_door :
    (carrier [.number 2, .string "door", .string "hood", .number 2]).authorize "token" =
        .ok (some ⟨{7, 2}⟩) ∧
      ∀ k, k ∈ ({7, 2} : Finset Key) ↔
        (carrier [.number 2, .string "door", .string "hood", .number 2]).Grants
          [.number 2, .string "door", .string "hood", .number 2] k := by
  have hreturns :
      (carrier [.number 2, .string "door", .string "hood", .number 2]).authorize "token" =
        .ok (some ⟨{7, 2}⟩) := by rfl
  refine ⟨hreturns, (authorize_permissions (carrier_carries _) hreturns).1.mpr ?_⟩
  intro q hq hnokey
  simp at hq
  exact absurd ⟨2, hq⟩ hnokey

/-- The number 3/2 grants nothing, and gives its bearer the permission 1. -/
theorem fraction_grants :
    (carrier [.number (3 / 2)]).authorize "token" = .ok (some ⟨{1}⟩) ∧
      ¬ ∀ k, k ∈ ({1} : Finset Key) ↔
        (carrier [.number (3 / 2)]).Grants [.number (3 / 2)] k := by
  have hkey : (carrier [.number (3 / 2)]).toKey (3 / 2) = 1 := by
    have hhalf : (3 / 2 : ℚ) = ((3 : ℤ) : ℚ) / (2 : ℤ) := by norm_num
    have hnum : (3 / 2 : ℚ).num = 3 := by
      rw [hhalf]
      exact Rat.num_div_eq_of_coprime (by decide) (by decide)
    have hden : (3 / 2 : ℚ).den = 2 := by
      rw [hhalf]
      exact Int.ofNat_inj.mp (Rat.den_div_eq_of_coprime (by decide) (by decide))
    rw [toKey, hnum, hden]
    rfl
  refine ⟨?_, ?_⟩
  · refine ((carrier_carries _).authorize (by decide)).mpr ⟨_, ?_, rfl⟩
    simp [insertItems, itemKey, hkey]
  · intro hexact
    rcases (hexact 1).mp (Finset.mem_singleton_self 1) with ⟨permission, hmem, -⟩ | hmem
    · simp at hmem
    · have hone : (1 : ℚ) = 3 / 2 := by simpa using hmem
      norm_num at hone

end JwtAuthorizer
