import Mathlib.Data.List.Basic
import VssServer.Doubles

/-!
# Messages

Requests and replies are response values.  This file has what the handlers do
with them: the parts that are read off a message and off the payload of a
`start`, the replies that are built, and the status code of an HTTP reply.
Both readers are one scan over the members of an object, with other names.

* `toMessageParts`, `toOperationDefinitionParts`: the parts of a message and of a payload.
* `createResponse`, `createErrorResponse`: the replies.
* `scan_second`: the scan finds the first string under the second name.
-/

namespace Response

/-- A `response::Value`.  Lists, booleans, enumeration values and scalars are only
ever passed on or skipped, so they are one case, `other`. -/
inductive Value
  | null
  | string (s : String)
  | int (n : Int)
  | float (x : Doubles.Double)
  | map (members : List (String × Value))
  | other

/-- The value of a member of an object, `response::Value::find`. -/
def Value.find (name : String) : Value → Option Value
  | .map members => (members.find? fun m => m.1 = name).map Prod.snd
  | _ => none

def Value.isMap : Value → Bool
  | .map _ => true
  | _ => false

def Value.isNull : Value → Bool
  | .null => true
  | _ => false

def GQL_CONNECTION_INIT := "connection_init"
def GQL_CONNECTION_ACK := "connection_ack"
def GQL_CONNECTION_ERROR := "connection_error"
def GQL_CONNECTION_TERMINATE := "connection_terminate"
def GQL_START := "start"
def GQL_DATA := "data"
def GQL_ERROR := "error"
def GQL_COMPLETE := "complete"
def GQL_STOP := "stop"
def GQL_TYPE := "type"
def GQL_ID := "id"
def GQL_PAYLOAD := "payload"
def GQL_QUERY := "query"
def GQL_VARIABLES := "variables"
def GQL_OPERATION_NAME := "operationName"
def GQL_MESSAGE := "message"
def GQL_AUTHORIZATION := "authorization"
def GQL_STATUS_CODE := "statusCode"

/-- `InvalidPayload::what`. -/
def InvalidPayload (message : String) : String :=
  "Invalid payload: " ++ message

/-- `InvalidToken::messagePrefix`. -/
def InvalidToken.messagePrefix := "Token error: "

/-- `InvalidToken::what`. -/
def InvalidToken (message : String) : String :=
  InvalidToken.messagePrefix ++ message

/-- What a scan has found: two strings and an object. -/
structure Parts where
  first : String := ""
  second : String := ""
  value : Value := .null

/-- One member of the scan: a string fills the first part of its name that is
still empty, an object the value. -/
def Parts.member (first second value : String) (p : Parts) (m : String × Value) : Parts :=
  match m.2 with
  | .string s =>
      if p.first.isEmpty ∧ m.1 = first then { p with first := s }
      else if p.second.isEmpty ∧ m.1 = second then { p with second := s }
      else p
  | .map _ => if p.value.isNull ∧ m.1 = value then { p with value := m.2 } else p
  | _ => p

/-- The scan over the members of an object; what is no object is rejected. -/
def Parts.scan (error first second value : String) : Value → Except String Parts
  | .map members => .ok (members.foldl (Parts.member first second value) {})
  | _ => .error (InvalidPayload error)

/-- `toMessageParts`: type, id and payload. -/
def toMessageParts (message : Value) : Except String Parts :=
  Parts.scan "message is not an object" GQL_TYPE GQL_ID GQL_PAYLOAD message

/-- `toOperationDefinitionParts`: query, operation name and variables. -/
def toOperationDefinitionParts (payload : Value) : Except String Parts :=
  Parts.scan "start payload is not an object" GQL_QUERY GQL_OPERATION_NAME GQL_VARIABLES payload

/-- `createResponse`. -/
def createResponse (type id : String) (payload : Value) : Value :=
  .map ((GQL_TYPE, .string type) :: (if id.isEmpty then [] else [(GQL_ID, .string id)]) ++
    if payload.isNull then [] else [(GQL_PAYLOAD, payload)])

/-- The status code of an exception: only an invalid token is unauthorized. -/
def errorStatusCode (message : String) : Int :=
  if InvalidToken.messagePrefix.length < message.length ∧
      InvalidToken.messagePrefix.toList.isPrefixOf message.toList then 401
  else 400

/-- `createErrorResponse`. -/
def createErrorResponse (type id message : String) : Value :=
  createResponse type id
    (.map [(GQL_MESSAGE, .string message), (GQL_STATUS_CODE, .int (errorStatusCode message))])

/-- The status code that `onHttpReply` sends for a reply that is not `complete`. -/
def httpStatusCode (type : String) (payload : Value) : Int :=
  if type = GQL_DATA ∧ payload.isMap then
    if (payload.find GQL_DATA).isSome then 200 else 400
  else if type = GQL_ERROR ∨ type = GQL_CONNECTION_ERROR then
    match payload.find GQL_STATUS_CODE with
    | some (.int code) => code
    | _ => 400
  else 501

/-- What is read off a reply is what it was created with. -/
theorem toMessageParts_createResponse {type : String} (htype : type.isEmpty = false)
    (id : String) (payload : Value) :
    ∃ p, toMessageParts (createResponse type id payload) = .ok p ∧ p.first = type ∧
      p.second = id := by
  refine ⟨_, rfl, ?_⟩
  by_cases hid : id = ""
  · cases payload <;>
      simp [Parts.member, Value.isNull, GQL_TYPE, GQL_ID, GQL_PAYLOAD, hid]
  · have hid' : id.isEmpty = false := by simpa using hid
    cases payload <;>
      simp_all [Parts.member, Value.isNull, GQL_TYPE, GQL_ID, GQL_PAYLOAD]

/-- The string that an object carries under a name: the first one that is not empty. -/
def Value.carried (name : String) : Value → Option String
  | .map members =>
      members.findSome? fun m =>
        match m.2 with
        | .string s => if m.1 = name ∧ s.isEmpty = false then some s else none
        | _ => none
  | _ => none

/-- What one member does to the second part of a scan. -/
private theorem member_second {first second value : String} (hne : second ≠ first) (p : Parts)
    (name : String) (v : Value) :
    (Parts.member first second value p (name, v)).second =
      match v with
      | .string s => if p.second.isEmpty ∧ name = second then s else p.second
      | _ => p.second := by
  unfold Parts.member
  cases v with
  | string s =>
      by_cases hfirst : p.first.isEmpty ∧ name = first
      · have hname : name ≠ second := by
          rw [hfirst.2]
          exact hne.symm
        simp [hfirst, hfirst.2 ▸ hname]
      · simp only [hfirst, if_false]
        split <;> rfl
  | map members => simp only; split <;> rfl
  | _ => rfl

theorem scan_second {first second value : String} (hne : second ≠ first)
    (members : List (String × Value)) (p : Parts) :
    (members.foldl (Parts.member first second value) p).second =
      if p.second.isEmpty then ((Value.map members).carried second).getD "" else p.second := by
  induction members generalizing p with
  | nil =>
      simp only [List.foldl_nil, Value.carried, List.findSome?_nil, Option.getD_none]
      split
      · exact String.isEmpty_iff.mp ‹_›
      · rfl
  | cons m members ih =>
      obtain ⟨name, v⟩ := m
      rw [List.foldl_cons, ih, member_second hne]
      simp only [Value.carried, List.findSome?_cons]
      cases v with
      | string s =>
          by_cases hempty : p.second.isEmpty
          · by_cases hname : name = second
            · by_cases hs : s.isEmpty <;> simp [hempty, hname, hs]
            · simp [hempty, hname]
          · simp [hempty]
      | _ => rfl

/-- The id that is read off a message is the one that it carries. -/
theorem toMessageParts_second {message : Value} {p : Parts} (h : toMessageParts message = .ok p) :
    p.second = (message.carried GQL_ID).getD "" := by
  cases message with
  | map members =>
      cases h
      exact scan_second (by decide) members {}
  | _ => cases h

theorem Value.carried_nonempty {name : String} {v : Value} {s : String}
    (h : v.carried name = some s) : s.isEmpty = false := by
  cases v with
  | map members =>
      obtain ⟨⟨name', v⟩, -, hsome⟩ := List.exists_of_findSome?_eq_some h
      cases v with
      | string s' =>
          obtain ⟨⟨-, hs'⟩, heq⟩ := Option.ite_none_right_eq_some.mp hsome
          cases heq
          exact hs'
      | _ => cases hsome
  | _ => cases h

/-- What is no object carries nothing. -/
theorem carried_of_error {message : Value} {e : String} (h : toMessageParts message = .error e)
    (name : String) : message.carried name = none := by
  cases message with
  | map members => cases h
  | _ => rfl

end Response
