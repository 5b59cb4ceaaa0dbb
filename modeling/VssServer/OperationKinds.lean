import VssServer.Document
import VssServer.Server

/-!
# Subscriptions and other operations

`make` decides between the two classes of operations by a scan over all operations of
the document, and the class then runs the operation that `operationName` selects.

* `hasSubscription_iff`: the scan over the operations of a document.
* `make_selected`: when the class of an operation is the right one.
-/

namespace GraphQLServer

open GraphQL Response

/-- `service::strSubscription`. -/
def strSubscription := "subscription"

/-- The loop of `decideIsSubscription` over the children of the root. -/
def hasSubscription : List String → Bool
  | [] => false
  | n :: children => if n = strSubscription then true else hasSubscription children

/-- `decideIsSubscription`; `parse` throws, finds no root, or finds its children. -/
def decideIsSubscription (parse : String → Except String (Option (List String))) (query : String) :
    Except String Bool :=
  match parse query with
  | .error e => .error e
  | .ok none => .ok false
  | .ok (some children) => .ok (hasSubscription children)

theorem hasSubscription_iff (children : List String) :
    hasSubscription children = true ↔ strSubscription ∈ children := by
  induction children with
  | nil => simp [hasSubscription]
  | cons n children ih =>
      unfold hasSubscription
      split
      case isTrue heq => simp [heq]
      case isFalse hne => simp [ih, Ne.symm hne]

/-- What the parser keeps of a document: the keywords of its operations. -/
def operationTypes (root : Node) : List String :=
  root.operations.filterMap fun op => op.text .operationType

theorem strSubscription_mem (root : Node) :
    strSubscription ∈ operationTypes root ↔ ∃ op ∈ root.operations, op.isSubscription = true := by
  simp [operationTypes, List.mem_filterMap, Node.isSubscription, strSubscription]

/-- **Kind of an operation.**  For the operation that the name selects, `make` builds the
class it needs if and only if this is a subscription, or nothing in the document is. -/
theorem make_selected {env : Environment} {payload : Value} {parts : Parts} {root op : Node}
    {parse : String → Except String (Option (List String))}
    (henv : env.decideIsSubscription = decideIsSubscription parse)
    (hparts : toOperationDefinitionParts payload = .ok parts) (hquery : parts.first.isEmpty = false)
    (hparse : parse parts.first = .ok (some (operationTypes root)))
    (hselects : Selects root parts.second op) :
    make env payload = .ok op.isSubscription ↔
      ((∃ op' ∈ root.operations, op'.isSubscription = true) → op.isSubscription = true) := by
  have hmake : make env payload = .ok (hasSubscription (operationTypes root)) := by
    unfold make
    rw [hparts]
    simp [hquery, henv, decideIsSubscription, hparse]
  have hscan : hasSubscription (operationTypes root) = true ↔
      ∃ op' ∈ root.operations, op'.isSubscription = true :=
    (hasSubscription_iff _).trans (strSubscription_mem root)
  rw [hmake, Except.ok.injEq, ← hscan]
  cases hkind : op.isSubscription with
  | true =>
      have hany := hscan.mpr ⟨op, hselects.mem, hkind⟩
      simp [hany]
  | false => simp

/-- A query and a subscription. -/
def speedAndAlarm : Node :=
  .document [.operation "query" "Speed" [.field "speed" []],
    .operation "subscription" "Alarm" [.field "alarm" []]]

/-- The payload of a `start` with the text of this document. -/
def startPayload (operationName : String) : Value :=
  .map [(GQL_QUERY, .string "query Speed { speed } subscription Alarm { alarm }"),
    (GQL_OPERATION_NAME, .string operationName)]

/-- What the parser makes of it. -/
def parseSpeedAndAlarm (_ : String) : Except String (Option (List String)) :=
  .ok (some ["query", "subscription"])

/-- A server with this parser. -/
def parsingVehicle : Environment :=
  { vehicle with decideIsSubscription := decideIsSubscription parseSpeedAndAlarm }

theorem make_selected_alarm : make parsingVehicle (startPayload "Alarm") = .ok true := by
  have hselects : Selects speedAndAlarm "Alarm"
      (.operation "subscription" "Alarm" [.field "alarm" []]) :=
    .inr ⟨by decide, .tail _ (.head _), rfl⟩
  have hparts : toOperationDefinitionParts (startPayload "Alarm") =
      .ok ⟨"query Speed { speed } subscription Alarm { alarm }", "Alarm", .null⟩ := rfl
  have henv : parsingVehicle.decideIsSubscription = decideIsSubscription parseSpeedAndAlarm := rfl
  exact (make_selected henv hparts rfl rfl hselects).mpr fun _ => rfl

/-- The selected query becomes a subscription, for the other operation is one. -/
theorem make_selects_subscription :
    Selects speedAndAlarm "Speed" (.operation "query" "Speed" [.field "speed" []]) ∧
      (Node.operation "query" "Speed" [.field "speed" []]).isSubscription = false ∧
      operationTypes speedAndAlarm = ["query", "subscription"] ∧
      make parsingVehicle (startPayload "Speed") = .ok true :=
  ⟨.inr ⟨by decide, .head _, rfl⟩, rfl, rfl, rfl⟩

end GraphQLServer
