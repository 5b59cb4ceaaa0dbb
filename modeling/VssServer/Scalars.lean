import VssServer.Response

/-!
# Numbers that clients send

A number reaches the server as a response value or as a string.  It is cast to
the type that the caller asks for and then compared with the caller's range.  The
casts are those of Boost; what the server relies on is stated as laws of them.

* `IntegerType`, `RangeInterval`: the types that are asked for, and their ranges.
* `Boost`: the casts that are used.
* `validateRangeInteger`: the check of an integer.
-/

namespace Scalars

open Doubles

/-- The exceptions of the casts and of the checks. -/
inductive Exception
  | outOfRange (what : String)
  | domainError (what : String)
  | badNumericCast
  | badLexicalCast
  deriving DecidableEq, Repr

/-- The integer types that the templates are instantiated for. -/
inductive IntegerType
  | int8 | uint8 | int16 | uint16 | int32 | uint32 | int64 | uint64
  deriving DecidableEq, Repr

namespace IntegerType

def bits : IntegerType → Nat
  | int8 | uint8 => 8
  | int16 | uint16 => 16
  | int32 | uint32 => 32
  | int64 | uint64 => 64

def isSigned : IntegerType → Bool
  | int8 | int16 | int32 | int64 => true
  | uint8 | uint16 | uint32 | uint64 => false

/-- `std::numeric_limits<T>::lowest`. -/
def lowest (T : IntegerType) : Int :=
  if T.isSigned then -2 ^ (T.bits - 1) else 0

/-- `std::numeric_limits<T>::max`. -/
def max (T : IntegerType) : Int :=
  if T.isSigned then 2 ^ (T.bits - 1) - 1 else 2 ^ T.bits - 1

end IntegerType

/-- A value of an integer type. -/
@[ext] structure Integer (T : IntegerType) where
  toInt : Int
  lowest_le : T.lowest ≤ toInt
  le_max : toInt ≤ T.max
  deriving DecidableEq

instance (T : IntegerType) : LT (Integer T) := ⟨fun v v' => v.toInt < v'.toInt⟩

instance (T : IntegerType) : DecidableLT (Integer T) :=
  fun v v' => inferInstanceAs (Decidable (v.toInt < v'.toInt))

theorem Integer.lt_iff {T : IntegerType} {v v' : Integer T} : v < v' ↔ v.toInt < v'.toInt :=
  Iff.rfl

/-- The bounds of a range. -/
structure RangeInterval (T : Type) where
  min : T
  max : T

/-- The range that is meant if no bound is given: all values of the type. -/
def RangeInterval.all (T : IntegerType) : RangeInterval (Integer T) where
  min := ⟨T.lowest, le_rfl, by cases T <;> decide⟩
  max := ⟨T.max, by cases T <;> decide, le_rfl⟩

/-- `boost::numeric_cast` from integers and from doubles, and `boost::lexical_cast`. -/
structure Boost where
  numericCast (T : IntegerType) (n : Int) : Except Exception (Integer T)
  numericCastDouble (T : IntegerType) (x : Double) : Except Exception (Integer T)
  lexicalCastInt64 (str : String) : Except Exception (Integer .int64)
  lexicalCastUInt64 (str : String) : Except Exception (Integer .uint64)
  lexicalCastDouble (str : String) : Except Exception Double

/-- `validateRange` of a number: it is cast and then compared. -/
def validateRange {TInput TResult : Type} [LT TResult] [DecidableLT TResult]
    (numericCast : TInput → Except Exception TResult) (value : TInput)
    (range : RangeInterval TResult) : Except Exception TResult := do
  let result ← numericCast value
  if result < range.min then
    throw (.outOfRange "Value lower than minimun range")
  if result > range.max then
    throw (.outOfRange "Value greater than maximun range")
  return result

variable (boost : Boost)

/-- The template `stringToNumber`, for any type that has such casts: the first character and
a point decide which cast reads the string. -/
def stringToNumberBy {T : Type} (numericCast : Int → Except Exception T)
    (numericCastDouble : Double → Except Exception T) (str : String) : Except Exception T :=
  match str.toList with
  | [] => .error (.outOfRange "basic_string::at")
  | ch :: _ =>
      let isNegative := ch = '-'
      let isFloating := '.' ∈ str.toList
      if isFloating then do
        numericCastDouble (← boost.lexicalCastDouble str)
      else if isNegative then do
        numericCast (← boost.lexicalCastInt64 str).toInt
      else do
        numericCast (← boost.lexicalCastUInt64 str).toInt

/-- `stringToNumber`, for an integer result. -/
def stringToNumber (T : IntegerType) (str : String) : Except Exception (Integer T) :=
  stringToNumberBy boost (boost.numericCast T) (boost.numericCastDouble T) str

/-- `validateRange` of an integer, of the type of the result or of another one. -/
def validateRangeInteger {T T' : IntegerType} (value : Integer T')
    (range : RangeInterval (Integer T)) : Except Exception (Integer T) :=
  validateRange (fun value : Integer T' => boost.numericCast T value.toInt) value range

/-- `validateRange` of a double, for an integer result. -/
def validateRangeDouble {T : IntegerType} (value : Double) (range : RangeInterval (Integer T)) :
    Except Exception (Integer T) :=
  validateRange (boost.numericCastDouble T) value range

/-- `validateRange` of a string. -/
def validateRangeString {T : IntegerType} (value : String)
    (range : RangeInterval (Integer T)) : Except Exception (Integer T) := do
  validateRangeInteger boost (← stringToNumber boost T value) range

/-- `validateRange` of a response value. -/
def validateRangeValue {T : IntegerType} (value : Response.Value)
    (range : RangeInterval (Integer T)) : Except Exception (Integer T) :=
  match value with
  | .int n => do validateRangeInteger boost (← boost.numericCast T n) range
  | .float x => do validateRangeInteger boost (← boost.numericCastDouble T x) range
  | .string s => validateRangeString boost s range
  | _ => .error (.domainError "Unsupported type (not Int, Float or String)")

/-- `validateRange` of an optional value. -/
def validateRangeOptional {TValue TResult : Type} (validate : TValue → Except Exception TResult) :
    Option TValue → Except Exception (Option TResult)
  | none => .ok none
  | some value => do return some (← validate value)

end Scalars
