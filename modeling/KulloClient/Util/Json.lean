import KulloClient.Types

/-!
# JSON values and checked conversions

`Json` is the value type of the bundled jsoncpp, with object members in key order.  `Json.get` is the subscript
operator of a constant value: it wants an object or null, and anything else raises `Json::LogicError`.
The functions of `CheckedConverter` turn a value into a C++ type or raise `ConversionException`.
-/

namespace KulloClient

open Imperative

inductive Json
  | null
  | bool (value : Bool)
  | int (value : Int)
  | real (value : Rat)
  | string (value : String)
  | array (elements : List Json)
  | object (members : List (String × Json))

namespace Json

def isNull : Json → Bool
  | null => true
  | _ => false

def isArray : Json → Bool
  | array _ => true
  | _ => false

def isObject : Json → Bool
  | object _ => true
  | _ => false

/-- `Value::size`: only arrays and objects have elements. -/
def size : Json → Nat
  | array elements => elements.length
  | object members => members.length
  | _ => 0

/-- What a range-based for loop over a constant value visits. -/
def elements : Json → List Json
  | array elements => elements
  | object members => members.map Prod.snd
  | _ => []

private def member (members : List (String × Json)) (key : String) : Json :=
  ((members.find? (fun m => m.1 == key)).map Prod.snd).getD null

/-- `const Value &Value::operator[](const char *key) const`. -/
def get (value : Json) (key : String) : Except Exn Json :=
  match value with
  | null => .ok null
  | object members => .ok (member members key)
  | _ => .error (.jsonLogicError "in Json::Value::find(begin, end): requires objectValue or nullValue")

/-- The largest `unsigned int`. -/
def maxUInt : Nat := 2 ^ 32 - 1

/-- `isUInt() ? asUInt() : none`: numbers with a fraction are refused, integral ones are accepted however they were
written. -/
def asUInt? : Json → Option Nat
  | int value => if 0 ≤ value ∧ value ≤ maxUInt then some value.toNat else none
  | real value => if value.den = 1 ∧ 0 ≤ value.num ∧ value.num ≤ maxUInt then some value.num.toNat else none
  | _ => none

/-- An object has every member. -/
theorem get_raises_of_isObject {value : Json} {p : Exn → Prop} (h : value.isObject = true) (key : String) :
    RaisesOnly p (value.get key) := by
  cases value with
  | object members => exact raisesOnly_ok _
  | _ => cases h

theorem get_raises (value : Json) (key : String) :
    RaisesOnly (fun e => e.isJsonLogicError = true) (value.get key) := by
  unfold get
  split
  · simp
  · simp
  · rw [raisesOnly_error]; rfl

end Json

/-- The second parameter of the string conversions. -/
inductive AllowEmpty
  | yes
  | no
  deriving DecidableEq

namespace CheckedConverter

def toBool (value : Json) : Except Exn Bool :=
  match value with
  | .bool b => .ok b
  | _ => .error (.conversionException "couldn't convert value to bool")

def toUint32 (value : Json) : Except Exn Nat :=
  match value.asUInt? with
  | some n => .ok n
  | none => .error (.conversionException "couldn't convert non-uint value to uint32")

def toString (value : Json) (allowEmpty : AllowEmpty) : Except Exn String :=
  match value with
  | .string s =>
    if allowEmpty = .no ∧ s.isEmpty then
      .error (.conversionException "couldn't convert value to non-empty string")
    else .ok s
  | _ => .error (.conversionException "couldn't convert value to string")

theorem toString_of_ne {s : String} (h : s ≠ "") : toString (.string s) .no = .ok s := by
  simp [toString, h]

/-- The overloads with a default value: null is the default, anything else is converted. -/
def orDefault {α : Type} (value : Json) (default : α) (convert : Json → Except Exn α) : Except Exn α :=
  if value.isNull then .ok default else convert value

def toBoolOr (value : Json) (default : Bool) : Except Exn Bool :=
  orDefault value default toBool

def toUint32Or (value : Json) (default : Nat) : Except Exn Nat :=
  orDefault value default toUint32

/-- An empty default allows an empty string. -/
def toStringOr (value : Json) (default : String) : Except Exn String :=
  orDefault value default (toString · (if default.isEmpty then .yes else .no))

def isValidHexString (value : String) : Bool :=
  value.toList.all (fun c => c.isDigit || ('a' ≤ c && c ≤ 'f') || ('A' ≤ c && c ≤ 'F'))

def toHexString (value : Json) (allowEmpty : AllowEmpty) : Except Exn String := do
  let result ← toString value allowEmpty
  if isValidHexString result then .ok result
  else .error (.conversionException "couldn't convert value to hex string (not a valid hex value)")

/-! What the conversions raise is always a `ConversionException`. -/

theorem toBool_raises (value : Json) : RaisesOnly (fun e => e.isConversionException = true) (toBool value) := by
  unfold toBool
  split
  · simp
  · rw [raisesOnly_error]; rfl

theorem toUint32_raises (value : Json) : RaisesOnly (fun e => e.isConversionException = true) (toUint32 value) := by
  unfold toUint32
  split
  · simp
  · rw [raisesOnly_error]; rfl

theorem toString_raises (value : Json) (allowEmpty : AllowEmpty) :
    RaisesOnly (fun e => e.isConversionException = true) (toString value allowEmpty) := by
  unfold toString
  split
  · split
    · rw [raisesOnly_error]; rfl
    · simp
  · rw [raisesOnly_error]; rfl

theorem orDefault_raises {α : Type} {value : Json} {default : α} {convert : Json → Except Exn α} {p : Exn → Prop}
    (h : ∀ v, RaisesOnly p (convert v)) : RaisesOnly p (orDefault value default convert) := by
  unfold orDefault
  split
  · simp
  · exact h value

theorem toHexString_raises (value : Json) (allowEmpty : AllowEmpty) :
    RaisesOnly (fun e => e.isConversionException = true) (toHexString value allowEmpty) := by
  refine raisesOnly_bind (toString_raises value allowEmpty) ?_
  intro s _
  split
  · simp
  · rw [raisesOnly_error]; rfl

end CheckedConverter

end KulloClient
