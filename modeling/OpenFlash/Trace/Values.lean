import OpenFlash.Simulator.Mapping
import OpenFlash.Support.Fallible
import OpenFlash.Support.Rounding

/-! The values that `json.loads` finds on a line of a trace, and the conversions that the
loader applies to them, with every exception they raise. -/
namespace OpenFlash.Trace
open Support
open Simulator (Operation)

/-- A float; its two zeros are one. -/
inductive PyFloat where
  | finite (x : ℚ)
  | infinite (negative : Bool)
  | nan
  deriving DecidableEq

/-- `x < 0`; no comparison with a NaN holds. -/
def PyFloat.IsNegative : PyFloat → Prop
  | .finite x => x < 0
  | .infinite negative => negative = true
  | .nan => False

instance : (x : PyFloat) → Decidable x.IsNegative
  | .finite x => inferInstanceAs (Decidable (x < 0))
  | .infinite negative => inferInstanceAs (Decidable (negative = true))
  | .nan => inferInstanceAs (Decidable False)

/-- A decoded JSON value; an object has one member for each of its keys. -/
inductive Json where
  | null
  | bool (b : Bool)
  | int (n : ℤ)
  | float (x : PyFloat)
  | str (s : String)
  | array (items : List Json)
  | object (members : List (String × Json))

def Json.typeName : Json → String
  | .null => "NoneType"
  | .bool _ => "bool"
  | .int _ => "int"
  | .float _ => "float"
  | .str _ => "str"
  | .array _ => "list"
  | .object _ => "dict"

inductive ExceptionKind where
  | keyError
  | typeError
  | valueError
  | attributeError
  | overflowError
  deriving DecidableEq, Repr

/-- An exception with its text. -/
structure PyException where
  kind : ExceptionKind
  text : String
  deriving DecidableEq, Repr

/-- The library functions that the loader calls on text. The first three fail with a
`ValueError` of the given text, which a `JSONDecodeError` is too. -/
structure Runtime where
  loads : String → Except String Json
  intOfStr : String → Except String ℤ
  floatOfStr : String → Except String PyFloat
  repr : Json → String

def orValueError {α : Type} : Except String α → Except PyException α
  | .ok a => .ok a
  | .error text => .error ⟨.valueError, text⟩

/-- Towards zero. -/
def truncate (x : ℚ) : ℤ := x.num.tdiv x.den

/-- The double nearest to an integer; `none` when there is none in range. -/
def doubleOfInt (n : ℤ) : Option ℚ :=
  let m := roundBits 53 n.natAbs
  if 2 ^ 1024 ≤ m then none else some (n.sign * m)

/-- `int(value)`. -/
def toInt (rt : Runtime) : Json → Except PyException ℤ
  | .bool b => .ok b.toNat
  | .int n => .ok n
  | .float (.finite x) => .ok (truncate x)
  | .float (.infinite _) => .error ⟨.overflowError, "cannot convert float infinity to integer"⟩
  | .float .nan => .error ⟨.valueError, "cannot convert float NaN to integer"⟩
  | .str s => orValueError (rt.intOfStr s)
  | value =>
      .error ⟨.typeError, "int() argument must be a string, a bytes-like object or a real number, "
        ++ "not '" ++ value.typeName ++ "'"⟩

def floatOfInt (n : ℤ) : Except PyException PyFloat :=
  match doubleOfInt n with
  | some x => .ok (.finite x)
  | none => .error ⟨.overflowError, "int too large to convert to float"⟩

/-- `float(value)`. -/
def toFloat (rt : Runtime) : Json → Except PyException PyFloat
  | .bool b => .ok (.finite b.toNat)
  | .int n => floatOfInt n
  | .float x => .ok x
  | .str s => orValueError (rt.floatOfStr s)
  | value =>
      .error ⟨.typeError, "float() argument must be a string or a real number, not '"
        ++ value.typeName ++ "'"⟩

/-- `Operation(value)`. -/
def toOperation (rt : Runtime) (value : Json) : Except PyException Operation :=
  match value with
  | .str "read" => .ok .read
  | .str "write" => .ok .write
  | .str "erase" => .ok .erase
  | _ => .error ⟨.valueError, rt.repr value ++ " is not a valid Operation"⟩

/-- `value.get(key, default)`. -/
def get (value : Json) (key : String) (default : Json) : Except PyException Json :=
  match value with
  | .object members => .ok ((members.lookup key).getD default)
  | _ => .error ⟨.attributeError, "'" ++ value.typeName ++ "' object has no attribute 'get'"⟩

/-- `value[key]`. -/
def subscript (value : Json) (key : String) : Except PyException Json :=
  match value with
  | .object members =>
      match members.lookup key with
      | some item => .ok item
      | none => .error ⟨.keyError, "'" ++ key ++ "'"⟩
  | .array _ => .error ⟨.typeError, "list indices must be integers or slices, not str"⟩
  | .str _ => .error ⟨.typeError, "string indices must be integers, not 'str'"⟩
  | _ => .error ⟨.typeError, "'" ++ value.typeName ++ "' object is not subscriptable"⟩

/-- What a value means as an integer. -/
inductive IntOf (rt : Runtime) : Json → ℤ → Prop
  | bool (b : Bool) : IntOf rt (.bool b) b.toNat
  | int (n : ℤ) : IntOf rt (.int n) n
  | float (x : ℚ) : IntOf rt (.float (.finite x)) (truncate x)
  | str {s : String} {n : ℤ} (h : rt.intOfStr s = .ok n) : IntOf rt (.str s) n

/-- What a value means as a float. -/
inductive FloatOf (rt : Runtime) : Json → PyFloat → Prop
  | bool (b : Bool) : FloatOf rt (.bool b) (.finite b.toNat)
  | int {n : ℤ} {x : ℚ} (h : doubleOfInt n = some x) : FloatOf rt (.int n) (.finite x)
  | float (x : PyFloat) : FloatOf rt (.float x) x
  | str {s : String} {x : PyFloat} (h : rt.floatOfStr s = .ok x) : FloatOf rt (.str s) x

inductive OperationOf : Json → Operation → Prop
  | read : OperationOf (.str "read") .read
  | write : OperationOf (.str "write") .write
  | erase : OperationOf (.str "erase") .erase

variable {rt : Runtime} {value : Json}

theorem orValueError_eq_ok_iff {α : Type} {x : Except String α} {a : α} :
    orValueError x = .ok a ↔ x = .ok a := by
  cases x with
  | ok a' => simp [orValueError]
  | error text => simp [orValueError]

theorem toInt_eq_ok_iff {n : ℤ} : toInt rt value = .ok n ↔ IntOf rt value n := by
  constructor
  · intro h
    unfold toInt at h
    split at h
    · cases h; exact .bool _
    · cases h; exact .int _
    · cases h; exact .float _
    · cases h
    · cases h
    · exact .str (orValueError_eq_ok_iff.mp h)
    · cases h
  · rintro (b | n | x | hs)
    · rfl
    · rfl
    · rfl
    · exact orValueError_eq_ok_iff.mpr hs

theorem floatOfInt_eq_ok_iff {n : ℤ} {y : PyFloat} :
    floatOfInt n = .ok y ↔ ∃ x, doubleOfInt n = some x ∧ y = .finite x := by
  unfold floatOfInt
  cases doubleOfInt n with
  | none => simp
  | some x => simp [eq_comm]

theorem toFloat_int (rt : Runtime) (n : ℤ) : toFloat rt (.int n) = floatOfInt n := rfl

theorem toFloat_eq_ok_iff {x : PyFloat} : toFloat rt value = .ok x ↔ FloatOf rt value x := by
  constructor
  · intro h
    unfold toFloat at h
    split at h
    · cases h; exact .bool _
    · obtain ⟨y, hy, rfl⟩ := floatOfInt_eq_ok_iff.mp h
      exact .int hy
    · cases h; exact .float _
    · exact .str (orValueError_eq_ok_iff.mp h)
    · cases h
  · rintro (b | hx | x | hs)
    · rfl
    · rw [toFloat_int, floatOfInt_eq_ok_iff]
      exact ⟨_, hx, rfl⟩
    · rfl
    · exact orValueError_eq_ok_iff.mpr hs

theorem toOperation_eq_ok_iff {operation : Operation} :
    toOperation rt value = .ok operation ↔ OperationOf value operation := by
  constructor
  · intro h
    unfold toOperation at h
    split at h
    · cases h; exact .read
    · cases h; exact .write
    · cases h; exact .erase
    · cases h
  · rintro (_ | _ | _) <;> rfl

end OpenFlash.Trace
