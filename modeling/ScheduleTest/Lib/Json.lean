import Mathlib.Algebra.Order.Ring.Int
import Mathlib.Data.Rat.Defs

/-!
# JSON values

An object lists its members in the order in which they are written. A key is looked up in the first member that has it. A number
is an integer, or a double, which is taken as the rational number it is.
-/

/-- An integer that one of the integer types of 64 bits holds. -/
def IsWide (z : ℤ) : Prop := -2 ^ 63 ≤ z ∧ z < 2 ^ 64

instance : DecidablePred IsWide := fun _ => inferInstanceAs (Decidable (_ ∧ _))

/-- A JSON value. -/
inductive JsonValue where
  | null
  | bool (b : Bool)
  /-- A number without a fraction and an exponent. -/
  | int (z : {z : ℤ // IsWide z})
  /-- A number with a fraction or an exponent, or one that is too large for an integer type. -/
  | double (x : ℚ)
  | string (text : String)
  | array (values : List JsonValue)
  | object (members : List (String × JsonValue))

namespace JsonValue

/-- The value of a key, for an object that has it. -/
def member? (key : String) : JsonValue → Option JsonValue
  | object members => (members.find? fun member => member.1 = key).map (·.2)
  | _ => none

/-- The number of an integer. It is a double if no integer type holds it. -/
def ofInt (z : ℤ) : JsonValue := if h : IsWide z then int ⟨z, h⟩ else double z

theorem ofInt_of_isWide {z : ℤ} (hz : IsWide z) : ofInt z = int ⟨z, hz⟩ := dif_pos hz

mutual

/-- All doubles of a value are replaced. -/
def mapDoubles (f : ℚ → ℚ) : JsonValue → JsonValue
  | double x => double (f x)
  | array values => array (mapElements f values)
  | object members => object (mapMembers f members)
  | value => value

/-- The doubles of elements. -/
def mapElements (f : ℚ → ℚ) : List JsonValue → List JsonValue
  | [] => []
  | value :: values => mapDoubles f value :: mapElements f values

/-- The doubles of members. -/
def mapMembers (f : ℚ → ℚ) : List (String × JsonValue) → List (String × JsonValue)
  | [] => []
  | (key, value) :: members => (key, mapDoubles f value) :: mapMembers f members

end

@[simp] theorem member?_cons (key name : String) (value : JsonValue) (members : List (String × JsonValue)) :
    (object ((name, value) :: members)).member? key = if name = key then some value else (object members).member? key := by
  by_cases h : name = key <;> simp [member?, h]

@[simp] theorem member?_nil (key : String) : (object []).member? key = none := rfl

end JsonValue
