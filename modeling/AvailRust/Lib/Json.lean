/-
  JSON values, as `serde_json` holds them.

  A number is an unsigned or a negative integer of 64 bits or a float. `get` looks a key up in
  an object; the `as` functions are partial views of a value.
-/
import Mathlib.Logic.Basic

namespace Json

inductive Number where
  | posInt (n : UInt64)
  | negInt (n : Int64)
  | float (x : Float)

inductive Value where
  | null
  | bool (b : Bool)
  | number (n : Number)
  | string (text : String)
  | array (items : List Value)
  /-- The members, by distinct keys. -/
  | object (members : List (String × Value))

namespace Value

def get : Value → String → Option Value
  | .object members, key => members.lookup key
  | _, _ => none

def asStr : Value → Option String
  | .string text => some text
  | _ => none

def asArray : Value → Option (List Value)
  | .array items => some items
  | _ => none

def asU64 : Value → Option UInt64
  | .number (.posInt n) => some n
  | _ => none

@[simp] theorem asStr_string (text : String) : (string text).asStr = some text := rfl

@[simp] theorem asArray_array (items : List Value) : (array items).asArray = some items := rfl

@[simp] theorem asU64_posInt (n : UInt64) : (number (.posInt n)).asU64 = some n := rfl

end Value

end Json
