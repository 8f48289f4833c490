import Mathlib.Algebra.Group.Int.Defs
import Mathlib.Algebra.Group.Nat.Defs
import Mathlib.Data.Nat.Notation
import N2Kafka.Lib.CString

namespace N2Kafka.Lib.Jansson

open Lib.CString

/-- A loaded JSON document. Nobody reads the value of a real. -/
inductive Json
  | null
  | bool (b : Bool)
  | integer (n : ℤ)
  | real
  | string (s : CStr)
  | array (items : List Json)
  | object (members : List (CStr × Json))

namespace Json

def objectGet (key : CStr) : Json → Option Json
  | .object members => (members.find? fun m ↦ m.1 = key).map (·.2)
  | _ => none

/-- The items `json_array_foreach` visits: what is not an array has none. -/
def arrayItems : Json → List Json
  | .array items => items
  | _ => []

def toInt32 (n : ℤ) : ℤ := (BitVec.ofInt 32 n).toInt

/-- `json_unpack` with `{s:i}`. -/
def unpackInt (key : CStr) (v : Json) : Option ℤ :=
  match v.objectGet key with
  | some (.integer n) => some (toInt32 n)
  | _ => none

def unpackString (key : CStr) (v : Json) : Option CStr :=
  match v.objectGet key with
  | some (.string s) => some s
  | _ => none

/-- `json_unpack` with `{s?s}`: a missing key leaves the variable as it was. -/
def unpackStringOpt (key default : CStr) (v : Json) : Option CStr :=
  match v, v.objectGet key with
  | .object _, none => some default
  | _, some (.string s) => some s
  | _, _ => none

theorem toInt32_of_lt {n : ℤ} (h0 : 0 ≤ n) (h : n < 2 ^ 31) : toInt32 n = n := by
  rw [toInt32, BitVec.toInt_ofInt]
  apply Int.bmod_eq_of_le <;> omega

theorem toInt32_lt (n : ℤ) : toInt32 n < 2 ^ 31 := by
  have h := BitVec.toInt_lt (x := BitVec.ofInt 32 n)
  simpa [toInt32] using h

end Json

end N2Kafka.Lib.Jansson
