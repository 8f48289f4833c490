import N2Kafka.Lib.CString

namespace N2Kafka.Util.Pairs

open Lib.CString

structure Pair where
  key : CStr
  value : Option CStr
  deriving DecidableEq

abbrev KeyvalList := List Pair

def addKeyValuePair (list : KeyvalList) (pair : Pair) : KeyvalList := list ++ [pair]

def valueof : KeyvalList → CStr → (CStr → CStr → Int) → Option CStr
  | [], _, _ => none
  | pair :: list, key, keyCompare =>
    if keyCompare key pair.key = 0 then pair.value else valueof list key keyCompare

theorem foldl_addKeyValuePair (list pairs : KeyvalList) :
    pairs.foldl addKeyValuePair list = list ++ pairs := by
  induction pairs generalizing list with
  | nil => simp
  | cons p ps ih => simp [ih, addKeyValuePair]

theorem valueof_append (l m : KeyvalList) (key : CStr) (cmp : CStr → CStr → Int) :
    valueof (l ++ m) key cmp =
      match l.find? (fun p ↦ cmp key p.key = 0) with
      | some p => p.value
      | none => valueof m key cmp := by
  induction l with
  | nil => rfl
  | cons p l ih =>
    by_cases h : cmp key p.key = 0
    · simp [valueof, h]
    · simp [valueof, h, ih]

end N2Kafka.Util.Pairs
