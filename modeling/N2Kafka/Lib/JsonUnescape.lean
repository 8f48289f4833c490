import N2Kafka.Lib.JsonGenerator
import N2Kafka.Lib.Utf8

namespace N2Kafka.Lib.JsonUnescape

open Lib.CString Lib.JsonGenerator

def shortEscapes : List (UInt8 × UInt8) :=
  [(34, 34), (92, 92), (47, 47), (98, 8), (102, 12), (110, 10), (114, 13), (116, 9)]

def hexDigit (d : UInt8) : ℕ :=
  if d.toNat < 58 then d.toNat - 48 else if d.toNat < 71 then d.toNat - 55 else d.toNat - 87

def codeUnit (h : Bytes) : ℕ := h.foldl (fun n d ↦ 16 * n + hexDigit d) 0

def IsCodeUnit (h : Bytes) : Prop := h.length = 4 ∧ ∀ d ∈ h, d ∈ ascii "0123456789abcdefABCDEF"

/-- The text that is meant by what stands between the quotes of a JSON string. -/
inductive Unescapes : Bytes → Bytes → Prop
  | nil : Unescapes [] []
  | plain {c : UInt8} {s t : Bytes} (hc : 32 ≤ c) (hquote : c ≠ 34) (hback : c ≠ 92)
      (hs : Unescapes s t) : Unescapes (c :: s) (c :: t)
  | escaped {e c : UInt8} {s t : Bytes} (he : (e, c) ∈ shortEscapes) (hs : Unescapes s t) :
      Unescapes (92 :: e :: s) (c :: t)
  | unicode {h s t : Bytes} {c : Char} (hh : IsCodeUnit h) (hc : codeUnit h = c.toNat)
      (hs : Unescapes s t) : Unescapes (92 :: 117 :: (h ++ s)) (String.utf8EncodeChar c ++ t)
  | surrogates {h l s t : Bytes} {c : Char} (hh : IsCodeUnit h) (hl : IsCodeUnit l)
      (hhigh : 0xd800 ≤ codeUnit h ∧ codeUnit h < 0xdc00)
      (hlow : 0xdc00 ≤ codeUnit l ∧ codeUnit l < 0xe000)
      (hc : c.toNat = 0x10000 + (codeUnit h - 0xd800) * 0x400 + (codeUnit l - 0xdc00))
      (hs : Unescapes s t) :
      Unescapes (92 :: 117 :: (h ++ 92 :: 117 :: (l ++ s))) (String.utf8EncodeChar c ++ t)

theorem Unescapes.append {s t s' t' : Bytes} (h : Unescapes s t) (h' : Unescapes s' t') :
    Unescapes (s ++ s') (t ++ t') := by
  induction h with
  | nil => exact h'
  | plain hc hquote hback _ ih => exact .plain hc hquote hback ih
  | escaped he _ ih => exact .escaped he ih
  | unicode hh hc _ ih =>
    rw [List.cons_append, List.cons_append, List.append_assoc, List.append_assoc]
    exact .unicode hh hc ih
  | surrogates hh hl hhigh hlow hc _ ih =>
    simp only [List.cons_append, List.append_assoc]
    exact .surrogates hh hl hhigh hlow hc ih

theorem stringBody_of_cons {c : UInt8} {s : Bytes} (h : StringBody (c :: s)) (hback : c ≠ 92) :
    32 ≤ c ∧ StringBody s := by
  cases h with
  | plain hc _ _ hs => exact ⟨hc, hs⟩
  | escaped _ _ => exact absurd rfl hback
  | unicode _ _ _ => exact absurd rfl hback

theorem stringBody_of_backslash {e : UInt8} {s : Bytes} (h : StringBody (92 :: e :: s)) :
    e ∈ ascii "\"\\/bfnrt" ∧ StringBody s ∨
      e = 117 ∧ ∃ u t, s = u ++ t ∧ u.length = 4 ∧ StringBody t := by
  cases h with
  | plain _ _ hback _ => exact absurd rfl hback
  | escaped he hs => exact .inl ⟨he, hs⟩
  | unicode hlen _ hs => exact .inr ⟨rfl, _, _, rfl, hlen, hs⟩

/-- Nothing that stands between quotes starts with a part of something else: what is behind a
string body is one if the whole is. -/
theorem stringBody_of_append {s t : Bytes} (hs : StringBody s) (h : StringBody (s ++ t)) :
    StringBody t := by
  induction hs with
  | nil => exact h
  | plain _ _ hback _ ih => exact ih (stringBody_of_cons h hback).2
  | escaped he _ ih =>
    obtain ⟨-, hs⟩ | ⟨rfl, -⟩ := stringBody_of_backslash h
    · exact ih hs
    · exact absurd he (by decide)
  | @unicode u s hlen _ _ ih =>
    obtain ⟨he, -⟩ | ⟨-, u', t', heq, hlen', ht'⟩ := stringBody_of_backslash h
    · exact absurd he (by decide)
    · have hassoc : u ++ (s ++ t) = u' ++ t' := (List.append_assoc u s t).symm.trans heq
      obtain ⟨rfl, rfl⟩ := List.append_inj hassoc (hlen.trans hlen'.symm)
      exact ih ht'

theorem stringBody_of_plain {s : Bytes} (h : ∀ c ∈ s, 32 ≤ c ∧ c ≠ 34 ∧ c ≠ 92) : StringBody s := by
  induction s with
  | nil => exact .nil
  | cons c s ih =>
    obtain ⟨hc, hs⟩ := List.forall_mem_cons.mp h
    exact .plain hc.1 hc.2.1 hc.2.2 (ih hs)

theorem Unescapes.of_plain {s : Bytes} (h : ∀ c ∈ s, 32 ≤ c ∧ c ≠ 34 ∧ c ≠ 92) :
    Unescapes s s := by
  induction s with
  | nil => exact .nil
  | cons c s ih =>
    obtain ⟨hc, hs⟩ := List.forall_mem_cons.mp h
    exact .plain hc.1 hc.2.1 hc.2.2 (ih hs)

end N2Kafka.Lib.JsonUnescape
