import N2Kafka.Lib.JsonGenerator

namespace N2Kafka.Lib.JsonGrammar

open Lib.CString Lib.JsonGenerator

def isSpace (c : UInt8) : Bool := c = 32 ∨ c = 9 ∨ c = 10 ∨ c = 13

def Spaces (w : Bytes) : Prop := ∀ c ∈ w, isSpace c = true

def Digits (d : Bytes) : Prop := d ≠ [] ∧ ∀ c ∈ d, 48 ≤ c ∧ c ≤ 57

inductive Number : Bytes → Prop
  | mk {sign int frac exp : Bytes} (hsign : sign = [] ∨ sign = ascii "-")
      (hint : int = ascii "0" ∨ Digits int ∧ int.head? ≠ some 48)
      (hfrac : frac = [] ∨ ∃ d, Digits d ∧ frac = ascii "." ++ d)
      (hexp : exp = [] ∨ ∃ e s d, e ∈ [ascii "e", ascii "E"] ∧ s ∈ [[], ascii "+", ascii "-"] ∧
        Digits d ∧ exp = e ++ s ++ d) :
      Number (sign ++ int ++ frac ++ exp)

/-- A member of an object, with the white space around its parts. -/
structure Field where
  before : Bytes
  key : Bytes
  middle : Bytes × Bytes
  value : Bytes
  behind : Bytes

def Field.text (f : Field) : Bytes :=
  f.before ++ ascii "\"" ++ f.key ++ ascii "\"" ++ f.middle.1 ++ ascii ":" ++ f.middle.2 ++
    f.value ++ f.behind

structure Field.Plain (f : Field) : Prop where
  before : Spaces f.before
  key : StringBody f.key
  middle : Spaces f.middle.1 ∧ Spaces f.middle.2
  behind : Spaces f.behind

/-- The texts of JSON values, without white space around them. -/
inductive Value : Bytes → Prop
  | string {s : Bytes} (hs : StringBody s) : Value (ascii "\"" ++ s ++ ascii "\"")
  | number {t : Bytes} (ht : Number t) : Value t
  | literal {t : Bytes} (ht : t ∈ [ascii "true", ascii "false", ascii "null"]) : Value t
  | emptyArray {w : Bytes} (hw : Spaces w) : Value (ascii "[" ++ w ++ ascii "]")
  | array {items : List (Bytes × Bytes × Bytes)} (hne : items ≠ [])
      (hspaces : ∀ i ∈ items, Spaces i.1 ∧ Spaces i.2.2) (hitems : ∀ i ∈ items, Value i.2.1) :
      Value (ascii "[" ++ commaSep (items.map fun i ↦ i.1 ++ i.2.1 ++ i.2.2) ++ ascii "]")
  | emptyObject {w : Bytes} (hw : Spaces w) : Value (ascii "\x7b" ++ w ++ ascii "\x7d")
  | object {fields : List Field} (hne : fields ≠ []) (hplain : ∀ f ∈ fields, f.Plain)
      (hvalues : ∀ f ∈ fields, Value f.value) :
      Value (ascii "\x7b" ++ commaSep (fields.map Field.text) ++ ascii "\x7d")

def Members (t : Bytes) (members : List (Bytes × Bytes)) : Prop :=
  ∃ fields : List Field, fields ≠ [] ∧ (∀ f ∈ fields, f.Plain ∧ Value f.value) ∧
    t = commaSep (fields.map Field.text) ∧ members = fields.map fun f ↦ (f.key, f.value)

theorem Members.object {t : Bytes} {members : List (Bytes × Bytes)} (h : Members t members) :
    Value (ascii "\x7b" ++ t ++ ascii "\x7d") := by
  obtain ⟨fields, hne, hfields, rfl, -⟩ := h
  exact .object hne (fun f hf ↦ (hfields f hf).1) fun f hf ↦ (hfields f hf).2

theorem commaSep_append {ts us : List Bytes} (hts : ts ≠ []) (hus : us ≠ []) :
    commaSep (ts ++ us) = commaSep ts ++ ascii "," ++ commaSep us := by
  cases ts with
  | nil => exact absurd rfl hts
  | cons t ts =>
    cases us with
    | nil => exact absurd rfl hus
    | cons u us => simp [commaSep, List.append_assoc]

theorem Members.join {t t' : Bytes} {members members' : List (Bytes × Bytes)}
    (h : Members t members) (h' : Members t' members') :
    Members (t ++ ascii "," ++ t') (members ++ members') := by
  obtain ⟨fields, hne, hfields, rfl, rfl⟩ := h
  obtain ⟨fields', hne', hfields', rfl, rfl⟩ := h'
  refine ⟨fields ++ fields', by simp [hne], ?_, ?_, by rw [List.map_append]⟩
  · intro f hf
    obtain hf | hf := List.mem_append.mp hf
    · exact hfields f hf
    · exact hfields' f hf
  · rw [List.map_append, commaSep_append (by simpa using hne) (by simpa using hne')]

theorem digitChar_ne_zero : ∀ n < 10, 0 < n → n.digitChar.toNat.toUInt8 ≠ 48 := by decide

theorem head?_toString {n : ℕ} (hn : 0 < n) : (ascii (toString n)).head? ≠ some 48 := by
  have hascii (n : ℕ) : ascii (toString n) = (Nat.toDigits 10 n).map fun c ↦ c.toNat.toUInt8 := by
    simp [ascii]
  rw [hascii]
  induction n using Nat.strong_induction_on with
  | _ n ih =>
    by_cases hlt : n < 10
    · rw [Nat.toDigits_of_lt_base hlt]
      simpa using digitChar_ne_zero n hlt hn
    · have hle : 10 ≤ n := Nat.not_lt.mp hlt
      rw [Nat.toDigits_of_base_le (by decide) hle, List.map_append,
        List.head?_append_of_ne_nil _ (by simp)]
      exact ih (n / 10) (by omega) (by omega)

theorem number_toString (n : ℕ) : Number (ascii (toString n)) := by
  have hdigits : Digits (ascii (toString n)) := by
    refine ⟨by simp [ascii], fun c hc ↦ ?_⟩
    obtain ⟨hle, hge⟩ := mem_ascii_toString hc
    exact ⟨UInt8.le_iff_toNat_le.mpr hle, UInt8.le_iff_toNat_le.mpr hge⟩
  have hint : ascii (toString n) = ascii "0" ∨
      Digits (ascii (toString n)) ∧ (ascii (toString n)).head? ≠ some 48 := by
    obtain rfl | hpos := Nat.eq_zero_or_pos n
    · exact .inl rfl
    · exact .inr ⟨hdigits, head?_toString hpos⟩
  simpa using Number.mk (.inl rfl) hint (.inl rfl) (.inl rfl)

end N2Kafka.Lib.JsonGrammar
