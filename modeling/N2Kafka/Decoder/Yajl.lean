import N2Kafka.Lib.JsonGenerator
import N2Kafka.Lib.JsonText

namespace N2Kafka.Decoder.Yajl

open Lib.CString Lib.JsonGenerator Lib.JsonText

/-- What a yajl parser takes: whether it goes on with a byte behind a text it has accepted. A
structural closing brace is taken inside a map only. -/
structure Grammar where
  accepts : Bytes → UInt8 → Bool
  closing : ∀ text c, (nest text).lex.brace c = some .closing → accepts text c → depth text ≠ 0

/-- A handle knows the text accepted so far, and fails for good at the first error. -/
structure Handle where
  text : Bytes
  failed : Bool
  deriving DecidableEq

def Grammar.accepted (y : Grammar) : Bytes → Bytes → Bytes
  | _, [] => []
  | text, c :: rest => if y.accepts text c then c :: y.accepted (text ++ [c]) rest else []

variable {σ : Type*}

/-- The callbacks get what `yajl_get_bytes_consumed` answers inside them. -/
structure Callbacks (σ : Type*) where
  startMap : ℕ → σ → Option σ
  endMap : ℕ → σ → Option σ

def Callbacks.byte (cb : Callbacks σ) (text : Bytes) (c : UInt8) (consumed : ℕ) (s : σ) : Option σ :=
  match (nest text).lex.brace c with
  | some .opening => cb.startMap consumed s
  | some .closing => cb.endMap consumed s
  | none => some s

def yajlLoop (y : Grammar) (cb : Callbacks σ) : Bytes → ℕ → Handle → σ → Option (Handle × σ)
  | [], _, h, s => some (h, s)
  | c :: rest, consumed, h, s =>
    if y.accepts h.text c then
      (cb.byte h.text c (consumed + 1) s).bind
        (yajlLoop y cb rest (consumed + 1) { h with text := h.text ++ [c] })
    else some ({ h with failed := true }, s)

def yajlParse (y : Grammar) (cb : Callbacks σ) (buffer : Bytes) (h : Handle) (s : σ) :
    Option (Handle × σ) :=
  if h.failed then some (h, s) else yajlLoop y cb buffer 0 h s

/-- A property that every accepted byte of the chunk preserves holds where the parser stops. -/
theorem yajlLoop_spec (y : Grammar) (cb : Callbacks σ) (text : Bytes) (I : Bytes → σ → Prop)
    (rest done : Bytes)
    (hstep : ∀ front c back s, rest = front ++ c :: back → y.accepts (text ++ (done ++ front)) c →
      I (done ++ front) s →
      ∃ s', cb.byte (text ++ (done ++ front)) c ((done ++ front).length + 1) s = some s' ∧
        I (done ++ front ++ [c]) s')
    {s : σ} (hs : I done s) :
    ∃ h' s', yajlLoop y cb rest done.length ⟨text ++ done, false⟩ s = some (h', s') ∧
      h' = ⟨text ++ (done ++ y.accepted (text ++ done) rest),
        decide (y.accepted (text ++ done) rest ≠ rest)⟩ ∧
      I (done ++ y.accepted (text ++ done) rest) s' := by
  induction rest generalizing done s with
  | nil => exact ⟨_, s, rfl, by simp [Grammar.accepted], by simpa [Grammar.accepted] using hs⟩
  | cons c rest ih =>
    by_cases ha : y.accepts (text ++ done) c
    · obtain ⟨s₁, hcb, hs₁⟩ := hstep [] c rest s rfl (by simpa using ha) (by simpa using hs)
      simp only [List.append_nil] at hcb hs₁
      obtain ⟨h', s', hrun, hh', hs'⟩ := ih (done ++ [c]) (fun front c' back s heq ↦ by
        have h := hstep (c :: front) c' back s (by rw [heq, List.cons_append])
        simpa using h) hs₁
      refine ⟨h', s', ?_, ?_, ?_⟩
      · simpa [yajlLoop, ha, hcb] using hrun
      · simpa [Grammar.accepted, ha] using hh'
      · simpa [Grammar.accepted, ha] using hs'
    · refine ⟨⟨text ++ done, true⟩, s, ?_, ?_, ?_⟩
      · simp [yajlLoop, ha]
      · simp [Grammar.accepted, ha]
      · simpa [Grammar.accepted, ha] using hs

theorem yajlLoop_run (y : Grammar) (cb : Callbacks σ) (text : Bytes) (I : Bytes → σ → Prop)
    (hstep : ∀ done c s s', y.accepts (text ++ done) c → I done s →
      cb.byte (text ++ done) c (done.length + 1) s = some s' → I (done ++ [c]) s')
    (rest done : Bytes) {s s' : σ} {h' : Handle} (hs : I done s)
    (hrun : yajlLoop y cb rest done.length ⟨text ++ done, false⟩ s = some (h', s')) :
    h' = ⟨text ++ (done ++ y.accepted (text ++ done) rest),
        decide (y.accepted (text ++ done) rest ≠ rest)⟩ ∧
      I (done ++ y.accepted (text ++ done) rest) s' := by
  induction rest generalizing done s with
  | nil =>
    obtain ⟨rfl, rfl⟩ := Prod.mk.inj (Option.some.inj hrun)
    simpa [Grammar.accepted] using hs
  | cons c rest ih =>
    by_cases ha : y.accepts (text ++ done) c
    · simp only [yajlLoop, ha, if_true] at hrun
      obtain ⟨s₁, hcb, hrun⟩ := Option.bind_eq_some_iff.mp hrun
      have hs₁ := hstep done c s s₁ ha hs hcb
      have hih := ih (done ++ [c]) hs₁ (by simpa using hrun)
      simpa [Grammar.accepted, ha] using hih
    · simp only [yajlLoop, ha] at hrun
      obtain ⟨rfl, rfl⟩ := Prod.mk.inj (Option.some.inj hrun)
      simpa [Grammar.accepted, ha] using hs

theorem accepted_append (y : Grammar) (text s t : Bytes) : y.accepted text (s ++ t) =
    if y.accepted text s = s then s ++ y.accepted (text ++ s) t else y.accepted text s := by
  induction s generalizing text with
  | nil => simp [Grammar.accepted]
  | cons c s ih =>
    by_cases ha : y.accepts text c
    · simp only [List.cons_append, Grammar.accepted, ha, if_true, ih, List.cons.injEq, true_and]
      split <;> simp
    · simp [Grammar.accepted, ha]

theorem accepted_length_le (y : Grammar) (text s : Bytes) : (y.accepted text s).length ≤ s.length := by
  induction s generalizing text with
  | nil => simp [Grammar.accepted]
  | cons c s ih =>
    by_cases ha : y.accepts text c
    · simpa [Grammar.accepted, ha] using ih (text ++ [c])
    · simp [Grammar.accepted, ha]

theorem accepted_prefix (y : Grammar) (text s : Bytes) : y.accepted text s <+: s := by
  induction s generalizing text with
  | nil => simp [Grammar.accepted]
  | cons c s ih =>
    by_cases ha : y.accepts text c
    · simpa [Grammar.accepted, ha] using ih (text ++ [c])
    · simp [Grammar.accepted, ha]

theorem accepted_append_eq_self {y : Grammar} {text s t : Bytes}
    (h : y.accepted text (s ++ t) = s ++ t) :
    y.accepted text s = s ∧ y.accepted (text ++ s) t = t := by
  rw [accepted_append] at h
  by_cases hs : y.accepted text s = s
  · rw [if_pos hs, List.append_cancel_left_eq] at h
    exact ⟨hs, h⟩
  · rw [if_neg hs] at h
    have hlen := accepted_length_le y text s
    rw [h, List.length_append] at hlen
    have hnil : t = [] := List.length_eq_zero_iff.mp (by omega)
    rw [hnil, List.append_nil] at h
    exact absurd h hs

def hexDigits : Bytes := ascii "0123456789ABCDEF"

def hexDigit (n : ℕ) : UInt8 := hexDigits.get ⟨n % hexDigits.length, Nat.mod_lt _ (by decide)⟩

def shortEscapes : List (UInt8 × UInt8) :=
  [(13, 114), (10, 110), (92, 92), (34, 34), (12, 102), (8, 98), (9, 116)]

/-- `yajl_string_encode` without `yajl_gen_escape_solidus`. -/
def yajlEscape (c : UInt8) : Bytes :=
  match shortEscapes.lookup c with
  | some e => [92, e]
  | none =>
    if c < 32 then 92 :: 117 :: [48, 48, hexDigit (c.toNat / 16), hexDigit c.toNat] else [c]

theorem hexDigit_mem (n : ℕ) : hexDigit n ∈ ascii "0123456789abcdefABCDEF" := by
  have hsub : hexDigits ⊆ ascii "0123456789abcdefABCDEF" := by decide
  exact hsub (List.get_mem ..)

theorem yajlEscape_body (c : UInt8) : StringBody (yajlEscape c) := by
  unfold yajlEscape
  split
  · rename_i e he
    obtain ⟨front, back, heq, -⟩ := List.lookup_eq_some_iff.mp he
    have hmem : (c, e) ∈ shortEscapes := by simp [heq]
    have hletters : ∀ p ∈ shortEscapes, p.2 ∈ ascii "\"\\/bfnrt" := by
      simp [shortEscapes, ascii]
    exact .escaped (hletters _ hmem) .nil
  · rename_i hnone
    split
    · exact .unicode (s := []) (h := [48, 48, hexDigit (c.toNat / 16), hexDigit c.toNat]) rfl
        (by simpa using ⟨by decide, hexDigit_mem _, hexDigit_mem _⟩) .nil
    · rename_i hc
      refine .plain (UInt8.not_lt.mp hc) ?_ ?_ .nil
      · rintro rfl
        cases hnone
      · rintro rfl
        cases hnone

def yajlStyle : Style := ⟨yajlEscape, yajlEscape_body, 128⟩

end N2Kafka.Decoder.Yajl
