import N2Kafka.Lib.JsonUnescape
import N2Kafka.Util.StringPrintf
import N2Kafka.Util.JsonString

namespace N2Kafka.Util.StringAppendJson

open Lib.CString Lib.JsonGenerator Lib.JsonUnescape Util.GrowableString
open Util.JsonString (multibyteUtf8UnicodeSize leadingOnes jsonEscapes)

inductive Stop
  | undefined | running

theorem length_notUtf8Code (c : UInt8) : (JsonString.printNotUtf8Code c).length < 7 := by
  have hdigits : (Nat.toDigits 10 c.toNat).length ≤ 3 := by
    rw [Nat.length_toDigits_le_iff (by omega) (by omega)]
    have := c.toNat_lt
    omega
  have hascii : (ascii (toString c.toNat)).length = (Nat.toDigits 10 c.toNat).length := by
    simp [ascii]
  have hmark : (ascii "\\\\x").length = 3 := by decide
  rw [JsonString.printNotUtf8Code, List.length_append]
  omega

/-- The code that shows a byte, as `string_printf` gets it. -/
def notUtf8Code (c : UInt8) : Printed := ⟨JsonString.printNotUtf8Code c, (length_notUtf8Code c).trans (by omega)⟩

def append (served : Bool) (s : Str) (data : Bytes) : Except Stop (ℤ × Str) :=
  match stringAppend served s data with
  | none => .error .undefined
  | some result => .ok result

def printNotUtf8Code (fuel : ℕ) (served : ℕ → Bool) (s : Str) (c : UInt8) :
    Except Stop (ℤ × Str) :=
  match stringPrintf fuel served s (notUtf8Code c) with
  | none => .error .running
  | some .undefined => .error .undefined
  | some (.returned rc _ s) => .ok (rc, s)

/-- The bytes that were consumed. -/
def printUtf8 (fuel : ℕ) (served : ℕ → Bool) (s : Str) (data : Bytes) : Except Stop (ℤ × Str) :=
  let characterSize := multibyteUtf8UnicodeSize data
  if characterSize = 0 then
    (printNotUtf8Code fuel served s (data.headD 0)).map fun (rc, s) ↦ (if 0 < rc then 1 else 0, s)
  else
    (append (served 0) s (data.take characterSize)).map fun (rc, s) ↦
      (if rc = 0 then (characterSize : ℤ) else -1, s)

def printJsonEscapedCharacter (fuel : ℕ) (served : ℕ → Bool) (s : Str) (c : UInt8) :
    Except Stop (ℤ × Str) :=
  match jsonEscapes.lookup c with
  | some letter => append (served 0) s [92, letter]
  | none => (printNotUtf8Code fuel served s c).map fun (rc, s) ↦ (if 0 < rc then 1 else 0, s)

/-- The loop of `string_append_json_string` from a turn on, with the bytes that are left. The
searches find the terminator of their own string, too. -/
def appendJsonLoop (served : ℕ → ℕ → Bool) : ℕ → ℕ → Bytes → Str → Except Stop (ℕ × Str)
  | 0, _, _, _ => .error .running
  | _ + 1, _, [], s => .ok (0, s)
  | fuel + 1, turn, c :: rest, s =>
    if (strchr (jsonEscapes.map Prod.fst ++ [0]) c).isSome then
      (printJsonEscapedCharacter fuel (served turn) s c).bind fun (rc, s) ↦
        if rc ≠ 0 then .ok (1, s) else appendJsonLoop served fuel (turn + 1) rest s
    else if (strchr (ascii "\"\\" ++ [0]) c).isSome then
      (append (served turn 0) s [92]).bind fun (rc, s) ↦
        if rc ≠ 0 then .ok (1, s)
        else (append (served turn 1) s [c]).bind fun (rc, s) ↦
          if rc ≠ 0 then .ok (1, s) else appendJsonLoop served fuel (turn + 1) rest s
    else
      (printUtf8 fuel (served turn) s (c :: rest)).bind fun (consumed, s) ↦
        if consumed < 0 then .ok (1, s)
        else appendJsonLoop served fuel (turn + 1) ((c :: rest).drop consumed.toNat) s

def stringAppendJsonString (fuel : ℕ) (served : ℕ → ℕ → Bool) (s : Str) (data : Bytes) :
    Except Stop (ℕ × Str) := appendJsonLoop served fuel 0 data s

/-- All of the data is appended, as the body of a JSON string that means the same. -/
def Escapes (s : Str) (data : Bytes) : Prop :=
  ∃ fuel s' body, stringAppendJsonString fuel (fun _ _ ↦ true) s data = .ok (0, s') ∧
    s'.contents = s.contents ++ body ∧ StringBody body ∧ Lib.Utf8.Valid body ∧
    (Lib.Utf8.Valid data → Unescapes body data)

/-- What one turn takes from the data. -/
inductive Group
  | nul
  | short (letter : UInt8)
  | quoted (c : UInt8)
  | invalid (c : UInt8)
  | character (bytes : Bytes)
  deriving DecidableEq

def Group.text : Group → Bytes
  | .nul => []
  | .short letter => [92, letter]
  | .quoted c => [92, c]
  | .invalid c => JsonString.printNotUtf8Code c
  | .character bytes => bytes

def nextGroup (c : UInt8) (rest : Bytes) : Group × ℕ :=
  match jsonEscapes.lookup c with
  | some letter => (.short letter, 1)
  | none =>
    if c = 0 then (.nul, 1)
    else if c = 34 ∨ c = 92 then (.quoted c, 1)
    else if multibyteUtf8UnicodeSize (c :: rest) = 0 then (.invalid c, 1)
    else (.character ((c :: rest).take (multibyteUtf8UnicodeSize (c :: rest))),
      multibyteUtf8UnicodeSize (c :: rest))

def groupsLoop : ℕ → Bytes → List Group
  | 0, _ | _ + 1, [] => []
  | fuel + 1, c :: rest =>
    (nextGroup c rest).1 :: groupsLoop fuel ((c :: rest).drop (nextGroup c rest).2)

def groups (data : Bytes) : List Group := groupsLoop data.length data

/-- A string of this size has room for what is printed, and for one byte more than the terminator. -/
def Room (size length : ℕ) : Prop :=
  ∃ a, (if size < stringMinSize then some stringMinSize else nextPow2 size) = some a ∧
    size + length + 1 < a

def Group.Fits (size : ℕ) : Group → Prop
  | .nul => False
  | .invalid c => Room size (notUtf8Code c).1.length
  | g => size + g.text.length ≤ 2 ^ 31

/-- What is copied as it is has to be an encoding, of no control character. -/
def Group.Sound : Group → Prop
  | .character bytes => ∃ c : Char, 32 ≤ c.toNat ∧ bytes = String.utf8EncodeChar c
  | _ => True

def Escapable : ℕ → List Group → Prop
  | _, [] => True
  | size, g :: gs => (g.Fits size ∧ g.Sound) ∧ Escapable (size + g.text.length) gs

theorem forall_byte {P : UInt8 → Prop} (h : ∀ n < 256, P (UInt8.ofNat n)) (c : UInt8) : P c := by
  have hc := h c.toNat c.toNat_lt
  rwa [UInt8.ofNat_toNat] at hc

theorem tailLength_eq (c : UInt8) : Lib.Utf8.tailLength c =
    if leadingOnes c = 0 then some 0
    else if leadingOnes c < 2 ∨ 4 < leadingOnes c then none
    else some (leadingOnes c - 1) :=
  forall_byte (P := fun c ↦ Lib.Utf8.tailLength c =
    if leadingOnes c = 0 then some 0
    else if leadingOnes c < 2 ∨ 4 < leadingOnes c then none
    else some (leadingOnes c - 1)) (by decide +kernel) c

theorem and_eq_iff_isTail (b : UInt8) : b &&& 0xc0 = 0x80 ↔ Lib.Utf8.IsTail b := by
  refine forall_byte (P := fun b ↦ b &&& 0xc0 = 0x80 ↔ 0x80 ≤ b.toNat ∧ b.toNat < 0xc0) ?_ b
  decide +kernel

theorem multibyteUtf8UnicodeSize_eq_iff {c : UInt8} {rest : Bytes} {n : ℕ} :
    multibyteUtf8UnicodeSize (c :: rest) = n + 1 ↔ Lib.Utf8.tailLength c = some n ∧
      n ≤ rest.length ∧ ∀ b ∈ rest.take n, Lib.Utf8.IsTail b := by
  have htails (k : ℕ) : ((rest.take k).all fun b ↦ b &&& 0xc0 = 0x80) = true ↔
      ∀ b ∈ rest.take k, Lib.Utf8.IsTail b := by
    simp only [List.all_eq_true, decide_eq_true_eq, and_eq_iff_isTail]
  rw [multibyteUtf8UnicodeSize, tailLength_eq]
  split_ifs with hzero hbad hlen hall
  · constructor
    · intro h
      obtain rfl : n = 0 := by omega
      simp
    · rintro ⟨h, -⟩
      have := Option.some.inj h
      omega
  · simp
  · constructor
    · intro h
      cases h
    · rintro ⟨hn, hle, -⟩
      have := Option.some.inj hn
      omega
  · rw [htails] at hall
    constructor
    · intro h
      obtain rfl : n = leadingOnes c - 1 := by omega
      exact ⟨rfl, by omega, hall⟩
    · rintro ⟨hn, -⟩
      have := Option.some.inj hn
      omega
  · rw [htails] at hall
    constructor
    · intro h
      cases h
    · rintro ⟨hn, -, htail⟩
      exact absurd (Option.some.inj hn ▸ htail) hall

theorem multibyteUtf8UnicodeSize_encodeChar (c : Char) (rest : Bytes) :
    multibyteUtf8UnicodeSize (String.utf8EncodeChar c ++ rest) =
      (String.utf8EncodeChar c).length := by
  obtain ⟨lead, tail, heq, hlen, htail⟩ := Lib.Utf8.encodeChar_shape c
  rw [heq, List.cons_append, List.length_cons, multibyteUtf8UnicodeSize_eq_iff]
  refine ⟨hlen, by simp, ?_⟩
  rwa [List.take_left]

theorem encoded_of_valid {c : UInt8} {rest body : Bytes} {n : ℕ}
    (h : multibyteUtf8UnicodeSize (c :: rest) = n + 1)
    (hvalid : Lib.Utf8.Valid ((c :: rest).take (n + 1) ++ body)) :
    (∃ ch : Char, (c :: rest).take (n + 1) = String.utf8EncodeChar ch) ∧ Lib.Utf8.Valid body := by
  obtain ⟨hn, hle, -⟩ := multibyteUtf8UnicodeSize_eq_iff.mp h
  obtain hnil | ⟨ch, t, heq, ht⟩ := Lib.Utf8.valid_cases hvalid
  · simp at hnil
  · obtain ⟨lead, tail, hshape, htl, -⟩ := Lib.Utf8.encodeChar_shape ch
    -- the first byte says how long both of them are
    have hlead : c = lead ∧ rest.take n ++ body = tail ++ t := by
      rw [hshape] at heq
      simpa using heq
    obtain ⟨rfl, htails⟩ := hlead
    have hlength : (rest.take n).length = tail.length := by
      rw [List.length_take, min_eq_left hle]
      exact Option.some.inj (hn.symm.trans htl)
    obtain ⟨htake, rfl⟩ := List.append_inj htails hlength
    exact ⟨⟨ch, by rw [hshape, List.take_succ_cons, htake]⟩, ht⟩

section Steps

variable {s : Str} {a : ℕ}

theorem works_iff_room (hs : Valid s a) (t : Printed) :
    Works (fun _ ↦ true) s t ↔ Room s.size t.1.length := by
  constructor
  · intro h
    cases h with
    | @fits a' ha hlt =>
      cases hbuf : s.buf with
      | none =>
        have hzero := Option.some.inj ((stringAllocated_none hbuf).symm.trans ha)
        omega
      | some block => exact ⟨a', (stringAllocated_some hbuf).symm.trans ha, hlt⟩
    | first hbuf _ hlt =>
      have hzero := (hs.of_none hbuf).2
      refine ⟨stringMinSize, if_pos ?_, by omega⟩
      rw [hzero]
      decide
    | refused _ _ _ hturn _ => cases hturn
  · rintro ⟨a', ha', hlt⟩
    cases hbuf : s.buf with
    | none =>
      have hzero := (hs.of_none hbuf).2
      rw [hzero, if_pos (by decide)] at ha'
      obtain rfl := Option.some.inj ha'
      exact .first hbuf rfl (by omega)
    | some block => exact .fits ((stringAllocated_some hbuf).trans ha') hlt

theorem printf_add {fuel : ℕ} {served : ℕ → Bool} {t : Printed} {e : PrintfEnd}
    (h : stringPrintf fuel served s t = some e) (k : ℕ) :
    stringPrintf (fuel + k) served s t = some e := by
  induction k with
  | zero => exact h
  | succ k ih => exact printfLoop_succ t served _ ih

theorem printf_of_room (hs : Valid s a) {t : Printed} (hroom : Room s.size t.1.length) :
    ∃ s', stringPrintf 2 (fun _ ↦ true) s t = some (.returned t.1.length false s') ∧
      Appended s s' t.1 ∧ ∃ a', Valid s' a' := by
  cases (works_iff_room hs t).mpr hroom with
  | @fits a' ha hlt =>
    obtain rfl := Option.some.inj (hs.allocated.symm.trans ha)
    obtain ⟨s', heq, happended, -, hvalid⟩ :=
      printfLoop_fits t (fun _ ↦ true) hs (by omega) 1 0 false
    exact ⟨s', heq, happended, hvalid⟩
  | first hbuf hserved hlt =>
    have hturn := printfLoop_first t (fun _ ↦ true) hs hbuf false 1 0
    rw [if_pos rfl] at hturn
    obtain ⟨s₁, hs₁, hsize, hcontents, -, heq⟩ := hturn
    have hzero := (hs.of_none hbuf).2
    obtain ⟨s', heq', happended, -, hvalid⟩ :=
      printfLoop_fits t (fun _ ↦ true) hs₁ (by omega) 0 1 false
    refine ⟨s', heq.trans heq', ⟨?_, ?_⟩, hvalid⟩
    · rw [happended.size, hsize]
    · rw [happended.contents, hcontents]
  | refused _ _ _ hturn _ => cases hturn

theorem printNotUtf8Code_of_room (hs : Valid s a) {c : UInt8}
    (hroom : Room s.size (notUtf8Code c).1.length) :
    ∃ s', (∀ fuel, printNotUtf8Code (fuel + 2) (fun _ ↦ true) s c =
        .ok ((notUtf8Code c).1.length, s')) ∧
      Appended s s' (notUtf8Code c).1 ∧ ∃ a', Valid s' a' := by
  obtain ⟨s', heq, happended, hvalid⟩ := printf_of_room hs hroom
  refine ⟨s', fun fuel ↦ ?_, happended, hvalid⟩
  rw [printNotUtf8Code, Nat.add_comm fuel 2, printf_add heq fuel]

theorem of_printNotUtf8Code (hs : Valid s a) {c : UInt8} {fuel : ℕ} {rc : ℤ} {s' : Str}
    (h : printNotUtf8Code fuel (fun _ ↦ true) s c = .ok (rc, s')) :
    Room s.size (notUtf8Code c).1.length ∧ rc = (notUtf8Code c).1.length ∧
      Appended s s' (notUtf8Code c).1 ∧ ∃ a', Valid s' a' := by
  unfold printNotUtf8Code at h
  split at h
  · cases h
  · cases h
  · case h_3 rc' failed s₁ hreturned =>
    cases h
    have hroom := (works_iff_room hs (notUtf8Code c)).mp (works_of_returned hs hreturned)
    obtain ⟨s₂, heq, happended, hvalid⟩ := printf_of_room hs hroom
    -- with the fuel of both calls the results are the same
    have hlong := printf_add heq fuel
    rw [Nat.add_comm] at hlong
    have hsame := (printf_add hreturned 2).symm.trans hlong
    cases hsame
    exact ⟨hroom, rfl, happended, hvalid⟩

theorem notUtf8Code_pos (c : UInt8) : 0 < (notUtf8Code c).1.length := by
  simp [notUtf8Code, JsonString.printNotUtf8Code, ascii]

theorem append_of_le (hs : Valid s a) {data : Bytes} (hmax : s.size + data.length ≤ 2 ^ 31) :
    ∃ s', append true s data = .ok (0, s') ∧ Appended s s' data ∧ ∃ a', Valid s' a' := by
  obtain ⟨rc, s', heq, hvalid, ⟨rfl, happended, -⟩ | ⟨-, hserved, -⟩⟩ :=
    stringAppend_spec hs true hmax
  · exact ⟨s', by rw [append, heq], happended, hvalid⟩
  · cases hserved

theorem append_ok_le {served : Bool} {data : Bytes} {r : ℤ × Str}
    (h : append served s data = .ok r) : s.size + data.length ≤ 2 ^ 31 := by
  by_contra hmax
  rw [append, stringAppend_eq_none served (Nat.not_le.mp hmax)] at h
  cases h

theorem found_escape_iff (c : UInt8) :
    (strchr (jsonEscapes.map Prod.fst ++ [0]) c).isSome ↔ (jsonEscapes.lookup c).isSome ∨ c = 0 :=
  forall_byte (P := fun c ↦ (strchr (jsonEscapes.map Prod.fst ++ [0]) c).isSome ↔
    (jsonEscapes.lookup c).isSome ∨ c = 0) (by decide +kernel) c

theorem found_quoted_iff (c : UInt8) :
    (strchr (ascii "\"\\" ++ [0]) c).isSome ↔ (c = 34 ∨ c = 92) ∨ c = 0 :=
  forall_byte (P := fun c ↦ (strchr (ascii "\"\\" ++ [0]) c).isSome ↔
    (c = 34 ∨ c = 92) ∨ c = 0) (by decide +kernel) c

variable {served : ℕ → ℕ → Bool} {c : UInt8}

inductive Next (c : UInt8) (rest : Bytes) : Group × ℕ → Prop
  | short {letter : UInt8} (h : jsonEscapes.lookup c = some letter) : Next c rest (.short letter, 1)
  | nul (hzero : c = 0) : Next c rest (.nul, 1)
  | quoted (hlookup : jsonEscapes.lookup c = none) (hquoted : c = 34 ∨ c = 92) :
    Next c rest (.quoted c, 1)
  | invalid (hlookup : jsonEscapes.lookup c = none) (hzero : c ≠ 0) (hquoted : ¬ (c = 34 ∨ c = 92))
    (hsize : multibyteUtf8UnicodeSize (c :: rest) = 0) : Next c rest (.invalid c, 1)
  | character {n : ℕ} (hlookup : jsonEscapes.lookup c = none) (hzero : c ≠ 0)
    (hquoted : ¬ (c = 34 ∨ c = 92)) (hsize : multibyteUtf8UnicodeSize (c :: rest) = n + 1) :
    Next c rest (.character ((c :: rest).take (n + 1)), n + 1)

theorem next_nextGroup (c : UInt8) (rest : Bytes) : Next c rest (nextGroup c rest) := by
  unfold nextGroup
  split
  case h_1 letter hlookup => exact .short hlookup
  case h_2 hlookup =>
    split_ifs with hzero hquoted hsize
    · exact .nul hzero
    · exact .quoted hlookup hquoted
    · exact .invalid hlookup hzero hquoted hsize
    · obtain ⟨n, hn⟩ := Nat.exists_eq_succ_of_ne_zero hsize
      rw [hn]
      exact .character hlookup hzero hquoted hn

theorem loop_short {letter : UInt8} (h : jsonEscapes.lookup c = some letter) (fuel turn : ℕ)
    (rest : Bytes) (s : Str) : appendJsonLoop served (fuel + 1) turn (c :: rest) s =
      (append (served turn 0) s [92, letter]).bind fun (rc, s) ↦
        if rc ≠ 0 then .ok (1, s) else appendJsonLoop served fuel (turn + 1) rest s := by
  rw [appendJsonLoop, if_pos ((found_escape_iff c).mpr (.inl (by simp [h]))),
    printJsonEscapedCharacter, h]

theorem loop_nul (fuel turn : ℕ) (rest : Bytes) (s : Str) :
    appendJsonLoop served (fuel + 1) turn (0 :: rest) s =
      (printNotUtf8Code fuel (served turn) s 0).bind fun (rc, s) ↦
        if 0 < rc then .ok (1, s) else appendJsonLoop served fuel (turn + 1) rest s := by
  have hlookup : jsonEscapes.lookup 0 = none := by decide
  rw [appendJsonLoop, if_pos ((found_escape_iff 0).mpr (.inr rfl)), printJsonEscapedCharacter,
    hlookup]
  cases printNotUtf8Code fuel (served turn) s 0 with
  | error e => rfl
  | ok r =>
    by_cases hrc : 0 < r.1
    · simp [Except.map, Except.bind, hrc]
    · simp [Except.map, Except.bind, hrc]

theorem loop_quoted (hlookup : jsonEscapes.lookup c = none) (hquoted : c = 34 ∨ c = 92)
    (fuel turn : ℕ) (rest : Bytes) (s : Str) :
    appendJsonLoop served (fuel + 1) turn (c :: rest) s =
      (append (served turn 0) s [92]).bind fun (rc, s) ↦
        if rc ≠ 0 then .ok (1, s)
        else (append (served turn 1) s [c]).bind fun (rc, s) ↦
          if rc ≠ 0 then .ok (1, s) else appendJsonLoop served fuel (turn + 1) rest s := by
  have hzero : c ≠ 0 := by rcases hquoted with rfl | rfl <;> decide
  rw [appendJsonLoop, if_neg (by rw [found_escape_iff, hlookup]; simp [hzero]),
    if_pos ((found_quoted_iff c).mpr (.inl hquoted))]

section Utf8

variable {rest : Bytes} (hlookup : jsonEscapes.lookup c = none) (hzero : c ≠ 0)
  (hquoted : ¬ (c = 34 ∨ c = 92))
include hlookup hzero hquoted

theorem loop_utf8 (fuel turn : ℕ) (s : Str) :
    appendJsonLoop served (fuel + 1) turn (c :: rest) s =
      (printUtf8 fuel (served turn) s (c :: rest)).bind fun (consumed, s) ↦
        if consumed < 0 then .ok (1, s)
        else appendJsonLoop served fuel (turn + 1) ((c :: rest).drop consumed.toNat) s := by
  rw [appendJsonLoop, if_neg (by rw [found_escape_iff, hlookup]; simp [hzero]),
    if_neg (by rw [found_quoted_iff]; simp [hzero, hquoted])]

theorem loop_invalid (hsize : multibyteUtf8UnicodeSize (c :: rest) = 0) (fuel turn : ℕ) (s : Str) :
    appendJsonLoop served (fuel + 1) turn (c :: rest) s =
      (printNotUtf8Code fuel (served turn) s c).bind fun (rc, s) ↦
        if 0 < rc then appendJsonLoop served fuel (turn + 1) rest s
        else appendJsonLoop served fuel (turn + 1) (c :: rest) s := by
  rw [loop_utf8 hlookup hzero hquoted, printUtf8]
  simp only [hsize, if_true, List.headD_cons]
  cases printNotUtf8Code fuel (served turn) s c with
  | error e => rfl
  | ok r =>
    by_cases hrc : 0 < r.1
    · simp [Except.map, Except.bind, hrc]
    · simp [Except.map, Except.bind, hrc]

theorem loop_character {n : ℕ} (hsize : multibyteUtf8UnicodeSize (c :: rest) = n + 1)
    (fuel turn : ℕ) (s : Str) : appendJsonLoop served (fuel + 1) turn (c :: rest) s =
      (append (served turn 0) s ((c :: rest).take (n + 1))).bind fun (rc, s) ↦
        if rc ≠ 0 then .ok (1, s)
        else appendJsonLoop served fuel (turn + 1) ((c :: rest).drop (n + 1)) s := by
  rw [loop_utf8 hlookup hzero hquoted, printUtf8]
  simp only [hsize, Nat.succ_ne_zero, if_false]
  cases append (served turn 0) s ((c :: rest).take (n + 1)) with
  | error e => rfl
  | ok r =>
    by_cases hrc : r.1 = 0
    · simp only [Except.map, Except.bind, hrc, if_true, ne_eq, not_true, if_false]
      rw [if_neg (by omega)]
      rfl
    · simp [Except.map, Except.bind, hrc]

end Utf8

theorem bind_append (hs : Valid s a) {data : Bytes} (hmax : s.size + data.length ≤ 2 ^ 31) :
    ∃ s₁, Appended s s₁ data ∧ (∃ a', Valid s₁ a') ∧ ∀ K : ℤ × Str → Except Stop (ℕ × Str),
      (append true s data).bind K = K (0, s₁) := by
  obtain ⟨s₁, heq, happended, hvalid⟩ := append_of_le hs hmax
  refine ⟨s₁, happended, hvalid, ?_⟩
  intro K
  rw [heq]
  rfl

theorem le_of_bind_append {data : Bytes} {K : ℤ × Str → Except Stop (ℕ × Str)} {r : ℕ × Str}
    (h : (append true s data).bind K = .ok r) : s.size + data.length ≤ 2 ^ 31 := by
  cases happend : append true s data with
  | error e => rw [happend] at h; cases h
  | ok r' => exact append_ok_le happend

theorem turn_of_fits (hs : Valid s a) {rest : Bytes} (hfits : (nextGroup c rest).1.Fits s.size)
    (turn : ℕ) : ∃ s₁, Appended s s₁ (nextGroup c rest).1.text ∧ (∃ a', Valid s₁ a') ∧ ∀ fuel,
      appendJsonLoop (fun _ _ ↦ true) (fuel + 3) turn (c :: rest) s =
        appendJsonLoop (fun _ _ ↦ true) (fuel + 2) (turn + 1)
          ((c :: rest).drop (nextGroup c rest).2) s₁ := by
  have hnext := next_nextGroup c rest
  generalize nextGroup c rest = next at *
  cases hnext with
  | nul _ => exact hfits.elim
  | short hlookup =>
    obtain ⟨s₁, happended, hvalid, hbind⟩ := bind_append hs hfits
    refine ⟨s₁, happended, hvalid, fun fuel ↦ ?_⟩
    rw [loop_short hlookup]
    exact hbind _
  | quoted hlookup hquoted =>
    have hmax : s.size + 2 ≤ 2 ^ 31 := hfits
    obtain ⟨s₁, happended, ⟨a₁, hs₁⟩, hbind⟩ :=
      bind_append hs ((Nat.le_succ _).trans hmax : s.size + [(92 : UInt8)].length ≤ 2 ^ 31)
    have hsize : s₁.size + [c].length = s.size + 2 := by rw [happended.size]; rfl
    obtain ⟨s₂, happended₂, hvalid, hbind₂⟩ := bind_append hs₁ (hsize.trans_le hmax)
    refine ⟨s₂, happended.trans happended₂, hvalid, fun fuel ↦ ?_⟩
    rw [loop_quoted hlookup hquoted, hbind]
    exact hbind₂ _
  | invalid hlookup hzero hquoted hsize =>
    obtain ⟨s₁, heq, happended, hvalid⟩ := printNotUtf8Code_of_room hs hfits
    have hpos := notUtf8Code_pos c
    refine ⟨s₁, happended, hvalid, fun fuel ↦ ?_⟩
    rw [loop_invalid hlookup hzero hquoted hsize, heq]
    exact if_pos (by omega)
  | character hlookup hzero hquoted hsize =>
    obtain ⟨s₁, happended, hvalid, hbind⟩ := bind_append hs hfits
    refine ⟨s₁, happended, hvalid, fun fuel ↦ ?_⟩
    rw [loop_character hlookup hzero hquoted hsize]
    exact hbind _

theorem fits_of_turn (hs : Valid s a) {rest : Bytes} {fuel turn : ℕ} {s' : Str}
    (h : appendJsonLoop (fun _ _ ↦ true) (fuel + 1) turn (c :: rest) s = .ok (0, s')) :
    (nextGroup c rest).1.Fits s.size ∧
      ∃ s₁, Appended s s₁ (nextGroup c rest).1.text ∧ (∃ a', Valid s₁ a') ∧
        appendJsonLoop (fun _ _ ↦ true) fuel (turn + 1) ((c :: rest).drop (nextGroup c rest).2) s₁ =
          .ok (0, s') := by
  have hnext := next_nextGroup c rest
  generalize nextGroup c rest = next at *
  cases hnext with
  | nul hzero =>
    rw [hzero, loop_nul] at h
    cases hprint : printNotUtf8Code fuel (fun _ ↦ true) s 0 with
    | error e => rw [hprint] at h; cases h
    | ok r =>
      obtain ⟨-, hrc, -⟩ := of_printNotUtf8Code hs hprint
      have hpos := notUtf8Code_pos 0
      rw [hprint] at h
      simp only [Except.bind] at h
      rw [if_pos (by omega)] at h
      cases h
  | short hlookup =>
    rw [loop_short hlookup] at h
    have hmax := le_of_bind_append h
    obtain ⟨s₁, happended, hvalid, hbind⟩ := bind_append hs hmax
    rw [hbind] at h
    exact ⟨hmax, s₁, happended, hvalid, h⟩
  | quoted hlookup hquoted =>
    rw [loop_quoted hlookup hquoted] at h
    obtain ⟨s₁, happended, ⟨a₁, hs₁⟩, hbind⟩ := bind_append hs (le_of_bind_append h)
    rw [hbind] at h
    have hmax := le_of_bind_append h
    obtain ⟨s₂, happended₂, hvalid, hbind₂⟩ := bind_append hs₁ hmax
    have hsize : s₁.size + [c].length = s.size + 2 := by rw [happended.size]; rfl
    refine ⟨hsize.symm.trans_le hmax, s₂, happended.trans happended₂, hvalid, ?_⟩
    exact (hbind₂ _).symm.trans h
  | invalid hlookup hzero hquoted hsize =>
    rw [loop_invalid hlookup hzero hquoted hsize] at h
    cases hprint : printNotUtf8Code fuel (fun _ ↦ true) s c with
    | error e => rw [hprint] at h; cases h
    | ok r =>
      obtain ⟨hroom, hrc, happended, hvalid⟩ := of_printNotUtf8Code hs hprint
      have hpos := notUtf8Code_pos c
      rw [hprint] at h
      simp only [Except.bind] at h
      rw [if_pos (by omega)] at h
      exact ⟨hroom, r.2, happended, hvalid, h⟩
  | character hlookup hzero hquoted hsize =>
    rw [loop_character hlookup hzero hquoted hsize] at h
    have hmax := le_of_bind_append h
    obtain ⟨s₁, happended, hvalid, hbind⟩ := bind_append hs hmax
    rw [hbind] at h
    exact ⟨hmax, s₁, happended, hvalid, h⟩

end Steps

theorem Next.pos {c : UInt8} {rest : Bytes} {next : Group × ℕ} (h : Next c rest next) :
    0 < next.2 := by
  cases h <;> exact Nat.succ_pos _

theorem groupsLoop_eq : ∀ {fuel fuel' : ℕ} {data : Bytes}, data.length ≤ fuel → data.length ≤ fuel' →
    groupsLoop fuel data = groupsLoop fuel' data
  | 0, 0, _, _, _ => rfl
  | fuel, fuel', [], _, _ => by cases fuel <;> cases fuel' <;> rfl
  | fuel + 1, fuel' + 1, c :: rest, h, h' => by
    have hpos := (next_nextGroup c rest).pos
    rw [List.length_cons] at h h'
    rw [groupsLoop, groupsLoop]
    refine congrArg _ (groupsLoop_eq ?_ ?_) <;> (rw [List.length_drop, List.length_cons]; omega)

theorem groups_cons (c : UInt8) (rest : Bytes) : groups (c :: rest) =
    (nextGroup c rest).1 :: groups ((c :: rest).drop (nextGroup c rest).2) := by
  have hpos := (next_nextGroup c rest).pos
  have hloop : groups (c :: rest) = groupsLoop (rest.length + 1) (c :: rest) := rfl
  rw [hloop, groupsLoop]
  refine congrArg _ (groupsLoop_eq ?_ le_rfl)
  rw [List.length_drop, List.length_cons]
  omega

theorem valid_ascii {s : Bytes} (h : ∀ b ∈ s, b.toNat < 0x80) : Lib.Utf8.Valid s := by
  induction s with
  | nil => exact Lib.Utf8.valid_nil
  | cons b s ih =>
    obtain ⟨hb, hs⟩ := List.forall_mem_cons.mp h
    have hchar := Lib.Utf8.valid_encodeChar (Char.ofNat b.toNat)
    rw [Lib.Utf8.encodeChar_of_lt hb] at hchar
    exact hchar.append (ih hs)

theorem toNat_ofNat_of_lt {n : ℕ} (h : n < 0x80) : (UInt8.ofNat n).toNat = n := by
  rw [UInt8.toNat_ofNat']
  exact Nat.mod_eq_of_lt (by omega)

theorem le_of_mem_encodeChar {c : Char} (hc : 32 ≤ c.toNat) {b : UInt8}
    (hb : b ∈ String.utf8EncodeChar c) : 32 ≤ b := by
  rw [UInt8.le_iff_toNat_le]
  obtain ⟨hlt, heq⟩ | ⟨-, hbytes⟩ := Lib.Utf8.encodeChar_cases c
  · rw [heq, List.mem_singleton] at hb
    rw [hb, toNat_ofNat_of_lt hlt]
    exact hc
  · exact le_trans (by decide) (hbytes b hb)

theorem le_toNat_of_encodeChar {c : Char} {lead : UInt8} {tail : Bytes}
    (h : String.utf8EncodeChar c = lead :: tail) (hlead : 32 ≤ lead) : 32 ≤ c.toNat := by
  obtain ⟨hlt, heq⟩ | ⟨hle, -⟩ := Lib.Utf8.encodeChar_cases c
  · rw [heq] at h
    obtain ⟨rfl, -⟩ := List.cons.inj h
    rw [UInt8.le_iff_toNat_le, toNat_ofNat_of_lt hlt] at hlead
    exact hlead
  · omega

theorem stringBody_notUtf8Code (c : UInt8) : StringBody (JsonString.printNotUtf8Code c) := by
  have hdigits : StringBody (ascii (toString c.toNat)) := by
    refine stringBody_of_plain fun b hb ↦ ?_
    have hdigit := mem_ascii_toString hb
    refine ⟨UInt8.le_iff_toNat_le.mpr (le_trans (by decide) hdigit.1), ?_, ?_⟩
    · rintro rfl
      exact absurd hdigit.1 (by decide)
    · rintro rfl
      exact absurd hdigit.2 (by decide)
  have hmark : ascii "\\\\x" = [92, 92, 120] := by decide
  rw [JsonString.printNotUtf8Code, hmark]
  exact .escaped (by decide) (.plain (by decide) (by decide) (by decide) hdigits)

theorem valid_notUtf8Code (c : UInt8) : Lib.Utf8.Valid (JsonString.printNotUtf8Code c) := by
  have hmark : (ascii "\\\\x").all (fun b ↦ decide (b.toNat < 0x80)) = true := by decide
  refine valid_ascii fun b hb ↦ ?_
  rw [JsonString.printNotUtf8Code, List.mem_append] at hb
  rcases hb with hb | hb
  · exact of_decide_eq_true (List.all_eq_true.mp hmark b hb)
  · have := mem_ascii_toString hb
    omega

theorem escape_of_lookup {c letter : UInt8} (h : jsonEscapes.lookup c = some letter) :
    (letter, c) ∈ shortEscapes ∧ letter ∈ ascii "\"\\/bfnrt" ∧ letter.toNat < 0x80 ∧
      c.toNat < 0x80 := by
  have hall := forall_byte (P := fun c ↦ (jsonEscapes.lookup c).all (fun letter ↦
    decide ((letter, c) ∈ shortEscapes ∧ letter ∈ ascii "\"\\/bfnrt" ∧ letter.toNat < 0x80 ∧
      c.toNat < 0x80)) = true) (by decide +kernel) c
  rw [h] at hall
  exact of_decide_eq_true hall

theorem valid_pair {b b' : UInt8} (h : b.toNat < 0x80) (h' : b'.toNat < 0x80) :
    Lib.Utf8.Valid [b, b'] := by
  refine valid_ascii fun x hx ↦ ?_
  rcases List.mem_pair.mp hx with rfl | rfl
  · exact h
  · exact h'

section Groups

variable {c : UInt8} {rest : Bytes} {next : Group × ℕ}

theorem plain_of_character {n : ℕ} (hquoted : ¬ (c = 34 ∨ c = 92)) {ch : Char}
    (hch : 32 ≤ ch.toNat) (heq : (c :: rest).take (n + 1) = String.utf8EncodeChar ch) :
    ∀ b ∈ (c :: rest).take (n + 1), 32 ≤ b ∧ b ≠ 34 ∧ b ≠ 92 := by
  intro b hb
  refine ⟨le_of_mem_encodeChar hch (heq ▸ hb), ?_⟩
  obtain ⟨-, hone⟩ | ⟨-, hbytes⟩ := Lib.Utf8.encodeChar_cases ch
  · have hbc : b = c := by
      rw [heq, hone, List.mem_singleton] at hb
      rw [hone, List.take_succ_cons] at heq
      exact hb.trans (List.cons.inj heq).1.symm
    rw [hbc]
    exact not_or.mp hquoted
  · have hle := hbytes b (heq ▸ hb)
    constructor
    · rintro rfl
      exact absurd hle (by decide)
    · rintro rfl
      exact absurd hle (by decide)

theorem wellFormed_text (hnext : Next c rest next) (hsound : next.1.Sound) :
    StringBody next.1.text ∧ Lib.Utf8.Valid next.1.text := by
  cases hnext with
  | nul _ => exact ⟨.nil, Lib.Utf8.valid_nil⟩
  | short hlookup =>
    obtain ⟨-, hletter, hascii, -⟩ := escape_of_lookup hlookup
    exact ⟨.escaped hletter .nil, valid_pair (by decide) hascii⟩
  | quoted _ hquoted =>
    rcases hquoted with rfl | rfl
    · exact ⟨.escaped (by decide) .nil, valid_pair (by decide) (by decide)⟩
    · exact ⟨.escaped (by decide) .nil, valid_pair (by decide) (by decide)⟩
  | invalid => exact ⟨stringBody_notUtf8Code c, valid_notUtf8Code c⟩
  | character _ _ hquoted _ =>
    obtain ⟨ch, hch, heq⟩ := hsound
    refine ⟨stringBody_of_plain (plain_of_character hquoted hch heq), ?_⟩
    rw [Group.text, heq]
    exact Lib.Utf8.valid_encodeChar ch

theorem sound_of_wellFormed (hnext : Next c rest next) {body : Bytes}
    (hbody : StringBody (next.1.text ++ body)) (hvalid : Lib.Utf8.Valid (next.1.text ++ body)) :
    next.1.Sound ∧ StringBody body ∧ Lib.Utf8.Valid body := by
  have hsound : next.1.Sound := by
    cases hnext with
    | character _ _ hquoted hsize =>
      obtain ⟨⟨ch, heq⟩, -⟩ := encoded_of_valid hsize hvalid
      have hle := (stringBody_of_cons hbody (not_or.mp hquoted).2).1
      exact ⟨ch, le_toNat_of_encodeChar heq.symm hle, heq⟩
    | nul _ => trivial
    | short _ => trivial
    | quoted _ _ => trivial
    | invalid => trivial
  obtain ⟨htext, htextValid⟩ := wellFormed_text hnext hsound
  exact ⟨hsound, stringBody_of_append htext hbody, htextValid.of_append hvalid⟩

theorem unescapes_text (hnext : Next c rest next) (hzero : next.1 ≠ .nul) (hsound : next.1.Sound)
    (hvalid : Lib.Utf8.Valid (c :: rest)) :
    Unescapes next.1.text ((c :: rest).take next.2) ∧ Lib.Utf8.Valid ((c :: rest).drop next.2) := by
  have htail (hc : c.toNat < 0x80) : Lib.Utf8.Valid rest :=
    (valid_ascii (List.forall_mem_singleton.mpr hc)).of_append hvalid
  cases hnext with
  | nul _ => exact absurd rfl hzero
  | short hlookup =>
    obtain ⟨hpair, -, -, hc⟩ := escape_of_lookup hlookup
    exact ⟨.escaped hpair .nil, htail hc⟩
  | quoted _ hquoted =>
    rcases hquoted with rfl | rfl
    · exact ⟨.escaped (by decide) .nil, htail (by decide)⟩
    · exact ⟨.escaped (by decide) .nil, htail (by decide)⟩
  | invalid _ _ _ hsize =>
    -- what is valid starts with the encoding of a character, which is recognised
    obtain hnil | ⟨ch, t, heq, -⟩ := Lib.Utf8.valid_cases hvalid
    · cases hnil
    · rw [heq, multibyteUtf8UnicodeSize_encodeChar, List.length_eq_zero_iff] at hsize
      exact absurd hsize String.utf8EncodeChar_ne_nil
  | @character n _ _ hquoted _ =>
    obtain ⟨ch, hch, heq⟩ := hsound
    refine ⟨Unescapes.of_plain (plain_of_character hquoted hch heq), ?_⟩
    refine Lib.Utf8.Valid.of_append (heq ▸ Lib.Utf8.valid_encodeChar ch) ?_
    rwa [List.take_append_drop]

end Groups

theorem length_drop_le {c : UInt8} {rest : Bytes} {n : ℕ} (h : (c :: rest).length ≤ n + 1) :
    ((c :: rest).drop (nextGroup c rest).2).length ≤ n := by
  have hpos := (next_nextGroup c rest).pos
  rw [List.length_drop]
  omega

theorem appendJsonLoop_of_escapable : ∀ (n : ℕ) {data : Bytes} {s : Str} {a : ℕ} (turn : ℕ),
    data.length ≤ n → Valid s a → Escapable s.size (groups data) →
    ∃ s' body, appendJsonLoop (fun _ _ ↦ true) (n + 3) turn data s = .ok (0, s') ∧
      Appended s s' body ∧ StringBody body ∧ Lib.Utf8.Valid body ∧
      (Lib.Utf8.Valid data → Unescapes body data)
  | n, [], s, a, turn, _, hs, _ => by
    refine ⟨s, [], rfl, ⟨rfl, (List.append_nil _).symm⟩, .nil, Lib.Utf8.valid_nil, fun _ ↦ .nil⟩
  | 0, _ :: _, _, _, _, hlen, _, _ => absurd hlen (by simp)
  | n + 1, c :: rest, s, a, turn, hlen, hs, hdata => by
    have hnext := next_nextGroup c rest
    rw [groups_cons] at hdata
    obtain ⟨⟨hfits, hsound⟩, hrest⟩ := hdata
    obtain ⟨s₁, happended, ⟨a₁, hs₁⟩, hturn⟩ := turn_of_fits hs hfits turn
    rw [← happended.size] at hrest
    obtain ⟨s', body, hloop, happended', hbody, hvalid, hunescapes⟩ :=
      appendJsonLoop_of_escapable n (turn + 1) (length_drop_le hlen) hs₁ hrest
    obtain ⟨htext, htextValid⟩ := wellFormed_text hnext hsound
    refine ⟨s', _, (hturn (n + 1)).trans hloop, happended.trans happended', htext.append hbody,
      htextValid.append hvalid, ?_⟩
    intro hdata
    have hnul : (nextGroup c rest).1 ≠ .nul := by
      intro e
      rw [e] at hfits
      exact hfits
    obtain ⟨hgroup, hdrop⟩ := unescapes_text hnext hnul hsound hdata
    have hwhole := hgroup.append (hunescapes hdrop)
    rwa [List.take_append_drop] at hwhole

theorem escapable_of_appendJsonLoop : ∀ (fuel : ℕ) {data : Bytes} {s s' : Str} {a turn : ℕ},
    Valid s a → appendJsonLoop (fun _ _ ↦ true) fuel turn data s = .ok (0, s') →
    ∃ body, Appended s s' body ∧
      (StringBody body → Lib.Utf8.Valid body → Escapable s.size (groups data))
  | 0, _, _, _, _, _, _, h => by cases h
  | fuel + 1, [], s, s', a, turn, hs, h => by
    cases h
    exact ⟨[], ⟨rfl, (List.append_nil _).symm⟩, fun _ _ ↦ trivial⟩
  | fuel + 1, c :: rest, s, s', a, turn, hs, h => by
    obtain ⟨hfits, s₁, happended, ⟨a₁, hs₁⟩, hloop⟩ := fits_of_turn hs h
    obtain ⟨body, happended', hrest⟩ := escapable_of_appendJsonLoop fuel hs₁ hloop
    refine ⟨_, happended.trans happended', ?_⟩
    intro hbody hvalid
    obtain ⟨hsound, hbody', hvalid'⟩ := sound_of_wellFormed (next_nextGroup c rest) hbody hvalid
    rw [groups_cons]
    exact ⟨⟨hfits, hsound⟩, happended.size ▸ hrest hbody' hvalid'⟩

theorem escapable_of_escapes {s : Str} {a : ℕ} (hs : Valid s a) {data : Bytes}
    (h : Escapes s data) : Escapable s.size (groups data) := by
  obtain ⟨fuel, s', body, hloop, hcontents, hbody, hvalid, -⟩ := h
  obtain ⟨body', happended, hescapable⟩ := escapable_of_appendJsonLoop fuel hs hloop
  have hsame : body' = body :=
    List.append_cancel_left (happended.contents.symm.trans hcontents)
  subst hsame
  exact hescapable hbody hvalid

/-- Data is escaped if it has no null byte and no control character without a letter of its own, if
what is copied are encodings, and if the string has room for each byte that is printed as a code. -/
theorem escapes_iff (s : ReachableStr) (data : Bytes) :
    Escapes s.1 data ↔ Escapable s.1.size (groups data) := by
  obtain ⟨a, hs⟩ := s.2.valid
  constructor
  · exact escapable_of_escapes hs
  · intro h
    obtain ⟨s', body, hloop, happended, hbody, hvalid, hunescapes⟩ :=
      appendJsonLoop_of_escapable data.length 0 le_rfl hs h
    exact ⟨_, s', body, hloop, happended.contents, hbody, hvalid, hunescapes⟩

/-- A null byte makes the call fail, and another control character is copied. -/
theorem control_bytes_not_escaped : Reachable .initializer ∧ ¬ Escapes .initializer [0] ∧
    ¬ Escapes .initializer [1] := by
  have hs : Valid .initializer 0 := ⟨rfl, le_rfl, le_rfl⟩
  refine ⟨.initializer, ?_, ?_⟩
  · intro h
    have hgroups : groups [0] = [.nul] := by decide
    have hescapable := escapable_of_escapes hs h
    rw [hgroups] at hescapable
    exact hescapable.1.1
  · intro h
    have hgroups : groups [1] = [.character [1]] := by decide
    have hescapable := escapable_of_escapes hs h
    rw [hgroups] at hescapable
    obtain ⟨c, hc, heq⟩ := hescapable.1.2
    have hle := le_of_mem_encodeChar hc (heq ▸ List.mem_singleton_self 1)
    exact absurd hle (by decide)

end N2Kafka.Util.StringAppendJson
