import Mathlib.Algebra.Order.Ring.Int
import N2Kafka.Lib.Jansson

namespace N2Kafka.Util.KafkaStats

open Lib.CString Lib.Jansson

inductive LogLevel
  | info
  | err
  deriving DecidableEq

/-- A logged line. It has no text if printing reads past the buffer. -/
structure LogLine where
  level : LogLevel
  text : Option Bytes
  deriving DecidableEq

def comma : UInt8 := 44

def memchr (mem : Bytes) (start : ℕ) (c : UInt8) : Option ℕ :=
  ((mem.drop start).findIdx? (· = c)).map (start + ·)

/-- What `%.*s` prints: a terminator ends it, and so does the precision unless it is negative. -/
def printWithPrecision (mem : Bytes) (precision : ℤ) : Option Bytes :=
  if 0 ≤ precision then some (strAt (mem.take precision.toNat)).1
  else if 0 ∈ mem then some (strAt mem).1
  else none

def piece (json : Bytes) (cursor stop : ℕ) : LogLine :=
  ⟨.info, printWithPrecision (json.drop cursor) (Json.toInt32 (stop - cursor))⟩

/-- The inner loop, with `comma` and `next_comma` behind it. Each turn moves `next_comma` forward, so
that the length of the buffer is enough fuel. -/
def takeCommas (json : Bytes) (cursor : ℕ) : ℕ → ℕ → Option ℕ → ℕ × Option ℕ
  | fuel + 1, last, some next =>
    if next - cursor < 1024 then takeCommas json cursor fuel next (memchr json (next + 1) comma)
    else (last, some next)
  | _, last, next => (last, next)

/-- The outer loop, from a turn with a `next_comma`: without one the loop is left in the middle.
There is no result if the fuel does not last. -/
def rdlogLoop (json : Bytes) : ℕ → ℕ → ℕ → ℕ → Option (List LogLine)
  | 0, _, _, _ => none
  | fuel + 1, cursor, last, next =>
    match takeCommas json cursor json.length last (some next) with
    | (_, none) => some [piece json cursor json.length]
    | (last', some next') =>
      if cursor = next' then
        some [⟨.err, some (ascii "Truncated, too long output")⟩, piece json cursor json.length]
      else (rdlogLoop json fuel (last' + 1) last' next').map (piece json cursor (last' + 1) :: ·)

def header : LogLine := ⟨.info, some (ascii "Librdkafka stats ===")⟩

def rdkafkaStatsRdlogCb (fuel : ℕ) (json : Bytes) : Option (List LogLine) :=
  (rdlogLoop json fuel 0 0 0).map (header :: ·)

def shown : List LogLine → Option Bytes
  | [] => some []
  | line :: lines => line.text.bind fun text ↦ (shown lines).map (text ++ ·)

/-- The callback returns, and the lines behind the header are the buffer. -/
def Complete (json : Bytes) : Prop :=
  ∃ fuel lines, rdkafkaStatsRdlogCb fuel json = some (header :: lines) ∧ shown lines = some json

/-- Where the callback may end a line: behind the first byte or behind a comma. -/
def Mark (json : Bytes) (m : ℕ) : Prop := m = 0 ∨ json[m]? = some comma

/-- Where lines start if each of them but the last is filled up to 1024 bytes. -/
inductive LineStart (json : Bytes) : ℕ → Prop
  | first : LineStart json 0
  | next {start last next : ℕ} : LineStart json start → Mark json last → start ≤ last →
    last < start + 1024 → memchr json (last + 1) comma = some next → start + 1024 ≤ next →
    LineStart json (last + 1)

/-- The buffers that are logged completely. -/
structure Loggable (json : Bytes) : Prop where
  spaced : ∀ m next, Mark json m → memchr json (m + 1) comma = some next → next ≤ m + 1024
  printable : (0 : UInt8) ∉ json
  -- the precision of the last line is an `int`
  lastLine : ∀ start, LineStart json start → memchr json (start + 1024) comma = none →
    json.length < start + 2 ^ 31

theorem memchr_eq_some {mem : Bytes} {start i : ℕ} {c : UInt8} (h : memchr mem start c = some i) :
    start ≤ i ∧ mem[i]? = some c ∧ ∀ j, start ≤ j → j < i → mem[j]? ≠ some c := by
  obtain ⟨k, hk, rfl⟩ := Option.map_eq_some_iff.mp h
  rw [List.findIdx?_eq_some_iff_getElem] at hk
  obtain ⟨hlt, hc, hbefore⟩ := hk
  refine ⟨by omega, ?_, ?_⟩
  · rw [← List.getElem?_drop, List.getElem?_eq_getElem hlt]
    simpa using hc
  · intro j hj hji e
    obtain ⟨d, rfl⟩ := Nat.exists_eq_add_of_le hj
    have hd : d < k := by omega
    have := hbefore d hd
    rw [List.getElem?_eq_some_iff] at e
    obtain ⟨_, e⟩ := e
    simp [e] at this

theorem memchr_eq_none {mem : Bytes} {start : ℕ} {c : UInt8} :
    memchr mem start c = none ↔ ∀ j, start ≤ j → mem[j]? ≠ some c := by
  simp only [memchr, Option.map_eq_none_iff, List.findIdx?_eq_none_iff]
  constructor
  · intro h j hj e
    obtain ⟨d, rfl⟩ := Nat.exists_eq_add_of_le hj
    have hmem : c ∈ mem.drop start := by
      rw [List.mem_iff_getElem?]
      exact ⟨d, by rw [List.getElem?_drop, e]⟩
    simpa using h c hmem
  · intro h x hx
    obtain ⟨d, hd⟩ := List.mem_iff_getElem?.mp hx
    rw [List.getElem?_drop] at hd
    have := h (start + d) (by omega)
    rw [hd] at this
    simpa using this

theorem memchr_le {mem : Bytes} {start j : ℕ} {c : UInt8} (hj : start ≤ j)
    (hc : mem[j]? = some c) : ∃ i, memchr mem start c = some i ∧ i ≤ j := by
  cases h : memchr mem start c with
  | none => exact absurd hc (memchr_eq_none.mp h j hj)
  | some i =>
    refine ⟨i, rfl, ?_⟩
    by_contra hlt
    exact (memchr_eq_some h).2.2 j hj (by omega) hc

theorem mark_of_memchr {json : Bytes} {start i : ℕ} (h : memchr json start comma = some i) :
    Mark json i := .inr (memchr_eq_some h).2.1

theorem Mark.lt_length {json : Bytes} {m : ℕ} (hm : Mark json m) (hjson : json ≠ []) :
    m < json.length := by
  rcases hm with rfl | hm
  · exact List.length_pos_of_ne_nil hjson
  · exact (List.getElem?_eq_some_iff.mp hm).1

theorem Mark.memchr_le {json : Bytes} {m m' : ℕ} (hm' : Mark json m') (hlt : m < m') :
    ∃ i, memchr json (m + 1) comma = some i ∧ i ≤ m' := by
  rcases hm' with rfl | hm'
  · omega
  · exact KafkaStats.memchr_le hlt hm'

theorem takeCommas_far (json : Bytes) {cursor next : ℕ} (fuel last : ℕ)
    (h : cursor + 1024 ≤ next) : takeCommas json cursor fuel last (some next) = (last, some next) := by
  cases fuel with
  | zero => rfl
  | succ fuel => rw [takeCommas, if_neg (by omega)]

structure Filled (json : Bytes) (cursor last : ℕ) (next : Option ℕ) : Prop where
  mark : Mark json last
  fits : last < cursor + 1024
  follows : memchr json (last + 1) comma = next
  full : ∀ n, next = some n → cursor + 1024 ≤ n

theorem Filled.unique {json : Bytes} {cursor last last' : ℕ} {next next' : Option ℕ}
    (h : Filled json cursor last next) (h' : Filled json cursor last' next') :
    last = last' ∧ next = next' := by
  -- otherwise the later mark follows the earlier one and still fits
  have habsurd {a b : ℕ} {n n' : Option ℕ} (ha : Filled json cursor a n)
      (hb : Filled json cursor b n') : ¬ a < b := by
    intro hlt
    obtain ⟨i, hi, hle⟩ := hb.mark.memchr_le hlt
    have hfull := ha.full i (ha.follows.symm.trans hi)
    have hfits := hb.fits
    omega
  have hlast : last = last' := Nat.le_antisymm (Nat.not_lt.mp (habsurd h' h))
    (Nat.not_lt.mp (habsurd h h'))
  subst hlast
  exact ⟨rfl, h.follows.symm.trans h'.follows⟩

theorem takeCommas_near {json : Bytes} {cursor : ℕ} :
    ∀ (fuel last : ℕ) {next : ℕ}, Mark json next → next < cursor + 1024 → json ≠ [] →
      json.length ≤ fuel + next → ∃ last' next',
        takeCommas json cursor fuel last (some next) = (last', next') ∧ next ≤ last' ∧
          Filled json cursor last' next'
  | 0, last, next, hmark, _, hjson, hfuel => by
    have := hmark.lt_length hjson
    omega
  | fuel + 1, last, next, hmark, hnear, hjson, hfuel => by
    rw [takeCommas, if_pos (by omega)]
    cases h : memchr json (next + 1) comma with
    | none =>
      refine ⟨next, none, by cases fuel <;> rfl, le_rfl, hmark, hnear, h, by simp⟩
    | some n =>
      have hn := (memchr_eq_some h).1
      by_cases hfar : cursor + 1024 ≤ n
      · refine ⟨next, some n, takeCommas_far json fuel next hfar, le_rfl, hmark, hnear, h, ?_⟩
        rintro _ ⟨⟩
        exact hfar
      · obtain ⟨last', next', heq, hle, hfilled⟩ := takeCommas_near fuel next (mark_of_memchr h)
          (Nat.not_le.mp hfar) hjson (by omega)
        exact ⟨last', next', heq, by omega, hfilled⟩

variable {json : Bytes}

theorem rdlogLoop_far {cursor next : ℕ} (fuel last : ℕ) (h : cursor + 1024 ≤ next) :
    rdlogLoop json (fuel + 1) cursor last next =
      (rdlogLoop json fuel (last + 1) last next).map (piece json cursor (last + 1) :: ·) := by
  rw [rdlogLoop, takeCommas_far json _ _ h]
  exact if_neg (by omega)

theorem rdlogLoop_near {cursor next last' : ℕ} {next' : Option ℕ} (fuel last : ℕ)
    (hjson : json ≠ []) (hmark : Mark json next) (hnear : next < cursor + 1024)
    (hfilled : Filled json cursor last' next') :
    rdlogLoop json (fuel + 1) cursor last next =
      match next' with
      | none => some [piece json cursor json.length]
      | some n => (rdlogLoop json fuel (last' + 1) last' n).map (piece json cursor (last' + 1) :: ·) := by
  obtain ⟨last'', next'', heq, -, hfilled'⟩ :=
    takeCommas_near json.length last hmark hnear hjson (by omega)
  obtain ⟨rfl, rfl⟩ := hfilled.unique hfilled'
  rw [rdlogLoop, heq]
  cases next' with
  | none => rfl
  | some n =>
    have hfull := hfilled.full n rfl
    exact if_neg (by omega)

theorem exists_filled {cursor next : ℕ} (hjson : json ≠ []) (hmark : Mark json next)
    (hnear : next < cursor + 1024) :
    ∃ last next', next ≤ last ∧ Filled json cursor last next' := by
  obtain ⟨last, next', -, hle, hfilled⟩ :=
    takeCommas_near json.length 0 hmark hnear hjson (by omega)
  exact ⟨last, next', hle, hfilled⟩

/-- A comma that is too far from the mark before it keeps the loop going for good: no line gets
past the mark, and from there on every line is empty. -/
theorem rdlogLoop_stuck {m n : ℕ} (hjson : json ≠ []) (hm : Mark json m)
    (hn : memchr json (m + 1) comma = some n) (hgap : m + 1024 < n) :
    ∀ fuel {cursor last next : ℕ}, Mark json next → cursor ≤ next → (last < next ∨ next = 0) →
      (cursor = m + 1 ∧ last = m ∧ next = n) ∨ next ≤ m →
      rdlogLoop json fuel cursor last next = none
  | 0, _, _, _, _, _, _, _ => rfl
  | fuel + 1, cursor, last, next, hmark, hle, hlast, hstuck => by
    by_cases hfar : cursor + 1024 ≤ next
    · rw [rdlogLoop_far fuel last hfar, rdlogLoop_stuck hjson hm hn hgap fuel hmark (by omega)
        (by omega) (by omega)]
      rfl
    · obtain ⟨last', next', hle', hfilled⟩ := exists_filled hjson hmark (Nat.not_le.mp hfar)
      rw [rdlogLoop_near fuel last hjson hmark (Nat.not_le.mp hfar) hfilled]
      have hbefore : last' ≤ m := by
        by_contra hlt
        obtain ⟨i, hi, hile⟩ := hfilled.mark.memchr_le (Nat.not_le.mp hlt)
        have hin : i = n := Option.some.inj (hi.symm.trans hn)
        have hfits := hfilled.fits
        omega
      have hstuck' : ∃ n', next' = some n' ∧ ((last' = m ∧ n' = n) ∨ n' ≤ m) := by
        obtain rfl | hlt := Nat.eq_or_lt_of_le hbefore
        · exact ⟨n, hfilled.follows.symm.trans hn, .inl ⟨rfl, rfl⟩⟩
        · obtain ⟨i, hi, hile⟩ := hm.memchr_le hlt
          exact ⟨i, hfilled.follows.symm.trans hi, .inr hile⟩
      obtain ⟨n', rfl, hstuck'⟩ := hstuck'
      have hfollows := memchr_eq_some hfilled.follows
      simp only
      rw [rdlogLoop_stuck hjson hm hn hgap fuel (mark_of_memchr hfilled.follows) hfollows.1
        (.inl hfollows.1) (by omega)]
      rfl

theorem piece_text {cursor stop : ℕ} (hjson : (0 : UInt8) ∉ json) (hle : cursor ≤ stop)
    (hstop : stop < cursor + 2 ^ 31) :
    (piece json cursor stop).text = some ((json.drop cursor).take (stop - cursor)) := by
  have hprecision : Json.toInt32 (stop - cursor) = ((stop - cursor : ℕ) : ℤ) := by
    rw [Json.toInt32_of_lt (by omega) (by omega)]
    omega
  have hno : ∀ b ∈ (json.drop cursor).take (stop - cursor), b ≠ 0 := by
    rintro b hb rfl
    exact hjson (List.mem_of_mem_drop (List.mem_of_mem_take hb))
  simp only [piece, printWithPrecision, hprecision, Int.toNat_natCast]
  rw [if_pos (by omega)]
  exact congrArg some (List.takeWhile_eq_self_iff.mpr (by simpa using hno))

theorem rdlogLoop_logs (hjson : json ≠ []) (h : Loggable json) {cursor next : ℕ} (last : ℕ)
    (hstart : LineStart json cursor) (hmark : Mark json next) (hle : cursor ≤ next)
    (hnear : next < cursor + 1024) :
    ∃ fuel lines, rdlogLoop json fuel cursor last next = some lines ∧
      shown lines = some (json.drop cursor) := by
  obtain ⟨last', next', hle', hfilled⟩ := exists_filled hjson hmark hnear
  have hlen := hfilled.mark.lt_length hjson
  have hfits := hfilled.fits
  cases next' with
  | none =>
    have hend : json.length < cursor + 2 ^ 31 := by
      refine h.lastLine cursor hstart (memchr_eq_none.mpr fun j hj ↦ ?_)
      exact memchr_eq_none.mp hfilled.follows j (by omega)
    refine ⟨1, _, rdlogLoop_near 0 last hjson hmark hnear hfilled, ?_⟩
    have hpiece := piece_text h.printable (by omega : cursor ≤ json.length) hend
    rw [List.take_of_length_le (by simp)] at hpiece
    simp [shown, hpiece]
  | some n =>
    have hfull := hfilled.full n rfl
    have hspaced := h.spaced last' n hfilled.mark hfilled.follows
    have hn := (mark_of_memchr hfilled.follows).lt_length hjson
    obtain ⟨fuel, lines, hrun, hshown⟩ := rdlogLoop_logs hjson h last'
      (.next hstart hfilled.mark (by omega) hfits hfilled.follows hfull)
      (mark_of_memchr hfilled.follows) (by omega) (by omega)
    have hpiece := piece_text h.printable (by omega : cursor ≤ last' + 1) (by omega)
    refine ⟨fuel + 1, piece json cursor (last' + 1) :: lines, ?_, ?_⟩
    · rw [rdlogLoop_near fuel last hjson hmark hnear hfilled]
      simp only
      rw [hrun]
      rfl
    · have hdrop : json.drop (last' + 1) = (json.drop cursor).drop (last' + 1 - cursor) := by
        rw [List.drop_drop]
        congr 1
        omega
      rw [shown, hpiece, hshown, hdrop]
      exact congrArg some (List.take_append_drop _ _)
termination_by json.length - next

theorem zero_notMem_of_print {mem text : Bytes} {precision : ℤ}
    (h : printWithPrecision mem precision = some text) : (0 : UInt8) ∉ text := by
  unfold printWithPrecision at h
  split_ifs at h
  · obtain rfl := Option.some.inj h
    exact (strAt _).2
  · obtain rfl := Option.some.inj h
    exact (strAt _).2

theorem shown_cons {line : LogLine} {lines : List LogLine} {text : Bytes}
    (h : shown (line :: lines) = some text) :
    ∃ first rest, line.text = some first ∧ shown lines = some rest ∧ text = first ++ rest := by
  obtain ⟨first, hfirst, h⟩ := Option.bind_eq_some_iff.mp h
  obtain ⟨rest, hrest, rfl⟩ := Option.map_eq_some_iff.mp h
  exact ⟨first, rest, hfirst, hrest, rfl⟩

theorem zero_notMem_shown : ∀ (fuel : ℕ) {cursor last next : ℕ} {lines : List LogLine} {text : Bytes},
    rdlogLoop json fuel cursor last next = some lines → shown lines = some text →
      (0 : UInt8) ∉ text
  | 0, _, _, _, _, _, hrun, _ => by cases hrun
  | fuel + 1, cursor, last, next, lines, text, hrun, hshown => by
    have hlast {text : Bytes} (h : shown [piece json cursor json.length] = some text) :
        (0 : UInt8) ∉ text := by
      obtain ⟨first, _, hfirst, ⟨⟩, rfl⟩ := shown_cons h
      simpa using zero_notMem_of_print hfirst
    rw [rdlogLoop] at hrun
    split at hrun
    · obtain rfl := Option.some.inj hrun
      exact hlast hshown
    · split_ifs at hrun
      · obtain rfl := Option.some.inj hrun
        obtain ⟨first, rest, ⟨⟩, hrest, rfl⟩ := shown_cons hshown
        rw [List.mem_append, not_or]
        exact ⟨by decide, hlast hrest⟩
      · obtain ⟨lines', hrun', rfl⟩ := Option.map_eq_some_iff.mp hrun
        obtain ⟨first, rest, hfirst, hrest, rfl⟩ := shown_cons hshown
        rw [List.mem_append, not_or]
        exact ⟨zero_notMem_of_print hfirst, zero_notMem_shown fuel hrun' hrest⟩

theorem length_of_print {mem text : Bytes} {n : ℕ} (hn : n < 2 ^ 31)
    (h : printWithPrecision mem (Json.toInt32 n) = some text) : text.length ≤ n := by
  rw [Json.toInt32_of_lt (by omega) (by omega), printWithPrecision, if_pos (by omega)] at h
  obtain rfl := Option.some.inj h
  calc
    _ ≤ (mem.take n).length := (List.takeWhile_prefix _).length_le
    _ ≤ n := by simp

theorem rdlogLoop_reaches (hjson : json ≠ [])
    (hspaced : ∀ m next, Mark json m → memchr json (m + 1) comma = some next → next ≤ m + 1024)
    {fuel : ℕ} {lines : List LogLine} {text : Bytes} (hrun : rdlogLoop json fuel 0 0 0 = some lines)
    (hshown : shown lines = some text) {start : ℕ} (hstart : LineStart json start) :
    ∃ fuel' last next lines' before after,
      rdlogLoop json fuel' start last next = some lines' ∧ shown lines' = some after ∧
        text = before ++ after ∧ before.length ≤ start ∧ Mark json next ∧
        next < start + 1024 := by
  induction hstart with
  | first => exact ⟨fuel, 0, 0, lines, [], text, hrun, hshown, rfl, le_rfl, .inl rfl, by omega⟩
  | @next start last next _ hmark hle hfits hfollows hfull ih =>
    obtain ⟨fuel', last₀, next₀, lines', before, after, hrun', hshown', rfl, hbefore, hmark₀,
      hnear₀⟩ := ih
    cases fuel' with
    | zero => cases hrun'
    | succ fuel' =>
      have hfilled : Filled json start last (some next) :=
        ⟨hmark, hfits, hfollows, fun n hn ↦ Option.some.inj hn ▸ hfull⟩
      rw [rdlogLoop_near fuel' last₀ hjson hmark₀ hnear₀ hfilled] at hrun'
      obtain ⟨lines'', hrun'', rfl⟩ := Option.map_eq_some_iff.mp hrun'
      obtain ⟨first, rest, hfirst, hrest, rfl⟩ := shown_cons hshown'
      have hprecision : ((last + 1 : ℕ) : ℤ) - start = ((last + 1 - start : ℕ) : ℤ) := by omega
      rw [piece, hprecision] at hfirst
      have hlength := length_of_print (by omega) hfirst
      refine ⟨fuel', last, next, lines'', before ++ first, rest, hrun'', hrest,
        by rw [List.append_assoc], ?_, mark_of_memchr hfollows, ?_⟩
      · rw [List.length_append]
        omega
      · have := hspaced last next hmark hfollows
        omega

theorem lastLine_of_complete (hjson : json ≠ []) {fuel : ℕ} {lines : List LogLine}
    (hspaced : ∀ m next, Mark json m → memchr json (m + 1) comma = some next → next ≤ m + 1024)
    (hrun : rdlogLoop json fuel 0 0 0 = some lines) (hshown : shown lines = some json) {start : ℕ}
    (hstart : LineStart json start) (hend : memchr json (start + 1024) comma = none) :
    json.length < start + 2 ^ 31 := by
  by_contra hlong
  have hprintable := zero_notMem_shown fuel hrun hshown
  obtain ⟨fuel', last, next, lines', before, after, hrun', hshown', htext, hbefore, hmark, hnear⟩ :=
    rdlogLoop_reaches hjson hspaced hrun hshown hstart
  obtain ⟨last', next', -, hfilled⟩ := exists_filled hjson hmark hnear
  cases next' with
  | some n =>
    have hn := (memchr_eq_some hfilled.follows).2.1
    exact memchr_eq_none.mp hend n (hfilled.full n rfl) hn
  | none =>
    cases fuel' with
    | zero => cases hrun'
    | succ fuel' =>
      rw [rdlogLoop_near fuel' last hjson hmark hnear hfilled] at hrun'
      obtain rfl := Option.some.inj hrun'
      obtain ⟨first, _, hfirst, ⟨⟩, rfl⟩ := shown_cons hshown'
      have hlength : json.length ≤ start + first.length := by
        rw [htext, List.length_append, List.length_append]
        simpa using hbefore
      unfold piece printWithPrecision at hfirst
      split_ifs at hfirst with hprecision hzero
      · obtain rfl := Option.some.inj hfirst
        have hprefix := (List.takeWhile_prefix (l := (json.drop start).take
          (Json.toInt32 (json.length - start)).toNat) (· ≠ 0)).length_le
        have htake := List.length_take_le (Json.toInt32 (json.length - start)).toNat (json.drop start)
        have hint := Json.toInt32_lt (json.length - start)
        simp only [strAt] at hlength
        omega
      · exact hprintable (List.mem_of_mem_drop hzero)

theorem rdlogLoop_of_complete (h : Complete json) :
    ∃ fuel lines, rdlogLoop json fuel 0 0 0 = some lines ∧ shown lines = some json := by
  obtain ⟨fuel, lines, hrun, hshown⟩ := h
  obtain ⟨lines', hrun', heq⟩ := Option.map_eq_some_iff.mp hrun
  obtain ⟨-, rfl⟩ := List.cons.inj heq
  exact ⟨fuel, lines', hrun', hshown⟩

theorem spaced_of_complete (hjson : json ≠ []) (h : Complete json) {m next : ℕ} (hm : Mark json m)
    (hnext : memchr json (m + 1) comma = some next) : next ≤ m + 1024 := by
  obtain ⟨fuel, lines, hrun, -⟩ := rdlogLoop_of_complete h
  by_contra hgap
  have hnone : rdlogLoop json fuel 0 0 0 = none := rdlogLoop_stuck hjson hm hnext
    (Nat.not_le.mp hgap) fuel (.inl rfl) le_rfl (.inr rfl) (.inr (Nat.zero_le m))
  rw [hnone] at hrun
  cases hrun

/-- The callback logs a buffer completely if no comma is too far from the one before it, nothing in
it ends the printing and the last line is not too long for its precision. -/
theorem complete_iff (first : UInt8) (rest : Bytes) :
    Complete (first :: rest) ↔ Loggable (first :: rest) := by
  have hjson := List.cons_ne_nil first rest
  constructor
  · intro h
    obtain ⟨fuel, lines, hrun, hshown⟩ := rdlogLoop_of_complete h
    have hspaced : ∀ m next, Mark (first :: rest) m →
        memchr (first :: rest) (m + 1) comma = some next → next ≤ m + 1024 :=
      fun _ _ ↦ spaced_of_complete hjson h
    exact ⟨hspaced, zero_notMem_shown fuel hrun hshown,
      fun start ↦ lastLine_of_complete hjson hspaced hrun hshown⟩
  · intro h
    obtain ⟨fuel, lines, hrun, hshown⟩ :=
      rdlogLoop_logs hjson h 0 .first (.inl rfl) le_rfl (by omega : 0 < 0 + 1024)
    exact ⟨fuel, lines, by rw [rdkafkaStatsRdlogCb, hrun]; rfl, hshown⟩

def longMember : Bytes := [123] ++ List.replicate 1024 97 ++ [comma, 125]

/-- The callback logs empty lines for good. -/
theorem long_member_not_complete : ¬ Complete longMember := by
  intro h
  have hnext : memchr longMember (0 + 1) comma = some 1025 := by decide +kernel
  have hle := spaced_of_complete (List.cons_ne_nil _ _) h (.inl rfl) hnext
  omega

end N2Kafka.Util.KafkaStats
