import Mathlib.Data.List.Induction
import Mathlib.Data.List.Range
import N2Kafka.Lib.CString

namespace N2Kafka.Lib.JsonText

open Lib.CString

def quote : UInt8 := 34
def backslash : UInt8 := 92
def openBrace : UInt8 := 123
def closeBrace : UInt8 := 125

/-- Inside a string, braces and quotes behind a backslash are text. -/
inductive Lex
  | plain | string | escape
  deriving DecidableEq

def Lex.next : Lex → UInt8 → Lex
  | .plain, c => if c = quote then .string else .plain
  | .string, c => if c = quote then .plain else if c = backslash then .escape else .string
  | .escape, _ => .string

inductive Brace
  | opening | closing
  deriving DecidableEq

def Lex.brace (lex : Lex) (c : UInt8) : Option Brace :=
  if lex = .plain then
    if c = openBrace then some .opening else if c = closeBrace then some .closing else none
  else none

structure Nest where
  lex : Lex
  depth : ℕ
  deriving DecidableEq

def Nest.next (s : Nest) (c : UInt8) : Nest where
  lex := s.lex.next c
  depth :=
    match s.lex.brace c with
    | some .opening => s.depth + 1
    | some .closing => s.depth - 1
    | none => s.depth

/-- The lexical state and the number of open maps behind a text. -/
def nest (text : Bytes) : Nest := text.foldl Nest.next ⟨.plain, 0⟩

def depth (text : Bytes) : ℕ := (nest text).depth

def Opens (text : Bytes) (i : ℕ) : Prop :=
  depth (text.take i) = 0 ∧ depth (text.take (i + 1)) ≠ 0

def Closes (text : Bytes) (i : ℕ) : Prop :=
  depth (text.take i) ≠ 0 ∧ depth (text.take (i + 1)) = 0

instance (text : Bytes) (i : ℕ) : Decidable (Opens text i) := inferInstanceAs (Decidable (_ ∧ _))

instance (text : Bytes) (i : ℕ) : Decidable (Closes text i) := inferInstanceAs (Decidable (_ ∧ _))

def opened (text : Bytes) : List ℕ := (List.range text.length).filter (Opens text ·)

def closed (text : Bytes) : List ℕ := (List.range text.length).filter (Closes text ·)

/-- The maps of a text that are not inside another map: the first one lasts from the first brace
that opens at depth zero to the first one that leads back there, and so on. -/
def outermost (text : Bytes) : List Bytes :=
  List.zipWith (fun i j ↦ (text.take (j + 1)).drop i) (opened text) (closed text)

/-- The same in one pass: `current` is the outermost map that is still open. -/
structure Scan where
  nest : Nest
  current : Bytes
  objects : List Bytes
  deriving DecidableEq

def Scan.start : Scan := ⟨⟨.plain, 0⟩, [], []⟩

def Scan.next (s : Scan) (c : UInt8) : Scan :=
  let next := s.nest.next c
  if s.nest.depth = 0 ∧ next.depth = 0 then ⟨next, s.current, s.objects⟩
  else if next.depth = 0 then ⟨next, [], s.objects ++ [s.current ++ [c]]⟩
  else ⟨next, s.current ++ [c], s.objects⟩

def scan (text : Bytes) : Scan := text.foldl Scan.next .start

theorem nest_concat (text : Bytes) (c : UInt8) : nest (text ++ [c]) = (nest text).next c := by
  simp [nest]

theorem scan_concat (text : Bytes) (c : UInt8) : scan (text ++ [c]) = (scan text).next c := by
  simp [scan]

theorem Scan.next_nest (s : Scan) (c : UInt8) : (s.next c).nest = s.nest.next c := by
  simp only [Scan.next]
  repeat' split
  all_goals rfl

theorem scan_nest (text : Bytes) : (scan text).nest = nest text := by
  induction text using List.reverseRecOn with
  | nil => rfl
  | append_singleton text c ih => rw [scan_concat, Scan.next_nest, ih, nest_concat]

theorem scan_depth (text : Bytes) : (scan text).nest.depth = depth text := by
  rw [scan_nest]
  rfl

theorem depth_concat (text : Bytes) (c : UInt8) : depth (text ++ [c]) =
    match (nest text).lex.brace c with
    | some .opening => depth text + 1
    | some .closing => depth text - 1
    | none => depth text := by
  rw [depth, nest_concat]
  rfl

theorem scan_current_eq_nil_iff (text : Bytes) : (scan text).current = [] ↔ depth text = 0 := by
  induction text using List.reverseRecOn with
  | nil => simp [scan, Scan.start, depth, nest]
  | append_singleton text c ih =>
    have hd := scan_depth text
    have hnext : ((scan text).nest.next c).depth = depth (text ++ [c]) := by
      rw [scan_nest, depth, nest_concat]
    rw [scan_concat, Scan.next]
    split
    · rename_i h
      rw [ih, ← hd, ← hnext]
      exact iff_of_true h.1 h.2
    · split
      · rename_i h
        exact iff_of_true rfl (hnext ▸ h)
      · rename_i h
        exact iff_of_false (by simp) (hnext ▸ h)

section

variable {text : Bytes} {c : UInt8}

theorem scan_outside (h : depth text = 0) (h' : depth (text ++ [c]) = 0) :
    (scan (text ++ [c])).objects = (scan text).objects := by
  rw [← scan_depth, scan_concat, Scan.next_nest] at h'
  rw [← scan_depth] at h
  rw [scan_concat, Scan.next, if_pos ⟨h, h'⟩]

theorem scan_inside (h' : depth (text ++ [c]) ≠ 0) :
    (scan (text ++ [c])).objects = (scan text).objects ∧
      (scan (text ++ [c])).current = (scan text).current ++ [c] := by
  rw [← scan_depth, scan_concat, Scan.next_nest] at h'
  rw [scan_concat, Scan.next, if_neg (fun hh ↦ h' hh.2), if_neg h']
  exact ⟨rfl, rfl⟩

theorem scan_closes (h : depth text ≠ 0) (h' : depth (text ++ [c]) = 0) :
    (scan (text ++ [c])).objects = (scan text).objects ++ [(scan text).current ++ [c]] := by
  rw [← scan_depth, scan_concat, Scan.next_nest] at h'
  rw [← scan_depth] at h
  rw [scan_concat, Scan.next, if_neg (fun hh ↦ h hh.1), if_pos h']

end

theorem opens_append {text : Bytes} {i : ℕ} (c : UInt8) (hi : i < text.length) :
    Opens (text ++ [c]) i ↔ Opens text i := by
  rw [Opens, Opens, List.take_append_of_le_length hi.le, List.take_append_of_le_length hi]

theorem closes_append {text : Bytes} {i : ℕ} (c : UInt8) (hi : i < text.length) :
    Closes (text ++ [c]) i ↔ Closes text i := by
  rw [Closes, Closes, List.take_append_of_le_length hi.le, List.take_append_of_le_length hi]

theorem opens_last (text : Bytes) (c : UInt8) :
    Opens (text ++ [c]) text.length ↔ depth text = 0 ∧ depth (text ++ [c]) ≠ 0 := by
  rw [Opens, List.take_left, List.take_of_length_le (by simp)]

theorem closes_last (text : Bytes) (c : UInt8) :
    Closes (text ++ [c]) text.length ↔ depth text ≠ 0 ∧ depth (text ++ [c]) = 0 := by
  rw [Closes, List.take_left, List.take_of_length_le (by simp)]

theorem opened_concat (text : Bytes) (c : UInt8) : opened (text ++ [c]) =
    opened text ++ if depth text = 0 ∧ depth (text ++ [c]) ≠ 0 then [text.length] else [] := by
  have hold : (List.range text.length).filter (Opens (text ++ [c]) ·) = opened text := by
    refine List.filter_congr fun i hi ↦ ?_
    simp only [opens_append c (List.mem_range.mp hi)]
  rw [opened, List.length_append, List.length_singleton, List.range_succ, List.filter_append, hold,
    List.filter_singleton]
  simp only [opens_last, Bool.cond_decide]

theorem closed_concat (text : Bytes) (c : UInt8) : closed (text ++ [c]) =
    closed text ++ if depth text ≠ 0 ∧ depth (text ++ [c]) = 0 then [text.length] else [] := by
  have hold : (List.range text.length).filter (Closes (text ++ [c]) ·) = closed text := by
    refine List.filter_congr fun i hi ↦ ?_
    simp only [closes_append c (List.mem_range.mp hi)]
  rw [closed, List.length_append, List.length_singleton, List.range_succ, List.filter_append, hold,
    List.filter_singleton]
  simp only [closes_last, Bool.cond_decide]

theorem closed_lt {text : Bytes} {j : ℕ} (hj : j ∈ closed text) : j < text.length :=
  List.mem_range.mp (List.mem_filter.mp hj).1

theorem zipWith_slices_concat (text : Bytes) (c : UInt8) (is js : List ℕ)
    (hjs : ∀ j ∈ js, j < text.length) :
    List.zipWith (fun i j ↦ ((text ++ [c]).take (j + 1)).drop i) is js =
      List.zipWith (fun i j ↦ (text.take (j + 1)).drop i) is js := by
  induction is generalizing js with
  | nil => rfl
  | cons i is ih =>
    cases js with
    | nil => rfl
    | cons j js =>
      rw [List.zipWith_cons_cons, List.zipWith_cons_cons, ih js fun j' hj' ↦ hjs j' (.tail _ hj'),
        List.take_append_of_le_length (hjs j (.head _))]

theorem zipWith_concat_left {α β γ : Type*} (f : α → β → γ) {is : List α} {js : List β}
    (h : is.length = js.length) (i : α) : List.zipWith f (is ++ [i]) js = List.zipWith f is js := by
  have happ : List.zipWith f (is ++ [i]) (js ++ []) = List.zipWith f is js ++ List.zipWith f [i] [] :=
    List.zipWith_append h
  simpa using happ

structure Scanned (text : Bytes) : Prop where
  shut : depth text = 0 → (opened text).length = (closed text).length
  pending : depth text ≠ 0 → ∃ is i, opened text = is ++ [i] ∧ is.length = (closed text).length ∧
    i ≤ text.length ∧ (scan text).current = text.drop i
  objects : (scan text).objects = outermost text

theorem scanned (text : Bytes) : Scanned text := by
  induction text using List.reverseRecOn with
  | nil =>
    refine ⟨fun _ ↦ rfl, fun h ↦ absurd rfl h, rfl⟩
  | append_singleton text c ih =>
    have hnext : ((scan text).nest.next c).depth = depth (text ++ [c]) := by
      rw [scan_nest, depth, nest_concat]
    have hd := scan_depth text
    have hslices (is : List ℕ) := zipWith_slices_concat text c is (closed text) fun j ↦ closed_lt
    have hcurrent := scan_current_eq_nil_iff text
    by_cases h0 : depth text = 0 <;> by_cases h1 : depth (text ++ [c]) = 0
    · have ho : opened (text ++ [c]) = opened text := by simp [opened_concat, h1]
      have hc : closed (text ++ [c]) = closed text := by simp [closed_concat, h0]
      refine ⟨fun _ ↦ by rw [ho, hc, ih.shut h0], fun h ↦ absurd h1 h, ?_⟩
      rw [scan_concat, Scan.next, if_pos ⟨hd.trans h0, hnext.trans h1⟩, outermost, ho, hc, hslices]
      exact ih.objects
    · have ho : opened (text ++ [c]) = opened text ++ [text.length] := by
        simp [opened_concat, h0, h1]
      have hc : closed (text ++ [c]) = closed text := by simp [closed_concat, h0]
      have hscan : scan (text ++ [c]) = ⟨(scan text).nest.next c, [c], (scan text).objects⟩ := by
        rw [scan_concat, Scan.next]
        simp [hnext, h1, hcurrent.mpr h0]
      refine ⟨fun h ↦ absurd h h1, fun _ ↦ ⟨opened text, text.length, ho, ?_, by simp, ?_⟩, ?_⟩
      · rw [hc, ih.shut h0]
      · simp [hscan]
      · rw [hscan, outermost, ho, hc, zipWith_concat_left _ (ih.shut h0), hslices]
        exact ih.objects
    · obtain ⟨is, i, hopen, hlen, hi, hcur⟩ := ih.pending h0
      have ho : opened (text ++ [c]) = is ++ [i] := by simp [opened_concat, h1, hopen]
      have hc : closed (text ++ [c]) = closed text ++ [text.length] := by
        simp [closed_concat, h0, h1]
      have hscan : scan (text ++ [c]) =
          ⟨(scan text).nest.next c, [], (scan text).objects ++ [(scan text).current ++ [c]]⟩ := by
        rw [scan_concat, Scan.next]
        simp [hnext, h1, hd, h0]
      refine ⟨fun _ ↦ by simp [ho, hc, hlen], fun h ↦ absurd h1 h, ?_⟩
      have hlast : ((text ++ [c]).take (text.length + 1)).drop i = text.drop i ++ [c] := by
        rw [List.take_of_length_le (by simp), List.drop_append_of_le_length hi]
      rw [hscan, outermost, ho, hc, List.zipWith_append hlen, hslices, List.zipWith_cons_cons,
        List.zipWith_nil_left, hlast, hcur, ih.objects, outermost, hopen,
        zipWith_concat_left _ hlen]
    · obtain ⟨is, i, hopen, hlen, hi, hcur⟩ := ih.pending h0
      have ho : opened (text ++ [c]) = opened text := by simp [opened_concat, h0]
      have hc : closed (text ++ [c]) = closed text := by simp [closed_concat, h1]
      have hscan : scan (text ++ [c]) =
          ⟨(scan text).nest.next c, (scan text).current ++ [c], (scan text).objects⟩ := by
        rw [scan_concat, Scan.next]
        simp [hnext, h1]
      refine ⟨fun h ↦ absurd h h1, fun _ ↦ ⟨is, i, ho.trans hopen, hc ▸ hlen, ?_, ?_⟩, ?_⟩
      · rw [List.length_append]
        omega
      · rw [hscan, hcur, List.drop_append_of_le_length hi]
      · rw [hscan, outermost, ho, hc, hslices]
        exact ih.objects

theorem scan_objects (text : Bytes) : (scan text).objects = outermost text := (scanned text).objects

theorem Scan.objects_grow (s : Scan) (c : UInt8) : s.objects <+: (s.next c).objects := by
  unfold Scan.next
  dsimp only
  split
  · exact List.prefix_refl _
  · split
    · exact List.prefix_append _ _
    · exact List.prefix_refl _

theorem outermost_grows (text more : Bytes) : outermost text <+: outermost (text ++ more) := by
  induction more using List.reverseRecOn with
  | nil => simp
  | append_singleton more c ih =>
    refine ih.trans ?_
    rw [← List.append_assoc, ← scan_objects, ← scan_objects, scan_concat]
    exact Scan.objects_grow _ c

theorem nil_notMem_outermost (text : Bytes) : [] ∉ outermost text := by
  rw [← scan_objects]
  induction text using List.reverseRecOn with
  | nil => exact List.not_mem_nil
  | append_singleton text c ih =>
    rw [scan_concat]
    unfold Scan.next
    dsimp only
    split
    · exact ih
    · split
      · simpa using ih
      · exact ih

theorem scan_continued {text : Bytes} (h : depth text ≠ 0) (more : Bytes) :
    ((scan (text ++ more)).objects = (scan text).objects ∧
        (scan (text ++ more)).current = (scan text).current ++ more ∧ depth (text ++ more) ≠ 0) ∨
      ∃ back later, (scan (text ++ more)).objects =
        (scan text).objects ++ ((scan text).current ++ back) :: later := by
  induction more using List.reverseRecOn with
  | nil => exact .inl ⟨by simp, by simp, by simpa using h⟩
  | append_singleton more c ih =>
    rw [← List.append_assoc]
    obtain ⟨hobjects, hcurrent, hdeep⟩ | ⟨back, later, hobjects⟩ := ih
    · by_cases h' : depth (text ++ more ++ [c]) = 0
      · refine .inr ⟨more ++ [c], [], ?_⟩
        rw [scan_closes hdeep h', hobjects, hcurrent, List.append_assoc]
      · obtain ⟨hobjects', hcurrent'⟩ := scan_inside h'
        refine .inl ⟨hobjects'.trans hobjects, ?_, h'⟩
        rw [hcurrent', hcurrent, List.append_assoc]
    · obtain ⟨later', hlater⟩ := Scan.objects_grow (scan (text ++ more)) c
      refine .inr ⟨back, later ++ later', ?_⟩
      rw [scan_concat, ← hlater, hobjects, List.append_assoc, List.cons_append]

end N2Kafka.Lib.JsonText
