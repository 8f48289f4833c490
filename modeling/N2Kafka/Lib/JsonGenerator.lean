import N2Kafka.Lib.CString

namespace N2Kafka.Lib.JsonGenerator

open Lib.CString

inductive Json
  | string (s : Bytes)
  | object (members : List (Bytes × Json))
  | array (items : List Json)

/-- What stands between the quotes of a JSON string. -/
inductive StringBody : Bytes → Prop
  | nil : StringBody []
  | plain {c : UInt8} {s : Bytes} (hc : 32 ≤ c) (hquote : c ≠ 34) (hback : c ≠ 92)
      (hs : StringBody s) : StringBody (c :: s)
  | escaped {e : UInt8} {s : Bytes} (he : e ∈ ascii "\"\\/bfnrt") (hs : StringBody s) :
      StringBody (92 :: e :: s)
  | unicode {h s : Bytes} (hlen : h.length = 4) (hhex : ∀ d ∈ h, d ∈ ascii "0123456789abcdefABCDEF")
      (hs : StringBody s) : StringBody (92 :: 117 :: (h ++ s))

theorem StringBody.append {s t : Bytes} (hs : StringBody s) (ht : StringBody t) :
    StringBody (s ++ t) := by
  induction hs with
  | nil => exact ht
  | plain hc hquote hback _ ih => exact .plain hc hquote hback ih
  | escaped he _ ih => exact .escaped he ih
  | unicode hlen hhex _ ih =>
    rw [List.cons_append, List.cons_append, List.append_assoc]
    exact .unicode hlen hhex ih

/-- How a generator without white space writes a byte of a string, and how deep it nests. -/
structure Style where
  escape : UInt8 → Bytes
  escape_body : ∀ c, StringBody (escape c)
  maxDepth : ℕ

def Style.escaped (y : Style) (s : Bytes) : Bytes := s.flatMap y.escape

def Style.quote (y : Style) (s : Bytes) : Bytes := ascii "\"" ++ y.escaped s ++ ascii "\""

def commaSep : List Bytes → Bytes
  | [] => []
  | t :: ts => t ++ ts.flatMap (ascii "," ++ ·)

def member (key value : Bytes) : Bytes := key ++ ascii ":" ++ value

mutual

def render (y : Style) : Json → Bytes
  | .string s => y.quote s
  | .object members => ascii "\x7b" ++ commaSep (renderMembers y members) ++ ascii "\x7d"
  | .array items => ascii "[" ++ commaSep (renderItems y items) ++ ascii "]"

def renderMembers (y : Style) : List (Bytes × Json) → List Bytes
  | [] => []
  | (key, value) :: members => member (y.quote key) (render y value) :: renderMembers y members

def renderItems (y : Style) : List Json → List Bytes
  | [] => []
  | item :: items => render y item :: renderItems y items

end

/-- JSON texts without white space. -/
inductive WellFormed : Bytes → Prop
  | string {s : Bytes} (hs : StringBody s) : WellFormed (ascii "\"" ++ s ++ ascii "\"")
  | object {members : List (Bytes × Bytes)} (hkeys : ∀ m ∈ members, StringBody m.1)
      (hvalues : ∀ m ∈ members, WellFormed m.2) :
      WellFormed (ascii "\x7b" ++
        commaSep (members.map fun m ↦ member (ascii "\"" ++ m.1 ++ ascii "\"") m.2) ++ ascii "\x7d")
  | array {items : List Bytes} (hitems : ∀ t ∈ items, WellFormed t) :
      WellFormed (ascii "[" ++ commaSep items ++ ascii "]")

theorem Style.escaped_body (y : Style) (s : Bytes) : StringBody (y.escaped s) := by
  induction s with
  | nil => exact .nil
  | cons c s ih => exact (y.escape_body c).append ih

@[simp]
theorem Style.escaped_nil (y : Style) : y.escaped [] = [] := rfl

@[simp]
theorem Style.escaped_append (y : Style) (s t : Bytes) :
    y.escaped (s ++ t) = y.escaped s ++ y.escaped t := by
  simp [Style.escaped]

mutual

theorem wellFormed_render (y : Style) : ∀ j : Json, WellFormed (render y j)
  | .string s => .string (y.escaped_body s)
  | .object members => by
    obtain ⟨texts, htexts, hkeys, hvalues⟩ := renderMembers_texts y members
    rw [render, htexts]
    exact .object hkeys hvalues
  | .array items => .array (wellFormed_renderItems y items)

theorem renderMembers_texts (y : Style) : ∀ members : List (Bytes × Json),
    ∃ texts : List (Bytes × Bytes), renderMembers y members =
        texts.map (fun m ↦ member (ascii "\"" ++ m.1 ++ ascii "\"") m.2) ∧
      (∀ m ∈ texts, StringBody m.1) ∧ ∀ m ∈ texts, WellFormed m.2
  | [] => ⟨[], rfl, by simp, by simp⟩
  | (key, value) :: members => by
    obtain ⟨texts, htexts, hkeys, hvalues⟩ := renderMembers_texts y members
    refine ⟨(y.escaped key, render y value) :: texts, ?_, ?_, ?_⟩
    · rw [renderMembers, htexts]
      rfl
    · exact List.forall_mem_cons.mpr ⟨y.escaped_body key, hkeys⟩
    · exact List.forall_mem_cons.mpr ⟨wellFormed_render y value, hvalues⟩

theorem wellFormed_renderItems (y : Style) : ∀ items : List Json,
    ∀ t ∈ renderItems y items, WellFormed t
  | [] => by simp [renderItems]
  | item :: items =>
    List.forall_mem_cons.mpr ⟨wellFormed_render y item, wellFormed_renderItems y items⟩

end

/-- What a generator expects inside one map or array. -/
inductive Level
  | start | mapStart | mapKey | mapVal | arrayStart | inArray | complete | error
  deriving DecidableEq

inductive Status
  | ok | keysMustBeStrings | maxDepthExceeded | inErrorState | generationComplete | invalidNumber
  | noBuf | invalidString
  deriving DecidableEq

inductive Op
  | string (s : Bytes) | mapOpen | mapClose | arrayOpen | arrayClose
  deriving DecidableEq

structure Gen where
  level : Level
  outer : List Level
  deriving DecidableEq

def Gen.initial : Gen := ⟨.start, []⟩

def Level.status : Level → Status
  | .error => .inErrorState
  | .complete => .generationComplete
  | _ => .ok

def Level.sep : Level → Bytes
  | .mapKey | .inArray => ascii ","
  | .mapVal => ascii ":"
  | _ => []

def Level.appended : Level → Level
  | .start => .complete
  | .mapStart | .mapKey => .mapVal
  | .arrayStart => .inArray
  | .mapVal => .mapKey
  | l => l

structure Emitted where
  status : Status
  printed : List Bytes
  gen : Gen

def emitOpen (y : Style) (inside : Level) (bracket : Bytes) (g : Gen) : Emitted :=
  if g.level.status ≠ .ok then ⟨g.level.status, [], g⟩
  else if g.level = .mapKey ∨ g.level = .mapStart then ⟨.keysMustBeStrings, [], g⟩
  else if g.outer.length + 1 ≥ y.maxDepth then
    ⟨.maxDepthExceeded, [g.level.sep], ⟨.error, g.level :: g.outer⟩⟩
  else ⟨.ok, [g.level.sep, bracket], ⟨inside, g.level :: g.outer⟩⟩

def emitClose (bracket : Bytes) (g : Gen) : Emitted :=
  if g.level.status ≠ .ok then ⟨g.level.status, [], g⟩
  else
    match g.outer with
    | [] => ⟨.invalidString, [], g⟩
    | l :: ls => ⟨.ok, [bracket], ⟨l.appended, ls⟩⟩

def emit (y : Style) (g : Gen) : Op → Emitted
  | .string s =>
    if g.level.status ≠ .ok then ⟨g.level.status, [], g⟩
    else ⟨.ok, [g.level.sep, ascii "\"", y.escaped s, ascii "\""],
      { g with level := g.level.appended }⟩
  | .mapOpen => emitOpen y .mapStart (ascii "\x7b") g
  | .mapClose => emitClose (ascii "\x7d") g
  | .arrayOpen => emitOpen y .arrayStart (ascii "[") g
  | .arrayClose => emitClose (ascii "]") g

/-- The text of calls that all succeed. -/
def generate (y : Style) : List Op → Gen → Option (Bytes × Gen)
  | [], g => some ([], g)
  | op :: ops, g =>
    if (emit y g op).status = .ok then
      (generate y ops (emit y g op).gen).map fun last ↦
        ((emit y g op).printed.flatten ++ last.1, last.2)
    else none

theorem generate_append (y : Style) (ops ops' : List Op) (g : Gen) :
    generate y (ops ++ ops') g = (generate y ops g).bind fun first ↦
      (generate y ops' first.2).map fun last ↦ (first.1 ++ last.1, last.2) := by
  induction ops generalizing g with
  | nil => simp [generate]
  | cons op ops ih =>
    simp only [List.cons_append, generate]
    split
    · rw [ih]
      cases generate y ops (emit y g op).gen with
      | none => rfl
      | some first => simp [Function.comp_def]
    · rfl

@[simp]
theorem generate_string (y : Style) (s : Bytes) (ops : List Op) {l : Level} (hl : l.status = .ok)
    (ls : List Level) : generate y (.string s :: ops) ⟨l, ls⟩ =
      (generate y ops ⟨l.appended, ls⟩).map fun last ↦ (l.sep ++ y.quote s ++ last.1, last.2) := by
  simp [generate, emit, hl, Style.quote]

theorem generate_members (y : Style) (members : List (Bytes × Bytes)) (ls : List Level) :
    generate y (members.flatMap fun m ↦ [.string m.1, .string m.2]) ⟨.mapKey, ls⟩ =
      some ((members.map fun m ↦ member (y.quote m.1) (y.quote m.2)).flatMap (ascii "," ++ ·),
        ⟨.mapKey, ls⟩) := by
  induction members with
  | nil => rfl
  | cons m members ih =>
    rw [List.flatMap_cons, List.cons_append, List.cons_append, List.nil_append,
      generate_string y _ _ rfl, Level.appended, generate_string y _ _ rfl, Level.appended, ih]
    simp [Level.sep, member]

theorem renderMembers_strings (y : Style) (members : List (Bytes × Bytes)) :
    renderMembers y (members.map fun m ↦ (m.1, .string m.2)) =
      members.map fun m ↦ member (y.quote m.1) (y.quote m.2) := by
  induction members with
  | nil => rfl
  | cons m members ih => rw [List.map_cons, renderMembers, ih, render, List.map_cons]

@[simp]
theorem generate_mapClose (y : Style) (ops : List Op) {l : Level} (hl : l.status = .ok)
    (l' : Level) (ls : List Level) : generate y (.mapClose :: ops) ⟨l, l' :: ls⟩ =
      (generate y ops ⟨l'.appended, ls⟩).map fun last ↦ (ascii "\x7d" ++ last.1, last.2) := by
  simp [generate, emit, emitClose, hl]

@[simp]
theorem generate_arrayClose (y : Style) (ops : List Op) {l : Level} (hl : l.status = .ok)
    (l' : Level) (ls : List Level) : generate y (.arrayClose :: ops) ⟨l, l' :: ls⟩ =
      (generate y ops ⟨l'.appended, ls⟩).map fun last ↦ (ascii "]" ++ last.1, last.2) := by
  simp [generate, emit, emitClose, hl]

structure Level.Free (l : Level) : Prop where
  status : l.status = .ok
  ne_mapKey : l ≠ .mapKey
  ne_mapStart : l ≠ .mapStart

theorem emitOpen_free (y : Style) (inside : Level) (bracket : Bytes) {l : Level} (hl : l.Free)
    (ls : List Level) (hfits : ls.length + 1 < y.maxDepth) :
    emitOpen y inside bracket ⟨l, ls⟩ = ⟨.ok, [l.sep, bracket], ⟨inside, l :: ls⟩⟩ := by
  simp [emitOpen, hl.status, hl.ne_mapKey, hl.ne_mapStart, Nat.not_le.mpr hfits]

theorem emitOpen_tooDeep (y : Style) (inside : Level) (bracket : Bytes) {l : Level} (hl : l.Free)
    (ls : List Level) (hdeep : y.maxDepth ≤ ls.length + 1) :
    (emitOpen y inside bracket ⟨l, ls⟩).status = .maxDepthExceeded := by
  simp [emitOpen, hl.status, hl.ne_mapKey, hl.ne_mapStart, hdeep]

theorem generate_mapOpen (y : Style) (ops : List Op) {l : Level} (hl : l.Free) (ls : List Level)
    (hfits : ls.length + 1 < y.maxDepth) : generate y (.mapOpen :: ops) ⟨l, ls⟩ =
      (generate y ops ⟨.mapStart, l :: ls⟩).map fun last ↦
        (l.sep ++ ascii "\x7b" ++ last.1, last.2) := by
  simp [generate, emit, emitOpen_free y _ _ hl ls hfits]

theorem generate_arrayOpen (y : Style) (ops : List Op) {l : Level} (hl : l.Free)
    (ls : List Level) (hfits : ls.length + 1 < y.maxDepth) :
    generate y (.arrayOpen :: ops) ⟨l, ls⟩ =
      (generate y ops ⟨.arrayStart, l :: ls⟩).map fun last ↦
        (l.sep ++ ascii "[" ++ last.1, last.2) := by
  simp [generate, emit, emitOpen_free y _ _ hl ls hfits]

theorem generate_mapOpen_tooDeep (y : Style) (ops : List Op) {l : Level} (hl : l.Free)
    (ls : List Level) (hdeep : y.maxDepth ≤ ls.length + 1) :
    generate y (.mapOpen :: ops) ⟨l, ls⟩ = none := by
  simp [generate, emit, emitOpen_tooDeep y _ _ hl ls hdeep]

theorem generate_arrayOpen_tooDeep (y : Style) (ops : List Op) {l : Level} (hl : l.Free)
    (ls : List Level) (hdeep : y.maxDepth ≤ ls.length + 1) :
    generate y (.arrayOpen :: ops) ⟨l, ls⟩ = none := by
  simp [generate, emit, emitOpen_tooDeep y _ _ hl ls hdeep]

theorem generate_object (y : Style) (members : List (Bytes × Bytes)) {l : Level} (hl : l.Free)
    (ls : List Level) (hfits : ls.length + 1 < y.maxDepth) :
    generate y (.mapOpen :: ((members.flatMap fun m ↦ [.string m.1, .string m.2]) ++ [.mapClose]))
        ⟨l, ls⟩ =
      some (l.sep ++ render y (.object (members.map fun m ↦ (m.1, .string m.2))),
        ⟨l.appended, ls⟩) := by
  rw [generate_mapOpen y _ hl ls hfits, render, renderMembers_strings]
  cases members with
  | nil => simp [generate, commaSep, generate_mapClose y [] (l := .mapStart) rfl]
  | cons m members =>
    simp only [List.flatMap_cons, List.cons_append, List.nil_append]
    rw [generate_string y _ _ rfl, Level.appended, generate_string y _ _ rfl, Level.appended,
      generate_append, generate_members, Option.bind_some,
      generate_mapClose y [] (l := .mapKey) rfl]
    simp [generate, Level.sep, commaSep, member]

end N2Kafka.Lib.JsonGenerator
