import N2Kafka.Decoder.Expat
import N2Kafka.Lib.JsonGenerator

namespace N2Kafka.Decoder.XmlDocument

open Lib.CString Lib.JsonGenerator Decoder.Expat

abbrev Run := {fragments : List Bytes // [] ∉ fragments}

theorem no_empty_fragment : ([] : Bytes) ∉ ([] : List Bytes) := List.not_mem_nil

def Run.text (r : Run) : Bytes := r.1.flatten

def Run.events (r : Run) : List XmlEvent := r.1.map .characterData

/-- The children of an element, each one with the text before its own children and the text behind
its end tag. -/
inductive Forest
  | nil
  | cons (el : CStr) (attr : List (CStr × CStr)) (text : Run) (children : Forest) (tail : Run)
      (rest : Forest)

def Forest.events : Forest → List XmlEvent
  | .nil => []
  | .cons el attr text children tail rest =>
    [.startElement el attr] ++ (text.events ++ (children.events ++ ([.endElement el] ++
      (tail.events ++ rest.events))))

/-- How many JSON levels the children need above that of their parent. -/
def Forest.height : Forest → ℕ
  | .nil => 0
  | .cons _ attr _ children _ rest =>
    max (2 + max (if attr = [] then 0 else 1) children.height) rest.height

structure Document (maxDepth : ℕ) where
  el : CStr
  attr : List (CStr × CStr)
  text : Run
  children : Forest
  fits : 1 + max (if attr = [] then 0 else 1) children.height < maxDepth

variable {maxDepth : ℕ}

def Document.inner (d : Document maxDepth) : List XmlEvent :=
  [.startElement d.el d.attr] ++ (d.text.events ++ d.children.events)

def Document.events (d : Document maxDepth) : List XmlEvent := d.inner ++ [.endElement d.el]

def attributesMember (attr : List (CStr × CStr)) : List (Bytes × Json) :=
  if attr = [] then []
  else [(ascii "attributes", .object (attr.map fun a ↦ (a.1.1, .string a.2.1)))]

def textMember (key : Bytes) (r : Run) : List (Bytes × Json) :=
  if r.text = [] then [] else [(key, .string r.text)]

def childrenMember : List Json → List (Bytes × Json)
  | [] => []
  | j :: js => [(ascii "children", .array (j :: js))]

/-- The object of an element, as documented. -/
def elementJson (el : CStr) (attr : List (CStr × CStr)) (text : Run) (children : List Json)
    (tail : List (Bytes × Json)) : Json :=
  .object ((ascii "tag", .string el.1) :: (attributesMember attr ++ (textMember (ascii "text") text ++
    (childrenMember children ++ tail))))

def Forest.toJson : Forest → List Json
  | .nil => []
  | .cons el attr text children tail rest =>
    elementJson el attr text children.toJson (textMember (ascii "tail") tail) :: rest.toJson

def Document.toJson (d : Document maxDepth) : Json :=
  elementJson d.el d.attr d.text d.children.toJson []

variable (y : Style)

def splice (buf text : Bytes) : Bytes := buf.dropLast ++ (y.escaped text ++ ascii "\"")

/-- The buffer behind the pieces of a run; `printed` is the text bit of the frame. -/
def runBuf (key : Bytes) : Bool → List Bytes → Bytes → Bytes
  | _, [], buf => buf
  | true, f :: fs, buf => runBuf key true fs (splice y buf f)
  | false, f :: fs, buf =>
    runBuf key true fs (buf ++ (ascii "," ++ member (y.quote key) (y.quote f)))

def contentKey (children : Bool) : Bytes := if children then ascii "tail" else ascii "text"

def headText (el : CStr) (attr : List (CStr × CStr)) : Bytes :=
  ascii "\x7b" ++ (member (y.quote (ascii "tag")) (y.quote el.1) ++
    if attr = [] then []
    else ascii "," ++ member (y.quote (ascii "attributes"))
      (render y (.object (attr.map fun a ↦ (a.1.1, .string a.2.1)))))

def siblingText (children : Bool) : Bytes :=
  if children then ascii "\x7d," else ascii "," ++ member (y.quote (ascii "children")) (ascii "[")

def closeText (children : Bool) : Bytes := if children then ascii "\x7d]" else []

def Run.any (r : Run) : Bool := r.1 ≠ []

def Forest.any : Forest → Bool
  | .nil => false
  | .cons .. => true

def Forest.anyTail : Forest → Bool
  | .nil => false
  | .cons _ _ _ _ tail rest => tail.any || rest.anyTail

/-- The buffer behind the children of a frame with these two bits. The last child stays open. -/
def forestBuf : Forest → Bool → Bool → Bytes → Bytes
  | .nil, _, _, buf => buf
  | .cons el attr text children tail rest, printed, opened, buf =>
    let buf := buf ++ (siblingText y opened ++ headText y el attr)
    let buf := runBuf y (ascii "text") false text.1 buf
    let buf := forestBuf children text.any false buf ++ closeText children.any
    forestBuf rest (printed || tail.any) true (runBuf y (ascii "tail") printed tail.1 buf)

def documentBuf (d : Document maxDepth) (buf : Bytes) : Bytes :=
  forestBuf y d.children d.text.any false
    (runBuf y (ascii "text") false d.text.1 (buf ++ headText y d.el d.attr)) ++
    (closeText d.children.any ++ ascii "\x7d")

def documentText (d : Document maxDepth) : Bytes := documentBuf y d []

variable {y}

theorem headText_ne_nil (el : CStr) (attr : List (CStr × CStr)) : headText y el attr ≠ [] := by
  simp [headText, ascii]

theorem splice_append (front : Bytes) {buf : Bytes} (hbuf : buf ≠ []) (text : Bytes) :
    splice y (front ++ buf) text = front ++ splice y buf text := by
  rw [splice, List.dropLast_append_of_ne_nil hbuf, List.append_assoc, splice]

theorem splice_ne_nil (buf text : Bytes) : splice y buf text ≠ [] := by simp [splice, ascii]

theorem runBuf_append (key : Bytes) (printed : Bool) (fragments : List Bytes) (front : Bytes)
    {buf : Bytes} (hbuf : buf ≠ []) :
    runBuf y key printed fragments (front ++ buf) = front ++ runBuf y key printed fragments buf ∧
      runBuf y key printed fragments buf ≠ [] := by
  induction fragments generalizing printed buf with
  | nil => exact ⟨by simp [runBuf], by simpa [runBuf] using hbuf⟩
  | cons f fragments ih =>
    cases printed with
    | false =>
      rw [runBuf, runBuf, List.append_assoc]
      exact ih true (by simp [hbuf])
    | true =>
      rw [runBuf, runBuf, splice_append front hbuf]
      exact ih true (splice_ne_nil buf f)

theorem forestBuf_append (f : Forest) (printed opened : Bool) (front : Bytes) {buf : Bytes}
    (hbuf : buf ≠ []) :
    forestBuf y f printed opened (front ++ buf) = front ++ forestBuf y f printed opened buf ∧
      forestBuf y f printed opened buf ≠ [] := by
  induction f generalizing printed opened buf with
  | nil => exact ⟨rfl, hbuf⟩
  | cons el attr text children tail rest ihc ihr =>
    simp only [forestBuf]
    have hown : buf ++ (siblingText y opened ++ headText y el attr) ≠ [] := by simp [hbuf]
    obtain ⟨htext, hne⟩ := runBuf_append (y := y) (ascii "text") false text.1 front hown
    rw [List.append_assoc, htext]
    obtain ⟨hchildren, hne⟩ := ihc text.any false hne
    rw [hchildren, List.append_assoc]
    have hclosed := List.append_ne_nil_of_left_ne_nil hne (closeText children.any)
    obtain ⟨htail, hne⟩ := runBuf_append (y := y) (ascii "tail") printed tail.1 front hclosed
    rw [htail]
    exact ihr _ true hne

theorem documentBuf_eq (d : Document maxDepth) (front : Bytes) :
    documentBuf y d front = front ++ documentText y d ∧ documentText y d ≠ [] := by
  obtain ⟨htext, hne⟩ := runBuf_append (y := y) (ascii "text") false d.text.1 front
    (headText_ne_nil (y := y) d.el d.attr)
  obtain ⟨hforest, hne⟩ := forestBuf_append (y := y) d.children d.text.any false front hne
  refine ⟨?_, by simp [documentText, documentBuf, ascii]⟩
  simp [documentText, documentBuf, htext, hforest]

/-! ## Where it is the documented JSON -/

def runText (y : Style) (key : Bytes) (r : Run) : Bytes :=
  if r.any then ascii "," ++ member (y.quote key) (y.quote r.text) else []

def forestText (y : Style) : Forest → Bool → Bytes
  | .nil, _ => []
  | .cons el attr text children tail rest, opened =>
    siblingText y opened ++ (headText y el attr ++ (runText y (ascii "text") text ++
      (forestText y children false ++ (closeText children.any ++ (runText y (ascii "tail") tail ++
        forestText y rest true)))))

def Run.count (r : Run) : ℕ := if r.any then 1 else 0

def Forest.tails : Forest → ℕ
  | .nil => 0
  | .cons _ _ _ _ tail rest => tail.count + rest.tails

/-- Every element has text in one place at most: before its first child, or behind one of its
children. -/
def Forest.OneRun : Forest → Prop
  | .nil => True
  | .cons _ _ text children _ rest =>
    text.count + children.tails ≤ 1 ∧ children.OneRun ∧ rest.OneRun

def Document.OneRun (d : Document maxDepth) : Prop :=
  d.text.count + d.children.tails ≤ 1 ∧ d.children.OneRun

/-- The runs that find the text bit set by an earlier run. -/
def Forest.spliced : Forest → Bool → ℕ
  | .nil, _ => 0
  | .cons _ _ text children tail rest, printed =>
    children.spliced text.any + (if printed then tail.count else 0) +
      rest.spliced (printed || tail.any)

theorem spliced_eq_zero_iff (f : Forest) (printed : Bool) :
    f.spliced printed = 0 ↔ f.OneRun ∧ (if printed then 1 else 0) + f.tails ≤ 1 := by
  induction f generalizing printed with
  | nil => cases printed <;> simp [Forest.spliced, Forest.OneRun, Forest.tails]
  | cons el attr text children tail rest ihc ihr =>
    simp only [Forest.spliced, Forest.OneRun, Forest.tails, Nat.add_eq_zero_iff, ihc, ihr, Run.count]
    constructor
    · rintro ⟨⟨⟨hc, htext⟩, hz⟩, hr, htail⟩
      refine ⟨⟨htext, hc, hr⟩, ?_⟩
      cases printed <;> cases hany : tail.any <;> simp [hany] at hz htail ⊢ <;> omega
    · rintro ⟨⟨htext, hc, hr⟩, htail⟩
      refine ⟨⟨⟨hc, htext⟩, ?_⟩, hr, ?_⟩
      · cases printed with
        | false => rfl
        | true =>
          rw [if_pos rfl] at htail ⊢
          omega
      · cases printed <;> cases hany : tail.any
        all_goals
          simp only [hany, Bool.or_true, Bool.or_false, Bool.false_eq_true, if_true, if_false]
            at htail ⊢
          omega

theorem Run.any_iff (r : Run) : r.any = true ↔ r.text ≠ [] := by
  obtain ⟨fragments, hne⟩ := r
  cases fragments with
  | nil => simp [Run.any, Run.text]
  | cons f fragments =>
    have hf : f ≠ [] := fun h ↦ hne (by simp [h])
    simp [Run.any, Run.text, hf]

theorem runBuf_printed (key : Bytes) (fragments : List Bytes) (buf : Bytes) :
    runBuf y key true fragments (buf ++ ascii "\"") =
      buf ++ (y.escaped fragments.flatten ++ ascii "\"") := by
  induction fragments generalizing buf with
  | nil => simp [runBuf]
  | cons f fragments ih =>
    have hs : splice y (buf ++ ascii "\"") f = (buf ++ y.escaped f) ++ ascii "\"" := by
      simp [splice, ascii]
    rw [runBuf, hs, ih]
    simp

theorem runBuf_first (key : Bytes) (r : Run) (buf : Bytes) :
    runBuf y key false r.1 buf = buf ++ runText y key r := by
  obtain ⟨fragments, hne⟩ := r
  cases fragments with
  | nil => simp [runBuf, runText, Run.any]
  | cons f fragments =>
    have hbuf : buf ++ (ascii "," ++ member (y.quote key) (y.quote f)) =
        (buf ++ (ascii "," ++ member (y.quote key) (ascii "\"" ++ y.escaped f))) ++ ascii "\"" := by
      simp [member, Style.quote]
    rw [runBuf, hbuf, runBuf_printed]
    simp [runText, Run.any, Run.text, member, Style.quote]

theorem runBuf_further (key : Bytes) (fragments : List Bytes) {buf : Bytes} (hbuf : buf ≠ []) :
    (runBuf y key true fragments buf).length =
      buf.length + (y.escaped fragments.flatten).length := by
  induction fragments generalizing buf with
  | nil => simp [runBuf]
  | cons f fragments ih =>
    have hlen := List.length_pos_iff.mpr hbuf
    rw [runBuf, ih (splice_ne_nil buf f), splice]
    simp only [List.length_append, List.length_dropLast, List.flatten_cons, Style.escaped_append]
    simp [ascii]
    omega

/-- What a run that is not printed under its own key lacks. -/
def lacking (y : Style) : ℕ := (ascii "," ++ member (y.quote (ascii "tail")) (y.quote [])).length

theorem lacking_pos : 0 < lacking y := by simp [lacking, ascii]

theorem runText_tail (r : Run) : (runText y (ascii "tail") r).length =
    (y.escaped r.text).length + r.count * lacking y := by
  by_cases h : r.any
  · simp [runText, Run.count, h, lacking, member, Style.quote]
    omega
  · have htext : r.text = [] := by simpa [h] using (Run.any_iff r).not
    simp [runText, Run.count, h, htext]

theorem forestBuf_eq (f : Forest) {printed : Bool} (opened : Bool) (buf : Bytes)
    (hspliced : f.spliced printed = 0) :
    forestBuf y f printed opened buf = buf ++ forestText y f opened := by
  induction f generalizing printed opened buf with
  | nil => simp [forestBuf, forestText]
  | cons el attr text children tail rest ihc ihr =>
    rw [Forest.spliced] at hspliced
    simp only [forestBuf, forestText]
    rw [runBuf_first, ihc _ _ (by omega), ihr _ _ (by omega)]
    cases printed with
    | false => simp [runBuf_first]
    | true =>
      have hany : tail.1 = [] := by
        simp [Run.count, Run.any] at hspliced
        tauto
      simp [hany, runBuf, runText, Run.any]

theorem runBuf_tail_length (printed : Bool) (r : Run) {buf : Bytes} (hbuf : buf ≠ []) :
    (runBuf y (ascii "tail") printed r.1 buf).length + (if printed then r.count else 0) * lacking y =
      buf.length + (runText y (ascii "tail") r).length := by
  cases printed with
  | false => simp [runBuf_first]
  | true =>
    rw [runBuf_further _ _ hbuf, runText_tail, if_pos rfl, Run.text]
    omega

theorem forestBuf_length (f : Forest) (printed opened : Bool) {buf : Bytes} (hbuf : buf ≠ []) :
    (forestBuf y f printed opened buf).length + f.spliced printed * lacking y =
      buf.length + (forestText y f opened).length := by
  induction f generalizing printed opened buf with
  | nil => simp [forestBuf, forestText, Forest.spliced]
  | cons el attr text children tail rest ihc ihr =>
    simp only [forestBuf, forestText, Forest.spliced, runBuf_first, Nat.add_mul]
    have hown : (buf ++ (siblingText y opened ++ headText y el attr)) ++
        runText y (ascii "text") text ≠ [] := by simp [hbuf]
    have hchildren := ihc text.any false hown
    have hne := (forestBuf_append (y := y) children text.any false [] hown).2
    have hclosed := List.append_ne_nil_of_left_ne_nil hne (closeText children.any)
    have htail := runBuf_tail_length (y := y) printed tail hclosed
    have hrest := ihr (printed || tail.any) true
      (runBuf_append (y := y) (ascii "tail") printed tail.1 [] hclosed).2
    simp only [List.length_append] at hchildren htail hrest ⊢
    omega

def membersText (y : Style) (members : List (Bytes × Json)) : Bytes :=
  (renderMembers y members).flatMap (ascii "," ++ ·)

theorem renderMembers_append (members members' : List (Bytes × Json)) :
    renderMembers y (members ++ members') = renderMembers y members ++ renderMembers y members' := by
  induction members with
  | nil => rfl
  | cons m members ih => rw [List.cons_append, renderMembers, ih, renderMembers, List.cons_append]

theorem membersText_append (members members' : List (Bytes × Json)) :
    membersText y (members ++ members') = membersText y members ++ membersText y members' := by
  rw [membersText, renderMembers_append, List.flatMap_append, membersText, membersText]

theorem membersText_textMember (key : Bytes) (r : Run) :
    membersText y (textMember key r) = runText y key r := by
  by_cases h : r.any
  · simp [textMember, runText, h, (Run.any_iff r).mp h, membersText, renderMembers, render]
  · have htext : r.text = [] := by simpa [h] using (Run.any_iff r).not
    simp [textMember, runText, h, htext, membersText, renderMembers]

theorem render_elementJson (el : CStr) (attr : List (CStr × CStr)) (text : Run)
    (children : List Json) (tail : List (Bytes × Json)) :
    render y (elementJson el attr text children tail) = headText y el attr ++
      (runText y (ascii "text") text ++ (membersText y (childrenMember children) ++
        (membersText y tail ++ ascii "\x7d"))) := by
  have hattr : membersText y (attributesMember attr) = if attr = [] then []
      else ascii "," ++ member (y.quote (ascii "attributes"))
        (render y (.object (attr.map fun a ↦ (a.1.1, .string a.2.1)))) := by
    by_cases h : attr = []
    · simp [attributesMember, h, membersText, renderMembers]
    · simp [attributesMember, h, membersText, renderMembers]
  rw [elementJson, render, renderMembers, commaSep, ← membersText, membersText_append,
    membersText_append, membersText_append, membersText_textMember, hattr, headText, render]
  simp only [List.append_assoc]

theorem forestText_eq (f : Forest) :
    forestText y f true ++ ascii "\x7d" =
        ascii "\x7d" ++ (renderItems y f.toJson).flatMap (ascii "," ++ ·) ∧
      forestText y f false ++ closeText f.any = membersText y (childrenMember f.toJson) := by
  induction f with
  | nil => exact ⟨rfl, rfl⟩
  | cons el attr text children tail rest ihc ihr =>
    have hel : headText y el attr ++ (runText y (ascii "text") text ++
        (forestText y children false ++ (closeText children.any ++ (runText y (ascii "tail") tail ++
          (forestText y rest true ++ ascii "\x7d"))))) =
        render y (elementJson el attr text children.toJson (textMember (ascii "tail") tail)) ++
          (renderItems y rest.toJson).flatMap (ascii "," ++ ·) := by
      rw [render_elementJson, membersText_textMember, ← ihc.2, ihr.1]
      simp only [List.append_assoc]
    constructor
    · rw [Forest.toJson, renderItems, List.flatMap_cons, List.append_assoc (ascii ","), ← hel]
      simp [forestText, siblingText, ascii]
    · have hclose : closeText (Forest.cons el attr text children tail rest).any =
          ascii "\x7d" ++ ascii "]" := rfl
      rw [Forest.toJson, childrenMember, membersText, renderMembers, renderMembers, render,
        renderItems, commaSep, ← hel, hclose]
      simp [forestText, siblingText, member]

theorem render_toJson (d : Document maxDepth) : render y d.toJson =
    headText y d.el d.attr ++ (runText y (ascii "text") d.text ++ (forestText y d.children false ++
      (closeText d.children.any ++ ascii "\x7d"))) := by
  rw [Document.toJson, render_elementJson, ← (forestText_eq d.children).2]
  simp [membersText, renderMembers]

theorem documentText_eq_render_iff (d : Document maxDepth) :
    documentText y d = render y d.toJson ↔ d.OneRun := by
  have hhead : headText y d.el d.attr ++ runText y (ascii "text") d.text ≠ [] := by
    simp [headText_ne_nil]
  have hone : d.OneRun ↔ d.children.spliced d.text.any = 0 := by
    rw [spliced_eq_zero_iff, Document.OneRun, Run.count, and_comm]
  rw [hone, render_toJson, documentText, documentBuf, List.nil_append, runBuf_first]
  constructor
  · intro h
    have hlen := forestBuf_length (y := y) d.children d.text.any false hhead
    have heq := congrArg List.length h
    simp only [List.length_append] at hlen heq
    have hz : d.children.spliced d.text.any * lacking y = 0 := by omega
    exact (Nat.mul_eq_zero.mp hz).resolve_right (lacking_pos (y := y)).ne.symm
  · intro h
    rw [forestBuf_eq d.children false _ h]
    simp only [List.append_assoc]

end N2Kafka.Decoder.XmlDocument
