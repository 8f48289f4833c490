import N2Kafka.Decoder.XmlDocument
import N2Kafka.Decoder.Yajl
import N2Kafka.Decoder.ZzParserXml

namespace N2Kafka.Decoder.XmlTranslation

open Lib.CString Lib.JsonGenerator Util.KafkaMessageArray Decoder.DecoderApi Decoder.Expat
open Decoder.ZzDecoder Decoder.ZzParserXml Decoder.XmlDocument

/-- The two bits of each frame, innermost first. -/
def Frames (bits : ℕ → Bool) : List (Bool × Bool) → Prop
  | [] => True
  | (text, children) :: fs => bits (textPrintedBitFromFrame (fs.length + 1)) = text ∧
      bits (childrenPrintedBitFromFrame (fs.length + 1)) = children ∧ Frames bits fs

theorem Frames.congr {bits bits' : ℕ → Bool} {fs : List (Bool × Bool)} (h : Frames bits fs)
    (heq : ∀ i < textPrintedBitFromFrame (fs.length + 1), bits' i = bits i) : Frames bits' fs := by
  induction fs with
  | nil => trivial
  | cons f fs ih =>
    obtain ⟨htext, hchildren, hfs⟩ := h
    simp only [textPrintedBitFromFrame, childrenPrintedBitFromFrame, List.length_cons] at *
    refine ⟨?_, ?_, ih hfs fun i hi ↦ heq i (by omega)⟩
    · rw [textPrintedBitFromFrame, heq _ (by omega), htext]
    · rw [childrenPrintedBitFromFrame, heq _ (by omega), hchildren]

theorem Frames.setText {bits : ℕ → Bool} {text children : Bool} {fs : List (Bool × Bool)}
    (h : Frames bits ((text, children) :: fs)) (v : Bool) :
    Frames (Function.update bits (textPrintedBitFromFrame (fs.length + 1)) v)
      ((v, children) :: fs) := by
  obtain ⟨-, hchildren, hfs⟩ := h
  refine ⟨Function.update_self .., ?_, hfs.congr fun i hi ↦ Function.update_of_ne hi.ne ..⟩
  rw [Function.update_of_ne (by simp [textPrintedBitFromFrame, childrenPrintedBitFromFrame]),
    hchildren]

theorem Frames.setChildren {bits : ℕ → Bool} {text children : Bool} {fs : List (Bool × Bool)}
    (h : Frames bits ((text, children) :: fs)) (v : Bool) :
    Frames (Function.update bits (childrenPrintedBitFromFrame (fs.length + 1)) v)
      ((text, v) :: fs) := by
  obtain ⟨htext, -, hfs⟩ := h
  refine ⟨?_, Function.update_self .., hfs.congr fun i hi ↦ Function.update_of_ne ?_ ..⟩
  · rw [Function.update_of_ne (by simp [textPrintedBitFromFrame, childrenPrintedBitFromFrame]),
      htext]
  · simp only [textPrintedBitFromFrame, childrenPrintedBitFromFrame] at hi ⊢
    omega

structure Kept (s₀ s : Parsing) : Prop where
  lastOpenMap : s.lastOpenMap = s₀.lastOpenMap
  kafkaMsgs : s.kafkaMsgs = s₀.kafkaMsgs
  rc : s.rc = s₀.rc

/-- The session within elements, `fs` being the frames and `gen` the generator. -/
structure Within (s₀ : Parsing) (buf : Bytes) (fs : List (Bool × Bool)) (gen : Gen)
    (s : Parsing) : Prop where
  buf_eq : s.yajlGenBuf = buf
  stackPos : s.stackPos = fs.length
  frames : Frames s.stackBooleanInfo fs
  gen_eq : s.yajlGen = gen
  response : s.httpResponse = []
  running : s.expatHandler.stopped = false
  kept : Kept s₀ s

/-- The session inside an element that has begun in this chunk. -/
structure Inside (s₀ : Parsing) (buf : Bytes) (fs : List (Bool × Bool)) (gen : Gen)
    (s : Parsing) : Prop extends Within s₀ buf fs gen s where
  buf_ne : buf ≠ []

section Operations

variable {s₀ s : Parsing} {buf : Bytes} {text children : Bool} {fs : List (Bool × Bool)} {gen : Gen}

theorem Within.moved (h : Within s₀ buf fs gen s) (position : Position) : Within s₀ buf fs gen
      { s with expatHandler := { s.expatHandler with position := position } } :=
  ⟨h.buf_eq, h.stackPos, h.frames, h.gen_eq, h.response, h.running,
    ⟨h.kept.lastOpenMap, h.kept.kafkaMsgs, h.kept.rc⟩⟩

theorem Within.printed {printed : Bytes} {gen' : Gen} (h : Within s₀ buf fs gen s) (n : ℕ) :
    Within s₀ (buf ++ printed) fs gen'
      { s with yajlGenBuf := s.yajlGenBuf ++ printed, yajlGen := gen', allocs := n } :=
  ⟨by rw [h.buf_eq], h.stackPos, h.frames, rfl, h.response, h.running,
    ⟨h.kept.lastOpenMap, h.kept.kafkaMsgs, h.kept.rc⟩⟩

theorem Within.setText (h : Within s₀ buf ((text, children) :: fs) gen s)
    (v : Bool) : Within s₀ buf ((v, children) :: fs) gen (s.setTextPrinted v) := by
  refine ⟨h.buf_eq, h.stackPos, ?_, h.gen_eq, h.response, h.running,
    ⟨h.kept.lastOpenMap, h.kept.kafkaMsgs, h.kept.rc⟩⟩
  have hframes := h.frames.setText v
  rwa [← List.length_cons, ← h.stackPos] at hframes

theorem Within.setChildren (h : Within s₀ buf ((text, children) :: fs) gen s)
    (v : Bool) : Within s₀ buf ((text, v) :: fs) gen (s.setChildrenPrinted v) := by
  refine ⟨h.buf_eq, h.stackPos, ?_, h.gen_eq, h.response, h.running,
    ⟨h.kept.lastOpenMap, h.kept.kafkaMsgs, h.kept.rc⟩⟩
  have hframes := h.frames.setChildren v
  rwa [← List.length_cons, ← h.stackPos] at hframes

theorem Within.push (h : Within s₀ buf fs gen s) :
    Within s₀ buf ((false, false) :: fs) gen (pushFrame s) := by
  have hpushed : Within s₀ buf
      ((s.stackBooleanInfo (textPrintedBitFromFrame (fs.length + 1)),
        s.stackBooleanInfo (childrenPrintedBitFromFrame (fs.length + 1))) :: fs) gen
      { s with stackPos := s.stackPos + 1 } :=
    ⟨h.buf_eq, by simp [h.stackPos], ⟨rfl, rfl, h.frames⟩, h.gen_eq, h.response,
      h.running, ⟨h.kept.lastOpenMap, h.kept.kafkaMsgs, h.kept.rc⟩⟩
  exact (hpushed.setText false).setChildren false

theorem Within.pop {f : Bool × Bool} (h : Within s₀ buf (f :: fs) gen s) :
    Within s₀ buf fs gen { s with stackPos := s.stackPos - 1 } :=
  ⟨h.buf_eq, by simp [h.stackPos], h.frames.2.2, h.gen_eq, h.response, h.running,
    ⟨h.kept.lastOpenMap, h.kept.kafkaMsgs, h.kept.rc⟩⟩

theorem Within.textPrinted (h : Within s₀ buf ((text, children) :: fs) gen s) :
    s.textPrinted = text := by
  rw [Parsing.textPrinted, h.stackPos]
  exact h.frames.1

theorem Within.childrenPrinted (h : Within s₀ buf ((text, children) :: fs) gen s) :
    s.childrenPrinted = children := by
  rw [Parsing.childrenPrinted, h.stackPos]
  exact h.frames.2.1

end Operations

section Handlers

variable {env : Env}

theorem foldl_yajlPrintCallback (halloc : ∀ k, env.alloc k) (texts : List Bytes) (s : Parsing) :
    texts.foldl (yajlPrintCallback env) s =
      { s with yajlGenBuf := s.yajlGenBuf ++ texts.flatten, allocs := s.allocs + texts.length } := by
  induction texts generalizing s with
  | nil => simp
  | cons t ts ih =>
    rw [List.foldl_cons, ih]
    simp [yajlPrintCallback, halloc, Nat.add_assoc, Nat.add_comm 1]

theorem genOrGotoErr_eq (halloc : ∀ k, env.alloc k) {ops : List (Op × Bytes)} {s : Parsing}
    {text : Bytes} {gen : Gen}
    (h : generate env.style (ops.map (·.1)) s.yajlGen = some (text, gen)) :
    ∃ n, genOrGotoErr env ops s =
      ({ s with yajlGenBuf := s.yajlGenBuf ++ text, yajlGen := gen, allocs := n }, none) := by
  induction ops generalizing s text with
  | nil =>
    obtain ⟨rfl, rfl⟩ := Prod.mk.inj (Option.some.inj h)
    exact ⟨s.allocs, by simp [genOrGotoErr]⟩
  | cons op ops ih =>
    rw [List.map_cons, generate] at h
    split at h
    · rename_i hok
      obtain ⟨⟨text', gen'⟩, hrest, heq⟩ := Option.map_eq_some_iff.mp h
      obtain ⟨rfl, rfl⟩ := Prod.mk.inj heq
      rw [genOrGotoErr]
      dsimp only
      rw [if_pos hok, foldl_yajlPrintCallback halloc]
      obtain ⟨n, hn⟩ := ih (s := { s with
        yajlGenBuf := s.yajlGenBuf ++ (emit env.style s.yajlGen op.1).printed.flatten
        yajlGen := (emit env.style s.yajlGen op.1).gen
        allocs := s.allocs + (emit env.style s.yajlGen op.1).printed.length }) hrest
      exact ⟨n, by rw [hn, List.append_assoc]⟩
    · cases h

theorem Within.generated (halloc : ∀ k, env.alloc k) {s₀ s : Parsing} {buf text : Bytes}
    {fs : List (Bool × Bool)} {gen gen' : Gen} (ops : List (Op × Bytes))
    (h : Within s₀ buf fs gen s) (hgen : generate env.style (ops.map (·.1)) gen = some (text, gen')) :
    ∃ s', genOrGotoErr env ops s = (s', none) ∧ Within s₀ (buf ++ text) fs gen' s' := by
  rw [← h.gen_eq] at hgen
  obtain ⟨n, hn⟩ := genOrGotoErr_eq halloc hgen
  exact ⟨_, hn, h.printed n⟩

theorem generate_element (y : Style) (el : CStr) (attr : List (CStr × CStr)) {l : Level}
    (hl : l.Free) (ls : List Level)
    (hfits : ls.length + 1 + (if attr = [] then 0 else 1) < y.maxDepth) :
    generate y ((elementOps el attr).map (·.1)) ⟨l, ls⟩ =
      some (l.sep ++ headText y el attr, ⟨.mapKey, l :: ls⟩) := by
  simp only [elementOps, keyValue, List.map_cons, List.cons_append, List.nil_append]
  rw [generate_mapOpen y _ hl ls (by omega), generate_string y _ _ rfl, Level.appended,
    generate_string y _ _ rfl, Level.appended]
  by_cases hattr : attr = []
  · simp [attributesOps, hattr, generate, headText, Level.sep, member]
  · have hops : (attributesOps attr).map (·.1) = .string (ascii "attributes") :: .mapOpen ::
        ((attr.map fun a ↦ (a.1.1, a.2.1)).flatMap (fun m ↦ [.string m.1, .string m.2]) ++
          [.mapClose]) := by
      simp [attributesOps, hattr, keyValue, List.map_flatMap, List.flatMap_map]
    rw [if_neg hattr] at hfits
    rw [hops, generate_string y _ _ rfl, Level.appended,
      generate_object y _ ⟨rfl, by simp, by simp⟩ _ (by simpa using hfits)]
    simp [headText, hattr, Level.sep, Level.appended, member, Function.comp_def]

theorem generate_element_tooDeep (y : Style) (el : CStr) (attr : List (CStr × CStr)) {l : Level}
    (hl : l.Free) (ls : List Level)
    (hdeep : y.maxDepth ≤ ls.length + 1 + (if attr = [] then 0 else 1)) :
    generate y ((elementOps el attr).map (·.1)) ⟨l, ls⟩ = none := by
  simp only [elementOps, keyValue, List.map_cons, List.cons_append, List.nil_append]
  by_cases hmap : y.maxDepth ≤ ls.length + 1
  · exact generate_mapOpen_tooDeep y _ hl ls hmap
  have hattr : attr ≠ [] := by
    rintro rfl
    exact hmap hdeep
  rw [generate_mapOpen y _ hl ls (by omega), generate_string y _ _ rfl, Level.appended,
    generate_string y _ _ rfl, Level.appended]
  simp only [attributesOps, if_neg hattr, List.map_cons] at hdeep ⊢
  rw [generate_string y _ _ rfl, Level.appended,
    generate_mapOpen_tooDeep y _ ⟨rfl, by simp, by simp⟩ _ (by simpa using hdeep)]
  rfl

def contentGen (opened : Bool) (a : Level) (ls : List Level) : Gen :=
  if opened then ⟨.mapKey, a :: .mapVal :: ls⟩ else ⟨.mapKey, ls⟩

def InArray (a : Level) : Prop := a = .arrayStart ∨ a = .inArray

theorem InArray.appended {a : Level} (h : InArray a) : a.appended = .inArray := by
  obtain rfl | rfl := h <;> rfl

theorem Within.openChild (halloc : ∀ k, env.alloc k) {s₀ s : Parsing} {buf : Bytes}
    {text opened : Bool} {fs : List (Bool × Bool)} {a : Level} {ls : List Level} (ha : InArray a)
    (hfits : opened = false → ls.length + 1 < env.style.maxDepth)
    (h : Within s₀ buf ((text, opened) :: fs) (contentGen opened a ls) s) :
    ∃ s' a' sep, ZzParserXml.openChild env s = (s', none) ∧ InArray a' ∧
      sep ++ a'.sep = siblingText env.style opened ∧
      Within s₀ (buf ++ sep) ((text, true) :: fs) ⟨a', .mapVal :: ls⟩ s' := by
  have hpos : s.stackPos ≠ 0 := by simp [h.stackPos]
  rw [ZzParserXml.openChild, if_neg hpos, h.childrenPrinted]
  cases opened with
  | false =>
    have hgen : generate env.style (openChildrenOps.map (·.1)) ⟨.mapKey, ls⟩ =
        some (siblingText env.style false, ⟨.arrayStart, .mapVal :: ls⟩) := by
      rw [openChildrenOps, List.map_cons, List.map_cons, generate_string _ _ _ rfl, Level.appended,
        generate_arrayOpen _ _ ⟨rfl, by simp, by simp⟩ _ (hfits rfl)]
      simp [generate, Level.sep, siblingText, member]
    obtain ⟨s', hs', hin⟩ := h.generated halloc openChildrenOps hgen
    refine ⟨_, .arrayStart, siblingText env.style false, ?_, .inl rfl, by simp [Level.sep],
      hin.setChildren true⟩
    simp [hs']
  | true =>
    have hgen : generate env.style (closeSiblingOps.map (·.1)) ⟨.mapKey, a :: .mapVal :: ls⟩ =
        some (ascii "\x7d", ⟨.inArray, .mapVal :: ls⟩) := by
      rw [closeSiblingOps, List.map_cons, generate_mapClose _ _ rfl, ha.appended]
      simp [generate]
    obtain ⟨s', hs', hin⟩ := h.generated halloc closeSiblingOps hgen
    exact ⟨s', .inArray, _, by simpa using hs', .inr rfl, rfl, hin⟩

theorem Within.start (halloc : ∀ k, env.alloc k) {s₀ s : Parsing} {buf : Bytes}
    {text opened : Bool} {fs : List (Bool × Bool)} {a : Level} {ls : List Level} (ha : InArray a)
    (el : CStr) (attr : List (CStr × CStr))
    (hfits : ls.length + 2 + (if attr = [] then 0 else 1) < env.style.maxDepth)
    (h : Within s₀ buf ((text, opened) :: fs) (contentGen opened a ls) s) :
    ∃ a', InArray a' ∧ Within s₀ (buf ++ (siblingText env.style opened ++ headText env.style el attr))
      ((false, false) :: (text, true) :: fs) ⟨.mapKey, a' :: .mapVal :: ls⟩
      (zzParseStartXmlElement env el attr s) := by
  obtain ⟨s₁, a', sep, hs₁, ha', hsep, hin⟩ := h.openChild halloc ha fun _ ↦ by omega
  have hfree : a'.Free := by obtain rfl | rfl := ha' <;> exact ⟨rfl, by simp, by simp⟩
  obtain ⟨s₂, hs₂, hin⟩ := hin.push.generated halloc (elementOps el attr)
    (generate_element env.style el attr hfree (.mapVal :: ls) (by simpa using hfits))
  refine ⟨a', ha', ?_⟩
  rw [zzParseStartXmlElement, h.response, List.length_nil, if_neg (lt_irrefl 0), hs₁]
  dsimp only
  rw [hs₂, ← hsep, List.append_assoc, ← List.append_assoc buf]
  exact hin

theorem Within.closeChildren (halloc : ∀ k, env.alloc k) {s₀ s : Parsing} {buf : Bytes}
    {text opened : Bool} {fs : List (Bool × Bool)} {a : Level} {ls : List Level} (ha : InArray a)
    (h : Within s₀ buf ((text, opened) :: fs) (contentGen opened a ls) s) :
    ∃ s', ZzParserXml.closeChildren env s = (s', none) ∧
      Within s₀ (buf ++ closeText opened) ((text, opened) :: fs) ⟨.mapKey, ls⟩ s' := by
  rw [ZzParserXml.closeChildren, h.childrenPrinted]
  cases opened with
  | false => exact ⟨s, rfl, by simpa [closeText, contentGen] using h⟩
  | true =>
    have hgen : generate env.style (closeChildrenOps.map (·.1)) ⟨.mapKey, a :: .mapVal :: ls⟩ =
        some (closeText true, ⟨.mapKey, ls⟩) := by
      rw [closeChildrenOps, List.map_cons, List.map_cons, generate_mapClose _ _ rfl, ha.appended,
        generate_arrayClose _ _ rfl, Level.appended]
      rfl
    obtain ⟨s', hs', hin⟩ := h.generated halloc closeChildrenOps hgen
    exact ⟨s', hs', hin⟩

theorem Within.finish (halloc : ∀ k, env.alloc k) {s₀ s : Parsing} {buf : Bytes}
    {text opened : Bool} {f : Bool × Bool} {fs : List (Bool × Bool)} {a : Level} {ls : List Level}
    (ha : InArray a) (h : Within s₀ buf ((text, opened) :: f :: fs) (contentGen opened a ls) s) :
    ∃ s', zzParseEndXmlElement env s = some s' ∧
      Within s₀ (buf ++ closeText opened) (f :: fs) ⟨.mapKey, ls⟩ s' := by
  obtain ⟨s₁, hs₁, hin⟩ := h.closeChildren halloc ha
  refine ⟨_, ?_, hin.pop⟩
  rw [zzParseEndXmlElement, h.response, List.length_nil, if_neg (lt_irrefl 0), hs₁]
  dsimp only
  rw [if_pos (by simp [hin.stackPos])]

theorem Within.firstText (halloc : ∀ k, env.alloc k) {s₀ s : Parsing} {buf : Bytes}
    {opened : Bool} {fs : List (Bool × Bool)} {ls : List Level} (text : Bytes)
    (h : Within s₀ buf ((false, opened) :: fs) ⟨.mapKey, ls⟩ s) :
    ∃ s', zzParseXmlCharacterData env text s = some s' ∧
      Within s₀ (buf ++ (ascii "," ++ member (env.style.quote (contentKey opened))
        (env.style.quote text))) ((true, opened) :: fs) ⟨.mapKey, ls⟩ s' := by
  have hgen (errStr : Bytes) : generate env.style ((keyValue (contentKey opened) text errStr).map (·.1))
      ⟨.mapKey, ls⟩ = some (ascii "," ++ member (env.style.quote (contentKey opened))
        (env.style.quote text), ⟨.mapKey, ls⟩) := by
    rw [keyValue, List.map_cons, List.map_cons, generate_string _ _ _ rfl, Level.appended,
      generate_string _ _ _ rfl, Level.appended]
    simp [generate, Level.sep, member]
  obtain ⟨s', hs', hin⟩ := h.generated halloc (keyValue (contentKey opened) text
    (ascii "Can't gen JSON attribute key + val in XML tag text")) (hgen _)
  refine ⟨_, ?_, hin.setText true⟩
  rw [zzParseXmlCharacterData, h.textPrinted, h.childrenPrinted, ← contentKey]
  dsimp only
  rw [hs']
  rfl

theorem Within.moreText (halloc : ∀ k, env.alloc k) {s₀ s : Parsing} {buf : Bytes}
    {opened : Bool} {fs : List (Bool × Bool)} {gen : Gen} (text : Bytes)
    (h : Within s₀ buf ((true, opened) :: fs) gen s) (hne : buf ≠ []) :
    ∃ s', zzParseXmlCharacterData env text s = some s' ∧
      Within s₀ (splice env.style buf text) ((true, opened) :: fs) gen s' := by
  have hbuf : s.yajlGenBuf ≠ [] := by rwa [h.buf_eq]
  rw [zzParseXmlCharacterData, h.textPrinted]
  simp only [spliceText, halloc, Bool.or_true, emit, Gen.initial, Level.status, hbuf, if_true,
    if_false, Bool.not_true, Bool.false_eq_true, ne_eq, not_true_eq_false]
  refine ⟨_, rfl, ⟨?_, h.stackPos, h.frames, h.gen_eq, h.response, h.running,
    ⟨h.kept.lastOpenMap, h.kept.kafkaMsgs, h.kept.rc⟩⟩⟩
  simp [splice, h.buf_eq, Level.sep, ascii]

/-- From a session with `P`, these events lead to one with `Q`, and nothing stops the parser. -/
def Triple (env : Env) (P : Parsing → Prop) (es : List XmlEvent) (Q : Parsing → Prop) : Prop :=
  ∀ ts s, ts.map Token.event = es → P s →
    ∃ s', xmlDeliver env ts s = some s' ∧ s'.expatHandler.stopped = false ∧ Q s'

theorem xmlDeliver_append {ts us : List Token} {s s' : Parsing} (h : xmlDeliver env ts s = some s')
    (hrun : s'.expatHandler.stopped = false) :
    xmlDeliver env (ts ++ us) s = xmlDeliver env us s' := by
  induction ts generalizing s with
  | nil =>
    cases h
    rfl
  | cons t ts ih =>
    rw [xmlDeliver] at h
    obtain ⟨s₁, hs₁, h⟩ := Option.bind_eq_some_iff.mp h
    rw [List.cons_append, xmlDeliver, hs₁, Option.bind_some]
    split at h
    · rename_i hstop
      cases h
      rw [hstop] at hrun
      cases hrun
    · rename_i hstop
      rw [if_neg hstop]
      exact ih h

theorem Triple.append {P Q R : Parsing → Prop} {es es' : List XmlEvent} (h : Triple env P es Q)
    (h' : Triple env Q es' R) : Triple env P (es ++ es') R := by
  intro ts s hts hs
  obtain ⟨ts₁, ts₂, rfl, h₁, h₂⟩ := List.map_eq_append_iff.mp hts
  obtain ⟨s₁, hs₁, hrun, hq⟩ := h ts₁ s h₁ hs
  obtain ⟨s₂, hs₂, hrun', hr⟩ := h' ts₂ s₁ h₂ hq
  exact ⟨s₂, by rw [xmlDeliver_append hs₁ hrun, hs₂], hrun', hr⟩

theorem Triple.one {P Q : Parsing → Prop} {e : XmlEvent}
    (hmoved : ∀ (s : Parsing) (position : Position), P s →
      P { s with expatHandler := { s.expatHandler with position := position } })
    (h : ∀ s, P s → ∃ s', xmlHandler env s e = some s' ∧ s'.expatHandler.stopped = false ∧ Q s') :
    Triple env P [e] Q := by
  intro ts s hts hs
  obtain ⟨t, us, rfl, rfl, hus⟩ := List.map_eq_cons_iff.mp hts
  obtain rfl : us = [] := List.map_eq_nil_iff.mp hus
  obtain ⟨s', hs', hrun, hq⟩ := h _ (hmoved s t.start hs)
  refine ⟨s', ?_, hrun, hq⟩
  rw [xmlDeliver, hs', Option.bind_some, if_neg (by simp [hrun]), xmlDeliver]

section Inside

variable {s₀ : Parsing} {buf buf' : Bytes} {fs fs' : List (Bool × Bool)} {gen gen' : Gen}

theorem Triple.nil : Triple env (Inside s₀ buf fs gen) [] (Inside s₀ buf fs gen) := by
  intro ts s hts hs
  obtain rfl : ts = [] := List.map_eq_nil_iff.mp hts
  exact ⟨s, rfl, hs.running, hs⟩

theorem Triple.inside (e : XmlEvent) (hne : buf ≠ [] → buf' ≠ [])
    (h : ∀ s, Inside s₀ buf fs gen s →
      ∃ s', xmlHandler0 env s e = some s' ∧ Within s₀ buf' fs' gen' s') :
    Triple env (Inside s₀ buf fs gen) [e] (Inside s₀ buf' fs' gen') := by
  apply Triple.one
  · intro s position hs
    exact ⟨hs.moved position, hs.buf_ne⟩
  · intro s hs
    obtain ⟨s', hs', hin⟩ := h s hs
    exact ⟨s', xmlHandler_of_quiet hs' hin.response, hin.running, hin, hne hs.buf_ne⟩

end Inside

theorem triple_run (halloc : ∀ k, env.alloc k) {s₀ : Parsing} (text opened : Bool)
    (fs : List (Bool × Bool)) (ls : List Level) (fragments : List Bytes) (buf : Bytes) :
    Triple env (Inside s₀ buf ((text, opened) :: fs) ⟨.mapKey, ls⟩)
      (fragments.map .characterData)
      (Inside s₀ (runBuf env.style (contentKey opened) text fragments buf)
        ((text || decide (fragments ≠ []), opened) :: fs) ⟨.mapKey, ls⟩) := by
  induction fragments generalizing text buf with
  | nil =>
    rw [List.map_nil, runBuf]
    simpa using Triple.nil
  | cons f fragments ih =>
    rw [List.map_cons, ← List.singleton_append]
    have hlast := ih true
    cases text with
    | false =>
      apply Triple.append (Triple.inside (.characterData f) (by simp +contextual)
        fun s hs ↦ hs.firstText halloc f)
      simpa [runBuf] using hlast _
    | true =>
      apply Triple.append (Triple.inside (.characterData f) (by simp [splice, ascii])
        fun s hs ↦ hs.moreText halloc f hs.buf_ne)
      simpa [runBuf] using hlast _

def Content (s₀ : Parsing) (buf : Bytes) (text opened : Bool) (fs : List (Bool × Bool))
    (ls : List Level) (s : Parsing) : Prop :=
  ∃ a, InArray a ∧ Inside s₀ buf ((text, opened) :: fs) (contentGen opened a ls) s

theorem Triple.exists {P : Level → Parsing → Prop} {es : List XmlEvent} {Q : Parsing → Prop}
    (h : ∀ a, InArray a → Triple env (P a) es Q) :
    Triple env (fun s ↦ ∃ a, InArray a ∧ P a s) es Q := by
  intro ts s hts ⟨a, ha, hs⟩
  exact h a ha ts s hts hs

theorem Triple.mono {P Q Q' : Parsing → Prop} {es : List XmlEvent} (h : Triple env P es Q)
    (hq : ∀ s, Q s → Q' s) : Triple env P es Q' := by
  intro ts s hts hs
  obtain ⟨s', hs', hrun, hpost⟩ := h ts s hts hs
  exact ⟨s', hs', hrun, hq s' hpost⟩

section Content

variable (halloc : ∀ k, env.alloc k) {s₀ : Parsing} (buf : Bytes) (text opened : Bool)
  (fs : List (Bool × Bool)) (ls : List Level)

include halloc

theorem content_run (r : Run) : Triple env (Content s₀ buf text opened fs ls) r.events
    (Content s₀ (runBuf env.style (contentKey opened) text r.1 buf) (text || r.any) opened fs ls) := by
  apply Triple.exists
  intro a ha
  cases opened with
  | false => exact (triple_run halloc text false fs ls r.1 buf).mono fun s hs ↦ ⟨a, ha, hs⟩
  | true =>
    exact (triple_run halloc text true fs (a :: .mapVal :: ls) r.1 buf).mono
      fun s hs ↦ ⟨a, ha, hs⟩

theorem content_start (el : CStr) (attr : List (CStr × CStr))
    (hfits : ls.length + 2 + (if attr = [] then 0 else 1) < env.style.maxDepth) :
    Triple env (Content s₀ buf text opened fs ls) [.startElement el attr] fun s ↦
      ∃ a, InArray a ∧ Content s₀
        (buf ++ (siblingText env.style opened ++ headText env.style el attr)) false false
        ((text, true) :: fs) (a :: .mapVal :: ls) s := by
  apply Triple.one
  · intro s position ⟨a, ha, hs⟩
    exact ⟨a, ha, hs.moved position, hs.buf_ne⟩
  · intro s ⟨a, ha, hs⟩
    obtain ⟨a', ha', hin⟩ := hs.start halloc ha el attr hfits
    exact ⟨_, xmlHandler_of_quiet rfl hin.response, hin.running, a', ha', .arrayStart, .inl rfl,
      hin, by simp [hs.buf_ne]⟩

theorem content_finish (el : CStr) {a : Level} (ha : InArray a) (text' opened' : Bool) :
    Triple env (Content s₀ buf text' opened' ((text, true) :: fs) (a :: .mapVal :: ls))
      [.endElement el] (Content s₀ (buf ++ closeText opened') text true fs ls) := by
  apply Triple.exists
  intro b hb
  apply (Triple.inside (.endElement el) (by simp +contextual)
    fun s hs ↦ hs.finish halloc hb).mono
  intro s hs
  exact ⟨a, ha, hs⟩

theorem content_forest (f : Forest) (hfits : ls.length + f.height < env.style.maxDepth) :
    Triple env (Content s₀ buf text opened fs ls) f.events
      (Content s₀ (forestBuf env.style f text opened buf) (text || f.anyTail) (opened || f.any)
        fs ls) := by
  induction f generalizing buf text opened fs ls with
  | nil =>
    simp only [Forest.events, forestBuf, Forest.anyTail, Forest.any, Bool.or_false]
    apply Triple.exists
    intro a ha
    exact Triple.nil.mono fun s hs ↦ ⟨a, ha, hs⟩
  | cons el attr own children tail rest ihc ihr =>
    rw [Forest.height] at hfits
    rw [Forest.events]
    apply (content_start halloc buf text opened fs ls el attr (by omega)).append
    apply Triple.exists
    intro a ha
    apply (content_run halloc _ false false _ _ own).append
    apply (ihc _ _ _ _ _ (by simp only [List.length_cons]; omega)).append
    apply (content_finish halloc _ text fs ls el ha _ _).append
    apply (content_run halloc _ text true fs ls tail).append
    have hrest := ihr (runBuf env.style (contentKey true) text tail.1
      (forestBuf env.style children (false || own.any) false
        (runBuf env.style (contentKey false) false own.1
          (buf ++ (siblingText env.style opened ++ headText env.style el attr))) ++
        closeText (false || children.any))) (text || tail.any) true fs ls (by omega)
    simpa [forestBuf, Forest.anyTail, Forest.any, contentKey, Bool.or_assoc] using hrest

end Content

structure Idle (s : Parsing) : Prop where
  stackPos : s.stackPos = 0
  gen_eq : s.yajlGen = .initial
  response : s.httpResponse = []
  running : s.expatHandler.stopped = false

structure Translated (s : Parsing) (text : Bytes) (s' : Parsing) : Prop where
  buf : s'.yajlGenBuf = s.yajlGenBuf ++ text
  kafkaMsgs : s'.kafkaMsgs = { s.kafkaMsgs with
    msgs := s.kafkaMsgs.msgs ++ [⟨some s.yajlGenBuf.length, text.length⟩] }
  rc : s'.rc = s.rc
  stackPos : s'.stackPos = 0
  gen_eq : s'.yajlGen = .initial
  response : s'.httpResponse = []

theorem Idle.start (halloc : ∀ k, env.alloc k) {s : Parsing} (h : Idle s) (el : CStr)
    (attr : List (CStr × CStr)) (hfits : 1 + (if attr = [] then 0 else 1) < env.style.maxDepth) :
    Inside { s with lastOpenMap := some s.yajlGenBuf.length }
      (s.yajlGenBuf ++ headText env.style el attr) [(false, false)] ⟨.mapKey, [.start]⟩
      (zzParseStartXmlElement env el attr s) := by
  have hgen : generate env.style ((elementOps el attr).map (·.1))
      (pushFrame { s with lastOpenMap := some s.yajlGenBuf.length }).yajlGen =
        some (headText env.style el attr, ⟨.mapKey, [.start]⟩) :=
    Eq.trans (congrArg _ h.gen_eq)
      (generate_element env.style el attr ⟨rfl, by simp, by simp⟩ [] (by simpa using hfits))
  obtain ⟨n, hn⟩ := genOrGotoErr_eq halloc hgen
  have hframes : Frames (pushFrame { s with lastOpenMap := some s.yajlGenBuf.length }).stackBooleanInfo
      [(false, false)] := by
    have hbits : Frames s.stackBooleanInfo [(_, _)] := ⟨rfl, rfl, trivial⟩
    simpa [pushFrame, Parsing.setTextPrinted, Parsing.setChildrenPrinted, h.stackPos]
      using (hbits.setText false).setChildren false
  rw [zzParseStartXmlElement, h.response, List.length_nil, if_neg (lt_irrefl 0),
    ZzParserXml.openChild, if_pos h.stackPos]
  dsimp only
  rw [hn]
  exact ⟨⟨rfl, by simp [pushFrame, Parsing.setTextPrinted, Parsing.setChildrenPrinted, h.stackPos],
    hframes, rfl, h.response, h.running, ⟨rfl, rfl, rfl⟩⟩, by simp [headText_ne_nil]⟩

theorem Within.lastEnd (halloc : ∀ k, env.alloc k) {s₀ s : Parsing} {buf : Bytes}
    {printed opened : Bool} {a : Level} (ha : InArray a)
    (h : Within s₀ buf [(printed, opened)] (contentGen opened a [.start]) s) :
    ∃ s', zzParseEndXmlElement env s = closeRoot env s' ∧
      Within s₀ (buf ++ (closeText opened ++ ascii "\x7d")) [] ⟨.complete, []⟩ s' := by
  obtain ⟨s₁, hs₁, hin⟩ := h.closeChildren halloc ha
  have hgen : generate env.style (closeRootOps.map (·.1)) ⟨.mapKey, [.start]⟩ =
      some (ascii "\x7d", ⟨.complete, []⟩) := by
    rw [closeRootOps, List.map_cons, generate_mapClose _ _ rfl, Level.appended]
    rfl
  obtain ⟨s₂, hs₂, hin₂⟩ := hin.pop.generated halloc closeRootOps hgen
  refine ⟨s₂, ?_, by rwa [← List.append_assoc]⟩
  rw [zzParseEndXmlElement, h.response, List.length_nil, if_neg (lt_irrefl 0), hs₁]
  dsimp only
  rw [if_neg (by simp [hin.stackPos]), hs₂]

theorem Within.finishRoot (halloc : ∀ k, env.alloc k) {s₀ s : Parsing} {buf text : Bytes}
    {printed opened : Bool} {a : Level} (ha : InArray a)
    (h : Within s₀ buf [(printed, opened)] (contentGen opened a [.start]) s)
    (hopen : s₀.lastOpenMap = some s₀.yajlGenBuf.length) (htext : text ≠ [])
    (hbuf : buf ++ (closeText opened ++ ascii "\x7d") = s₀.yajlGenBuf ++ text) :
    ∃ s', zzParseEndXmlElement env s = some s' ∧ s'.expatHandler.stopped = true ∧
      Translated s₀ text s' := by
  obtain ⟨s₁, hs₁, hin⟩ := h.lastEnd halloc ha
  have hb : s₁.yajlGenBuf = s₀.yajlGenBuf ++ text := hin.buf_eq.trans hbuf
  have hlast : s₁.lastOpenMap = some s₀.yajlGenBuf.length := hin.kept.lastOpenMap.trans hopen
  have hlen : s₁.yajlGenBuf.length > s₀.yajlGenBuf.length := by
    rw [hb, List.length_append]
    have := List.length_pos_iff.mpr htext
    omega
  rw [hs₁, closeRoot, hlast]
  dsimp only
  rw [if_pos hlen, halloc, if_pos rfl]
  refine ⟨_, rfl, XmlParser.stop_stopped _, hb, ?_, hin.kept.rc, hin.stackPos, rfl, hin.response⟩
  simp [xmlStopParser, kafkaMsgArrayAdd, hin.kept.kafkaMsgs, hb]

theorem Idle.document (halloc : ∀ k, env.alloc k) {s : Parsing} (h : Idle s)
    (d : Document env.style.maxDepth) {ts : List Token} {last : Token}
    (hts : ts.map Token.event = d.inner) (hlast : last.event = .endElement d.el)
    (more : List Token) :
    ∃ s', xmlDeliver env (ts ++ last :: more) s = some s' ∧ s'.expatHandler.stopped = true ∧
      s'.expatHandler.error = .aborted ∧ s'.expatHandler.position = last.stop ∧
      Translated s (documentText env.style d) s' := by
  have hfits := d.fits
  obtain ⟨t, us, rfl, ht, hus⟩ := List.map_eq_cons_iff.mp hts
  have hstart := Idle.start halloc (s := { s with
    expatHandler := { s.expatHandler with position := t.start } })
    ⟨h.stackPos, h.gen_eq, h.response, h.running⟩ d.el d.attr (by omega)
  obtain ⟨s₁, hs₁, hrun, a, ha, hin⟩ := ((content_run halloc _ false false [] [.start] d.text).append
    (content_forest halloc _ _ _ _ _ d.children (by simpa using by omega))) us _ hus
    ⟨.arrayStart, .inl rfl, hstart⟩
  simp only [contentKey, Bool.false_or, Bool.false_eq_true, if_false] at hin
  obtain ⟨s₂, hs₂, hstop, htr⟩ := (hin.moved last.start).finishRoot halloc ha rfl
    (documentBuf_eq (y := env.style) d []).2 (documentBuf_eq d s.yajlGenBuf).1
  have hinner : xmlDeliver env (t :: us) s = some s₁ := by
    rw [xmlDeliver, ht, xmlHandler_of_quiet rfl hstart.response, Option.bind_some,
      if_neg (by simp [hstart.running]), hs₁]
  refine ⟨{ s₂ with expatHandler := { s₂.expatHandler with error := .aborted, position := last.stop } },
    ?_, hstop, rfl, rfl, ⟨htr.buf, htr.kafkaMsgs, htr.rc, htr.stackPos, htr.gen_eq, htr.response⟩⟩
  rw [xmlDeliver_append hinner hrun, xmlDeliver, hlast,
    xmlHandler_of_quiet (e := .endElement d.el) hs₂ htr.response, Option.bind_some, if_pos hstop]

end Handlers

/-- Expat reads a document out of these bytes, whatever follows them: they end with the end tag of
its root element. -/
structure Reads (expat : Library) (bytes : Bytes) {maxDepth : ℕ} (d : Document maxDepth) : Prop where
  ne_nil : bytes ≠ []
  tokens : ∃ (ts : List Token) (last : Token), ts.map Token.event = d.inner ∧ last.event = .endElement d.el ∧
    last.stop.byte = bytes.length ∧ ∀ more, ts ++ [last] <+: (expat.parse [] (bytes ++ more)).tokens

structure Piece (env : Env) where
  bytes : Bytes
  document : Document env.style.maxDepth
  reads : Reads env.expat bytes document

variable {env : Env}

def Piece.message (p : Piece env) : Bytes := documentText env.style p.document

/-- The messages of a session are slices of its buffer. -/
structure Slices (s : Parsing) (messages : List Bytes) : Prop where
  eq : s.kafkaMsgs.msgs.map (RdKafkaMessage.bytes s.yajlGenBuf) = messages
  inside : ∀ m ∈ s.kafkaMsgs.msgs, m.payload.getD 0 + m.len ≤ s.yajlGenBuf.length

theorem Slices.translated {s s' : Parsing} {messages : List Bytes} {text : Bytes}
    (h : Slices s messages) (ht : Translated s text s') : Slices s' (messages ++ [text]) := by
  constructor
  · rw [ht.kafkaMsgs, ht.buf, List.map_append, ← h.eq]
    congr 1
    · exact List.map_congr_left fun m hm ↦ RdKafkaMessage.bytes_append (h.inside m hm) text
    · simp
  · rw [ht.kafkaMsgs, ht.buf]
    intro m hm
    obtain hm | hm := List.mem_append.mp hm
    · have hin := h.inside m hm
      rw [List.length_append]
      omega
    · rw [List.mem_singleton.mp hm, Option.getD_some, List.length_append]

structure Ready (s : Parsing) (rc : DecoderCallbackErr) (messages : List Bytes) : Prop where
  idle : Idle s
  parser : s.expatHandler = .fresh
  rc_eq : s.rc = rc
  slices : Slices s messages

theorem Ready.piece (halloc : ∀ k, env.alloc k) {s : Parsing} {rc : DecoderCallbackErr}
    {messages : List Bytes} (h : Ready s rc messages) (p : Piece env) (fuel : ℕ) (rest : Bytes) :
    ∃ s', xmlLoop env (fuel + 1) (p.bytes ++ rest) s = xmlLoop env fuel rest s' ∧
      Ready s' rc (messages ++ [p.message]) := by
  obtain ⟨ts, last, hts, hlast, hbyte, htokens⟩ := p.reads.tokens
  obtain ⟨more, hmore⟩ := htokens rest
  obtain ⟨s', hs', hstop, herr, hpos, htr⟩ := h.idle.document halloc p.document hts hlast more
  have hparse : xmlParse env (p.bytes ++ rest) s = some (.error, s') := by
    rw [xmlParse, h.parser]
    simp [XmlParser.fresh, ← hmore, hs', hstop]
  have hne := List.length_pos_iff.mpr p.reads.ne_nil
  refine ⟨zzResetXmlHandler s', ?_, ⟨htr.stackPos, htr.gen_eq, htr.response, rfl⟩, rfl,
    htr.rc.trans h.rc_eq, ?_⟩
  · rw [xmlLoop, if_pos ⟨by simp; omega, by simp [h.idle.response]⟩, hparse, Option.bind_some]
    dsimp only
    rw [if_neg (by simp), if_neg (by simp [trueError, herr]), hpos, hbyte,
      if_neg (by omega), if_pos ⟨by omega, by rw [List.length_append]; omega⟩, Int.toNat_natCast,
      List.drop_left]
  · obtain ⟨heq, hinside⟩ := h.slices.translated htr
    exact ⟨heq, hinside⟩

theorem Ready.pieces (halloc : ∀ k, env.alloc k) (ps : List (Piece env)) {s : Parsing}
    {rc : DecoderCallbackErr} {messages : List Bytes} (h : Ready s rc messages) (fuel : ℕ)
    (rest : Bytes) :
    ∃ s', xmlLoop env (fuel + ps.length) (ps.flatMap Piece.bytes ++ rest) s =
        xmlLoop env fuel rest s' ∧
      Ready s' rc (messages ++ ps.map Piece.message) := by
  induction ps generalizing s messages with
  | nil => exact ⟨s, rfl, by simpa using h⟩
  | cons p ps ih =>
    obtain ⟨s₁, hs₁, h₁⟩ := h.piece halloc p (fuel + ps.length) (ps.flatMap Piece.bytes ++ rest)
    obtain ⟨s₂, hs₂, h₂⟩ := ih h₁
    refine ⟨s₂, ?_, by simpa using h₂⟩
    rw [List.length_cons, ← Nat.add_assoc, List.flatMap_cons, List.append_assoc, hs₁, hs₂]

theorem xmlLoop_nil (fuel : ℕ) (s : Parsing) : xmlLoop env fuel [] s = some s := by
  cases fuel with
  | zero => rfl
  | succ fuel => simp [xmlLoop]

/-- A session between two chunks, with nothing half done. -/
structure Between (session : ZzSession ZzXmlSession) : Prop where
  buf : session.parser.yajlGenBuf = []
  stackPos : session.parser.stackPos = 0
  gen_eq : session.parser.yajlGen = .initial
  response : session.httpResponse = []
  parser : session.parser.expatHandler = .fresh
  kafkaMsgs : session.kafkaMsgs = .initializer

theorem between_new : Between newZzSessionXml := ⟨rfl, rfl, rfl, rfl, rfl, rfl⟩

theorem Between.ready (env : Env) {session : ZzSession ZzXmlSession} (h : Between session) :
    Ready (enterXmlChunk env session) session.parser.rc [] := by
  refine ⟨⟨h.stackPos, h.gen_eq, h.response, ?_⟩, h.parser, rfl, ?_, ?_⟩
  · rw [enterXmlChunk, h.parser]
    rfl
  · rw [enterXmlChunk, h.kafkaMsgs]
    rfl
  · rw [enterXmlChunk, h.kafkaMsgs]
    simp [MessageArray.initializer]

theorem finishXmlChunk_payloads (session : ZzSession ZzXmlSession) {s : Parsing}
    {messages : List Bytes} (h : Slices s messages) :
    (finishXmlChunk session s).session.kafkaMsgs.payloads = messages := by
  by_cases hsize : kafkaMessageArraySize s.kafkaMsgs ≠ 0
  · simpa [finishXmlChunk, hsize, MessageArray.payloads, kafkaMessageArraySetPayloadBuffer]
      using h.eq
  · have hnil : s.kafkaMsgs.msgs = [] := by
      simpa [kafkaMessageArraySize] using hsize
    simp [finishXmlChunk, hsize, MessageArray.payloads, hnil, ← h.eq]

theorem Between.loop (halloc : ∀ k, env.alloc k) {session : ZzSession ZzXmlSession}
    (h : Between session) (ps : List (Piece env)) (rest : Bytes) :
    ∃ fuel s, xmlLoop env (ps.flatMap Piece.bytes ++ rest).length (ps.flatMap Piece.bytes ++ rest)
        (enterXmlChunk env session) = xmlLoop env (fuel + rest.length) rest s ∧
      Ready s session.parser.rc (ps.map Piece.message) := by
  have hlen : ps.length ≤ (ps.flatMap Piece.bytes).length := by
    induction ps with
    | nil => simp
    | cons p ps ih =>
      have hne := List.length_pos_iff.mpr p.reads.ne_nil
      rw [List.flatMap_cons, List.length_append, List.length_cons]
      omega
  obtain ⟨s, hs, hready⟩ := (h.ready env).pieces halloc ps
    ((ps.flatMap Piece.bytes).length - ps.length + rest.length) rest
  refine ⟨(ps.flatMap Piece.bytes).length - ps.length, s, ?_, hready⟩
  rw [← hs, List.length_append]
  congr 1
  omega

theorem processXmlBuffer_pieces (halloc : ∀ k, env.alloc k) {session : ZzSession ZzXmlSession}
    (h : Between session) (ps : List (Piece env)) :
    ∃ processed, processXmlBuffer env (ps.flatMap Piece.bytes) session = some processed ∧
      processed.session.kafkaMsgs.payloads = ps.map Piece.message ∧
      processed.rc = session.parser.rc ∧
      processed.session.parser.rc = session.parser.rc ∧
      Between { processed.session with kafkaMsgs := .initializer } := by
  obtain ⟨fuel, s, hs, hready⟩ := h.loop halloc ps []
  rw [List.append_nil, xmlLoop_nil] at hs
  refine ⟨finishXmlChunk session s, ?_, finishXmlChunk_payloads session hready.slices,
    hready.rc_eq, hready.rc_eq, ⟨rfl, hready.idle.stackPos, hready.idle.gen_eq,
      hready.idle.response, hready.parser, rfl⟩⟩
  rw [processXmlBuffer, hs, Option.map_some]

/-- The chunk becomes one message, the documented JSON of the document. -/
def Preserves (env : Env) (chunk : Bytes) (d : Document env.style.maxDepth) : Prop :=
  ∃ processed m, processXmlBuffer env chunk newZzSessionXml = some processed ∧
    processed.rc = .ok ∧ processed.session.kafkaMsgs.payloads = [m] ∧
    m = render env.style d.toJson ∧ WellFormed m

theorem preserves_iff_oneRun (env : Env) (halloc : ∀ k, env.alloc k) (chunk : Bytes)
    (d : Document env.style.maxDepth) (hreads : Reads env.expat chunk d) :
    Preserves env chunk d ↔ d.OneRun := by
  obtain ⟨processed, hp, hpayloads, hrc, -⟩ :=
    processXmlBuffer_pieces halloc between_new [⟨chunk, d, hreads⟩]
  rw [List.flatMap_singleton] at hp
  rw [← documentText_eq_render_iff (y := env.style)]
  constructor
  · intro ⟨processed', m, hp', _, hm, hrender, _⟩
    obtain rfl := Option.some.inj (hp'.symm.trans hp)
    have heq : [m] = [documentText env.style d] := hm.symm.trans hpayloads
    exact (List.singleton_inj.mp heq).symm.trans hrender
  · intro htext
    refine ⟨processed, documentText env.style d, hp, hrc, hpayloads, htext, ?_⟩
    rw [htext]
    exact wellFormed_render env.style d.toJson

inductive Reading
  | text (depth : ℕ)
  | tag (depth : ℕ) (name : Bytes)

def Reading.next : Reading → UInt8 → Reading × List XmlEvent
  | .text depth, c =>
    if c = 60 then (.tag depth [], [])
    else (.text depth, if depth = 0 then [] else [.characterData [c]])
  | .tag depth name, c =>
    if c ≠ 62 then (.tag depth (name ++ [c]), [])
    else
      match name with
      | 47 :: el => (.text (depth - 1), [.endElement (strAt el)])
      | el => (.text (depth + 1), [.startElement (strAt el) []])

def Reading.run : Reading → ℕ → Bytes → Reading × List Token
  | r, _, [] => (r, [])
  | r, i, c :: rest =>
    let last := run (r.next c).1 (i + 1) rest
    (last.1, (r.next c).2.map (fun e ↦ ⟨e, ⟨1, i, i⟩, ⟨1, i + 1, i + 1⟩⟩) ++ last.2)

theorem noString_short (error : XmlError) : ((fun _ ↦ [] : XmlError → Bytes) error).length ≤ 128 :=
  Nat.zero_le _

/-- Expat on documents without attributes, prolog and references. -/
def plainExpat : Library where
  parse fed chunk :=
    let before := Reading.run (.text 0) 0 fed.flatten
    ⟨(Reading.run before.1 fed.flatten.length chunk).2, .ok, .none,
      ⟨1, fed.flatten.length + chunk.length, fed.flatten.length + chunk.length⟩⟩
  errorString _ := []
  errorString_short := noString_short

def plainEnv : Env := ⟨plainExpat, Yajl.yajlStyle, fun _ ↦ true, false⟩

theorem Reading.run_append (r : Reading) (i : ℕ) (s t : Bytes) :
    (r.run i (s ++ t)).2 = (r.run i s).2 ++ ((r.run i s).1.run (i + s.length) t).2 := by
  induction s generalizing r i with
  | nil => rfl
  | cons c s ih =>
    rw [List.cons_append, Reading.run, Reading.run]
    dsimp only
    rw [ih, List.append_assoc, List.length_cons, Nat.add_assoc i 1, Nat.add_comm 1]

theorem reads_plain {bytes : Bytes} {d : Document 128}
    (hevents : (Reading.run (.text 0) 0 bytes).2.map Token.event = d.events)
    (hstop : ((Reading.run (.text 0) 0 bytes).2.getLast?.map fun t ↦ t.stop.byte) =
      some (bytes.length : ℤ)) : Reads plainExpat bytes d := by
  obtain ⟨ts, us, hrun, hts, hus⟩ := List.map_eq_append_iff.mp hevents
  obtain ⟨last, rfl, hlast⟩ := List.map_eq_singleton_iff.mp hus
  rw [hrun, List.getLast?_concat, Option.map_some, Option.some_inj] at hstop
  refine ⟨?_, ts, last, hts, hlast, hstop, fun more ↦ ?_⟩
  · rintro rfl
    simp [Reading.run] at hrun
  · rw [← hrun]
    exact ⟨_, (Reading.run_append ..).symm⟩

def tailed (text : Run) : Document 128 :=
  ⟨lit "a", [], text, .cons (lit "b") [] ⟨[], by simp⟩ .nil ⟨[ascii "y"], by decide⟩ .nil, by decide⟩

theorem preserves_tailed : Preserves plainEnv (ascii "<a><b></b>y</a>") (tailed ⟨[], by simp⟩) :=
  (preserves_iff_oneRun plainEnv (fun _ ↦ rfl) (ascii "<a><b></b>y</a>") (tailed ⟨[], by simp⟩)
    (reads_plain (by decide) (by decide))).mpr
    (by simp [tailed, Document.OneRun, Forest.OneRun, Forest.tails, Run.count, Run.any])

/-- With text before the child as well, the `y` ends up in the tag of the child. -/
theorem tail_joins_tag :
    Reads plainEnv.expat (ascii "<a>x<b></b>y</a>") (tailed ⟨[ascii "x"], by decide⟩) ∧
      (processXmlBuffer plainEnv (ascii "<a>x<b></b>y</a>") newZzSessionXml).map
          (fun p ↦ p.session.kafkaMsgs.payloads) =
        some [ascii "\x7b\"tag\":\"a\",\"text\":\"x\",\"children\":[\x7b\"tag\":\"by\"\x7d]\x7d"] ∧
      ¬ Preserves plainEnv (ascii "<a>x<b></b>y</a>") (tailed ⟨[ascii "x"], by decide⟩) := by
  have hrun : (processXmlBuffer plainEnv (ascii "<a>x<b></b>y</a>") newZzSessionXml).map
      (fun p ↦ p.session.kafkaMsgs.payloads) =
    some [ascii "\x7b\"tag\":\"a\",\"text\":\"x\",\"children\":[\x7b\"tag\":\"by\"\x7d]\x7d"] := by
    decide
  refine ⟨reads_plain (by decide) (by decide), hrun, ?_⟩
  intro ⟨processed, m, hp, _, hm, hrender, _⟩
  rw [hp, Option.map_some, hm, hrender, Option.some_inj, List.singleton_inj] at hrun
  revert hrun
  decide

end N2Kafka.Decoder.XmlTranslation
