import N2Kafka.Decoder.XmlOffsets

namespace N2Kafka.Decoder.XmlNesting

open Lib.CString Lib.JsonGenerator Util.KafkaMessageArray Decoder.DecoderApi Decoder.Expat
open Decoder.ZzDecoder Decoder.ZzParserXml Decoder.XmlTranslation Decoder.XmlOffsets

/-- Where some tags lead: into `depth` open elements, or to the end of the root, with the index
behind it. -/
inductive Reach
  | opened (depth : ℕ)
  | ended (byte : ℤ)

def reach : List Token → ℕ → Reach
  | [], depth => .opened depth
  | t :: ts, depth =>
    match t.event with
    | .startElement _ _ => reach ts (depth + 1)
    | .endElement _ => if depth ≤ 1 then .ended t.stop.byte else reach ts (depth - 1)
    | .characterData _ => reach ts depth

def openElements (expat : Library) : ℕ → Bytes → ℕ
  | 0, _ => 0
  | fuel + 1, text =>
    if text = [] then 0
    else
      match reach (expat.parse [] text).tokens 0 with
      | .opened depth => depth
      | .ended byte => openElements expat fuel (text.drop byte.toNat)

def nested : List Token → ℕ → Bool
  | [], _ => true
  | t :: ts, depth =>
    match t.event with
    | .startElement _ _ => nested ts (depth + 1)
    | .endElement _ => decide (0 < depth) && nested ts (depth - 1)
    | .characterData _ => decide (0 < depth) && nested ts depth

def history (expat : Library) : List Bytes → List Bytes → List Token
  | _, [] => []
  | before, chunk :: chunks =>
    (expat.parse before chunk).tokens ++ history expat (before ++ [chunk]) chunks

/-- What is assumed of expat: tags are nested, `XML_Parse` answers with an error exactly if there is
one, and there is nothing to abort and no junk before the root has ended. -/
structure ReportsNesting (expat : Library) : Prop where
  nested : ∀ fed chunk, nested (history expat [] fed ++ (expat.parse fed chunk).tokens) 0 = true
  status : ∀ fed chunk, (expat.parse fed chunk).status =
    if (expat.parse fed chunk).error = .none then .ok else .error
  aborted : ∀ fed chunk, (expat.parse fed chunk).error ≠ .aborted
  junk : ∀ fed chunk, (expat.parse fed chunk).error = .junkAfterDocElement →
    ∃ byte, reach (history expat [] fed ++ (expat.parse fed chunk).tokens) 0 = .ended byte

theorem history_concat (expat : Library) (before fed : List Bytes) (chunk : Bytes) :
    history expat before (fed ++ [chunk]) =
      history expat before fed ++ (expat.parse (before ++ fed) chunk).tokens := by
  induction fed generalizing before with
  | nil => simp [history]
  | cons c fed ih => simp [history, ih]

theorem reach_append {ts us : List Token} {depth depth' : ℕ} (h : reach ts depth = .opened depth') :
    reach (ts ++ us) depth = reach us depth' := by
  induction ts generalizing depth with
  | nil =>
    obtain rfl := Reach.opened.inj h
    rfl
  | cons t ts ih =>
    cases he : t.event with
    | startElement el attr =>
      simp only [List.cons_append, reach, he] at h ⊢
      exact ih h
    | endElement el =>
      simp only [List.cons_append, reach, he] at h ⊢
      split at h
      · cases h
      · rename_i hdepth
        rw [if_neg hdepth]
        exact ih h
    | characterData text =>
      simp only [List.cons_append, reach, he] at h ⊢
      exact ih h

theorem nested_append {ts us : List Token} {depth depth' : ℕ} (h : nested (ts ++ us) depth = true)
    (hreach : reach ts depth = .opened depth') : nested us depth' = true := by
  induction ts generalizing depth with
  | nil =>
    obtain rfl := Reach.opened.inj hreach
    exact h
  | cons t ts ih =>
    cases he : t.event with
    | startElement el attr =>
      simp only [List.cons_append, nested, reach, he] at h hreach
      exact ih h hreach
    | endElement el =>
      simp only [List.cons_append, nested, reach, he, Bool.and_eq_true] at h hreach
      split at hreach
      · cases hreach
      · exact ih h.2 hreach
    | characterData text =>
      simp only [List.cons_append, nested, reach, he, Bool.and_eq_true] at h hreach
      exact ih h.2 hreach

/-- An element with these attributes fits into the generator. Each one around it takes two levels,
for its object and the array of its children. -/
def roomFor (maxDepth depth : ℕ) (attr : List (CStr × CStr)) : Bool :=
  2 * depth + 1 + (if attr = [] then 0 else 1) < maxDepth

def fits (maxDepth : ℕ) : List Token → ℕ → Bool
  | [], _ => true
  | t :: ts, depth =>
    match t.event with
    | .startElement _ attr => roomFor maxDepth depth attr && fits maxDepth ts (depth + 1)
    | .endElement _ => depth ≤ 1 || fits maxDepth ts (depth - 1)
    | .characterData _ => fits maxDepth ts depth

/-- The chunks a parser has got since its last reset, and the elements they leave open. -/
structure Reader where
  fed : List Bytes
  depth : ℕ

/-- A chunk is refused if an element does not fit or if expat finds an error. What stands behind a
root is skipped up to the byte index, which counts from the last reset. -/
def Reader.chunk (expat : Library) (maxDepth : ℕ) : ℕ → Bytes → Reader → Option Reader
  | 0, _, r => some r
  | fuel + 1, buffer, r =>
    if buffer = [] then some r
    else if !fits maxDepth (expat.parse r.fed buffer).tokens r.depth then none
    else
      match reach (expat.parse r.fed buffer).tokens r.depth with
      | .opened depth =>
        if (expat.parse r.fed buffer).error = .none then some ⟨r.fed ++ [buffer], depth⟩ else none
      | .ended byte =>
        if byte ≤ 0 then none else chunk expat maxDepth fuel (buffer.drop byte.toNat) ⟨[], 0⟩

def Reader.chunks (expat : Library) (maxDepth : ℕ) : List Bytes → Reader → Option Reader
  | [], r => some r
  | c :: cs, r => (r.chunk expat maxDepth c.length c).bind (chunks expat maxDepth cs)

/-- The levels of the generator around the innermost object: each open element is the last child of
the one around it. -/
inductive Stacked : List (Bool × Bool) → List Level → Prop
  | root (f : Bool × Bool) : Stacked [f] [.start]
  | child (f : Bool × Bool) {text : Bool} {fs : List (Bool × Bool)} {a : Level} {ls : List Level}
      (ha : InArray a) (h : Stacked ((text, true) :: fs) ls) :
      Stacked (f :: (text, true) :: fs) (a :: .mapVal :: ls)

theorem Stacked.head {f : Bool × Bool} {fs : List (Bool × Bool)} {ls : List Level}
    (h : Stacked (f :: fs) ls) (f' : Bool × Bool) : Stacked (f' :: fs) ls := by
  cases h with
  | root => exact .root f'
  | child _ ha h => exact .child f' ha h

theorem Stacked.length_eq {fs : List (Bool × Bool)} {ls : List Level} (h : Stacked fs ls) :
    ls.length + 1 = 2 * fs.length := by
  induction h with
  | root => rfl
  | child f ha h ih =>
    simp only [List.length_cons] at ih ⊢
    omega

inductive Elements (bits : ℕ → Bool) : ℕ → Gen → Prop
  | nothing : Elements bits 0 .initial
  | inside {text opened : Bool} {fs : List (Bool × Bool)} {a : Level} {ls : List Level}
      (ha : InArray a) (hstacked : Stacked ((text, opened) :: fs) ls)
      (hframes : Frames bits ((text, opened) :: fs)) :
      Elements bits (fs.length + 1) (contentGen opened a ls)

structure At (depth : ℕ) (s : Parsing) : Prop where
  stackPos : s.stackPos = depth
  elements : Elements s.stackBooleanInfo depth s.yajlGen
  response : s.httpResponse = []
  running : s.expatHandler.stopped = false
  rc : s.rc = .ok

structure Ended (s : Parsing) : Prop where
  stackPos : s.stackPos = 0
  gen_eq : s.yajlGen = .initial
  response : s.httpResponse = []
  stopped : s.expatHandler.stopped = true
  rc : s.rc = .ok

structure Refusing (s : Parsing) : Prop where
  response : s.httpResponse ≠ []
  stopped : s.expatHandler.stopped = true
  rc : s.rc ≠ .ok

section Events

variable {env : Env} {depth : ℕ} {s s' s₀ : Parsing}

theorem At.moved (h : At depth s) (position : Position) :
    At depth { s with expatHandler := { s.expatHandler with position := position } } :=
  ⟨h.stackPos, h.elements, h.response, h.running, h.rc⟩

theorem At.idle (h : At 0 s) : Idle s := by
  refine ⟨h.stackPos, ?_, h.response, h.running⟩
  generalize hgen : s.yajlGen = gen
  have helements := h.elements
  rw [hgen] at helements
  cases helements
  rfl

theorem At.inside (h : At depth s) (hdepth : 0 < depth) :
    ∃ text opened fs a ls, depth = fs.length + 1 ∧ InArray a ∧ Stacked ((text, opened) :: fs) ls ∧
      Within s s.yajlGenBuf ((text, opened) :: fs) (contentGen opened a ls) s := by
  obtain ⟨hpos, helements, hresponse, hrunning, -⟩ := h
  generalize hgen : s.yajlGen = gen at helements
  cases helements with
  | nothing => exact absurd hdepth (lt_irrefl 0)
  | inside ha hstacked hframes =>
    exact ⟨_, _, _, _, _, rfl, ha, hstacked,
      ⟨rfl, hpos, hframes, hgen, hresponse, hrunning, ⟨rfl, rfl, rfl⟩⟩⟩

theorem at_of_within {buf : Bytes} {text opened : Bool} {fs : List (Bool × Bool)} {a : Level}
    {ls : List Level} (hrc : s₀.rc = .ok) (ha : InArray a)
    (hstacked : Stacked ((text, opened) :: fs) ls)
    (h : Within s₀ buf ((text, opened) :: fs) (contentGen opened a ls) s) :
    At (fs.length + 1) s := by
  refine ⟨h.stackPos, ?_, h.response, h.running, h.kept.rc.trans hrc⟩
  rw [h.gen_eq]
  exact .inside ha hstacked h.frames

theorem yajlGenErr2codestr_errCode {status : Status} (h : status ≠ .ok) :
    (yajlGenErr2codestr status).errCode ≠ .ok := by
  cases status with
  | ok => exact absurd rfl h
  | _ => decide

theorem expatErr2codestr_errCode (expat : Library) {error : XmlError} (h : error ≠ .none) :
    (expatErr2codestr expat error).errCode ≠ .ok := by
  cases error with
  | none => exact absurd rfl h
  | _ => simp [expatErr2codestr]

theorem refusing_generatorErr (env : Env) {err : Bytes × Status} (h : err.2 ≠ .ok) (s : Parsing) :
    Refusing (generatorErr env err s) := by
  refine ⟨queueXmlError_response _ _ s, XmlParser.stop_stopped _, ?_⟩
  have hcode := yajlGenErr2codestr_errCode h
  simp [generatorErr, queueXmlError, queueXmlError0, xmlStopParser, xmlParserErr, hcode]

theorem genOrGotoErr_stuck (halloc : ∀ k, env.alloc k) {ops : List (Op × Bytes)}
    (h : generate env.style (ops.map (·.1)) s.yajlGen = none) :
    ∃ s' err, genOrGotoErr env ops s = (s', some err) ∧ err.2 ≠ .ok := by
  induction ops generalizing s with
  | nil => cases h
  | cons op ops ih =>
    rw [genOrGotoErr, foldl_yajlPrintCallback halloc]
    rw [List.map_cons, generate] at h
    split at h
    · rename_i hok
      rw [if_pos hok]
      exact ih (Option.map_eq_none_iff.mp h)
    · rename_i hok
      rw [if_neg hok]
      exact ⟨_, _, rfl, hok⟩

theorem start_stuck (halloc : ∀ k, env.alloc k) (el : CStr) (attr : List (CStr × CStr)) {l : Level}
    {ls : List Level} (hl : l.Free) (hresponse : s.httpResponse = [])
    (hopen : openChild env s = (s', none)) (hgen : s'.yajlGen = ⟨l, ls⟩)
    (hdeep : env.style.maxDepth ≤ ls.length + 1 + (if attr = [] then 0 else 1)) :
    Refusing (zzParseStartXmlElement env el attr s) := by
  have hstuck : generate env.style ((elementOps el attr).map (·.1)) (pushFrame s').yajlGen = none := by
    have hpushed : (pushFrame s').yajlGen = ⟨l, ls⟩ := hgen
    rw [hpushed]
    exact generate_element_tooDeep env.style el attr hl ls hdeep
  obtain ⟨s₁, err, hs₁, herr⟩ := genOrGotoErr_stuck halloc hstuck
  rw [zzParseStartXmlElement, hresponse, List.length_nil, if_neg (lt_irrefl 0), hopen]
  dsimp only
  rw [hs₁]
  exact refusing_generatorErr env herr s₁

theorem openChild_stuck (halloc : ∀ k, env.alloc k) {buf : Bytes} {text : Bool}
    {fs : List (Bool × Bool)} {a : Level} {ls : List Level}
    (h : Within s₀ buf ((text, false) :: fs) (contentGen false a ls) s)
    (hdeep : env.style.maxDepth ≤ ls.length + 1) :
    ∃ s' err, openChild env s = (s', some err) ∧ err.2 ≠ .ok := by
  have hstuck : generate env.style (openChildrenOps.map (·.1)) s.yajlGen = none := by
    rw [h.gen_eq, contentGen, if_neg (by simp), openChildrenOps, List.map_cons, List.map_cons,
      generate_string _ _ _ rfl, Level.appended,
      generate_arrayOpen_tooDeep _ _ ⟨rfl, by simp, by simp⟩ _ hdeep]
    rfl
  obtain ⟨s', err, hs', herr⟩ := genOrGotoErr_stuck halloc hstuck
  refine ⟨s', err, ?_, herr⟩
  rw [openChild, if_neg (by simp [h.stackPos]), h.childrenPrinted]
  simp [hs']

theorem At.start (halloc : ∀ k, env.alloc k) (h : At depth s) (el : CStr)
    (attr : List (CStr × CStr)) (hroom : roomFor env.style.maxDepth depth attr) :
    At (depth + 1) (zzParseStartXmlElement env el attr s) := by
  rw [roomFor, decide_eq_true_eq] at hroom
  obtain rfl | hdepth := Nat.eq_zero_or_pos depth
  · have hin := (h.idle.start halloc el attr (by omega)).toWithin
    have hrc : ({ s with lastOpenMap := some s.yajlGenBuf.length } : Parsing).rc = .ok := h.rc
    exact at_of_within (a := .arrayStart) hrc (.inl rfl) (.root (false, false)) hin
  · obtain ⟨text, opened, fs, a, ls, rfl, ha, hstacked, hin⟩ := h.inside hdepth
    have hlen := hstacked.length_eq
    rw [List.length_cons] at hlen
    obtain ⟨a', ha', hin'⟩ := hin.start halloc ha el attr (by omega)
    exact at_of_within (a := .arrayStart) h.rc (.inl rfl) (.child (false, false) ha' (hstacked.head _))
      hin'

theorem At.start_tooDeep (halloc : ∀ k, env.alloc k) (h : At depth s) (el : CStr)
    (attr : List (CStr × CStr)) (hroom : ¬ roomFor env.style.maxDepth depth attr) :
    Refusing (zzParseStartXmlElement env el attr s) := by
  rw [roomFor, decide_eq_true_eq, not_lt] at hroom
  obtain rfl | hdepth := Nat.eq_zero_or_pos depth
  · have hfree : Level.start.Free := ⟨rfl, by simp, by simp⟩
    have hgen : ({ s with lastOpenMap := some s.yajlGenBuf.length } : Parsing).yajlGen =
        ⟨.start, []⟩ := h.idle.gen_eq
    refine start_stuck halloc el attr hfree h.response (if_pos h.stackPos) hgen ?_
    simpa using hroom
  · obtain ⟨text, opened, fs, a, ls, rfl, ha, hstacked, hin⟩ := h.inside hdepth
    have hlen := hstacked.length_eq
    rw [List.length_cons] at hlen
    by_cases hchild : opened = false ∧ env.style.maxDepth ≤ ls.length + 1
    · obtain ⟨rfl, hdeep⟩ := hchild
      obtain ⟨s', err, hs', herr⟩ := openChild_stuck halloc hin hdeep
      rw [zzParseStartXmlElement, h.response, List.length_nil, if_neg (lt_irrefl 0), hs']
      exact refusing_generatorErr env herr s'
    · obtain ⟨s', a', sep, hs', ha', -, hin'⟩ := hin.openChild halloc ha fun hopened ↦ by
        have hlt := not_and.mp hchild hopened
        omega
      have hfree : a'.Free := by obtain rfl | rfl := ha' <;> exact ⟨rfl, by simp, by simp⟩
      refine start_stuck halloc el attr hfree h.response hs' hin'.gen_eq ?_
      rw [List.length_cons]
      omega

theorem At.endElement (halloc : ∀ k, env.alloc k) (h : At depth s) (hdepth : 1 < depth)
    (hs' : zzParseEndXmlElement env s = some s') : At (depth - 1) s' := by
  obtain ⟨text, opened, fs, a, ls, rfl, ha, hstacked, hin⟩ := h.inside (by omega)
  cases hstacked with
  | root => exact absurd hdepth (lt_irrefl 1)
  | child _ ha' hstacked =>
    obtain ⟨s₁, hs₁, hin₁⟩ := hin.finish halloc ha
    obtain rfl := Option.some.inj (hs'.symm.trans hs₁)
    exact at_of_within h.rc ha' hstacked hin₁

theorem At.endRoot (halloc : ∀ k, env.alloc k) (h : At 1 s)
    (hs' : zzParseEndXmlElement env s = some s') : Ended s' := by
  obtain ⟨text, opened, fs, a, ls, hfs, ha, hstacked, hin⟩ := h.inside Nat.one_pos
  cases hstacked with
  | child => simp at hfs
  | root =>
    obtain ⟨s₁, hs₁, hin₁⟩ := hin.lastEnd halloc ha
    rw [hs₁, closeRoot] at hs'
    split at hs'
    · cases hs'
    · split at hs'
      · simp only [halloc, if_true, Option.some.injEq] at hs'
        subst hs'
        exact ⟨hin₁.stackPos, rfl, hin₁.response, XmlParser.stop_stopped _,
          hin₁.kept.rc.trans h.rc⟩
      · cases hs'

theorem At.characterData (halloc : ∀ k, env.alloc k) (h : At depth s) (hdepth : 0 < depth)
    (text : Bytes) (hs' : zzParseXmlCharacterData env text s = some s') : At depth s' := by
  obtain ⟨printed, opened, fs, a, ls, rfl, ha, hstacked, hin⟩ := h.inside hdepth
  have hgen : ∃ ls', contentGen opened a ls = ⟨.mapKey, ls'⟩ := by
    cases opened with
    | false => exact ⟨ls, rfl⟩
    | true => exact ⟨a :: .mapVal :: ls, rfl⟩
  cases printed with
  | false =>
    obtain ⟨ls', hls'⟩ := hgen
    rw [hls'] at hin
    obtain ⟨s₁, hs₁, hin₁⟩ := hin.firstText halloc text
    obtain rfl := Option.some.inj (hs'.symm.trans hs₁)
    rw [← hls'] at hin₁
    exact at_of_within h.rc ha (hstacked.head _) hin₁
  | true =>
    have hne : s.yajlGenBuf ≠ [] := by
      intro hnil
      rw [zzParseXmlCharacterData, hin.textPrinted] at hs'
      simp [spliceText, halloc, emit, Gen.initial, Level.status, hnil] at hs'
    obtain ⟨s₁, hs₁, hin₁⟩ := hin.moreText halloc text hne
    obtain rfl := Option.some.inj (hs'.symm.trans hs₁)
    exact at_of_within h.rc ha hstacked hin₁

inductive Delivered (maxDepth : ℕ) (ts : List Token) (depth : ℕ) (s : Parsing) : Prop
  | opened (depth' : ℕ) (hfits : fits maxDepth ts depth = true)
      (hreach : reach ts depth = .opened depth') (h : At depth' s)
  | ended (hfits : fits maxDepth ts depth = true)
      (hreach : reach ts depth = .ended s.expatHandler.position.byte)
      (herror : s.expatHandler.error = .aborted) (h : Ended s)
  | refused (hfits : fits maxDepth ts depth = false) (herror : s.expatHandler.error = .aborted)
      (h : Refusing s)

theorem Delivered.cons {maxDepth depth' : ℕ} {t : Token} {ts : List Token}
    (hfits : fits maxDepth (t :: ts) depth = fits maxDepth ts depth')
    (hreach : reach (t :: ts) depth = reach ts depth') (h : Delivered maxDepth ts depth' s) :
    Delivered maxDepth (t :: ts) depth s := by
  cases h with
  | opened depth'' hf hr h => exact .opened depth'' (hfits.trans hf) (hreach.trans hr) h
  | ended hf hr herror h => exact .ended (hfits.trans hf) (hreach.trans hr) herror h
  | refused hf herror h => exact .refused (hfits.trans hf) herror h

theorem xmlDeliver_cons {t : Token} {ts : List Token} (h : xmlDeliver env (t :: ts) s = some s') :
    ∃ s₁, xmlHandler env { s with expatHandler := { s.expatHandler with position := t.start } }
        t.event = some s₁ ∧
      (s₁.expatHandler.stopped = true ∧ s' = { s₁ with expatHandler :=
          { s₁.expatHandler with error := .aborted, position := t.stop } } ∨
        s₁.expatHandler.stopped = false ∧ xmlDeliver env ts s₁ = some s') := by
  obtain ⟨s₁, hs₁, h⟩ := Option.bind_eq_some_iff.mp h
  refine ⟨s₁, hs₁, ?_⟩
  split at h
  · rename_i hstop
    exact .inl ⟨hstop, (Option.some.inj h).symm⟩
  · rename_i hstop
    exact .inr ⟨by simpa using hstop, h⟩

theorem At.deliver (halloc : ∀ k, env.alloc k) (ts : List Token) (h : At depth s)
    (hnested : nested ts depth = true) (hs' : xmlDeliver env ts s = some s') :
    Delivered env.style.maxDepth ts depth s' := by
  induction ts generalizing depth s with
  | nil =>
    obtain rfl := Option.some.inj hs'
    exact .opened depth rfl rfl h
  | cons t ts ih =>
    obtain ⟨s₁, hs₁, hcases⟩ := xmlDeliver_cons hs'
    replace hs₁ := (xmlHandler0_of_some hs₁).1
    have hmoved := h.moved t.start
    -- a session that runs on goes to the other tokens
    have hnext {depth' : ℕ} (hat : At depth' s₁) (hnested : nested ts depth' = true)
        (hfits : fits env.style.maxDepth (t :: ts) depth = fits env.style.maxDepth ts depth')
        (hreach : reach (t :: ts) depth = reach ts depth') :
        Delivered env.style.maxDepth (t :: ts) depth s' := by
      obtain ⟨hstop, -⟩ | ⟨-, hrest⟩ := hcases
      · exact absurd (hat.running.symm.trans hstop) (by decide)
      · exact .cons hfits hreach (ih hat hnested hrest)
    cases he : t.event with
    | startElement el attr =>
      simp only [nested, he] at hnested
      rw [he] at hs₁
      obtain rfl := Option.some.inj hs₁
      by_cases hroom : roomFor env.style.maxDepth depth attr
      · exact hnext (hmoved.start halloc el attr hroom) hnested (by simp [fits, he, hroom])
          (by simp [reach, he])
      · have hrefusing := hmoved.start_tooDeep halloc el attr hroom
        obtain ⟨-, rfl⟩ | ⟨hrun, -⟩ := hcases
        · refine .refused (by simp [fits, he, hroom]) rfl ?_
          exact ⟨hrefusing.response, hrefusing.stopped, hrefusing.rc⟩
        · exact absurd (hrun.symm.trans hrefusing.stopped) (by decide)
    | endElement el =>
      simp only [nested, he, Bool.and_eq_true, decide_eq_true_eq] at hnested
      rw [he] at hs₁
      obtain hone | hdepth := (Nat.succ_le_of_lt hnested.1).eq_or_lt
      · obtain rfl : depth = 1 := hone.symm
        have hended := hmoved.endRoot halloc hs₁
        obtain ⟨-, rfl⟩ | ⟨hrun, -⟩ := hcases
        · refine .ended (by simp [fits, he]) (by simp [reach, he]) rfl ?_
          exact ⟨hended.stackPos, hended.gen_eq, hended.response, hended.stopped, hended.rc⟩
        · exact absurd (hrun.symm.trans hended.stopped) (by decide)
      · have hle : ¬ depth ≤ 1 := not_le.mpr hdepth
        exact hnext (hmoved.endElement halloc hdepth hs₁) hnested.2 (by simp [fits, he, hle])
          (by simp [reach, he, hle])
    | characterData text =>
      simp only [nested, he, Bool.and_eq_true, decide_eq_true_eq] at hnested
      rw [he] at hs₁
      exact hnext (hmoved.characterData halloc hnested.1 text hs₁) hnested.2 (by simp [fits, he])
        (by simp [reach, he])

end Events

/-- A session whose parser and stack stand where the reader does. -/
structure Tracks (expat : Library) (r : Reader) (s : Parsing) : Prop where
  fed : s.expatHandler.fed = r.fed
  error : s.expatHandler.error = .none
  reached : reach (history expat [] r.fed) 0 = .opened r.depth
  stands : At r.depth s

inductive Turned (expat : Library) (maxDepth : ℕ) (r : Reader) (buffer : Bytes) : Turn → Prop
  | aborted : Turned expat maxDepth r buffer .aborted
  | opened {s : Parsing} (depth : ℕ)
      (hfits : fits maxDepth (expat.parse r.fed buffer).tokens r.depth = true)
      (hreach : reach (expat.parse r.fed buffer).tokens r.depth = .opened depth)
      (herror : (expat.parse r.fed buffer).error = .none)
      (h : Tracks expat ⟨r.fed ++ [buffer], depth⟩ s) : Turned expat maxDepth r buffer (.left s)
  | wrong {s : Parsing} (depth : ℕ)
      (hfits : fits maxDepth (expat.parse r.fed buffer).tokens r.depth = true)
      (hreach : reach (expat.parse r.fed buffer).tokens r.depth = .opened depth)
      (herror : (expat.parse r.fed buffer).error ≠ .none) (hrc : s.rc ≠ .ok) :
      Turned expat maxDepth r buffer (.left s)
  | lost {s : Parsing} (byte : ℤ)
      (hfits : fits maxDepth (expat.parse r.fed buffer).tokens r.depth = true)
      (hreach : reach (expat.parse r.fed buffer).tokens r.depth = .ended byte) (hbyte : byte ≤ 0)
      (hrc : s.rc ≠ .ok) : Turned expat maxDepth r buffer (.left s)
  | ended {s : Parsing} (byte : ℤ)
      (hfits : fits maxDepth (expat.parse r.fed buffer).tokens r.depth = true)
      (hreach : reach (expat.parse r.fed buffer).tokens r.depth = .ended byte) (hbyte : ¬ byte ≤ 0)
      (h : Tracks expat ⟨[], 0⟩ (zzResetXmlHandler s)) :
      Turned expat maxDepth r buffer (.restart byte s)
  | tooDeep {s : Parsing} (offset : ℤ)
      (hfits : fits maxDepth (expat.parse r.fed buffer).tokens r.depth = false) (h : Refusing s) :
      Turned expat maxDepth r buffer (.restart offset s)

section Chunks

variable {env : Env} {r : Reader} {s s' : Parsing} {buffer : Bytes}

theorem tracks_reset (h : Ended s) : Tracks env.expat ⟨[], 0⟩ (zzResetXmlHandler s) := by
  refine ⟨rfl, rfl, rfl, ⟨h.stackPos, ?_, h.response, rfl, h.rc⟩⟩
  have hgen : (zzResetXmlHandler s).yajlGen = .initial := h.gen_eq
  rw [hgen]
  exact .nothing

theorem xmlLoop_of_response (fuel : ℕ) (buffer : Bytes) (h : s.httpResponse ≠ []) :
    xmlLoop env fuel buffer s = some s := by
  have hlen : s.httpResponse.length ≠ 0 := by simpa using h
  cases fuel with
  | zero => rfl
  | succ fuel => rw [xmlLoop, if_neg fun hboth ↦ hlen hboth.2]

theorem queueXmlError_rc (text : Bytes) (h : s.expatHandler.error ≠ .none) :
    (queueXmlError env text .ok s).rc ≠ .ok := by
  have hcode := expatErr2codestr_errCode env.expat h
  simpa [queueXmlError, queueXmlError0, xmlStopParser, xmlParserErr, yajlGenErr2codestr] using hcode

theorem answered_queueXmlError {text : Bytes} (htext : text.length ≤ 128) (h : s.httpResponse = []) :
    Turn.answered (queueXmlError env text .ok s) = .left (queueXmlError env text .ok s) := by
  have hlength := length_queueXmlError_le env htext .ok s
  rw [h, List.length_nil] at hlength
  rw [Turn.answered, printed_of_short (by omega)]

theorem turn_stopped (hrun : s.expatHandler.stopped = false) (herror : s.expatHandler.error = .none)
    (hs' : xmlDeliver env (env.expat.parse s.expatHandler.fed buffer).tokens s = some s')
    (hstop : s'.expatHandler.stopped = true) (haborted : s'.expatHandler.error = .aborted) :
    turn env buffer s =
      if s'.expatHandler.position.byte ≤ 0 ∧ s'.httpResponse.length = 0 then
        .answered (queueXmlError env (ascii "Can't get parse offset") .ok s')
      else .restart s'.expatHandler.position.byte s' := by
  unfold turn xmlParse
  simp only [hrun, herror, ne_eq, not_true_eq_false, Bool.false_eq_true, if_false, hs',
    Option.map_some, hstop, if_true, reduceCtorEq, trueError, haborted, and_false, decide_false]

theorem Tracks.turn_opened (hexpat : ReportsNesting env.expat) (h : Tracks env.expat r s)
    (hs' : xmlDeliver env (env.expat.parse r.fed buffer).tokens s = some s') {depth : ℕ}
    (hreach : reach (env.expat.parse r.fed buffer).tokens r.depth = .opened depth)
    (hat : At depth s') : ∃ s₁, turn env buffer s = .left s₁ ∧
      ((env.expat.parse r.fed buffer).error = .none ∧
          Tracks env.expat ⟨r.fed ++ [buffer], depth⟩ s₁ ∨
        (env.expat.parse r.fed buffer).error ≠ .none ∧ s₁.httpResponse ≠ [] ∧ s₁.rc ≠ .ok) := by
  have hstatus := hexpat.status r.fed buffer
  have hreached : reach (history env.expat [] r.fed ++ (env.expat.parse r.fed buffer).tokens) 0 =
      .opened depth := (reach_append h.reached).trans hreach
  unfold turn xmlParse
  simp only [h.stands.running, h.error, h.fed, ne_eq, not_true_eq_false, Bool.false_eq_true, if_false,
    hs', Option.map_some, hat.running]
  by_cases herror : (env.expat.parse r.fed buffer).error = .none
  · rw [if_pos herror] at hstatus
    rw [if_pos hstatus]
    refine ⟨_, rfl, .inl ⟨herror, rfl, herror, ?_, ?_⟩⟩
    · rw [history_concat, List.nil_append]
      exact hreached
    · exact ⟨hat.stackPos, hat.elements, hat.response, rfl, hat.rc⟩
  · rw [if_neg herror] at hstatus
    have hjunk : (env.expat.parse r.fed buffer).error ≠ .junkAfterDocElement := by
      intro hjunk
      obtain ⟨byte, hended⟩ := hexpat.junk r.fed buffer hjunk
      cases hreached.symm.trans hended
    simp only [hstatus, reduceCtorEq, if_false, trueError, ne_eq, hjunk, not_false_eq_true,
      hexpat.aborted r.fed buffer, and_self, decide_true, if_true]
    refine ⟨_, answered_queueXmlError (by decide) ?_,
      .inr ⟨herror, queueXmlError_response _ _ _, queueXmlError_rc _ herror⟩⟩
    exact hat.response

theorem Tracks.turned (halloc : ∀ k, env.alloc k) (hexpat : ReportsNesting env.expat)
    (h : Tracks env.expat r s) (buffer : Bytes) :
    Turned env.expat env.style.maxDepth r buffer (turn env buffer s) := by
  have hnested := nested_append (hexpat.nested r.fed buffer) h.reached
  cases hs' : xmlDeliver env (env.expat.parse r.fed buffer).tokens s with
  | none =>
    unfold turn xmlParse
    simp only [h.stands.running, h.error, h.fed, ne_eq, not_true_eq_false, Bool.false_eq_true,
      if_false, hs', Option.map_none]
    exact .aborted
  | some s' =>
    have hstopped := turn_stopped h.stands.running h.error (h.fed.symm ▸ hs')
    cases h.stands.deliver halloc _ hnested hs' with
    | opened depth hfits hreach hat =>
      obtain ⟨s₁, hturn, ⟨herror, htracks⟩ | ⟨herror, -, hrc⟩⟩ := h.turn_opened hexpat hs' hreach hat
      · rw [hturn]
        exact .opened depth hfits hreach herror htracks
      · rw [hturn]
        exact .wrong depth hfits hreach herror hrc
    | ended hfits hreach herror hended =>
      rw [hstopped hended.stopped herror]
      simp only [hended.response, List.length_nil, and_true]
      split
      · rename_i hbyte
        rw [answered_queueXmlError (by decide) hended.response]
        exact .lost _ hfits hreach hbyte (queueXmlError_rc _ (by simp [herror]))
      · rename_i hbyte
        exact .ended _ hfits hreach hbyte (tracks_reset hended)
    | refused hfits herror hrefusing =>
      have hlen : s'.httpResponse.length ≠ 0 := by simpa using hrefusing.response
      rw [hstopped hrefusing.stopped herror, if_neg fun hboth ↦ hlen hboth.2]
      exact .tooDeep _ hfits hrefusing

/-- The loop over a chunk refuses it exactly if the reader does, and stands where it stands. -/
theorem Tracks.loop (halloc : ∀ k, env.alloc k) (hexpat : ReportsNesting env.expat) (fuel : ℕ)
    (h : Tracks env.expat r s) (hs' : xmlLoop env fuel buffer s = some s') :
    r.chunk env.expat env.style.maxDepth fuel buffer = none ∧ s'.rc ≠ .ok ∨
      ∃ r', r.chunk env.expat env.style.maxDepth fuel buffer = some r' ∧
        Tracks env.expat r' s' := by
  induction fuel generalizing r s buffer with
  | zero =>
    obtain rfl := Option.some.inj hs'
    exact .inr ⟨r, rfl, h⟩
  | succ fuel ih =>
    rw [xmlLoop_succ] at hs'
    by_cases hbuffer : buffer = []
    · rw [if_neg (by simp [hbuffer])] at hs'
      obtain rfl := Option.some.inj hs'
      exact .inr ⟨r, by simp [Reader.chunk, hbuffer], h⟩
    rw [if_pos ⟨List.length_pos_iff.mpr hbuffer, by rw [h.stands.response]; rfl⟩] at hs'
    have hturned := h.turned halloc hexpat buffer
    generalize turn env buffer s = next at hturned hs'
    cases hturned with
    | aborted => cases hs'
    | opened depth hfits hreach herror htracks =>
      obtain rfl := Option.some.inj hs'
      exact .inr ⟨_, by simp [Reader.chunk, hbuffer, hfits, hreach, herror], htracks⟩
    | wrong depth hfits hreach herror hrc =>
      obtain rfl := Option.some.inj hs'
      exact .inl ⟨by simp [Reader.chunk, hbuffer, hfits, hreach, herror], hrc⟩
    | lost byte hfits hreach hbyte hrc =>
      obtain rfl := Option.some.inj hs'
      exact .inl ⟨by simp [Reader.chunk, hbuffer, hfits, hreach, hbyte], hrc⟩
    | ended byte hfits hreach hbyte htracks =>
      have hchunk : r.chunk env.expat env.style.maxDepth (fuel + 1) buffer =
          Reader.chunk env.expat env.style.maxDepth fuel (buffer.drop byte.toNat) ⟨[], 0⟩ := by
        simp [Reader.chunk, hbuffer, hfits, hreach, hbyte]
      rw [hchunk]
      dsimp only at hs'
      split at hs'
      · exact ih htracks hs'
      · cases hs'
    | tooDeep offset hfits hrefusing =>
      refine .inl ⟨by simp [Reader.chunk, hbuffer, hfits], ?_⟩
      dsimp only at hs'
      split at hs'
      · have hresponse : (zzResetXmlHandler _).httpResponse ≠ [] := hrefusing.response
        rw [xmlLoop_of_response fuel _ hresponse] at hs'
        obtain rfl := Option.some.inj hs'
        exact hrefusing.rc
      · cases hs'

end Chunks

/-- Expat on documents without attributes, prolog and references: it refuses the text from a chunk
with a misplaced tag on. -/
def strictExpat : Library where
  parse fed chunk :=
    if nested (Reading.run (.text 0) 0 (fed.flatten ++ chunk)).2 0 then plainExpat.parse fed chunk
    else ⟨[], .error, .syntaxError, ⟨1, 0, 0⟩⟩
  errorString _ := []
  errorString_short := noString_short

theorem nested_left {ts us : List Token} {depth : ℕ} (h : nested (ts ++ us) depth = true) :
    nested ts depth = true := by
  induction ts generalizing depth with
  | nil => rfl
  | cons t ts ih =>
    cases he : t.event with
    | startElement el attr =>
      simp only [List.cons_append, nested, he] at h ⊢
      exact ih h
    | endElement el =>
      simp only [List.cons_append, nested, he, Bool.and_eq_true] at h ⊢
      exact ⟨h.1, ih h.2⟩
    | characterData text =>
      simp only [List.cons_append, nested, he, Bool.and_eq_true] at h ⊢
      exact ⟨h.1, ih h.2⟩

theorem history_strict (fed : List Bytes) : nested (history strictExpat [] fed) 0 = true ∧
    (nested (Reading.run (.text 0) 0 fed.flatten).2 0 = true →
      history strictExpat [] fed = (Reading.run (.text 0) 0 fed.flatten).2) := by
  induction fed using List.reverseRecOn with
  | nil => exact ⟨rfl, fun _ ↦ rfl⟩
  | append_singleton fed chunk ih =>
    rw [history_concat, List.nil_append, List.flatten_concat]
    by_cases hnested : nested (Reading.run (.text 0) 0 (fed.flatten ++ chunk)).2 0
    · have htokens : (strictExpat.parse fed chunk).tokens =
          ((Reading.run (.text 0) 0 fed.flatten).1.run fed.flatten.length chunk).2 := by
        simp [strictExpat, plainExpat, hnested]
      have hrun := Reading.run_append (.text 0) 0 fed.flatten chunk
      rw [Nat.zero_add] at hrun
      have hhistory := ih.2 (nested_left (hrun ▸ hnested))
      rw [htokens, hhistory, ← hrun]
      exact ⟨hnested, fun _ ↦ rfl⟩
    · have htokens : (strictExpat.parse fed chunk).tokens = [] := by
        simp [strictExpat, hnested]
      rw [htokens, List.append_nil]
      exact ⟨ih.1, fun h ↦ absurd h hnested⟩

theorem reportsNesting_strict : ReportsNesting strictExpat := by
  refine ⟨fun fed chunk ↦ ?_, fun fed chunk ↦ ?_, fun fed chunk ↦ ?_, fun fed chunk hjunk ↦ ?_⟩
  · have h := (history_strict (fed ++ [chunk])).1
    rwa [history_concat, List.nil_append] at h
  all_goals
    by_cases hnested : nested (Reading.run (.text 0) 0 (fed.flatten ++ chunk)).2 0
    · simp_all [strictExpat, plainExpat]
    · simp_all [strictExpat]

theorem countsBytes_strict : CountsBytes strictExpat := by
  have hcases (fed : List Bytes) (chunk : Bytes) :
      strictExpat.parse fed chunk = plainExpat.parse fed chunk ∨
        strictExpat.parse fed chunk = ⟨[], .error, .syntaxError, ⟨1, 0, 0⟩⟩ := by
    simp only [strictExpat]
    split
    · exact .inl rfl
    · exact .inr rfl
  obtain ⟨htoken, hjunk, hok, hrunning⟩ := countsBytes_plain
  refine ⟨fun fed chunk ↦ ?_, fun fed chunk ↦ ?_, fun fed chunk ↦ ?_, fun fed chunk ↦ ?_⟩
  · obtain h | h := hcases fed chunk
    · exact h ▸ htoken fed chunk
    · simp [h]
  · obtain h | h := hcases fed chunk
    · exact h ▸ hjunk fed chunk
    · simp [h]
  · obtain h | h := hcases fed chunk
    · exact h ▸ hok fed chunk
    · simp [h]
  · obtain h | h := hcases fed chunk
    · exact h ▸ hrunning fed chunk
    · simp [h]

end N2Kafka.Decoder.XmlNesting
