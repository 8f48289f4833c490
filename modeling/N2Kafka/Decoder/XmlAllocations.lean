import N2Kafka.Decoder.XmlChains

namespace N2Kafka.Decoder.XmlAllocations

open Lib.CString Lib.JsonGenerator Util.KafkaMessageArray Decoder.DecoderApi Decoder.Expat
open Decoder.ZzDecoder Decoder.ZzParserXml Decoder.XmlDocument Decoder.XmlTranslation
open Decoder.XmlNesting

def finished (env : Env) (r : Result) : Parsing :=
  match r.2 with
  | some err => generatorErr env err r.1
  | none => r.1

section Handlers

variable {env : Env} {depth : ℕ} {s s' : Parsing}

theorem genOrGotoErr_stackPos (ops : List (Op × Bytes)) (s : Parsing) :
    (genOrGotoErr env ops s).1.stackPos = s.stackPos := by
  have hprints (texts : List Bytes) (s : Parsing) :
      (texts.foldl (yajlPrintCallback env) s).stackPos = s.stackPos := by
    induction texts generalizing s with
    | nil => rfl
    | cons t ts ih =>
      rw [List.foldl_cons, ih, yajlPrintCallback]
      split <;> rfl
  induction ops generalizing s with
  | nil => rfl
  | cons op ops ih =>
    rw [genOrGotoErr]
    split
    · rw [ih, hprints]
    · rw [hprints]

theorem zzParseStart_eq (env : Env) (hresponse : s.httpResponse = []) (el : CStr)
    (attr : List (CStr × CStr)) :
    zzParseStartXmlElement env el attr s = finished env (startResult env el attr s) := by
  rw [zzParseStartXmlElement, hresponse, List.length_nil, if_neg (lt_irrefl 0), startResult, andThen]
  generalize openChild env s = r
  obtain ⟨s₁, err⟩ := r
  cases err with
  | some err => rfl
  | none =>
    dsimp only
    generalize genOrGotoErr env (elementOps el attr) (pushFrame s₁) = r
    obtain ⟨s₂, err⟩ := r
    cases err <;> rfl

theorem zzParseEnd_eq (env : Env) (hresponse : s.httpResponse = []) :
    zzParseEndXmlElement env s =
      if s.stackPos ≤ 1 ∧ (endResult env s).2 = none then closeRoot env (endResult env s).1
      else some (finished env (endResult env s)) := by
  have hpos : (closeChildren env s).1.stackPos = s.stackPos := by
    rw [closeChildren]
    split
    · exact genOrGotoErr_stackPos _ s
    · rfl
  rw [zzParseEndXmlElement, hresponse, List.length_nil, if_neg (lt_irrefl 0), endResult, andThen]
  generalize closeChildren env s = r at hpos
  obtain ⟨s₁, err⟩ := r
  cases err with
  | some err => simp [finished]
  | none =>
    dsimp only at hpos ⊢
    rw [hpos, popFrame, hpos]
    by_cases hroot : s.stackPos ≤ 1
    · rw [if_neg (by omega), if_pos hroot]
      generalize genOrGotoErr env closeRootOps _ = r
      obtain ⟨s₂, err⟩ := r
      cases err with
      | some err => simp [finished]
      | none => simp [hroot]
    · rw [if_pos (by omega), if_neg hroot, if_neg fun hboth ↦ hroot hboth.1]
      rfl

theorem zzParseXmlCharacterData_eq (env : Env) (htext : s.textPrinted = false) (text : Bytes) :
    zzParseXmlCharacterData env text s =
      some (match (genOrGotoErr env (handlerOps s (.characterData text)) s).2 with
        | some err => queueXmlError env err.1 .ok
          (genOrGotoErr env (handlerOps s (.characterData text)) s).1
        | none =>
          (genOrGotoErr env (handlerOps s (.characterData text)) s).1.setTextPrinted true) := by
  rw [zzParseXmlCharacterData, handlerOps, htext, ← contentKey]
  simp only [Bool.not_false, if_true, Bool.false_eq_true, if_false]
  generalize genOrGotoErr env _ s = r
  obtain ⟨s₁, err⟩ := r
  cases err <;> rfl

def Allowed (depth : ℕ) : XmlEvent → Prop
  | .startElement _ _ => True
  | .endElement _ | .characterData _ => 0 < depth

def depthAfter (depth : ℕ) : XmlEvent → ℕ
  | .startElement _ _ => depth + 1
  | .endElement _ => depth - 1
  | .characterData _ => depth

def roomForEvent (maxDepth depth : ℕ) : XmlEvent → Bool
  | .startElement _ attr => roomFor maxDepth depth attr
  | _ => true

def EndsRoot (depth : ℕ) (e : XmlEvent) : Prop := depth = 1 ∧ ∃ el, e = .endElement el

/-- Where a handler leads that has got its memory. -/
inductive Next (depth : ℕ) (e : XmlEvent) (s : Parsing) : Prop
  | inside (hroot : ¬ EndsRoot depth e) (h : At (depthAfter depth e) s)
      (herror : s.expatHandler.error = .none)
  | ended (hroot : EndsRoot depth e) (h : Ended s)

/-- What a handler leaves in a session without errors, whatever memory it gets. -/
structure Behind (env : Env) (depth : ℕ) (s : Parsing) (e : XmlEvent) (s' : Parsing) : Prop where
  response : s'.httpResponse = answer env s e
  rc : s'.rc = .ok ↔ roomForEvent env.style.maxDepth depth e = true ∧ queued env s e < 3
  stopped : queued env s e ≠ 0 → s'.expatHandler.stopped = true
  next : queued env s e = 0 → Next depth e s'

structure Handled (env : Env) (depth : ℕ) (s : Parsing) (e : XmlEvent) : Prop where
  returns : (xmlHandler0 env s e).isSome = asserts env s e
  reached : (reached env s e).httpResponse = answer env s e
  behind : ∀ s', xmlHandler0 env s e = some s' → Behind env depth s e s'

theorem Next.response {e : XmlEvent} (h : Next depth e s) : s.httpResponse = [] := by
  cases h with
  | inside _ h _ => exact h.response
  | ended _ h => exact h.response

theorem reached_some {e : XmlEvent} (h : xmlHandler0 env s e = some s') : reached env s e = s' := by
  unfold reached
  rw [h]
  rfl

theorem reached_none {el : CStr} (h : zzParseEndXmlElement env s = none) :
    reached env s (.endElement el) = (endResult env s).1 := by
  rw [reached, xmlHandler0, h]
  rfl

theorem Handled.of_some {e : XmlEvent} (h : xmlHandler0 env s e = some s')
    (hasserts : asserts env s e = true) (hbehind : Behind env depth s e s') :
    Handled env depth s e := by
  refine ⟨by rw [h, hasserts]; rfl, by rw [reached_some h, hbehind.response], ?_⟩
  intro s₁ hs₁
  obtain rfl := Option.some.inj (h.symm.trans hs₁)
  exact hbehind

theorem answer_eq_nil_iff (env : Env) (s : Parsing) (e : XmlEvent) :
    answer env s e = [] ↔ queued env s e = 0 := by
  have hanswer (n : ℕ) (err : Bytes × Status) :
      answerAfter env s.expatHandler.position n err ≠ [] := errorAnswer_ne_nil _ _
  rw [answer, queued, List.append_eq_nil_iff, Nat.add_eq_zero_iff]
  refine and_congr ?_ ?_
  · simp only [refusalAnswers, List.flatMap_eq_nil_iff, hanswer, List.mem_range]
    generalize refused env s e = n
    cases n with
    | zero => simp
    | succ n => exact iff_of_false (fun h ↦ h 0 (Nat.succ_pos n)) (Nat.succ_ne_zero n)
  · cases lastError env s e with
    | none => simp
    | some err => simp [hanswer]

theorem mark_of_at (env : Env) (h : At depth s) (herror : s.expatHandler.error = .none) :
    (mark s).Refused env s.expatHandler.position 0 :=
  ⟨h.response, iff_of_true h.rc (by omega), h.running, herror, rfl⟩

theorem Runs.printed (h : At depth s) (herror : s.expatHandler.error = .none) {e : XmlEvent}
    {full r : Result} (hruns : Runs env (handlerOps s e) s full r) :
    (mark r.1).Refused env s.expatHandler.position (refused env s e) ∧
      r.1.yajlGenBuf = s.yajlGenBuf ++ granted env s.allocs (parts env.style s e) ∧
      (refused env s e = 0 → r.1 = full.1) := by
  obtain ⟨hmark, hbuf⟩ := (mark_of_at env h herror).print s.allocs (parts env.style s e)
  rw [Nat.zero_add] at hmark
  rw [hruns.follows]
  refine ⟨hmark, hbuf, fun hnone ↦ ?_⟩
  have hprint := Mark.print_of_refusals hnone (mark s)
  rw [← parts, hprint]
  have hkept := hruns.chained
  have hsame : mark full.1 = { mark s with
      buf := (mark s).buf ++ (parts env.style s e).flatten } := by
    rw [XmlAllocations.mark, hkept.buf, hkept.response, hkept.rc, hkept.parser]
    rfl
  rw [← hsame, marked_mark]

theorem Runs.behind (h : At depth s) (herror : s.expatHandler.error = .none) {e : XmlEvent}
    {full r : Result} (hruns : Runs env (handlerOps s e) s full r)
    (hroom : roomForEvent env.style.maxDepth depth e = true) (hlast : lastError env s e = none)
    (hnext : Next depth e full.1) : Behind env depth s e r.1 := by
  obtain ⟨hmark, -, hfull⟩ := hruns.printed h herror
  have hqueued : queued env s e = refused env s e := by simp [queued, hlast]
  refine ⟨?_, ?_, ?_, ?_⟩
  · rw [answer, hlast]
    exact hmark.response.trans (List.append_nil _).symm
  · rw [hqueued, hroom]
    exact hmark.rc.trans (and_iff_right rfl).symm
  · intro hne
    have hpos : 0 < refused env s e := by omega
    exact hmark.stopped.trans (decide_eq_true hpos)
  · intro hnone
    rw [hfull (hqueued ▸ hnone)]
    exact hnext

theorem Mark.Refused.behind {t : Parsing} {position : Position} {n : ℕ}
    (h : (mark t).Refused env position n) (err : Bytes × Status) :
    (queueXmlError env err.1 err.2 t).httpResponse =
        refusalAnswers env position n ++ answerAfter env position n err ∧
      ((queueXmlError env err.1 err.2 t).rc = .ok ↔ err.2 = .ok ∧ n < 2) ∧
      (queueXmlError env err.1 err.2 t).expatHandler.stopped = true := by
  have hresponse : t.httpResponse = _ := h.response
  have herror : t.expatHandler.error = _ := h.error
  have hposition : t.expatHandler.position = _ := h.position
  refine ⟨?_, ?_, XmlParser.stop_stopped _⟩
  · rw [answerAfter, ← herror, ← hresponse, ← hposition]
    rfl
  · rw [← returnCode_ok_iff env, ← herror]
    rfl

theorem endResult_lastOpenMap (s : Parsing) :
    (endResult (granting env) s).1.lastOpenMap = s.lastOpenMap := by
  rw [endResult, andThen, closeChildren]
  simp only [genOrGotoErr_chain (granting_alloc env)]
  cases s.childrenPrinted with
  | false => rfl
  | true =>
    simp only [if_true]
    cases (chain (granting env).style closeChildrenOps s.yajlGen).err <;> rfl

theorem closeRoot_isSome : (closeRoot env s).isSome =
    s.lastOpenMap.any fun start ↦ start < s.yajlGenBuf.length := by
  rw [closeRoot]
  cases s.lastOpenMap with
  | none => rfl
  | some start =>
    by_cases hlen : s.yajlGenBuf.length > start
    · simp [hlen]
    · simp [hlen]

/-- The calls of the generator all succeed, except for an element that is too deep. -/
theorem chain_start_err (env : Env) (h : At depth s) (el : CStr)
    (attr : List (CStr × CStr)) :
    (chain env.style (handlerOps s (.startElement el attr)) s.yajlGen).err = none ↔
      roomFor env.style.maxDepth depth attr = true := by
  have hruns := runs_start env s el attr
  have hfull := zzParseStart_eq (granting env) h.response el attr
  rw [finished, hruns.full_err] at hfull
  constructor
  · intro herr
    by_contra hroom
    have hdeep := h.start_tooDeep (granting_alloc env) el attr hroom
    rw [hfull, herr] at hdeep
    exact hdeep.response (hruns.chained.response.trans h.response)
  · intro hroom
    have hat := h.start (granting_alloc env) el attr hroom
    cases herr : (chain env.style (handlerOps s (.startElement el attr)) s.yajlGen).err with
    | none => rfl
    | some err =>
      rw [hfull, herr] at hat
      exact absurd hat.response (refusing_generatorErr _ (chain_err_ne herr) _).response

theorem chain_end_err (env : Env) (h : At depth s) (hdepth : 0 < depth)
    (el : CStr) : (chain env.style (handlerOps s (.endElement el)) s.yajlGen).err = none := by
  have hruns := runs_end env s el
  have hfull := zzParseEnd_eq (granting env) h.response
  cases herr : (chain env.style (handlerOps s (.endElement el)) s.yajlGen).err with
  | none => rfl
  | some err =>
    rw [hruns.full_err, herr, if_neg (by simp), finished, hruns.full_err, herr] at hfull
    have hresponse : (generatorErr (granting env) err (endResult (granting env) s).1).httpResponse =
        [] := by
      obtain hone | hdepth := (Nat.succ_le_of_lt hdepth).eq_or_lt
      · obtain rfl : depth = 1 := hone.symm
        exact (h.endRoot (granting_alloc env) hfull).response
      · exact (h.endElement (granting_alloc env) hdepth hfull).response
    exact absurd hresponse (refusing_generatorErr _ (chain_err_ne herr) _).response

theorem chain_text_err (env : Env) (h : At depth s) (hdepth : 0 < depth)
    (text : Bytes) :
    (chain env.style (handlerOps s (.characterData text)) s.yajlGen).err = none := by
  cases htext : s.textPrinted with
  | true => simp [handlerOps, htext, chain]
  | false =>
    have hruns := runs_generated env (handlerOps s (.characterData text)) s
    have hfull := zzParseXmlCharacterData_eq (granting env) htext text
    rw [hruns.full_err] at hfull
    have hat := h.characterData (granting_alloc env) hdepth text hfull
    cases herr : (chain env.style (handlerOps s (.characterData text)) s.yajlGen).err with
    | none => rfl
    | some err =>
      rw [herr] at hat
      exact absurd hat.response (queueXmlError_response _ _ _)

theorem chain_err_none_iff (env : Env) (h : At depth s) (e : XmlEvent) (hallowed : Allowed depth e) :
    (chain env.style (handlerOps s e) s.yajlGen).err = none ↔
      roomForEvent env.style.maxDepth depth e = true := by
  cases e with
  | startElement el attr => exact chain_start_err env h el attr
  | endElement el => exact iff_of_true (chain_end_err env h hallowed el) rfl
  | characterData text => exact iff_of_true (chain_text_err env h hallowed text) rfl

theorem handled_start (h : At depth s) (herror : s.expatHandler.error = .none) (el : CStr)
    (attr : List (CStr × CStr)) : Handled env depth s (.startElement el attr) := by
  have hroom := chain_start_err env h el attr
  have hruns := runs_start env s el attr
  have heq := zzParseStart_eq env h.response el attr
  rw [finished, hruns.err] at heq
  refine .of_some rfl rfl ?_
  rw [heq]
  cases herr : (chain env.style (handlerOps s (.startElement el attr)) s.yajlGen).err with
  | none =>
    have hlast : lastError env s (.startElement el attr) = none := by rw [lastError, herr]
    have hat := h.start (granting_alloc env) el attr (hroom.mp herr)
    rw [zzParseStart_eq (granting env) h.response, finished, hruns.full_err, herr] at hat
    exact hruns.behind h herror (hroom.mp herr) hlast
      (.inside (by rintro ⟨-, el', hel⟩; cases hel) hat
        ((congrArg XmlParser.error hruns.chained.parser).trans herror))
  | some err =>
    rw [herr] at hroom
    have hlast : lastError env s (.startElement el attr) = some err := by rw [lastError, herr]
    have hdeep : roomForEvent env.style.maxDepth depth (.startElement el attr) = false := by
      simpa [roomForEvent] using hroom
    obtain ⟨hresponse, hrc, hstopped⟩ := (hruns.printed h herror).1.behind err
    refine ⟨?_, ?_, fun _ ↦ hstopped, ?_⟩
    · rw [answer, hlast]
      exact hresponse.trans (congrArg _ (List.append_nil _).symm)
    · rw [hdeep]
      exact iff_of_false (fun hok ↦ chain_err_ne herr (hrc.mp hok).1) (by simp)
    · intro hnone
      simp [queued, hlast] at hnone

theorem handled_end (h : At depth s) (herror : s.expatHandler.error = .none) (hdepth : 1 < depth)
    (el : CStr) : Handled env depth s (.endElement el) := by
  have hpos : ¬ s.stackPos ≤ 1 := by
    rw [h.stackPos]
    omega
  have herr := chain_end_err env h (by omega) el
  have hruns := runs_end env s el
  have heq := zzParseEnd_eq env h.response
  have hfull := zzParseEnd_eq (granting env) h.response
  rw [if_neg fun hboth ↦ hpos hboth.1, finished, hruns.err, herr] at heq
  rw [if_neg fun hboth ↦ hpos hboth.1, finished, hruns.full_err, herr] at hfull
  have hat := h.endElement (granting_alloc env) hdepth hfull
  have hlast : lastError env s (.endElement el) = none := by simp [lastError, herr, hpos]
  refine .of_some (e := .endElement el) heq ?_ (hruns.behind h herror rfl hlast (.inside ?_ hat
    ((congrArg XmlParser.error hruns.chained.parser).trans herror)))
  · simp [asserts, not_le.mp hpos]
  · intro hroot
    exact absurd hroot.1 (by omega)

theorem closeRoot_some (hs' : closeRoot env s = some s') :
    ∃ t, mark t = mark s ∧ s' = xmlStopParser (if env.alloc s.allocs then t
      else queueXmlError env (ascii "Couldn't add kafka message (OOM?)") .ok t) := by
  rw [closeRoot] at hs'
  split at hs'
  · cases hs'
  · split at hs'
    · refine ⟨_, ?_, (Option.some.inj hs').symm⟩
      rfl
    · cases hs'

theorem closeRoot_granting (halloc : env.alloc s.allocs = true) :
    closeRoot (granting env) s = closeRoot env s := by
  simp only [closeRoot, halloc, granting, if_true]

theorem handled_root (h : At 1 s) (herror : s.expatHandler.error = .none) (el : CStr) :
    Handled env 1 s (.endElement el) := by
  have hpos : s.stackPos ≤ 1 := h.stackPos.le
  have herr := chain_end_err env h Nat.one_pos el
  have hruns := runs_end env s el
  have heq := zzParseEnd_eq env h.response
  have hfull := zzParseEnd_eq (granting env) h.response
  rw [hruns.err, herr, if_pos ⟨hpos, rfl⟩] at heq
  rw [hruns.full_err, herr, if_pos ⟨hpos, rfl⟩] at hfull
  obtain ⟨hmark, hbuf, hsame⟩ := hruns.printed h herror
  have hopen : (endResult env s).1.lastOpenMap = s.lastOpenMap := by
    rw [hruns.follows]
    exact endResult_lastOpenMap s
  have hallocs : (endResult env s).1.allocs =
      s.allocs + (parts env.style s (.endElement el)).length := by
    rw [hruns.follows]
    exact hruns.chained.allocs
  have hasserts : (closeRoot env (endResult env s).1).isSome = asserts env s (.endElement el) := by
    rw [closeRoot_isSome, hopen, hbuf, asserts, decide_eq_false (not_lt.mpr hpos), Bool.false_or]
  have hbehind : ∀ s', closeRoot env (endResult env s).1 = some s' →
      Behind env 1 s (.endElement el) s' := by
    intro s' hs'
    rw [hs', Option.isSome_some] at hasserts
    obtain ⟨t, ht, hs₁⟩ := closeRoot_some hs'
    rw [← ht] at hmark
    rw [hallocs] at hs₁
    by_cases halloc : env.alloc (s.allocs + (parts env.style s (.endElement el)).length)
    · have hlast : lastError env s (.endElement el) = none := by simp [lastError, herr, halloc]
      have hqueued : queued env s (.endElement el) = refused env s (.endElement el) := by
        simp [queued, hlast]
      rw [if_pos halloc] at hs₁
      refine ⟨?_, ?_, fun _ ↦ hs₁ ▸ XmlParser.stop_stopped _, fun hnone ↦ .ended ⟨rfl, el, rfl⟩ ?_⟩
      · rw [answer, hlast, hs₁]
        exact hmark.response.trans (List.append_nil _).symm
      · rw [hqueued, hs₁]
        exact hmark.rc.trans (and_iff_right rfl).symm
      · rw [← hallocs] at halloc
        rw [← closeRoot_granting halloc, hsame (hqueued ▸ hnone)] at hs'
        exact h.endRoot (granting_alloc env) (hfull.trans hs')
    · have hlast : lastError env s (.endElement el) =
          some (ascii "Couldn't add kafka message (OOM?)", .ok) := by
        simp [lastError, herr, halloc, hpos, ← hasserts]
      obtain ⟨hresponse, hrc, -⟩ := hmark.behind (ascii "Couldn't add kafka message (OOM?)", .ok)
      rw [if_neg halloc] at hs₁
      refine ⟨?_, ?_, fun _ ↦ hs₁ ▸ XmlParser.stop_stopped _, ?_⟩
      · rw [answer, hlast, hs₁]
        exact hresponse.trans (congrArg _ (List.append_nil _).symm)
      · rw [queued, hlast, hs₁]
        exact hrc.trans ((and_iff_right rfl).trans
          (Nat.succ_lt_succ_iff.symm.trans (and_iff_right rfl).symm))
      · intro hnone
        simp [queued, hlast] at hnone
  rw [← heq] at hasserts hbehind
  refine ⟨hasserts, ?_, hbehind⟩
  cases hs' : zzParseEndXmlElement env s with
  | none =>
    have hlast : lastError env s (.endElement el) = none := by
      rw [hs'] at hasserts
      simp [lastError, herr, ← hasserts]
    rw [reached_none hs', answer, hlast]
    exact hmark.response.trans (List.append_nil _).symm
  | some s' =>
    rw [reached_some (e := .endElement el) hs']
    exact (hbehind s' hs').response

/-- The request for the text behind text, with the one for the temporary generator before it. -/
def spliceRequest (s : Parsing) : ℕ := if s.tempYajl then s.allocs else s.allocs + 1

def spliced (env : Env) (text : Bytes) (s : Parsing) : Parsing :=
  { s with
    yajlGenBuf := s.yajlGenBuf.dropLast ++
      if env.alloc (spliceRequest s) then env.style.escaped text ++ ascii "\"" else []
    allocs := spliceRequest s + 1
    tempYajl := true }

theorem spliceText_eq (text : Bytes) (s : Parsing) : spliceText env text s =
    if s.tempYajl = true ∨ env.alloc s.allocs = true then
      if s.yajlGenBuf = [] then none else some (spliced env text s)
    else some (queueXmlError env (ascii "Can't allocate temporary JSON generator (OOM?)") .ok
      { s with allocs := s.allocs + 1 }) := by
  rw [spliceText]
  cases htemp : s.tempYajl with
  | true => simp [spliced, spliceRequest, htemp, emit, Gen.initial, Level.status, Level.sep, ascii]
  | false =>
    cases halloc : env.alloc s.allocs with
    | true => simp [spliced, spliceRequest, htemp, emit, Gen.initial, Level.status, Level.sep, ascii]
    | false => simp

theorem handled_text (h : At depth s) (herror : s.expatHandler.error = .none) (hdepth : 0 < depth)
    (text : Bytes) : Handled env depth s (.characterData text) := by
  have hroot : ¬ EndsRoot depth (.characterData text) := by
    rintro ⟨-, el, hel⟩
    cases hel
  have herr := chain_text_err env h hdepth text
  cases htext : s.textPrinted with
  | false =>
    have hruns := runs_generated env (handlerOps s (.characterData text)) s
    have heq := zzParseXmlCharacterData_eq env htext text
    have hfull := zzParseXmlCharacterData_eq (granting env) htext text
    rw [hruns.err, herr] at heq
    rw [hruns.full_err, herr] at hfull
    have hat := h.characterData (granting_alloc env) hdepth text hfull
    have hframed := hruns.frame framing_text
    have hlast : lastError env s (.characterData text) = none := by simp [lastError, herr, htext]
    refine .of_some (e := .characterData text) heq (by simp [asserts, htext])
      (hframed.behind h herror rfl hlast (.inside hroot hat
        ((congrArg XmlParser.error hframed.chained.parser).trans herror)))
  | true =>
    have hnone : refused env s (.characterData text) = 0 := by
      simp [refused, parts, handlerOps, htext, chain, refusals]
    have heq : xmlHandler0 env s (.characterData text) = spliceText env text s := by
      simp [xmlHandler0, zzParseXmlCharacterData, htext]
    rw [spliceText_eq] at heq
    by_cases hgot : s.tempYajl = true ∨ env.alloc s.allocs = true
    · have htemp : temporary env s = true := by simpa [temporary] using hgot
      have hlast : lastError env s (.characterData text) = none := by simp [lastError, herr, htemp]
      have hanswer : answer env s (.characterData text) = [] := by
        rw [answer_eq_nil_iff, queued, hnone, hlast]
        rfl
      rw [if_pos hgot] at heq
      by_cases hbuf : s.yajlGenBuf = []
      · rw [if_pos hbuf] at heq
        refine ⟨by simp [heq, asserts, htext, htemp, hbuf], ?_, ?_⟩
        · unfold reached
          rw [heq, hanswer]
          exact h.response
        · intro s' hs'
          cases heq.symm.trans hs'
      · rw [if_neg hbuf] at heq
        refine .of_some heq (by simp [asserts, hbuf]) ⟨?_, ?_, ?_, fun _ ↦ .inside hroot
          ⟨h.stackPos, h.elements, h.response, h.running, h.rc⟩ herror⟩
        · rw [hanswer]
          exact h.response
        · rw [queued, hnone, hlast]
          exact iff_of_true h.rc ⟨rfl, by simp⟩
        · intro hne
          simp [queued, hnone, hlast] at hne
    · have htemp : temporary env s = false := by simpa [temporary] using hgot
      have hlast : lastError env s (.characterData text) =
          some (ascii "Can't allocate temporary JSON generator (OOM?)", .ok) := by
        simp [lastError, herr, htext, htemp]
      have hmark := mark_of_at env h herror
      obtain ⟨hresponse, hrc, hstopped⟩ :=
        hmark.behind (ascii "Can't allocate temporary JSON generator (OOM?)", .ok)
      rw [if_neg hgot] at heq
      refine .of_some heq (by simp [asserts, htemp]) ⟨?_, ?_, fun _ ↦ hstopped, ?_⟩
      · rw [answer, hnone, hlast]
        exact hresponse.trans (congrArg _ (List.append_nil _).symm)
      · rw [queued, hnone, hlast]
        exact iff_of_true (hrc.mpr ⟨rfl, by omega⟩) ⟨rfl, by simp⟩
      · intro hzero
        simp [queued, hlast] at hzero

theorem handled (env : Env) (h : At depth s) (herror : s.expatHandler.error = .none) (e : XmlEvent)
    (hallowed : Allowed depth e) : Handled env depth s e := by
  cases e with
  | startElement el attr => exact handled_start h herror el attr
  | endElement el =>
    obtain hone | hdepth := (Nat.succ_le_of_lt hallowed).eq_or_lt
    · obtain rfl : depth = 1 := hone.symm
      exact handled_root h herror el
    · exact handled_end h herror hdepth el
  | characterData text => exact handled_text h herror hallowed text

theorem refused_of_granted (halloc : ∀ k ≥ s.allocs, env.alloc k) (e : XmlEvent) :
    refused env s e = 0 :=
  refusals_eq_zero_iff.mpr fun k hk _ ↦ halloc k hk

theorem queued_of_granted (halloc : ∀ k, env.alloc k) (h : At depth s) (e : XmlEvent)
    (hallowed : Allowed depth e) (hroom : roomForEvent env.style.maxDepth depth e = true) :
    queued env s e = 0 := by
  have herr := (chain_err_none_iff env h e hallowed).mpr hroom
  have hlast : lastError env s e = none := by
    cases e <;> simp [lastError, herr, halloc, temporary]
  rw [queued, hlast, refused_of_granted fun k _ ↦ halloc k]
  rfl

theorem queued_of_tooDeep (h : At depth s) (e : XmlEvent) (hallowed : Allowed depth e)
    (hroom : roomForEvent env.style.maxDepth depth e = false) : queued env s e ≠ 0 := by
  have herr := (chain_err_none_iff env h e hallowed).not.mpr (by simp [hroom])
  obtain ⟨err, herr⟩ := Option.ne_none_iff_exists'.mp herr
  simp [queued, lastError, herr]

theorem startOps_short (s : Parsing) (el : CStr) (attr : List (CStr × CStr)) :
    ∀ op ∈ handlerOps s (.startElement el attr), op.2.length ≤ 128 := by
  have hopen : ∀ op ∈ openOps s, op.2.length ≤ 128 := by
    unfold openOps
    split
    · simp
    · split <;> decide
  have helement : ∀ op ∈ elementOps el attr, op.2.length ≤ 128 := by
    have hkey : (ascii "Can't gen JSON attribute key + val").length ≤ 128 := by decide
    simp only [elementOps, attributesOps, keyValue, List.forall_mem_cons, List.forall_mem_append]
    refine ⟨by decide, ⟨by decide, by decide, by simp⟩, ?_⟩
    split
    · simp
    · simp only [List.forall_mem_cons, List.forall_mem_append, List.mem_flatMap]
      refine ⟨by decide, by decide, ?_, by decide, by simp⟩
      rintro op ⟨a, -, hop⟩
      simp only [List.mem_cons, List.not_mem_nil, or_false] at hop
      obtain rfl | rfl := hop <;> exact hkey
  exact List.forall_mem_append.mpr ⟨hopen, helement⟩

theorem length_generatorErr_le {el : CStr} {attr : List (CStr × CStr)} {err : Bytes × Status}
    (herr : (chain env.style (handlerOps s (.startElement el attr)) s.yajlGen).err = some err)
    (h : s'.httpResponse = []) : (generatorErr env err s').httpResponse.length ≤ 1024 := by
  obtain ⟨op, hop, htext⟩ := chain_err_text herr
  have hshort := startOps_short s el attr op hop
  rw [htext] at hshort
  have hlength := length_queueXmlError_le env hshort err.2 s'
  rw [h, List.length_nil, Nat.zero_add] at hlength
  exact hlength

end Handlers

end N2Kafka.Decoder.XmlAllocations
