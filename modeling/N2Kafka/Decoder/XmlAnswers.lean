import N2Kafka.Decoder.BodyEnd
import N2Kafka.Decoder.XmlDepth

namespace N2Kafka.Decoder.XmlAnswers

open Lib.CString Lib.JsonGenerator Util.Pairs Util.KafkaMessageArray Decoder.DecoderApi
open Decoder.Expat Decoder.ZzParser Decoder.ZzDecoder Decoder.ZzParserXml Decoder.XmlTranslation
open Decoder.XmlOffsets Decoder.XmlNesting Decoder.XmlAllocations Decoder.XmlErrors Decoder.XmlDepth

/-- One error is queued, and its code is the one of the call. -/
def Queued (s : Parsing) : Prop :=
  ∃ errors position, s.httpResponse = errorAnswer errors position ∧ s.rc = errors.returnCode

structure Clean (s : Parsing) : Prop where
  response : s.httpResponse = []
  rc : s.rc = .ok

/-- No error is queued, or one that has stopped the parser. -/
def Single (s : Parsing) : Prop := Clean s ∨ s.expatHandler.stopped = true ∧ Queued s

variable {env : Env} {s s' : Parsing}

theorem Queued.response_ne_nil (h : Queued s) : s.httpResponse ≠ [] := by
  obtain ⟨errors, position, hresponse, -⟩ := h
  rw [hresponse]
  exact errorAnswer_ne_nil errors position

theorem queued_queueXmlError0 (h : Clean s) (errors : XmlParserErr) :
    Queued (queueXmlError0 errors s) := by
  refine ⟨errors, s.expatHandler.position, ?_, rfl⟩
  simp only [queueXmlError0, xmlStopParser, h.response, List.nil_append]

theorem queued_queueXmlError (h : Clean s) (text : Bytes) (status : Status) :
    Queued (queueXmlError env text status s) :=
  queued_queueXmlError0 h _

theorem single_queueXmlError (h : Clean s) (text : Bytes) (status : Status) :
    Single (queueXmlError env text status s) :=
  .inr ⟨XmlParser.stop_stopped _, queued_queueXmlError h text status⟩

theorem single_generatorErr (h : Clean s) (err : Bytes × Status) :
    Single (generatorErr env err s) :=
  .inr ⟨XmlParser.stop_stopped _, queued_queueXmlError0 h _⟩

section Handlers

variable (halloc : ∀ k, env.alloc k)

include halloc

theorem Clean.genOrGotoErr (ops : List (Op × Bytes)) (h : Clean s) :
    Clean (genOrGotoErr env ops s).1 := by
  induction ops generalizing s with
  | nil => exact h
  | cons op ops ih =>
    rw [ZzParserXml.genOrGotoErr, foldl_yajlPrintCallback halloc]
    dsimp only
    split
    · exact ih ⟨h.response, h.rc⟩
    · exact ⟨h.response, h.rc⟩

theorem Clean.openChild (h : Clean s) : Clean (openChild env s).1 := by
  rw [ZzParserXml.openChild]
  split
  · exact ⟨h.response, h.rc⟩
  · split
    · have hkept := h.genOrGotoErr halloc openChildrenOps
      generalize ZzParserXml.genOrGotoErr env openChildrenOps s = opened at hkept
      obtain ⟨s', _ | err⟩ := opened
      · exact ⟨hkept.response, hkept.rc⟩
      · exact hkept
    · exact h.genOrGotoErr halloc closeSiblingOps

theorem Clean.closeChildren (h : Clean s) : Clean (closeChildren env s).1 := by
  rw [ZzParserXml.closeChildren]
  split
  · exact h.genOrGotoErr halloc closeChildrenOps
  · exact h

theorem Clean.start (h : Clean s) (el : CStr) (attr : List (CStr × CStr)) :
    Single (zzParseStartXmlElement env el attr s) := by
  rw [zzParseStartXmlElement, h.response, if_neg (by simp)]
  have hopen := h.openChild halloc
  generalize ZzParserXml.openChild env s = opened at hopen
  obtain ⟨s₁, _ | err⟩ := opened
  · have hpushed : Clean (pushFrame s₁) := ⟨hopen.response, hopen.rc⟩
    have hprinted := hpushed.genOrGotoErr halloc (elementOps el attr)
    dsimp only
    generalize ZzParserXml.genOrGotoErr env (elementOps el attr) (pushFrame s₁) = printed
      at hprinted
    obtain ⟨s₂, _ | err⟩ := printed
    · exact .inl hprinted
    · exact single_generatorErr hprinted err
  · exact single_generatorErr hopen err

theorem Clean.closeRoot (h : Clean s) (hs' : closeRoot env s = some s') : Clean s' := by
  rw [ZzParserXml.closeRoot] at hs'
  split at hs'
  · cases hs'
  · split at hs'
    · simp only [halloc, if_true] at hs'
      obtain rfl := Option.some.inj hs'
      exact ⟨h.response, h.rc⟩
    · cases hs'

theorem Clean.finish (h : Clean s) (hs' : zzParseEndXmlElement env s = some s') : Single s' := by
  rw [zzParseEndXmlElement, h.response, if_neg (by simp)] at hs'
  have hclosed := h.closeChildren halloc
  generalize ZzParserXml.closeChildren env s = closed at hclosed hs'
  obtain ⟨s₁, _ | err⟩ := closed
  · have hpopped : Clean { s₁ with stackPos := s₁.stackPos - 1 } := ⟨hclosed.response, hclosed.rc⟩
    dsimp only at hs'
    split at hs'
    · obtain rfl := Option.some.inj hs'
      exact .inl hpopped
    · have hprinted := hpopped.genOrGotoErr halloc closeRootOps
      generalize ZzParserXml.genOrGotoErr env closeRootOps
        { s₁ with stackPos := s₁.stackPos - 1 } = printed at hprinted hs'
      obtain ⟨s₂, _ | err⟩ := printed
      · exact .inl (hprinted.closeRoot halloc hs')
      · obtain rfl := Option.some.inj hs'
        exact single_generatorErr hprinted err
  · obtain rfl := Option.some.inj hs'
    exact single_generatorErr hclosed err

theorem Clean.splice (h : Clean s) {text : Bytes} (hs' : spliceText env text s = some s') :
    Single s' := by
  rw [spliceText] at hs'
  simp only [halloc, Bool.or_true, Bool.not_true, Bool.false_eq_true, if_false, if_true] at hs'
  split at hs'
  · obtain rfl := Option.some.inj hs'
    refine single_queueXmlError ?_ _ _
    exact ⟨h.response, h.rc⟩
  · split at hs'
    · cases hs'
    · obtain rfl := Option.some.inj hs'
      exact .inl ⟨h.response, h.rc⟩

theorem Clean.text (h : Clean s) {text : Bytes}
    (hs' : zzParseXmlCharacterData env text s = some s') : Single s' := by
  rw [zzParseXmlCharacterData] at hs'
  split at hs'
  · dsimp only at hs'
    generalize keyValue _ _ _ = ops at hs'
    have hprinted := h.genOrGotoErr halloc ops
    generalize ZzParserXml.genOrGotoErr env ops s = printed at hprinted hs'
    obtain ⟨s₁, _ | err⟩ := printed
    · obtain rfl := Option.some.inj hs'
      exact .inl ⟨hprinted.response, hprinted.rc⟩
    · obtain rfl := Option.some.inj hs'
      exact single_queueXmlError hprinted _ _
  · exact h.splice halloc hs'

theorem Clean.handler (h : Clean s) {e : XmlEvent} (hs' : xmlHandler env s e = some s') :
    Single s' := by
  replace hs' := (xmlHandler0_of_some hs').1
  cases e with
  | startElement el attr =>
    obtain rfl := Option.some.inj hs'
    exact h.start halloc el attr
  | endElement el => exact h.finish halloc hs'
  | characterData text => exact h.text halloc hs'

/-- A handler that queues an error is the last one that expat calls. -/
theorem Clean.deliver (ts : List Token) (h : Clean s) (hs' : xmlDeliver env ts s = some s') :
    Clean s' ∨ s'.expatHandler.stopped = true ∧ s'.expatHandler.error = .aborted ∧ Queued s' := by
  induction ts generalizing s with
  | nil =>
    obtain rfl := Option.some.inj hs'
    exact .inl h
  | cons t ts ih =>
    rw [xmlDeliver] at hs'
    obtain ⟨s₁, hs₁, hs'⟩ := Option.bind_eq_some_iff.mp hs'
    have hmoved : Clean { s with expatHandler := { s.expatHandler with position := t.start } } :=
      ⟨h.response, h.rc⟩
    split at hs'
    · rename_i hstop
      obtain rfl := Option.some.inj hs'
      obtain hclean | ⟨-, hqueued⟩ := hmoved.handler halloc hs₁
      · exact .inl ⟨hclean.response, hclean.rc⟩
      · exact .inr ⟨hstop, rfl, hqueued⟩
    · rename_i hrun
      obtain hclean | ⟨hstop, -⟩ := hmoved.handler halloc hs₁
      · exact ih hclean hs'
      · exact absurd hstop hrun

theorem Clean.parse {buffer : Bytes} {stat : XmlStatus} (h : Clean s)
    (hs' : xmlParse env buffer s = some (stat, s')) :
    Clean s' ∨ stat = .error ∧ s'.expatHandler.error = .aborted ∧ Queued s' := by
  unfold xmlParse at hs'
  dsimp only at hs'
  split at hs'
  · obtain ⟨-, rfl⟩ := Prod.mk.inj (Option.some.inj hs')
    exact .inl ⟨h.response, h.rc⟩
  split at hs'
  · obtain ⟨-, rfl⟩ := Prod.mk.inj (Option.some.inj hs')
    exact .inl h
  obtain ⟨s₁, hs₁, heq⟩ := Option.map_eq_some_iff.mp hs'
  obtain hclean | ⟨hstop, haborted, hqueued⟩ := h.deliver halloc _ hs₁
  · split at heq
    · obtain ⟨-, rfl⟩ := Prod.mk.inj heq
      exact .inl hclean
    · obtain ⟨-, rfl⟩ := Prod.mk.inj heq
      exact .inl ⟨hclean.response, hclean.rc⟩
  · rw [if_pos hstop] at heq
    obtain ⟨rfl, rfl⟩ := Prod.mk.inj heq
    exact .inr ⟨rfl, haborted, hqueued⟩

theorem Clean.loop (fuel : ℕ) {buffer : Bytes} (h : Clean s)
    (hs' : xmlLoop env fuel buffer s = some s') : Clean s' ∨ Queued s' := by
  induction fuel generalizing s buffer with
  | zero =>
    obtain rfl := Option.some.inj hs'
    exact .inl h
  | succ fuel ih =>
    rw [xmlLoop] at hs'
    split at hs'
    · obtain ⟨⟨stat, s₁⟩, hparse, hs'⟩ := Option.bind_eq_some_iff.mp hs'
      dsimp only at hs'
      obtain hclean | ⟨rfl, haborted, hqueued⟩ := h.parse halloc hparse
      · split at hs'
        · obtain rfl := Option.some.inj hs'
          exact .inl hclean
        split at hs'
        · rw [← (printed_eq_some_iff.mp hs').1]
          exact .inr (queued_queueXmlError hclean _ _)
        split at hs'
        · rw [← (printed_eq_some_iff.mp hs').1]
          exact .inr (queued_queueXmlError hclean _ _)
        split at hs'
        · exact ih (s := zzResetXmlHandler s₁) ⟨hclean.response, hclean.rc⟩ hs'
        · cases hs'
      · -- the parser was stopped, so no error of expat comes on top
        have hne := hqueued.response_ne_nil
        have hlen : s₁.httpResponse.length ≠ 0 := by simpa using hne
        rw [if_neg (by decide), if_neg (by simp [trueError, haborted]),
          if_neg fun hboth ↦ hlen hboth.2] at hs'
        split at hs'
        · rw [xmlLoop_of_response fuel _ (s := zzResetXmlHandler s₁) hne] at hs'
          obtain rfl := Option.some.inj hs'
          exact .inr hqueued
        · cases hs'
    · obtain rfl := Option.some.inj hs'
      exact .inl h

end Handlers

section Returns

variable (halloc : ∀ k, env.alloc k)

include halloc

theorem deliver_returns (ts : List Token) {s₀ : Parsing} {depth : ℕ} {text : Bytes}
    (h : Underway s₀ depth text s) (hnested : nested ts depth = true) :
    ∃ s', xmlDeliver env ts s = some s' := by
  induction ts generalizing depth text s with
  | nil => exact ⟨s, rfl⟩
  | cons t ts ih =>
    obtain ⟨hallowed, hnested'⟩ := allowed_of_nested hnested
    have hmoved := h.moved t.start
    cases hroom : roomForEvent env.style.maxDepth depth t.event with
    | true =>
      by_cases hroot : EndsRoot depth t.event
      · obtain ⟨rfl, el, he⟩ := hroot
        obtain ⟨s₁, text', hs₁, hended, -⟩ := hmoved.root halloc el
        rw [← he] at hs₁
        exact ⟨_, (deliveries_stopped 0 _ rfl hs₁ hended.stopped).2⟩
      · obtain ⟨s₁, text', hs₁, hunderway⟩ := hmoved.step halloc t.event hallowed hroom hroot
        obtain ⟨s', hs'⟩ := ih hunderway hnested'
        exact ⟨s', (deliveries_run 0 _ rfl hs₁ hunderway.stands.running).2.trans hs'⟩
    | false =>
      obtain ⟨s₁, text', hs₁, -, hrefusing, -⟩ := hmoved.tooDeep halloc t.event hallowed hroom
      exact ⟨_, (deliveries_stopped 0 _ rfl hs₁ hrefusing.stopped).2⟩

theorem loop_returns (hexpat : ReportsNesting env.expat) (hbytes : CountsBytes env.expat)
    (fuel : ℕ) {buffer : Bytes} (h : Tracks env.expat ⟨[], 0⟩ s) :
    ∃ s', xmlLoop env fuel buffer s = some s' := by
  induction fuel generalizing s buffer with
  | zero => exact ⟨s, rfl⟩
  | succ fuel ih =>
    rw [xmlLoop_succ]
    split
    · have hends := ends hexpat h buffer
      generalize turn env buffer s = next at hends ⊢
      have htoken {d : Delivery}
          (hlast : d.Last env buffer.length (env.expat.parse s.expatHandler.fed buffer).tokens) :
          0 ≤ d.token.stop.byte ∧ d.token.stop.byte ≤ buffer.length ∧ ¬ d.token.stop.byte ≤ 0 := by
        obtain ⟨hpos, k, hk, hbyte⟩ := hbytes.token _ _ d.token hlast.mem
        rw [h.fed, List.flatten_nil, List.length_nil] at hbyte
        omega
      cases hends with
      | accepted => exact ⟨_, rfl⟩
      | wrong => exact ⟨_, rfl⟩
      | stuck front d hds hfront hlast hnone hdeliver =>
        have hunderway : Underway s 0 [] s := ⟨h.stands, h.error, (List.append_nil _).symm, rfl,
          fun _ ↦ rfl, fun hpos ↦ absurd hpos (lt_irrefl 0)⟩
        have hnested := hexpat.nested [] buffer
        rw [h.fed] at hdeliver
        obtain ⟨s', hs'⟩ := deliver_returns halloc _ hunderway hnested
        cases hdeliver.symm.trans hs'
      | root front d hds hfront hlast hreturns hroot hzero hlost hended =>
        obtain ⟨hpos, hle, hbehind⟩ := htoken hlast
        obtain ⟨s', rfl, htracks⟩ := hended hbehind
        dsimp only
        rw [if_pos ⟨hpos, hle⟩]
        exact ih htracks
      | @queued front d hds hfront hlast hreturns hqueued s' hresponse =>
        obtain ⟨hpos, hle, -⟩ := htoken hlast
        have hreset : (zzResetXmlHandler s').httpResponse ≠ [] := hresponse
        dsimp only
        rw [if_pos ⟨hpos, hle⟩]
        exact ⟨_, xmlLoop_of_response _ _ hreset⟩
    · exact ⟨s, rfl⟩

end Returns

section Calls

variable {props : KeyvalList} {verdict : ℕ → RespErr} {clock : ℕ → ℤ} {buffer : Bytes}
  {session : ZzSession ZzXmlSession}

theorem zzDecode_answer (halloc : ∀ k, env.alloc k) (hresponse : session.httpResponse = [])
    (hrc : session.parser.rc = .ok) (hmessage : session.errorMessage = xmlErrorMessage)
    (hm : methodAllowed props = true) {d : Decoded ZzXmlSession}
    (hd : zzDecode (processXmlBuffer env) verdict clock props buffer session = some d)
    (hbad : d.rc ≠ .ok) :
    ∃ errors position, d.rc = errors.returnCode ∧ d.response = some (xmlErrorMessage
      (errorAnswer errors position) errors.returnCode d.handed.length) := by
  simp only [zzDecode, hm, Bool.not_true, Bool.false_eq_true, if_false] at hd
  obtain ⟨processed, hp, rfl⟩ := Option.map_eq_some_iff.mp hd
  obtain ⟨s, hs, rfl⟩ := Option.map_eq_some_iff.mp hp
  rw [consume_rc] at hbad
  have hentered : Clean (enterXmlChunk env { session with kafkaMsgs := .initializer }) :=
    ⟨hresponse, hrc⟩
  obtain hclean | ⟨errors, position, hanswer, hcode⟩ := hentered.loop halloc _ hs
  · exact absurd hclean.rc hbad
  refine ⟨errors, position, (consume_rc _ _ _).trans hcode, ?_⟩
  have hsize : (consume verdict clock (finishXmlChunk
      { session with kafkaMsgs := .initializer } s)).handed.length = kafkaMessageArraySize
      (finishXmlChunk { session with kafkaMsgs := .initializer } s).session.kafkaMsgs := by
    rw [consume_handed]
    simp [finishXmlChunk, MessageArray.payloads, kafkaMessageArraySize]
  have hkept : (finishXmlChunk { session with kafkaMsgs := .initializer } s).session.errorMessage =
      xmlErrorMessage := hmessage
  have htext : (finishXmlChunk { session with kafkaMsgs := .initializer } s).session.httpResponse =
      errorAnswer errors position := hanswer
  have hrc' : (finishXmlChunk { session with kafkaMsgs := .initializer } s).rc =
      errors.returnCode := hcode
  rw [hsize, consume_response _ _ hbad, hkept, htext, hrc']
  rw [hkept]
  simp [xmlErrorMessage, ascii]

end Calls

end N2Kafka.Decoder.XmlAnswers
