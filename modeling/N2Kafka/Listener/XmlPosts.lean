import N2Kafka.Decoder.XmlAnswers
import N2Kafka.Decoder.XmlChunking
import N2Kafka.Listener.ErrorAnswers

namespace N2Kafka.Listener.XmlPosts

open Lib.CString Lib.JsonGenerator Util.Pairs Decoder.DecoderApi Decoder.ZzParser
open Decoder.ZzDecoder Decoder.ZzParserXml Decoder.BodyEnd Decoder.XmlChunking
open Decoder.XmlTranslation (Between between_new processXmlBuffer_pieces)
open Decoder.XmlNesting (Reader ReportsNesting)
open Decoder.XmlOffsets (CountsBytes)
open Decoder.XmlAnswers
open Listener.Connection Listener.Http Listener.PostConnection Listener.TruncatedBody
open Listener.Decompression
open Listener.PostDelivery (handedBy handedAll handedUpload handedUploads uploads_kept
  openRequest_opened Failed Inflates storedText
  compressedHeader exists_of_mem_inflated)
open Listener.ErrorAnswers (postChunk_refused handleRequest_explained)
open Decoder.Callbacks (Answer)

def ample (lib : Libraries) : Decoder.ZzParserXml.Env :=
  ⟨lib.expat, lib.style, fun _ ↦ true, false⟩

/-- A document as expat reads it out of the body. -/
abbrev Source (lib : Libraries) := Decoder.XmlTranslation.Piece (ample lib)

variable {lib : Libraries} {props : KeyvalList}

def Source.during (c : DecodeCall) (d : Source lib) : Decoder.XmlTranslation.Piece (c.xml lib) :=
  ⟨d.bytes, d.document, d.reads⟩

def bytes (ds : List (Source lib)) : Bytes := ds.flatMap Decoder.XmlTranslation.Piece.bytes

def messages (ds : List (Source lib)) : List Bytes :=
  ds.map Decoder.XmlTranslation.Piece.message

theorem bytes_during (c : DecodeCall) (ds : List (Source lib)) :
    (ds.map (Source.during c)).flatMap Decoder.XmlTranslation.Piece.bytes = bytes ds := by
  rw [List.flatMap_map]
  rfl

theorem messages_during (c : DecodeCall) (ds : List (Source lib)) :
    (ds.map (Source.during c)).map Decoder.XmlTranslation.Piece.message = messages ds := by
  rw [List.map_map]
  rfl

section Pieces

theorem decode_xml {p : Piece} {session : ZzSession ZzXmlSession}
    {processed : Processed ZzXmlSession} (hm : methodAllowed props = true)
    (hp : processXmlBuffer (p.call.xml lib) p.buffer
      { session with kafkaMsgs := .initializer } = some processed)
    (hrc : processed.session.parser.rc = .ok) :
    ∃ session' a, decode lib props p (.xml session) = some (.xml session', a) ∧ a.rc = .ok ∧
      (handedBy lib props p (.xml session)).map (·.1) = processed.session.kafkaMsgs.payloads ∧
      session'.parser = processed.session.parser ∧
      session'.httpResponse = processed.session.httpResponse := by
  have hd : zzDecode (processXmlBuffer (p.call.xml lib)) p.call.json.verdict p.call.json.clock props
      p.buffer session = some (consume p.call.json.verdict p.call.json.clock processed) :=
    zzDecode_of_processed hm hp
  have hshape : processed.handed = [] ∧ processed.rc = .ok := by
    obtain ⟨s, -, rfl⟩ := Option.map_eq_some_iff.mp hp
    exact ⟨rfl, hrc⟩
  have hdecode : decode lib props p (.xml session) = some
      (.xml (consume p.call.json.verdict p.call.json.clock processed).session,
        ⟨(consume p.call.json.verdict p.call.json.clock processed).rc,
          (consume p.call.json.verdict p.call.json.clock processed).response⟩) := by
    rw [Decoder.BodyEnd.decode, hd, Option.map_some]
  refine ⟨_, _, hdecode, (consume_rc _ _ _).trans hshape.2, ?_, parser_consume _ _ _,
    httpResponse_consume _ _ hshape.2⟩
  rw [handedBy, hd, Option.elim_some, consume_handed, hshape.1, List.nil_append,
    List.map_fst_zip]
  simp

structure Idle (session : ZzSession ZzXmlSession) : Prop where
  between : Between { session with kafkaMsgs := .initializer }
  rc : session.parser.rc = .ok

theorem idle_new : Idle newZzSessionXml := ⟨between_new, rfl⟩

structure Finished (session : ZzSession ZzXmlSession) : Prop where
  ended : Ended session
  rc : session.parser.rc = .ok

variable {session : ZzSession ZzXmlSession} {p : Piece} {rest : Bytes}

theorem Idle.documents (h : Idle session) (hm : methodAllowed props = true)
    (halloc : ∀ k, p.call.alloc k = true) {ds : List (Source lib)} (hp : p.buffer = bytes ds) :
    ∃ session' a, decode lib props p (.xml session) = some (.xml session', a) ∧ a.rc = .ok ∧
      (handedBy lib props p (.xml session)).map (·.1) = messages ds ∧ Idle session' := by
  have halloc' : ∀ k, (p.call.xml lib).alloc k = true := halloc
  obtain ⟨processed, hprocessed, hpayloads, -, hrc, hbetween⟩ :=
    processXmlBuffer_pieces halloc' h.between (ds.map (Source.during p.call))
  rw [bytes_during, ← hp] at hprocessed
  rw [messages_during] at hpayloads
  have hok : processed.session.parser.rc = .ok := hrc.trans h.rc
  obtain ⟨session', a, hd, ha, hhanded, hparser, hresponse⟩ := decode_xml hm hprocessed hok
  refine ⟨session', a, hd, ha, hhanded.trans hpayloads, ⟨?_, by rw [hparser, hok]⟩⟩
  exact ⟨by rw [hparser]; exact hbetween.buf, by rw [hparser]; exact hbetween.stackPos,
    by rw [hparser]; exact hbetween.gen_eq, hresponse.trans hbetween.response,
    by rw [hparser]; exact hbetween.parser, rfl⟩

theorem Idle.last (h : Idle session) (hm : methodAllowed props = true)
    (halloc : ∀ k, p.call.alloc k = true) (hskip : SkipsBlank lib.expat) {ds : List (Source lib)}
    (hrest : Blank rest) (hp : p.buffer = bytes ds ++ rest) :
    ∃ session' a, decode lib props p (.xml session) = some (.xml session', a) ∧ a.rc = .ok ∧
      (handedBy lib props p (.xml session)).map (·.1) = messages ds ∧ Finished session' := by
  have halloc' : ∀ k, (p.call.xml lib).alloc k = true := halloc
  obtain ⟨processed, hprocessed, hpayloads, hrc, hended⟩ :=
    processXmlBuffer_last halloc' hskip h.between (ds.map (Source.during p.call)) hrest
  rw [bytes_during, ← hp] at hprocessed
  rw [messages_during] at hpayloads
  have hok : processed.session.parser.rc = .ok := hrc.trans h.rc
  obtain ⟨session', a, hd, ha, hhanded, hparser, hresponse⟩ := decode_xml hm hprocessed hok
  refine ⟨session', a, hd, ha, hhanded.trans hpayloads, ⟨?_, by rw [hparser, hok]⟩⟩
  exact ⟨hresponse.trans hended.response, by rw [hparser]; exact hended.waiting⟩

theorem Finished.blank (h : Finished session) (hm : methodAllowed props = true)
    (hskip : SkipsBlank lib.expat) (hp : Blank p.buffer) :
    ∃ session' a, decode lib props p (.xml session) = some (.xml session', a) ∧ a.rc = .ok ∧
      (handedBy lib props p (.xml session)).map (·.1) = [] ∧ Finished session' := by
  have hskip' : SkipsBlank (p.call.xml lib).expat := hskip
  obtain ⟨parser, hloop, hwaiting⟩ := xmlLoop_blank hskip' 0 hp
    (s := enterXmlChunk (p.call.xml lib) { session with kafkaMsgs := .initializer })
    h.ended.response h.ended.waiting
  rw [Nat.zero_add] at hloop
  have hprocessed :=
    congrArg (Option.map (finishXmlChunk { session with kafkaMsgs := .initializer })) hloop
  obtain ⟨session', a, hd, ha, hhanded, hparser, hresponse⟩ := decode_xml hm hprocessed h.rc
  refine ⟨session', a, hd, ha, hhanded, ⟨?_, by rw [hparser]; exact h.rc⟩⟩
  exact ⟨hresponse.trans h.ended.response, by rw [hparser]; exact hwaiting⟩

theorem decodeAll_blank (hm : methodAllowed props = true) (hskip : SkipsBlank lib.expat)
    {ps : List Piece} (hps : ∀ p ∈ ps, Blank p.buffer) (h : Finished session) :
    ∃ last answers, decodeAll lib props ps (.xml session) = some (last, answers) ∧
      ¬ Refused answers ∧ (handedAll lib props ps (.xml session)).map (·.1) = [] := by
  induction ps generalizing session with
  | nil => exact ⟨.xml session, [], rfl, refused_nil, rfl⟩
  | cons p ps ih =>
    obtain ⟨session', a, hd, ha, hhanded, h'⟩ := h.blank hm hskip (hps p (.head _))
    obtain ⟨last, answers, hall, hok, hnone⟩ := ih (fun q hq ↦ hps q (.tail _ hq)) h'
    refine ⟨last, a :: answers, by simp [decodeAll, hd, ha, hall], ?_, ?_⟩
    · rwa [refused_cons_of_ok ha]
    · simp [handedAll, hd, ha, hhanded, hnone]

theorem decodeAll_documents (hm : methodAllowed props = true) (hskip : SkipsBlank lib.expat)
    {ps : List Piece} (halloc : ∀ p ∈ ps, ∀ k, p.call.alloc k = true) (hblank : Blank rest)
    {ds : List (Source lib)} (hbody : (ps.map (·.buffer)).flatten = bytes ds ++ rest)
    (hcuts : CutsBetween ds (ps.map (·.buffer))) (h : Idle session) :
    ∃ last answers, decodeAll lib props ps (.xml session) = some (last, answers) ∧
      ¬ Refused answers ∧ (handedAll lib props ps (.xml session)).map (·.1) = messages ds := by
  induction ps generalizing ds session with
  | nil =>
    have hnil : bytes ds = [] := (List.append_eq_nil_iff.mp hbody.symm).1
    refine ⟨.xml session, [], rfl, refused_nil, ?_⟩
    rw [Piece.flatMap_eq_nil hnil]
    rfl
  | cons p ps ih =>
    rw [List.map_cons, List.flatten_cons] at hbody
    rw [List.map_cons] at hcuts
    obtain ⟨front, ⟨back, rfl⟩, hp⟩ | ⟨w, hw⟩ := hcuts [p.buffer] (ps.map (·.buffer)) rfl
    · -- the part ends just behind a document
      rw [List.flatten_singleton] at hp
      obtain ⟨session', a, hd, ha, hhanded, h'⟩ := h.documents hm (halloc p (.head _)) hp
      have hbody' : (ps.map (·.buffer)).flatten = bytes back ++ rest := by
        rw [hp, bytes, List.flatMap_append, List.append_assoc,
          List.append_cancel_left_eq] at hbody
        exact hbody
      have hcuts' : CutsBetween back (ps.map (·.buffer)) := by
        rw [hp] at hcuts
        exact hcuts.tail
      obtain ⟨last, answers, hall, hok, hothers⟩ :=
        ih (fun q hq ↦ halloc q (.tail _ hq)) hbody' hcuts' h'
      refine ⟨last, a :: answers, by simp [decodeAll, hd, ha, hall], ?_, ?_⟩
      · rwa [refused_cons_of_ok ha]
      · simp [handedAll, hd, ha, hhanded, hothers, messages]
    · -- the part ends in the white space behind the last document
      rw [List.flatten_singleton] at hw
      rw [← hw, bytes, List.append_assoc, List.append_cancel_left_eq] at hbody
      have hbehind : ∀ b, b ∈ w ∨ b ∈ (ps.map (·.buffer)).flatten → b ∈ [32, 9, 10, 13] := by
        intro b hb
        apply hblank b
        rw [← hbody]
        exact List.mem_append.mpr hb
      obtain ⟨session', a, hd, ha, hhanded, h'⟩ := h.last hm (halloc p (.head _)) hskip
        (fun b hb ↦ hbehind b (.inl hb)) hw.symm
      obtain ⟨last, answers, hall, hok, hnone⟩ := decodeAll_blank hm hskip
        (fun q hq b hb ↦ hbehind b (.inr (List.mem_flatten.mpr
          ⟨q.buffer, List.mem_map_of_mem hq, hb⟩))) h'
      refine ⟨last, a :: answers, by simp [decodeAll, hd, ha, hall], ?_, ?_⟩
      · rwa [refused_cons_of_ok ha]
      · simp [handedAll, hd, ha, hhanded, hnone]

def Tells (a : Answer) (errors : XmlParserErr) (position : Decoder.Expat.Position) (n : ℕ) : Prop :=
  a = ⟨errors.returnCode,
    some (xmlErrorMessage (errorAnswer errors position) errors.returnCode n)⟩

theorem decode_tells (hm : methodAllowed props = true) (halloc : ∀ k, p.call.alloc k = true)
    (hexpat : ReportsNesting lib.expat) {r : Reader} (hfollows : Follows lib.expat r session)
    (hmessage : session.errorMessage = xmlErrorMessage) {next : Session} {a : Answer}
    (hd : decode lib props p (.xml session) = some (next, a)) :
    (a.rc ≠ .ok → ∃ errors position n, n = (handedBy lib props p (.xml session)).length ∧
        Tells a errors position n) ∧
      (a.rc = .ok → ∃ session' r', next = .xml session' ∧ Follows lib.expat r' session' ∧
        session'.errorMessage = xmlErrorMessage) := by
  obtain ⟨d, hz, heq⟩ := Option.map_eq_some_iff.mp hd
  obtain ⟨rfl, rfl⟩ := Prod.mk.inj heq
  have halloc' : ∀ k, (p.call.xml lib).alloc k = true := halloc
  have hstands := (hfollows (p.call.xml lib)).stands
  constructor
  · intro hbad
    obtain ⟨errors, position, hrc, hresponse⟩ := zzDecode_answer halloc'
      hstands.response hstands.rc hmessage hm hz hbad
    refine ⟨errors, position, d.handed.length, by simp [handedBy, hz], ?_⟩
    rw [Tells, hrc, hresponse]
  · intro hok
    obtain ⟨r', -, hfollows'⟩ :=
      (zzDecodeXml_ok_iff halloc' hexpat hfollows hz).2 hok
    refine ⟨d.session, r', rfl, hfollows', ?_⟩
    simp only [zzDecode, hm, Bool.not_true, Bool.false_eq_true, if_false] at hz
    obtain ⟨processed, hp, rfl⟩ := Option.map_eq_some_iff.mp hz
    obtain ⟨s, -, rfl⟩ := Option.map_eq_some_iff.mp hp
    rw [errorMessage_consume]
    exact hmessage

theorem decodeAll_tells (hm : methodAllowed props = true) (hexpat : ReportsNesting lib.expat)
    {ps : List Piece} (halloc : ∀ p ∈ ps, ∀ k, p.call.alloc k = true) {r : Reader}
    (hfollows : Follows lib.expat r session) (hmessage : session.errorMessage = xmlErrorMessage)
    {last : Session} {answers : List Answer}
    (h : decodeAll lib props ps (.xml session) = some (last, answers)) {a : Answer}
    (ha : answers.getLast? = some a) (hbad : a.rc ≠ .ok) :
    ∃ errors position n, n ≤ (handedAll lib props ps (.xml session)).length ∧
      Tells a errors position n := by
  induction ps generalizing session r answers with
  | nil =>
    obtain ⟨-, rfl⟩ := Prod.mk.inj (Option.some.inj h)
    cases ha
  | cons p ps ih =>
    obtain ⟨next, b, hd, ⟨hrc, -, rfl⟩ | ⟨hrc, others, hothers, rfl⟩⟩ := decodeAll_cons h
    · obtain rfl := Option.some.inj ha
      obtain ⟨errors, position, n, hn, htells⟩ :=
        (decode_tells hm (halloc p (.head _)) hexpat hfollows hmessage hd).1 hrc
      refine ⟨errors, position, n, ?_, htells⟩
      rw [handedAll, List.length_append]
      omega
    · obtain ⟨session', r', rfl, hfollows', hmessage'⟩ :=
        (decode_tells hm (halloc p (.head _)) hexpat hfollows hmessage hd).2 hrc
      have hlast : others.getLast? = some a := by
        cases hothers' : others.getLast? with
        | none =>
          rw [List.getLast?_cons, hothers'] at ha
          obtain rfl : b = a := Option.some.inj ha
          exact absurd hrc hbad
        | some c =>
          rw [List.getLast?_cons, hothers'] at ha
          exact ha
      obtain ⟨errors, position, n, hn, htells⟩ :=
        ih (fun q hq ↦ halloc q (.tail _ hq)) hfollows' hmessage' hothers hlast
      refine ⟨errors, position, n, ?_, htells⟩
      simp only [handedAll, hd, Option.elim_some, hrc, ne_eq, not_true_eq_false, if_false,
        List.length_append]
      omega

/-- Expat finds nothing wrong in this part, read document by document, and no element is too deep. -/
def Reads (lib : Libraries) (part : Bytes) : Prop :=
  (Reader.chunk lib.expat lib.style.maxDepth part.length part ⟨[], 0⟩).isSome

/-- The cuts between these parts lie just behind a document each, as far as the parts are read. -/
def CutsBehind (lib : Libraries) (parts : List Bytes) : Prop :=
  ∀ part ∈ parts.dropLast, ∀ r,
    Reader.chunk lib.expat lib.style.maxDepth part.length part ⟨[], 0⟩ = some r → r.fed = []

theorem decode_returns (hm : methodAllowed props = true) (hexpat : ReportsNesting lib.expat)
    (hbytes : CountsBytes lib.expat) (halloc : ∀ k, p.call.alloc k = true)
    (hfollows : Follows lib.expat ⟨[], 0⟩ session) :
    ∃ session' a, decode lib props p (.xml session) = some (.xml session', a) ∧
      (a.rc = .ok ↔ Reads lib p.buffer) ∧
      (a.rc = .ok → ∃ r, Reader.chunk lib.expat lib.style.maxDepth p.buffer.length p.buffer ⟨[], 0⟩ =
        some r ∧ Follows lib.expat r session') := by
  have halloc' : ∀ k, (p.call.xml lib).alloc k = true := halloc
  obtain ⟨hfed, herror, hreached, hat⟩ := hfollows (p.call.xml lib)
  have htracks : Decoder.XmlNesting.Tracks lib.expat ⟨[], 0⟩
      (enterXmlChunk (p.call.xml lib) { session with kafkaMsgs := .initializer }) :=
    ⟨hfed, herror, hreached, hat.stackPos, hat.elements, hat.response, hat.running, hat.rc⟩
  obtain ⟨s, hs⟩ : ∃ s, xmlLoop (p.call.xml lib) p.buffer.length p.buffer
      (enterXmlChunk (p.call.xml lib) { session with kafkaMsgs := .initializer }) = some s :=
    loop_returns halloc' hexpat hbytes _ htracks
  have hp : processXmlBuffer (p.call.xml lib) p.buffer { session with kafkaMsgs := .initializer } =
      some (finishXmlChunk { session with kafkaMsgs := .initializer } s) := by
    rw [processXmlBuffer, hs, Option.map_some]
  have hd : zzDecode (processXmlBuffer (p.call.xml lib)) p.call.json.verdict p.call.json.clock props
      p.buffer session = some (consume p.call.json.verdict p.call.json.clock
        (finishXmlChunk { session with kafkaMsgs := .initializer } s)) :=
    zzDecode_of_processed hm hp
  obtain ⟨hok, hnext⟩ := zzDecodeXml_ok_iff halloc' hexpat hfollows hd
  refine ⟨_, _, by rw [Decoder.BodyEnd.decode, hd, Option.map_some], ?_, hnext⟩
  exact hok.trans (and_iff_right hm)

theorem decodeAll_behind (hm : methodAllowed props = true) (hexpat : ReportsNesting lib.expat)
    (hbytes : CountsBytes lib.expat) {ps : List Piece} (halloc : ∀ p ∈ ps, ∀ k, p.call.alloc k = true)
    (hcuts : CutsBehind lib (ps.map (·.buffer))) (hfollows : Follows lib.expat ⟨[], 0⟩ session) :
    ∃ last answers, decodeAll lib props ps (.xml session) = some (last, answers) ∧
      (¬ Refused answers ↔ ∀ p ∈ ps, Reads lib p.buffer) := by
  induction ps generalizing session with
  | nil => exact ⟨.xml session, [], rfl, iff_of_true refused_nil (by simp)⟩
  | cons p ps ih =>
    obtain ⟨session', a, hd, hok, hnext⟩ :=
      decode_returns hm hexpat hbytes (halloc p (.head _)) hfollows
    rw [List.forall_mem_cons]
    by_cases hrc : a.rc = .ok
    · obtain ⟨r, hr, hfollows'⟩ := hnext hrc
      cases ps with
      | nil =>
        refine ⟨.xml session', [a], by simp [decodeAll, hd], ?_⟩
        rw [refused_cons_of_ok hrc]
        exact iff_of_true refused_nil ⟨hok.mp hrc, by simp⟩
      | cons q ps =>
        -- the next part finds a parser that has been reset
        obtain ⟨fed, depth⟩ := r
        obtain rfl : fed = [] := hcuts p.buffer (.head _) _ hr
        obtain rfl : 0 = depth :=
          Decoder.XmlNesting.Reach.opened.inj (hfollows' (p.call.xml lib)).reached
        obtain ⟨last, answers, hall, hrefused⟩ :=
          ih (fun q hq ↦ halloc q (.tail _ hq)) (fun part hpart ↦ hcuts part (.tail _ hpart)) hfollows'
        refine ⟨last, a :: answers, ?_, ?_⟩
        · rw [decodeAll, hd, Option.bind_some, if_neg (not_not.mpr hrc), hall]
          rfl
        rw [refused_cons_of_ok hrc, hrefused]
        exact (and_iff_right (hok.mp hrc)).symm
    · refine ⟨.xml session', [a], by simp [decodeAll, hd, hrc], ?_⟩
      exact iff_of_false (not_not.mpr ⟨a, .head _, hrc⟩) fun hreads ↦ hrc (hok.mpr hreads.1)

end Pieces

section Request

variable {l : HttpListener} {ci : ConnInfo} {run : Run}

theorem decodeAll_split {ps qs : List Piece} {session last : Session} {answers : List Answer}
    (h : decodeAll lib props (ps ++ qs) session = some (last, answers)) :
    (Refused answers ∧ decodeAll lib props ps session = some (last, answers) ∧
        handedAll lib props (ps ++ qs) session = handedAll lib props ps session) ∨
      ∃ mid front back, decodeAll lib props ps session = some (mid, front) ∧ ¬ Refused front ∧
        decodeAll lib props qs mid = some (last, back) ∧ answers = front ++ back ∧
        handedAll lib props (ps ++ qs) session =
          handedAll lib props ps session ++ handedAll lib props qs mid := by
  induction ps generalizing session answers with
  | nil => exact .inr ⟨session, [], answers, rfl, refused_nil, h, rfl, rfl⟩
  | cons p ps ih =>
    obtain ⟨session', a, hd, ⟨hrc, rfl, rfl⟩ | ⟨hrc, others, hothers, rfl⟩⟩ := decodeAll_cons h
    · exact .inl ⟨⟨a, .head _, hrc⟩, by simp [decodeAll, hd, hrc], by simp [handedAll, hd, hrc]⟩
    · obtain ⟨hrefused, hfront, hhanded⟩ | ⟨mid, front, back, hfront, hok, hback, rfl, hhanded⟩ :=
        ih hothers
      · refine .inl ⟨(refused_cons_of_ok hrc).mpr hrefused, ?_, ?_⟩
        · simp [decodeAll, hd, hrc, hfront]
        · simp [handedAll, hd, hrc, hhanded]
      · refine .inr ⟨mid, a :: front, back, ?_, ?_, hback, rfl, ?_⟩
        · simp [decodeAll, hd, hrc, hfront]
        · rwa [refused_cons_of_ok hrc]
        · simp [handedAll, hd, hrc, hhanded]

structure Stands (ci : ConnInfo) (session : Session) (run : Run) : Prop where
  block : ∃ b, run.request.block = some b ∧ SameConnection ci b.info ∧ b.info.httpError.code = 0
  session : run.session = session

def Keeps (a : Answer) (run : Run) : Prop :=
  ∃ b, run.request.block = some b ∧ b.info.httpError.code = decoderErr2http a.rc ∧
    b.info.httpError.str = a.response

/-- Where a request has come: each part was taken, or the last answer is kept, or the one to a call of
`inflate` that failed. -/
inductive Came (ci : ConnInfo) (last : Session) (answers : List Answer) (fails : Prop) (run : Run) :
    Prop
  | taken (hok : ¬ Refused answers) (hflows : ¬ fails) (h : Stands ci last run)
  | refused (a : Answer) (hlast : answers.getLast? = some a) (hrc : a.rc ≠ .ok) (h : Keeps a run)
  | failed (hfails : fails) (h : Failed run)

variable {session last : Session} {answers : List Answer}

theorem exists_last_of_refused {ps : List Piece}
    (h : decodeAll lib props ps session = some (last, answers)) (hrefused : Refused answers) :
    ∃ a, answers.getLast? = some a ∧ a.rc ≠ .ok := by
  induction ps generalizing session answers with
  | nil =>
    obtain ⟨-, rfl⟩ := Prod.mk.inj (Option.some.inj h)
    exact absurd hrefused refused_nil
  | cons p ps ih =>
    obtain ⟨session', a, -, ⟨hrc, -, rfl⟩ | ⟨hrc, others, hothers, rfl⟩⟩ := decodeAll_cons h
    · exact ⟨a, rfl, hrc⟩
    · obtain ⟨b, hb, hbad⟩ := ih hothers ((refused_cons_of_ok hrc).mp hrefused)
      exact ⟨b, by rw [List.getLast?_cons, hb]; rfl, hbad⟩

theorem Stands.upload (url : CStr) (hs : l.decoder.newSession = true) (h : Stands ci session run)
    {u : Upload}
    (hall : decodeAll lib ci.decoderParams (u.pieces ci.zlibEnable) session = some (last, answers)) :
    handedUpload lib u run = handedAll lib ci.decoderParams (u.pieces ci.zlibEnable) session ∧
      ∃ run', run.upload l lib url u = some run' ∧
        Came ci last answers (u.InflateFails ci.zlibEnable) run' := by
  obtain ⟨b, hb, hsame, hzero⟩ := h.block
  have hq : ¬ connInfoHasQueueResponse b.info = true := by simp [connInfoHasQueueResponse, hzero]
  have hall' : decodeAll lib b.info.decoderParams (u.pieces b.info.zlibEnable) run.session =
      some (last, answers) := by
    rw [hsame.decoderParams, hsame.zlibEnable, h.session]
    exact hall
  have hrc := postChunk_answered hs hall'
  rw [hsame.zlibEnable] at hrc
  have hblock := block_upload (u.answered answers) url hs hb u.nonempty
  rw [if_neg hq] at hblock
  refine ⟨?_, ⟨(handleRequest l (u.answered answers) url (lit "POST") u.piece.buffer run.request).1,
    last⟩, by simp [Run.upload, hb, hq, hall'], ?_⟩
  · simp [handedUpload, hb, hq, hsame.decoderParams, hsame.zlibEnable, h.session]
  by_cases hrefused : Refused answers
  · obtain ⟨a, ha, hbad⟩ := exists_last_of_refused hall hrefused
    have hresult := postChunk_refused hs hall' hrefused
    rw [ha, Option.map_some, Option.some.injEq] at hresult
    have hbad' : (decodeResult a).rc ≠ .ok := hbad
    rw [← hresult, if_pos hbad'] at hblock
    exact .refused a ha hbad ⟨_, hblock, rfl, rfl⟩
  by_cases hfails : u.InflateFails ci.zlibEnable
  · have hne := mt hrc.mp fun hboth ↦ hboth.2 hfails
    rw [if_pos hne] at hblock
    exact .failed hfails ⟨_, hblock, decoderErr2http_error hne⟩
  · rw [if_neg (not_not.mpr (hrc.mpr ⟨hrefused, hfails⟩))] at hblock
    exact .taken hrefused hfails ⟨⟨b, hblock, hsame, hzero⟩, rfl⟩

theorem Stands.uploads (url : CStr) (hs : l.decoder.newSession = true) {us : List Upload}
    (h : Stands ci session run)
    (hall : decodeAll lib ci.decoderParams (us.flatMap (·.pieces ci.zlibEnable)) session =
      some (last, answers)) :
    ((∀ u ∈ us, ¬ u.InflateFails ci.zlibEnable) → handedUploads l lib url us run =
        handedAll lib ci.decoderParams (us.flatMap (·.pieces ci.zlibEnable)) session) ∧
      ∃ run', run.uploads l lib url us = some run' ∧
        Came ci last answers (∃ u ∈ us, u.InflateFails ci.zlibEnable) run' := by
  induction us generalizing session run answers with
  | nil =>
    obtain ⟨rfl, rfl⟩ := Prod.mk.inj (Option.some.inj hall)
    exact ⟨fun _ ↦ rfl, run, rfl, .taken refused_nil (by simp) h⟩
  | cons u us ih =>
    rw [List.flatMap_cons] at hall ⊢
    -- behind an answer, the request takes what is left of the body and keeps it
    have hkept {b : Block} {run₁ : Run} (hrun : run.upload l lib url u = some run₁)
        (hb : run₁.request.block = some b) (hcode : b.info.httpError.code ≠ 0) :
        handedUploads l lib url (u :: us) run = handedUpload lib u run ∧
          ∃ run', run.uploads l lib url (u :: us) = some run' ∧ run'.request.block = some b := by
      obtain ⟨hnone, run₂, hrun₂, hb₂⟩ :=
        uploads_kept lib url hs hb (by simpa [connInfoHasQueueResponse] using hcode) us
      refine ⟨?_, run₂, by simp [Run.uploads, hrun, hrun₂], hb₂⟩
      rw [handedUploads, hrun, Option.elim_some, hnone, List.append_nil]
    obtain ⟨hrefused, hfront, hhanded⟩ | ⟨mid, front, back, hfront, hok, hback, rfl, hhanded⟩ :=
      decodeAll_split hall
    · obtain ⟨hgiven, run₁, hrun, hcame⟩ := h.upload url hs hfront
      cases hcame with
      | taken hok => exact absurd hrefused hok
      | refused a ha hbad hkeeps =>
        obtain ⟨b, hb, hcode, hstr⟩ := hkeeps
        obtain ⟨hsame, run₂, hrun₂, hb₂⟩ := hkept hrun hb (by
          rw [hcode]
          exact (decoderErr2http_error hbad).1)
        refine ⟨fun _ ↦ ?_, run₂, hrun₂, .refused a ha hbad ⟨b, hb₂, hcode, hstr⟩⟩
        rw [hsame, hgiven, hhanded]
      | failed hfails hfailed =>
        obtain ⟨b, hb, hcode, hne⟩ := hfailed
        obtain ⟨-, run₂, hrun₂, hb₂⟩ := hkept hrun hb hcode
        exact ⟨fun hflows ↦ absurd hfails (hflows u (.head _)), run₂, hrun₂,
          .failed ⟨u, .head _, hfails⟩ ⟨b, hb₂, hcode, hne⟩⟩
    · obtain ⟨hgiven, run₁, hrun, hcame⟩ := h.upload url hs hfront
      cases hcame with
      | refused a ha hbad =>
        exact absurd ⟨a, List.mem_of_getLast? ha, hbad⟩ hok
      | failed hfails hfailed =>
        obtain ⟨b, hb, hcode, hne⟩ := hfailed
        obtain ⟨-, run₂, hrun₂, hb₂⟩ := hkept hrun hb hcode
        exact ⟨fun hflows ↦ absurd hfails (hflows u (.head _)), run₂, hrun₂,
          .failed ⟨u, .head _, hfails⟩ ⟨b, hb₂, hcode, hne⟩⟩
      | taken _ hflows h₁ =>
        obtain ⟨hothers, run₂, hrun₂, hcame⟩ := ih h₁ hback
        refine ⟨fun hnone ↦ ?_, run₂, by simp [Run.uploads, hrun, hrun₂], ?_⟩
        · rw [hhanded, handedUploads, hrun, Option.elim_some, hgiven,
            hothers fun v hv ↦ hnone v (.tail _ hv)]
        · cases hcame with
          | taken hok' hflows' h₂ =>
            refine .taken ?_ (by simp [hflows, hflows']) h₂
            rintro ⟨a, ha, hbad⟩
            obtain ha | ha := List.mem_append.mp ha
            · exact hok ⟨a, ha, hbad⟩
            · exact hok' ⟨a, ha, hbad⟩
          | refused a ha hbad hkeeps =>
            exact .refused a (by rw [List.getLast?_append, ha]; rfl) hbad hkeeps
          | failed hfails hfailed =>
            obtain ⟨v, hv, hfails⟩ := hfails
            exact .failed ⟨v, .tail _ hv, hfails⟩ hfailed

theorem openRequest_stands {l : HttpListener} {url : CStr} {e : Http.Env} {run : Run}
    (hxml : Decoder.ZzSession.contentTypeXml (attributes l url e) = true)
    (h : openRequest l url e = some run) :
    Stands (connInfo l e url (lit "POST")) (.xml newZzSessionXml) run := by
  obtain ⟨hblock, hsession⟩ := openRequest_opened h
  rw [newSession, if_pos hxml] at hsession
  exact ⟨hblock, hsession⟩

variable {st : ZStream} {σ : Type*}

/-- A compressed body is one stream for `inflate`. -/
def Streams (ci : ConnInfo) (zl : Inflater st σ) (us : List Upload) : Prop :=
  ci.zlibEnable = true → us.flatMap (·.piece.buffer) = st.z ∧ Inflates zl us zl.init

def Flowing (ci : ConnInfo) (zl : Inflater st σ) (us : List Upload) : Prop :=
  ci.zlibEnable = true → zl.Flows (us.map (·.piece.buffer)) zl.init

theorem inflates_iff_flowing {zl : Inflater st σ} {us : List Upload} (h : Streams ci zl us) :
    (∀ u ∈ us, ¬ u.InflateFails ci.zlibEnable) ↔ Flowing ci zl us := by
  cases hzlib : ci.zlibEnable with
  | false => simp [Flowing, hzlib, Upload.InflateFails]
  | true =>
    obtain ⟨hz, hinflates⟩ := h hzlib
    have hflows := (hinflates.received (by rw [zl.taken_init, List.drop_zero, hz])
      (by rw [zl.taken_init]; exact Nat.zero_le _)
      (by rw [zl.taken_init, zl.given_init, st.zero])).2.2
    rw [hflows, Flowing, hzlib]
    simp

theorem Came.answersOk_iff {fails : Prop} (url : CStr) (hs : l.decoder.newSession = true)
    (h : Came ci last answers fails run) (e : Http.Env) :
    AnswersOk l url e run ↔ ¬ Refused answers ∧ ¬ fails := by
  cases h with
  | taken hok hflows hstands =>
    obtain ⟨b, hb, -, hzero⟩ := hstands.block
    exact iff_of_true ((TruncatedBody.answersOk_iff hs hb (by rw [hzero]; decide)).mpr hzero) ⟨hok, hflows⟩
  | refused a ha hbad hkeeps =>
    obtain ⟨b, hb, hcode, -⟩ := hkeeps
    obtain ⟨hnonzero, hne⟩ := decoderErr2http_error hbad
    rw [← hcode] at hnonzero hne
    exact iff_of_false (fun hok ↦ hnonzero ((TruncatedBody.answersOk_iff hs hb hne).mp hok))
      fun hboth ↦ hboth.1 ⟨a, List.mem_of_getLast? ha, hbad⟩
  | failed hfails hfailed =>
    obtain ⟨b, hb, hcode, hne⟩ := hfailed
    exact iff_of_false (fun hok ↦ hcode ((TruncatedBody.answersOk_iff hs hb hne).mp hok))
      fun hboth ↦ hboth.2 hfails

end Request

/-- An XML body, compressed or not, that is cut between its documents only: if no part stalls, each
document becomes one message, once and in order, and these are the JSON that is documented exactly if
no document has text in two places of one element. The request is answered with OK exactly if no part
stalls. -/
theorem xml_post_delivers (l : HttpListener) (sessionSize : ℕ)
    (hl : l.decoder = zzDecoder sessionSize) (lib : Libraries) (hskip : SkipsBlank lib.expat)
    (url : CStr) (e : Http.Env) (us : List Upload) (run : Run)
    (hopen : openRequest l url e = some run)
    (hxml : Decoder.ZzSession.contentTypeXml (attributes l url e) = true)
    (hm : methodAllowed (attributes l url e) = true)
    (halloc : ∀ p ∈ sent l url e us, ∀ k, p.call.alloc k = true) {st : ZStream} {σ : Type*}
    (zl : Inflater st σ) (hstreams : Streams (connInfo l e url (lit "POST")) zl us)
    (ds : List (Source lib)) (rest : Bytes) (hrest : Blank rest)
    (hbody : ((sent l url e us).map (·.buffer)).flatten = bytes ds ++ rest)
    (hcuts : CutsBetween ds ((sent l url e us).map (·.buffer))) :
    (Flowing (connInfo l e url (lit "POST")) zl us →
      (handedUploads l lib url us run).map (·.1) = messages ds ∧
        ((handedUploads l lib url us run).map (·.1) =
            ds.map (fun d ↦ render lib.style d.document.toJson) ↔
          ∀ d ∈ ds, d.document.OneRun)) ∧
      ∃ run', body l lib url e us = some run' ∧ ∀ e', AnswersOk l url e' run' ↔
        Flowing (connInfo l e url (lit "POST")) zl us := by
  have hs : l.decoder.newSession = true := by
    rw [hl]
    rfl
  obtain ⟨last, answers, hall, hok, hdocuments⟩ :=
    decodeAll_documents hm hskip halloc hrest hbody hcuts idle_new
  obtain ⟨hhanded, run', hrun, hcame⟩ := (openRequest_stands hxml hopen).uploads url hs hall
  have hflowing := inflates_iff_flowing hstreams
  refine ⟨fun hflows ↦ ?_, run', by simp [body, hopen, hrun], fun e' ↦ ?_⟩
  · have hmessages : (handedUploads l lib url us run).map (·.1) = messages ds := by
      rw [hhanded (hflowing.mpr hflows)]
      exact hdocuments
    refine ⟨hmessages, ?_⟩
    rw [hmessages, messages, List.map_inj_left]
    exact forall₂_congr fun d _ ↦ Decoder.XmlDocument.documentText_eq_render_iff d.document
  · rw [hcame.answersOk_iff url hs e', and_iff_right hok, ← hflowing]
    simp

theorem plain_not_compressed : (connInfo zzListener (client [xmlHeader]) (lit "/v1/data/topic")
    (lit "POST")).zlibEnable = false := by
  decide

theorem plain_streams {zl : Inflater st σ} (us : List Upload) :
    Streams (connInfo zzListener (client [xmlHeader]) (lit "/v1/data/topic") (lit "POST")) zl us := by
  intro hzlib
  cases plain_not_compressed.symm.trans hzlib

def twoDocuments : List Upload :=
  [plain (ascii "<a></a>") (by decide), plain (ascii "   <b></b>\n") (by decide)]

def simpleLibraries : Libraries := ⟨Decoder.JsonFraming.balanced,
  Decoder.XmlTranslation.plainExpat, Decoder.Yajl.yajlStyle⟩

def emptyElementStream : ZStream := storedText (ascii "<a></a>") [0x07, 0xa4, 0x01, 0xe6]

def emptyElementUpload : Upload where
  env := client []
  piece := ⟨emptyElementStream.z, Decoder.JsonFraming.plentiful, fun _ ↦ true, false⟩
  nonempty := by decide
  inflations := ((greedy emptyElementStream true).inflates 8 (0, 0) emptyElementStream.z).1.map
    fun r ↦ ⟨r, Decoder.JsonFraming.plentiful, fun _ ↦ true, false⟩

theorem streams_emptyElement : Streams (connInfo zzListener (client [xmlHeader, compressedHeader])
    (lit "/v1/data/topic") (lit "POST")) (greedy emptyElementStream true) [emptyElementUpload] := by
  refine fun _ ↦ ⟨List.append_nil _, ?_, trivial⟩
  rw [emptyElementUpload, List.map_map]
  exact List.map_id _

theorem alloc_emptyElement : ∀ p ∈ sent zzListener (lit "/v1/data/topic")
    (client [xmlHeader, compressedHeader]) [emptyElementUpload], ∀ k, p.call.alloc k = true := by
  intro p hp k
  obtain ⟨u, hu, hp⟩ := List.mem_flatMap.mp hp
  rw [List.mem_singleton.mp hu] at hp
  obtain ⟨z, hz, rfl⟩ := exists_of_mem_inflated hp
  obtain ⟨r, -, rfl⟩ := List.mem_map.mp hz
  rfl

theorem cutsBetween_one : CutsBetween [pieceA] [ascii "<a></a>"] := by
  intro front back heq
  match front, heq with
  | [], _ => exact .inl ⟨[], List.nil_prefix, rfl⟩
  | [c], heq =>
    obtain ⟨rfl, -⟩ := List.cons.inj heq
    exact .inl ⟨[pieceA], List.prefix_rfl, rfl⟩

/-- Two documents, each in a part of its own, and a compressed one. -/
theorem documents_delivered :
    (∃ run, openRequest zzListener (lit "/v1/data/topic") (client [xmlHeader]) = some run ∧
      (handedUploads zzListener simpleLibraries (lit "/v1/data/topic") twoDocuments run).map (·.1) =
        [ascii "\x7b\"tag\":\"a\"\x7d", ascii "\x7b\"tag\":\"b\"\x7d"]) ∧
    ∃ run, openRequest zzListener (lit "/v1/data/topic") (client [xmlHeader, compressedHeader]) =
        some run ∧
      (handedUploads zzListener simpleLibraries (lit "/v1/data/topic") [emptyElementUpload] run).map
        (·.1) = [ascii "\x7b\"tag\":\"a\"\x7d"] := by
  constructor
  · obtain ⟨run, hrun⟩ := Option.isSome_iff_exists.mp (show (openRequest zzListener
      (lit "/v1/data/topic") (client [xmlHeader])).isSome by decide)
    have hsent : (sent zzListener (lit "/v1/data/topic") (client [xmlHeader]) twoDocuments).map
        (·.buffer) = [ascii "<a></a>", ascii "   <b></b>\n"] := rfl
    obtain ⟨hmessages, -⟩ := xml_post_delivers zzListener 1 rfl simpleLibraries skipsBlank_plain
      (lit "/v1/data/topic") (client [xmlHeader]) twoDocuments run hrun rfl rfl
      (by simp [sent, plain_not_compressed, twoDocuments, plain, Upload.pieces])
      (greedy emptyElementStream true) (plain_streams _) [pieceA, pieceB] (ascii "\n")
      (by simp [Blank, ascii]) (by rw [hsent]; decide) (by rw [hsent]; exact cutsBetween_two)
    obtain ⟨hmessages, -⟩ := hmessages fun hzlib ↦ by
      cases plain_not_compressed.symm.trans hzlib
    refine ⟨run, hrun, ?_⟩
    rw [hmessages]
    decide
  · obtain ⟨run, hrun⟩ := Option.isSome_iff_exists.mp (show (openRequest zzListener
      (lit "/v1/data/topic") (client [xmlHeader, compressedHeader])).isSome by decide)
    have hsent : (sent zzListener (lit "/v1/data/topic") (client [xmlHeader, compressedHeader])
        [emptyElementUpload]).map (·.buffer) = [ascii "<a></a>"] := by decide
    obtain ⟨hmessages, -⟩ := xml_post_delivers zzListener 1 rfl simpleLibraries skipsBlank_plain
      (lit "/v1/data/topic") (client [xmlHeader, compressedHeader]) [emptyElementUpload] run hrun rfl
      rfl alloc_emptyElement (greedy emptyElementStream true) streams_emptyElement [pieceA] []
      (by simp [Blank]) (by rw [hsent]; decide) (by rw [hsent]; exact cutsBetween_one)
    obtain ⟨hmessages, -⟩ := hmessages fun _ ↦ ⟨fun h ↦ absurd h.full (by decide), trivial⟩
    refine ⟨run, hrun, ?_⟩
    rw [hmessages]
    decide

/-- An XML body, compressed or not, that is cut behind documents: it is answered with OK exactly if no
part stalls, no element is too deep and expat finds nothing wrong, read document by document. If no
part stalls, any other answer tells of one error, with its code, and of not more messages than rdkafka
was given. -/
theorem xml_post_answered (l : HttpListener) (sessionSize : ℕ)
    (hl : l.decoder = zzDecoder sessionSize) (lib : Libraries) (hexpat : ReportsNesting lib.expat)
    (hbytes : CountsBytes lib.expat) (url : CStr) (e : Http.Env) (us : List Upload) (run : Run)
    (hopen : openRequest l url e = some run)
    (hxml : Decoder.ZzSession.contentTypeXml (attributes l url e) = true)
    (hm : methodAllowed (attributes l url e) = true)
    (halloc : ∀ p ∈ sent l url e us, ∀ k, p.call.alloc k = true) {st : ZStream} {σ : Type*}
    (zl : Inflater st σ) (hstreams : Streams (connInfo l e url (lit "POST")) zl us)
    (hcuts : CutsBehind lib ((sent l url e us).map (·.buffer))) :
    ∃ run', body l lib url e us = some run' ∧ ∀ e',
      (AnswersOk l url e' run' ↔ Flowing (connInfo l e url (lit "POST")) zl us ∧
        ∀ p ∈ sent l url e us, Reads lib p.buffer) ∧
      (Flowing (connInfo l e url (lit "POST")) zl us → ¬ AnswersOk l url e' run' →
        ∃ errors position n, errors.returnCode ≠ .ok ∧
          n ≤ (handedUploads l lib url us run).length ∧
          (handleRequest l e' url (lit "POST") [] run'.request).1.trace = run'.request.trace ++
            [.use .handlePostEnd (run'.request.cellGood l),
              .respond (decoderErr2http errors.returnCode) (some (xmlErrorMessage
                (errorAnswer errors position) errors.returnCode n))]) := by
  have hs : l.decoder.newSession = true := by
    rw [hl]
    rfl
  obtain ⟨last, answers, hall, hrefused⟩ :=
    decodeAll_behind hm hexpat hbytes halloc hcuts (follows_new lib.expat)
  obtain ⟨hhanded, run', hrun, hcame⟩ := (openRequest_stands hxml hopen).uploads url hs hall
  have hflowing := inflates_iff_flowing hstreams
  have hanswer (e' : Http.Env) : AnswersOk l url e' run' ↔ ¬ Refused answers ∧
      Flowing (connInfo l e url (lit "POST")) zl us := by
    rw [hcame.answersOk_iff url hs e', ← hflowing]
    simp
  refine ⟨run', by simp [body, hopen, hrun], fun e' ↦ ⟨?_, fun hflows hno ↦ ?_⟩⟩
  · rw [hanswer, hrefused, and_comm]
  cases hcame with
  | taken hok hnone => exact absurd ((hanswer e').mpr ⟨hok, hflows⟩) hno
  | failed hfails =>
    obtain ⟨u, hu, hfails⟩ := hfails
    exact absurd hfails (hflowing.mpr hflows u hu)
  | refused a ha hbad hkeeps =>
    obtain ⟨b, hb, hcode, hstr⟩ := hkeeps
    obtain ⟨hnonzero, -⟩ := decoderErr2http_error hbad
    rw [← hcode] at hnonzero
    obtain ⟨errors, position, n, hn, rfl⟩ :=
      decodeAll_tells hm hexpat halloc (follows_new lib.expat) rfl hall ha hbad
    refine ⟨errors, position, n, hbad, ?_, ?_⟩
    · rw [hhanded (hflowing.mpr hflows)]
      exact hn
    · rw [handleRequest_explained hb hnonzero, hcode, hstr]

def misplacedTag : List Upload :=
  [plain (ascii "<a></a>") (by decide), plain (ascii "</b>") (by decide)]

theorem misplaced_tag_answered :
    ∃ run', body zzListener plainLibraries (lit "/v1/data/topic") (client [xmlHeader]) misplacedTag =
        some run' ∧
      ¬ AnswersOk zzListener (lit "/v1/data/topic") (client []) run' := by
  obtain ⟨run, hopen⟩ := Option.isSome_iff_exists.mp (show (openRequest zzListener
    (lit "/v1/data/topic") (client [xmlHeader])).isSome by decide)
  have hsent : sent zzListener (lit "/v1/data/topic") (client [xmlHeader]) misplacedTag =
      misplacedTag.map (·.piece) := rfl
  have hcuts : CutsBehind plainLibraries ((sent zzListener (lit "/v1/data/topic")
      (client [xmlHeader]) misplacedTag).map (·.buffer)) := by
    intro part hpart r hr
    obtain rfl := List.mem_singleton.mp hpart
    obtain rfl : _ = r := Option.some.inj hr
    rfl
  obtain ⟨run', hrun, hanswers⟩ := xml_post_answered zzListener 1 rfl plainLibraries
    Decoder.XmlNesting.reportsNesting_strict Decoder.XmlNesting.countsBytes_strict
    (lit "/v1/data/topic") (client [xmlHeader]) misplacedTag run hopen rfl rfl
    (by rw [hsent]; simp [misplacedTag, plain]) (greedy emptyElementStream true)
    (plain_streams _) hcuts
  refine ⟨run', hrun, ?_⟩
  rw [(hanswers (client [])).1]
  rintro ⟨-, hreads⟩
  have hlast := hreads (plain (ascii "</b>") (by decide)).piece (.tail _ (.head _))
  exact absurd hlast (by unfold Reads; decide)

end N2Kafka.Listener.XmlPosts
