import N2Kafka.Decoder.Callbacks
import N2Kafka.Decoder.MessagesQueued
import N2Kafka.Decoder.XmlCodes
import N2Kafka.Decoder.ZzSession

namespace N2Kafka.Decoder.BodyEnd

open Lib.CString Lib.JsonText Util.Pairs Util.KafkaMessageArray Decoder.DecoderApi Decoder.Yajl
open Decoder.ZzParser Decoder.ZzDecoder Decoder.ZzParserJson Decoder.ZzParserXml
open Decoder.MessagesQueued Decoder.XmlNesting
open Decoder.XmlCodes (Round chunkRounds)
open Decoder.Callbacks (Answer)

inductive Session
  | json (session : ZzSession ZzJsonSession)
  | xml (session : ZzSession ZzXmlSession)

def newSession (msgVars : KeyvalList) : Session :=
  if ZzSession.contentTypeXml msgVars then .xml newZzSessionXml
  else .json (newZzSessionJson errorMessageJson)

/-- An outermost object or a root element is open. -/
def Session.Unfinished : Session → Prop
  | .json session => session.parser.stackPos ≠ 0
  | .xml session => session.parser.stackPos ≠ 0

instance (session : Session) : Decidable session.Unfinished :=
  match session with
  | .json session => inferInstanceAs (Decidable (session.parser.stackPos ≠ 0))
  | .xml session => inferInstanceAs (Decidable (session.parser.stackPos ≠ 0))

/-- What the parsers are made of: the grammar of yajl, expat, and the generator of yajl. -/
structure Libraries where
  yajl : Grammar
  expat : Expat.Library
  style : Lib.JsonGenerator.Style

structure DecodeCall where
  json : ZzParserJson.Env
  alloc : ℕ → Bool
  tempYajl : Bool

def DecodeCall.xml (c : DecodeCall) (lib : Libraries) : ZzParserXml.Env :=
  ⟨lib.expat, lib.style, c.alloc, c.tempYajl⟩

structure Piece where
  buffer : Bytes
  call : DecodeCall

/-- The text of a body ends inside an outermost object or a root element. -/
def EndsOpen (lib : Libraries) (props : KeyvalList) (text : Bytes) : Prop :=
  if ZzSession.contentTypeXml props then openElements lib.expat text.length text ≠ 0
  else depth text ≠ 0

instance (lib : Libraries) (props : KeyvalList) (text : Bytes) :
    Decidable (EndsOpen lib props text) :=
  inferInstanceAs (Decidable (if ZzSession.contentTypeXml props then
    openElements lib.expat text.length text ≠ 0 else depth text ≠ 0))

def decode (lib : Libraries) (props : KeyvalList) (p : Piece) : Session → Option (Session × Answer)
  | .json session =>
    (zzDecodeJson p.call.json lib.yajl props p.buffer session).map fun d ↦
      (.json d.session, ⟨d.rc, d.response⟩)
  | .xml session =>
    (zzDecode (processXmlBuffer (p.call.xml lib)) p.call.json.verdict p.call.json.clock props
      p.buffer session).map fun d ↦ (.xml d.session, ⟨d.rc, d.response⟩)

/-- The pieces of a body up to the first one that is answered with an error, and the answers. -/
def decodeAll (lib : Libraries) (props : KeyvalList) : List Piece → Session →
    Option (Session × List Answer)
  | [], session => some (session, [])
  | p :: ps, session =>
    (decode lib props p session).bind fun decoded ↦
      if decoded.2.rc ≠ .ok then some (decoded.1, [decoded.2])
      else (decodeAll lib props ps decoded.1).map fun last ↦ (last.1, decoded.2 :: last.2)

def Refused (answers : List Answer) : Prop := ∃ a ∈ answers, a.rc ≠ .ok

variable {lib : Libraries} {props : KeyvalList}

@[simp]
theorem refused_nil : ¬ Refused [] := by simp [Refused]

theorem refused_cons_of_ok {a : Answer} {answers : List Answer} (ha : a.rc = .ok) :
    Refused (a :: answers) ↔ Refused answers := by
  simp [Refused, ha]

theorem decodeAll_cons {p : Piece} {ps : List Piece} {session last : Session} {answers : List Answer}
    (h : decodeAll lib props (p :: ps) session = some (last, answers)) :
    ∃ session' a, decode lib props p session = some (session', a) ∧
      (a.rc ≠ .ok ∧ last = session' ∧ answers = [a] ∨
        a.rc = .ok ∧ ∃ rest, decodeAll lib props ps session' = some (last, rest) ∧
          answers = a :: rest) := by
  obtain ⟨⟨session', a⟩, hd, h⟩ := Option.bind_eq_some_iff.mp h
  refine ⟨session', a, hd, ?_⟩
  split at h
  · rename_i hrc
    obtain ⟨rfl, rfl⟩ := Prod.mk.inj (Option.some.inj h)
    exact .inl ⟨hrc, rfl, rfl⟩
  · rename_i hrc
    obtain ⟨⟨last', rest⟩, hrest, heq⟩ := Option.map_eq_some_iff.mp h
    obtain ⟨rfl, rfl⟩ := Prod.mk.inj heq
    exact .inr ⟨not_not.mp hrc, rest, hrest, rfl⟩

theorem decodeAll_append {ps qs : List Piece} {session mid last : Session}
    {front back : List Answer} (hps : decodeAll lib props ps session = some (mid, front))
    (hok : ¬ Refused front) (hqs : decodeAll lib props qs mid = some (last, back)) :
    decodeAll lib props (ps ++ qs) session = some (last, front ++ back) := by
  induction ps generalizing session front with
  | nil =>
    obtain ⟨rfl, rfl⟩ := Prod.mk.inj (Option.some.inj hps)
    exact hqs
  | cons p ps ih =>
    obtain ⟨session', a, hd, ⟨hrc, -, rfl⟩ | ⟨hrc, rest, hrest, rfl⟩⟩ := decodeAll_cons hps
    · exact absurd ⟨a, .head _, hrc⟩ hok
    · rw [refused_cons_of_ok hrc] at hok
      simp [decodeAll, hd, hrc, ih hrest hok]

theorem decodeAll_append_of_refused {ps : List Piece} (qs : List Piece) {session last : Session}
    {answers : List Answer} (hps : decodeAll lib props ps session = some (last, answers))
    (hrefused : Refused answers) :
    decodeAll lib props (ps ++ qs) session = some (last, answers) := by
  induction ps generalizing session answers with
  | nil =>
    obtain ⟨-, rfl⟩ := Prod.mk.inj (Option.some.inj hps)
    exact absurd hrefused refused_nil
  | cons p ps ih =>
    obtain ⟨session', a, hd, ⟨hrc, rfl, rfl⟩ | ⟨hrc, rest, hrest, rfl⟩⟩ := decodeAll_cons hps
    · simp [decodeAll, hd, hrc]
    · rw [refused_cons_of_ok hrc] at hrefused
      simp [decodeAll, hd, hrc, ih hrest hrefused]

section Json

variable {env : ZzParserJson.Env} {y : Grammar} {buffer : Bytes} {session : ZzSession ZzJsonSession}

theorem processJsonBuffer_handler {processed : Processed ZzJsonSession}
    (hp : processJsonBuffer env y buffer session = some processed)
    (hf : session.parser.yajlHandler.failed = false) (hne : buffer ≠ []) :
    env.malloc = false ∧ processed.rc = .memoryError ∨ env.malloc = true ∧
      processed.session.parser.yajlHandler =
        ⟨session.parser.yajlHandler.text ++ y.accepted session.parser.yajlHandler.text buffer,
          decide (y.accepted session.parser.yajlHandler.text buffer ≠ buffer)⟩ ∧
      processed.rc = if y.accepted session.parser.yajlHandler.text buffer = buffer then .ok
        else .invalidRequest := by
  have hlen : ¬ buffer.length = 0 := by simpa using hne
  cases hmalloc : env.malloc with
  | false =>
    rw [processJsonBuffer_noMemory hne (by simp [hmalloc])] at hp
    obtain rfl := Option.some.inj hp
    exact .inl ⟨rfl, rfl⟩
  | true =>
    obtain ⟨p, rfl, -⟩ := processJsonBuffer_run hp hf hlen hmalloc (fun _ _ ↦ True)
      (fun _ _ _ _ _ _ _ ↦ trivial) trivial
    exact .inr ⟨rfl, rfl, finishChunk_rc _ _ _⟩

theorem zzDecodeJson_ok_iff (ht : Tracked session.parser)
    (hf : session.parser.yajlHandler.failed = false) (hne : buffer ≠ [])
    {d : Decoded ZzJsonSession} (hd : zzDecodeJson env y props buffer session = some d) :
    (d.rc = .ok ↔ methodAllowed props = true ∧ env.malloc = true ∧
      y.accepted session.parser.yajlHandler.text buffer = buffer) ∧
    (d.rc = .ok → Tracked d.session.parser ∧ d.session.parser.yajlHandler =
      ⟨session.parser.yajlHandler.text ++ buffer, false⟩) := by
  cases hm : methodAllowed props with
  | false =>
    simp only [zzDecodeJson, zzDecode, hm, Bool.not_false, if_true] at hd
    obtain rfl := Option.some.inj hd
    simp
  | true =>
    obtain ⟨processed, hp, rfl⟩ := exists_processed hm hd
    have hhandled : Handled env y buffer { session with kafkaMsgs := .initializer } processed := by
      apply handled_of_tracked _ hp
      exact fun _ ↦ ht
    have htracked := hhandled.tracked
    rw [consume_rc, parser_consume]
    obtain ⟨hmalloc, hrc⟩ | ⟨hmalloc, hhandler, hrc⟩ := processJsonBuffer_handler hp hf hne
    · simp [hmalloc, hrc]
    · dsimp only at hhandler hrc
      by_cases hacc : y.accepted session.parser.yajlHandler.text buffer = buffer
      · rw [hacc] at hhandler
        simp only [hacc, if_true] at hrc
        refine ⟨by simp [hrc, hmalloc, hacc], fun _ ↦ ⟨htracked (by simp [hhandler]), ?_⟩⟩
        simpa using hhandler
      · simp [hrc, hacc]

/-- Nothing keeps a JSON session from taking all these pieces behind `text`. -/
structure Taken (y : Grammar) (props : KeyvalList) (ps : List Piece) (text : Bytes) : Prop where
  method : ps ≠ [] → methodAllowed props = true
  malloc : ∀ p ∈ ps, p.call.json.malloc = true
  accepted : y.accepted text (ps.flatMap (·.buffer)) = ps.flatMap (·.buffer)

theorem taken_cons_iff {p : Piece} {ps : List Piece} {text : Bytes} :
    Taken y props (p :: ps) text ↔
      (methodAllowed props = true ∧ p.call.json.malloc = true ∧ y.accepted text p.buffer = p.buffer) ∧
        Taken y props ps (text ++ p.buffer) := by
  constructor
  · rintro ⟨hmethod, hmalloc, haccepted⟩
    rw [List.flatMap_cons] at haccepted
    obtain ⟨hp, hps⟩ := accepted_append_eq_self haccepted
    have hm := hmethod (List.cons_ne_nil _ _)
    exact ⟨⟨hm, hmalloc p (.head _), hp⟩, fun _ ↦ hm, fun q hq ↦ hmalloc q (.tail _ hq), hps⟩
  · rintro ⟨⟨hm, hp, hacc⟩, h⟩
    refine ⟨fun _ ↦ hm, ?_, ?_⟩
    · intro q hq
      obtain rfl | hq := List.mem_cons.mp hq
      · exact hp
      · exact h.malloc q hq
    · rw [List.flatMap_cons, accepted_append, if_pos hacc, h.accepted]

/-- A JSON body is refused exactly if it cannot be taken whole; otherwise the session stands as deep
as the text of the whole body, however it was cut. -/
theorem decodeAll_json {ps : List Piece} (hne : ∀ p ∈ ps, p.buffer ≠ [])
    {session : ZzSession ZzJsonSession} (ht : Tracked session.parser)
    (hf : session.parser.yajlHandler.failed = false) {last : Session} {answers : List Answer}
    (h : decodeAll lib props ps (.json session) = some (last, answers)) :
    (¬ Refused answers ↔ Taken lib.yajl props ps session.parser.yajlHandler.text) ∧
      (¬ Refused answers → (last.Unfinished ↔
        depth (session.parser.yajlHandler.text ++ ps.flatMap (·.buffer)) ≠ 0)) := by
  induction ps generalizing session answers with
  | nil =>
    obtain ⟨rfl, rfl⟩ := Prod.mk.inj (Option.some.inj h)
    refine ⟨iff_of_true refused_nil ⟨by simp, by simp, rfl⟩, fun _ ↦ ?_⟩
    rw [Session.Unfinished, ht.stackPos, List.flatMap_nil, List.append_nil]
  | cons p ps ih =>
    obtain ⟨session', a, hdecode, hcases⟩ := decodeAll_cons h
    obtain ⟨d, hd, heq⟩ := Option.map_eq_some_iff.mp hdecode
    obtain ⟨rfl, rfl⟩ := Prod.mk.inj heq
    obtain ⟨hiff, hnext⟩ := zzDecodeJson_ok_iff ht hf (hne p (.head _)) hd
    rw [taken_cons_iff, ← hiff]
    obtain ⟨hrc, -, rfl⟩ | ⟨hrc, rest, hrest, rfl⟩ := hcases
    · have hrefused : Refused [⟨d.rc, d.response⟩] := ⟨_, .head _, hrc⟩
      exact ⟨iff_of_false (not_not.mpr hrefused) fun ht ↦ hrc ht.1, fun hno ↦ absurd hrefused hno⟩
    · obtain ⟨ht', hhandler⟩ := hnext hrc
      have hih := ih (fun q hq ↦ hne q (.tail _ hq)) ht' (by rw [hhandler]) hrest
      rw [hhandler] at hih
      rw [refused_cons_of_ok hrc, List.flatMap_cons, ← List.append_assoc]
      refine ⟨hih.1.trans ?_, hih.2⟩
      exact (and_iff_right hrc).symm

end Json

section Xml

variable {env : ZzParserXml.Env} {r : Reader} {session : ZzSession ZzXmlSession}

def Follows (expat : Expat.Library) (r : Reader) (session : ZzSession ZzXmlSession) : Prop :=
  ∀ env, Tracks expat r (enterXmlChunk env session)

theorem follows_new (expat : Expat.Library) : Follows expat ⟨[], 0⟩ newZzSessionXml :=
  fun _ ↦ ⟨rfl, rfl, rfl, rfl, .nothing, rfl, rfl, rfl⟩

theorem zzDecodeXml_ok_iff (halloc : ∀ k, env.alloc k) (hexpat : ReportsNesting env.expat)
    (h : Follows env.expat r session) {verdict : ℕ → RespErr} {clock : ℕ → ℤ} {buffer : Bytes}
    {d : Decoded ZzXmlSession}
    (hd : zzDecode (processXmlBuffer env) verdict clock props buffer session = some d) :
    (d.rc = .ok ↔ methodAllowed props = true ∧
      (r.chunk env.expat env.style.maxDepth buffer.length buffer).isSome) ∧
    (d.rc = .ok → ∃ r', r.chunk env.expat env.style.maxDepth buffer.length buffer = some r' ∧
      Follows env.expat r' d.session) := by
  cases hm : methodAllowed props with
  | false =>
    simp only [zzDecode, hm, Bool.not_false, if_true] at hd
    obtain rfl := Option.some.inj hd
    simp
  | true =>
    simp only [zzDecode, hm, Bool.not_true, Bool.false_eq_true, if_false] at hd
    obtain ⟨processed, hp, rfl⟩ := Option.map_eq_some_iff.mp hd
    obtain ⟨s, hs, rfl⟩ := Option.map_eq_some_iff.mp hp
    have htracks : Tracks env.expat r
        (enterXmlChunk env { session with kafkaMsgs := .initializer }) := by
      obtain ⟨hfed, herror, hreached, hstands⟩ := h env
      exact ⟨hfed, herror, hreached, hstands.stackPos, hstands.elements, hstands.response,
        hstands.running, hstands.rc⟩
    rw [consume_rc]
    obtain ⟨hchunk, hrc⟩ | ⟨r', hchunk, htracks'⟩ := htracks.loop halloc hexpat _ hs
    · have hrc' : ¬ (finishXmlChunk { session with kafkaMsgs := .initializer } s).rc = .ok := hrc
      simp [hchunk, hrc']
    · have hrc : (finishXmlChunk { session with kafkaMsgs := .initializer } s).rc = .ok :=
        htracks'.stands.rc
      refine ⟨by simp [hchunk, hrc], fun _ ↦ ⟨r', hchunk, fun env' ↦ ?_⟩⟩
      obtain ⟨hfed, herror, hreached, hstands⟩ := htracks'
      rw [enterXmlChunk, parser_consume, httpResponse_consume verdict clock hrc]
      exact ⟨hfed, herror, hreached, hstands.stackPos, hstands.elements, hstands.response,
        hstands.running, hstands.rc⟩

structure TakenXml (lib : Libraries) (props : KeyvalList) (ps : List Piece) (r : Reader) : Prop where
  method : ps ≠ [] → methodAllowed props = true
  chunks : (r.chunks lib.expat lib.style.maxDepth (ps.map (·.buffer))).isSome

/-- As long as memory lasts, an XML body is refused exactly if the reader refuses it; otherwise the
session has as many elements open as the reader. -/
theorem decodeAll_xml (hexpat : ReportsNesting lib.expat) {ps : List Piece}
    (halloc : ∀ p ∈ ps, ∀ k, p.call.alloc k = true) (hfollows : Follows lib.expat r session)
    {last : Session} {answers : List Answer}
    (h : decodeAll lib props ps (.xml session) = some (last, answers)) :
    (¬ Refused answers ↔ TakenXml lib props ps r) ∧
      (¬ Refused answers → ∃ r', r.chunks lib.expat lib.style.maxDepth (ps.map (·.buffer)) = some r' ∧
        (last.Unfinished ↔ r'.depth ≠ 0)) := by
  induction ps generalizing r session answers with
  | nil =>
    obtain ⟨rfl, rfl⟩ := Prod.mk.inj (Option.some.inj h)
    refine ⟨iff_of_true refused_nil ⟨by simp, rfl⟩, fun _ ↦ ⟨r, rfl, ?_⟩⟩
    have hstack : session.parser.stackPos = r.depth :=
      (hfollows ⟨lib.expat, lib.style, fun _ ↦ true, false⟩).stands.stackPos
    rw [Session.Unfinished, hstack]
  | cons p ps ih =>
    obtain ⟨session', a, hdecode, hcases⟩ := decodeAll_cons h
    obtain ⟨d, hd, heq⟩ := Option.map_eq_some_iff.mp hdecode
    obtain ⟨rfl, rfl⟩ := Prod.mk.inj heq
    have hok : ∀ k, (p.call.xml lib).alloc k := halloc p (.head _)
    obtain ⟨hiff, hnext⟩ := zzDecodeXml_ok_iff hok hexpat hfollows hd
    dsimp only [DecodeCall.xml] at hiff hnext
    obtain ⟨hrc, -, rfl⟩ | ⟨hrc, rest, hrest, rfl⟩ := hcases
    · have hrefused : Refused [⟨d.rc, d.response⟩] := ⟨_, .head _, hrc⟩
      refine ⟨iff_of_false (not_not.mpr hrefused) fun htaken ↦ hrc (hiff.mpr ?_),
        fun hno ↦ absurd hrefused hno⟩
      refine ⟨htaken.method (List.cons_ne_nil _ _), ?_⟩
      have hchunks := htaken.chunks
      rw [List.map_cons, Reader.chunks] at hchunks
      exact Option.isSome_of_isSome_bind hchunks
    · obtain ⟨r', hchunk, hfollows'⟩ := hnext hrc
      have hchunks : r.chunks lib.expat lib.style.maxDepth ((p :: ps).map (·.buffer)) =
          r'.chunks lib.expat lib.style.maxDepth (ps.map (·.buffer)) := by
        rw [List.map_cons, Reader.chunks, hchunk, Option.bind_some]
      obtain ⟨htaken, hopen⟩ := ih (fun q hq ↦ halloc q (.tail _ hq)) hfollows' hrest
      rw [refused_cons_of_ok hrc, hchunks]
      refine ⟨htaken.trans ⟨fun ht ↦ ⟨fun _ ↦ (hiff.mp hrc).1, ?_⟩, fun ht ↦ ⟨fun hne ↦ ?_, ?_⟩⟩,
        hopen⟩
      · rw [hchunks]
        exact ht.chunks
      · exact ht.method (List.cons_ne_nil _ _)
      · rw [← hchunks]
        exact ht.chunks

/-- What holds of a session behind answers of OK, whatever memory there was: as long as no error is
queued, it stands where some reader does. -/
structure Sound (expat : Expat.Library) (session : ZzSession ZzXmlSession) : Prop where
  rc : session.parser.rc = .ok
  follows : session.httpResponse = [] → ∃ r, Follows expat r session

theorem sound_new (expat : Expat.Library) : Sound expat newZzSessionXml :=
  ⟨rfl, fun _ ↦ ⟨_, follows_new expat⟩⟩

def Passed (lib : Libraries) (props : KeyvalList) : List Piece → ZzSession ZzXmlSession → Prop
  | [], _ => True
  | p :: ps, session =>
    (methodAllowed props = true ∧ ∀ round ∈ chunkRounds (p.call.xml lib) p.buffer
        { session with kafkaMsgs := .initializer }, round.Passes (p.call.xml lib)) ∧
      ∀ session' a, decode lib props p (.xml session) = some (.xml session', a) →
        Passed lib props ps session'

theorem zzDecodeXml_ok_iff_passes (hexpat : ReportsNesting env.expat) (h : Sound env.expat session)
    {verdict : ℕ → RespErr} {clock : ℕ → ℤ} {buffer : Bytes} {d : Decoded ZzXmlSession}
    (hd : zzDecode (processXmlBuffer env) verdict clock props buffer session = some d) :
    (d.rc = .ok ↔ methodAllowed props = true ∧ ∀ round ∈ chunkRounds env buffer
        { session with kafkaMsgs := .initializer }, round.Passes env) ∧
      (d.rc = .ok → Sound env.expat d.session) := by
  cases hm : methodAllowed props with
  | false =>
    simp only [zzDecode, hm, Bool.not_false, if_true] at hd
    obtain rfl := Option.some.inj hd
    simp
  | true =>
    simp only [zzDecode, hm, Bool.not_true, Bool.false_eq_true, if_false] at hd
    obtain ⟨processed, hp, rfl⟩ := Option.map_eq_some_iff.mp hd
    obtain ⟨s, hs, rfl⟩ := Option.map_eq_some_iff.mp hp
    rw [consume_rc]
    by_cases hresponse : session.httpResponse = []
    · obtain ⟨r, hfollows⟩ := h.follows hresponse
      obtain ⟨hfed, herror, hreached, hstands⟩ := hfollows env
      have htracks : Tracks env.expat r
          (enterXmlChunk env { session with kafkaMsgs := .initializer }) :=
        ⟨hfed, herror, hreached, hstands.stackPos, hstands.elements, hstands.response,
          hstands.running, hstands.rc⟩
      have hok := XmlCodes.loop_ok_iff_passes hexpat _ htracks hs
      refine ⟨hok.trans (and_iff_right rfl).symm, fun hrc ↦ ⟨?_, fun hempty ↦ ?_⟩⟩
      · rw [parser_consume]
        exact hrc
      rw [httpResponse_consume verdict clock hrc] at hempty
      obtain ⟨r', hfed, herror, hreached, hstands⟩ :=
        XmlErrors.loop_tracks hexpat _ htracks hs hempty
      refine ⟨r', fun env' ↦ ?_⟩
      rw [enterXmlChunk, parser_consume, httpResponse_consume verdict clock hrc]
      exact ⟨hfed, herror, hreached, hstands.stackPos, hstands.elements, hstands.response,
        hstands.running, hstands.rc⟩
    · -- behind an error that did not show, the loop does nothing
      have hentered : (enterXmlChunk env
        { session with kafkaMsgs := .initializer }).httpResponse ≠ [] := hresponse
      rw [xmlLoop_of_response _ _ hentered] at hs
      obtain rfl := Option.some.inj hs
      have hnone : chunkRounds env buffer { session with kafkaMsgs := .initializer } = [] :=
        XmlCodes.rounds_of_response _ _ hentered
      refine ⟨iff_of_true h.rc ⟨rfl, by simp [hnone]⟩, fun hrc ↦ ⟨?_, fun hempty ↦ ?_⟩⟩
      · rw [parser_consume]
        exact hrc
      · rw [httpResponse_consume verdict clock hrc] at hempty
        exact absurd hempty hresponse

/-- Under any memory, an XML body is refused exactly if a turn does not pass. -/
theorem decodeAll_passed (hexpat : ReportsNesting lib.expat) {ps : List Piece}
    (h : Sound lib.expat session) {last : Session} {answers : List Answer}
    (hall : decodeAll lib props ps (.xml session) = some (last, answers)) :
    ¬ Refused answers ↔ Passed lib props ps session := by
  induction ps generalizing session answers with
  | nil =>
    obtain ⟨-, rfl⟩ := Prod.mk.inj (Option.some.inj hall)
    exact iff_of_true refused_nil trivial
  | cons p ps ih =>
    obtain ⟨session', a, hdecode, hcases⟩ := decodeAll_cons hall
    obtain ⟨d, hd, heq⟩ := Option.map_eq_some_iff.mp hdecode
    obtain ⟨rfl, rfl⟩ := Prod.mk.inj heq
    have hsound : Sound (p.call.xml lib).expat session := h
    obtain ⟨hiff, hnext⟩ := zzDecodeXml_ok_iff_passes hexpat hsound hd
    obtain ⟨hrc, -, rfl⟩ | ⟨hrc, rest, hrest, rfl⟩ := hcases
    · have hrefused : Refused [⟨d.rc, d.response⟩] := ⟨_, .head _, hrc⟩
      exact iff_of_false (not_not.mpr hrefused) fun hpassed ↦ hrc (hiff.mpr hpassed.1)
    · rw [refused_cons_of_ok hrc, ih (hnext hrc) hrest]
      constructor
      · intro hpassed
        refine ⟨hiff.mp hrc, fun session' a hdecode' ↦ ?_⟩
        obtain ⟨hsame, -⟩ := Prod.mk.inj (Option.some.inj (hdecode.symm.trans hdecode'))
        obtain rfl := Session.xml.inj hsame
        exact hpassed
      · exact fun hpassed ↦ hpassed.2 _ _ hdecode

end Xml

/-- Nothing keeps the session made for these attributes from taking the whole body. As long as
memory lasts, that is up to the text; where an allocation of the XML parser fails, each turn of the
loop has to pass. -/
def TakenWhole (lib : Libraries) (props : KeyvalList) (ps : List Piece) : Prop :=
  if ZzSession.contentTypeXml props then
    (∀ p ∈ ps, ∀ k, p.call.alloc k = true) ∧ TakenXml lib props ps ⟨[], 0⟩ ∨
      (∃ p ∈ ps, ∃ k, p.call.alloc k = false) ∧ Passed lib props ps newZzSessionXml
  else Taken lib.yajl props ps []

theorem takenWhole_iff (hexpat : ReportsNesting lib.expat) {ps : List Piece}
    (hne : ∀ p ∈ ps, p.buffer ≠ []) {last : Session} {answers : List Answer}
    (h : decodeAll lib props ps (newSession props) = some (last, answers)) :
    TakenWhole lib props ps ↔ ¬ Refused answers := by
  unfold newSession at h
  unfold TakenWhole
  split at h
  · rename_i hxml
    rw [if_pos hxml]
    by_cases halloc : ∀ p ∈ ps, ∀ k, p.call.alloc k = true
    · have hnone : ¬ ∃ p ∈ ps, ∃ k, p.call.alloc k = false := by simpa using halloc
      rw [and_iff_right halloc, or_iff_left fun hboth ↦ hnone hboth.1]
      exact (decodeAll_xml hexpat halloc (follows_new lib.expat) h).1.symm
    · have hsome : ∃ p ∈ ps, ∃ k, p.call.alloc k = false := by simpa using halloc
      rw [or_iff_right fun hboth ↦ halloc hboth.1, and_iff_right hsome]
      exact (decodeAll_passed hexpat (sound_new lib.expat) h).symm
  · rename_i hxml
    rw [if_neg hxml]
    exact (decodeAll_json hne ⟨rfl, rfl, fun hne ↦ absurd rfl hne⟩ rfl h).1.symm

end N2Kafka.Decoder.BodyEnd
