import N2Kafka.Listener.Decompression
import N2Kafka.Listener.TruncatedBody

namespace N2Kafka.Listener.PostDelivery

open Lib.CString Lib.JsonText Util.Pairs Decoder.DecoderApi Decoder.Yajl Decoder.ZzParser
open Decoder.ZzDecoder Decoder.ZzParserJson Decoder.ZzParserXml Decoder.MessagesQueued
open Decoder.JsonFraming Decoder.BodyEnd
open Listener.Connection Listener.Http Listener.PostConnection Listener.TruncatedBody
open Decoder.Callbacks (Answer)

def handedBy (lib : Libraries) (props : KeyvalList) (p : Piece) : Session → List Handed
  | .json session =>
    (zzDecodeJson p.call.json lib.yajl props p.buffer session).elim [] (·.handed)
  | .xml session =>
    (zzDecode (processXmlBuffer (p.call.xml lib)) p.call.json.verdict p.call.json.clock props
      p.buffer session).elim [] (·.handed)

def handedAll (lib : Libraries) (props : KeyvalList) : List Piece → Session → List Handed
  | [], _ => []
  | p :: ps, session =>
    handedBy lib props p session ++
      (decode lib props p session).elim [] fun decoded ↦
        if decoded.2.rc ≠ .ok then [] else handedAll lib props ps decoded.1

def handedUpload (lib : Libraries) (u : Upload) (run : Run) : List Handed :=
  run.request.block.elim [] fun b ↦
    if connInfoHasQueueResponse b.info then []
    else handedAll lib b.info.decoderParams (u.pieces b.info.zlibEnable) run.session

/-- What the callbacks with the parts of a body give to rdkafka. -/
def handedUploads (l : HttpListener) (lib : Libraries) (url : CStr) :
    List Upload → Run → List Handed
  | [], _ => []
  | u :: us, run =>
    handedUpload lib u run ++
      (run.upload l lib url u).elim [] (handedUploads l lib url us)

instance (u : Upload) (zlibEnable : Bool) : Decidable (u.InflateFails zlibEnable) :=
  inferInstanceAs (Decidable (zlibEnable = true ∧ (inflated u.inflations).2 = true))

/-- The pieces of the body up to the first call of `inflate` that fails. -/
def received (zlibEnable : Bool) : List Upload → List Piece
  | [] => []
  | u :: us =>
    u.pieces zlibEnable ++ if u.InflateFails zlibEnable then [] else received zlibEnable us

def text (ps : List Piece) : Bytes := ps.flatMap (·.buffer)

variable {lib : Libraries} {props : KeyvalList}

section Pieces

/-- What `yajl_get_error` says, as far as there is memory for it. -/
def errorText (env : Decoder.ZzParserJson.Env) : Bytes := if env.responded then env.yajlError else []

theorem processJsonBuffer_answer {env : Decoder.ZzParserJson.Env} {y : Grammar} {buffer : Bytes}
    {session : ZzSession ZzJsonSession} {processed : Processed ZzJsonSession}
    (h : processJsonBuffer env y buffer session = some processed) (hmalloc : env.malloc = true) :
    processed.session.errorMessage = session.errorMessage ∧
      (processed.rc = .ok ∧ processed.session.httpResponse = session.httpResponse ∨
        processed.rc = .invalidRequest ∧
          processed.session.httpResponse = session.httpResponse ++ errorText env) := by
  by_cases hlen : buffer.length = 0
  · rw [processJsonBuffer, if_pos hlen] at h
    obtain rfl := Option.some.inj h
    exact ⟨rfl, .inl ⟨rfl, rfl⟩⟩
  rw [processJsonBuffer, if_neg hlen, if_neg (by simp [hmalloc])] at h
  obtain ⟨⟨handler, p⟩, -, rfl⟩ := Option.map_eq_some_iff.mp h
  refine ⟨rfl, ?_⟩
  cases hfailed : handler.failed with
  | false => exact .inl ⟨by simp [finishChunk, hfailed], by simp [finishChunk, hfailed]⟩
  | true =>
    refine .inr ⟨by simp [finishChunk, hfailed], ?_⟩
    cases hresponded : env.responded with
    | false => simp [finishChunk, errorText, hresponded]
    | true => simp [finishChunk, errorText, hfailed, hresponded]

/-- A JSON session that has taken this text whole. -/
structure Holds (session : ZzSession ZzJsonSession) (text : Bytes) : Prop where
  between : Between session.parser
  running : session.parser.yajlHandler.failed = false
  text : session.parser.yajlHandler.text = text
  response : session.httpResponse = []
  message : session.errorMessage = errorMessageJson

theorem holds_new : Holds (newZzSessionJson errorMessageJson) [] :=
  ⟨between_new errorMessageJson, rfl, rfl, rfl, rfl⟩

variable {session : ZzSession ZzJsonSession} {text : Bytes}

theorem Holds.tracked (h : Holds session text) : Tracked session.parser := by
  obtain ⟨hstack, hopen, hlast⟩ := h.between
  refine ⟨hstack, hopen, fun hne ↦ ?_⟩
  rw [hlast] at hne
  exact mt (scan_current_eq_nil_iff _).mpr hne

variable (lib) in
theorem Holds.decode (h : Holds session text) (hm : methodAllowed props = true) {p : Piece}
    (henv : Allocates p.call.json) (hne : p.buffer ≠ []) :
    ∃ session' a, decode lib props p (.json session) = some (.json session', a) ∧
      outermost (text ++ lib.yajl.accepted text p.buffer) =
        outermost text ++ (handedBy lib props p (.json session)).map (·.1) ∧
      (a.rc = .ok ↔ lib.yajl.accepted text p.buffer = p.buffer) ∧
      (a.rc = .ok → Holds session' (text ++ p.buffer)) := by
  obtain ⟨d, hd, htext, hfailed, hobjects, hbetween⟩ :=
    zzDecodeJson_framing lib.yajl hm h.between h.running henv p.buffer
  obtain ⟨hok, hnext⟩ := zzDecodeJson_ok_iff h.tracked h.running hne hd
  rw [h.text] at htext hfailed hobjects hbetween hok hnext
  have hrc : d.rc = .ok ↔ lib.yajl.accepted text p.buffer = p.buffer := by
    simp [hok, hm, henv.malloc]
  refine ⟨d.session, ⟨d.rc, d.response⟩, by simp [Decoder.BodyEnd.decode, hd], ?_, hrc, ?_⟩
  · rw [htext] at hobjects
    simpa [handedBy, hd] using hobjects
  · intro hd'
    obtain ⟨-, hhandler⟩ := hnext hd'
    obtain ⟨processed, hp, rfl⟩ := exists_processed hm hd
    have hprocessed : processed.rc = .ok := (consume_rc _ _ processed).symm.trans hd'
    obtain ⟨hmessage, ⟨-, hresponse⟩ | ⟨hbad, -⟩⟩ := processJsonBuffer_answer hp henv.malloc
    · refine ⟨hbetween (hrc.mp hd'), by rw [hhandler], by rw [hhandler], ?_, ?_⟩
      · rw [httpResponse_consume _ _ hprocessed, hresponse]
        exact h.response
      · rw [errorMessage_consume, hmessage]
        exact h.message
    · rw [hprocessed] at hbad
      cases hbad

variable (lib) in
theorem Holds.decodeAll (h : Holds session text) (hm : methodAllowed props = true) {ps : List Piece}
    (henv : ∀ p ∈ ps, Allocates p.call.json) (hne : ∀ p ∈ ps, p.buffer ≠ []) :
    ∃ last answers, decodeAll lib props ps (.json session) = some (last, answers) ∧
      outermost (text ++ lib.yajl.accepted text (ps.flatMap (·.buffer))) =
        outermost text ++ (handedAll lib props ps (.json session)).map (·.1) ∧
      (¬ Refused answers ↔
        lib.yajl.accepted text (ps.flatMap (·.buffer)) = ps.flatMap (·.buffer)) ∧
      (¬ Refused answers → ∃ session', last = .json session' ∧
        Holds session' (text ++ ps.flatMap (·.buffer))) := by
  induction ps generalizing session text with
  | nil =>
    refine ⟨.json session, [], rfl, ?_, ?_, fun _ ↦ ⟨session, rfl, ?_⟩⟩
    · simp [Grammar.accepted, handedAll]
    · simp [Grammar.accepted]
    · simpa using h
  | cons p ps ih =>
    obtain ⟨session', a, hd, hobjects, hrc, hnext⟩ :=
      h.decode lib hm (henv p (.head _)) (hne p (.head _))
    rw [List.flatMap_cons, accepted_append]
    by_cases hok : a.rc = .ok
    · have hacc := hrc.mp hok
      obtain ⟨last, answers, hall, hobjects', hrefused, hlast⟩ :=
        ih (hnext hok) (fun q hq ↦ henv q (.tail _ hq)) (fun q hq ↦ hne q (.tail _ hq))
      refine ⟨last, a :: answers, ?_, ?_, ?_, ?_⟩
      · simp [Decoder.BodyEnd.decodeAll, hd, hok, hall]
      · rw [hacc] at hobjects
        rw [if_pos hacc, ← List.append_assoc, hobjects', hobjects]
        simp [handedAll, hd, hok]
      · rw [refused_cons_of_ok hok, hrefused, if_pos hacc, List.append_cancel_left_eq]
      · rw [refused_cons_of_ok hok, ← List.append_assoc]
        exact hlast
    · have hacc := mt hrc.mpr hok
      have hrefused : Refused [a] := ⟨a, .head _, hok⟩
      refine ⟨.json session', [a], ?_, ?_, ?_, fun hno ↦ absurd hrefused hno⟩
      · simp [Decoder.BodyEnd.decodeAll, hd, hok]
      · rw [if_neg hacc, hobjects]
        simp [handedAll, hd, hok]
      · rw [← accepted_append]
        exact iff_of_false (not_not.mpr hrefused) fun heq ↦ hacc (accepted_append_eq_self heq).1

end Pieces

section Request

variable {l : HttpListener} {url : CStr} {ci : ConnInfo} {done : Bytes} {run : Run}

structure Awaits (ci : ConnInfo) (done : Bytes) (run : Run) : Prop where
  block : ∃ b, run.request.block = some b ∧ SameConnection ci b.info ∧ b.info.httpError.code = 0
  session : ∃ session, run.session = .json session ∧ Holds session done

def Failed (run : Run) : Prop :=
  ∃ b, run.request.block = some b ∧ b.info.httpError.code ≠ 0 ∧ b.info.httpError.code ≠ mhdHttpOk

/-- Where a request has come with this part of the body, `fails` telling whether `inflate` failed.
-/
inductive Came (y : Grammar) (ci : ConnInfo) (done new : Bytes) (fails : Prop) (run : Run) : Prop
  | whole (haccepted : y.accepted done new = new) (hinflate : ¬ fails)
      (h : Awaits ci (done ++ new) run)
  | failed (hnot : y.accepted done new = new → fails) (h : Failed run)

variable (lib url)

theorem upload_kept (hs : l.decoder.newSession = true) {b : Block}
    (hb : run.request.block = some b) (hq : connInfoHasQueueResponse b.info = true) (u : Upload) :
    handedUpload lib u run = [] ∧
      ∃ run', run.upload l lib url u = some run' ∧ run'.request.block = some b := by
  have hrun : run.upload l lib url u = some
      ⟨(handleRequest l u.env url (lit "POST") u.piece.buffer run.request).1, run.session⟩ := by
    simp [Run.upload, hb, hq]
  refine ⟨by simp [handedUpload, hb, hq], _, hrun, ?_⟩
  rw [block_upload u.env url hs hb u.nonempty, if_pos hq]

theorem uploads_kept (hs : l.decoder.newSession = true) {b : Block}
    (hb : run.request.block = some b) (hq : connInfoHasQueueResponse b.info = true)
    (us : List Upload) : handedUploads l lib url us run = [] ∧
      ∃ run', run.uploads l lib url us = some run' ∧ run'.request.block = some b := by
  induction us generalizing run with
  | nil => exact ⟨rfl, run, rfl, hb⟩
  | cons u us ih =>
    obtain ⟨hnone, run₁, hrun, hb₁⟩ := upload_kept lib url hs hb hq u
    obtain ⟨hnone', hlast⟩ := ih hb₁
    refine ⟨by simp [handedUploads, hnone, hrun, hnone'], ?_⟩
    simpa [Run.uploads, hrun] using hlast

theorem Awaits.upload (hs : l.decoder.newSession = true) (h : Awaits ci done run)
    (hm : methodAllowed ci.decoderParams = true) {u : Upload}
    (henv : ∀ p ∈ u.pieces ci.zlibEnable, Allocates p.call.json) :
    outermost (done ++ lib.yajl.accepted done (text (u.pieces ci.zlibEnable))) =
        outermost done ++ (handedUpload lib u run).map (·.1) ∧
      ∃ run', run.upload l lib url u = some run' ∧
        Came lib.yajl ci done (text (u.pieces ci.zlibEnable)) (u.InflateFails ci.zlibEnable) run' := by
  obtain ⟨b, hb, hsame, hzero⟩ := h.block
  obtain ⟨session, hsession, hholds⟩ := h.session
  have hq : ¬ connInfoHasQueueResponse b.info = true := by simp [connInfoHasQueueResponse, hzero]
  obtain ⟨last, answers, hall, hobjects, hrefused, hlast⟩ :=
    hholds.decodeAll lib hm henv fun p hp ↦ Upload.buffer_ne_nil hp
  have hall' : Decoder.BodyEnd.decodeAll lib b.info.decoderParams (u.pieces b.info.zlibEnable)
      run.session = some (last, answers) := by
    rw [hsame.decoderParams, hsame.zlibEnable, hsession]
    exact hall
  have hrc := postChunk_answered hs hall'
  rw [hsame.zlibEnable] at hrc
  have hblock := block_upload (u.answered answers) url hs hb u.nonempty
  rw [if_neg hq] at hblock
  have hrun : run.upload l lib url u = some
      ⟨(handleRequest l (u.answered answers) url (lit "POST") u.piece.buffer run.request).1, last⟩ := by
    simp [Run.upload, hb, hq, hall']
  refine ⟨?_, _, hrun, ?_⟩
  · simpa [handedUpload, hb, hq, hsame.decoderParams, hsame.zlibEnable, hsession, text] using hobjects
  · by_cases hgood : ¬ Refused answers ∧ ¬ u.InflateFails ci.zlibEnable
    · obtain ⟨session', hsession', hholds'⟩ := hlast hgood.1
      refine .whole (hrefused.mp hgood.1) hgood.2 ⟨⟨_, hblock, ?_, ?_⟩, session', hsession', hholds'⟩
      · rwa [if_neg (not_not.mpr (hrc.mpr hgood))]
      · rwa [if_neg (not_not.mpr (hrc.mpr hgood))]
    · refine .failed ?_ ⟨_, hblock, ?_⟩
      · intro haccepted
        by_contra hfails
        exact hgood ⟨hrefused.mpr haccepted, hfails⟩
      · have hne := mt hrc.mp hgood
        rw [if_pos hne]
        exact decoderErr2http_error hne

theorem Awaits.uploads (hs : l.decoder.newSession = true) (h : Awaits ci done run)
    (hm : methodAllowed ci.decoderParams = true) {us : List Upload}
    (henv : ∀ u ∈ us, ∀ p ∈ u.pieces ci.zlibEnable, Allocates p.call.json) :
    outermost (done ++ lib.yajl.accepted done (text (received ci.zlibEnable us))) =
        outermost done ++ (handedUploads l lib url us run).map (·.1) ∧
      ∃ run', run.uploads l lib url us = some run' ∧
        Came lib.yajl ci done (text (received ci.zlibEnable us))
          (∃ u ∈ us, u.InflateFails ci.zlibEnable) run' := by
  induction us generalizing done run with
  | nil =>
    refine ⟨by simp [received, text, Grammar.accepted, handedUploads], run, rfl, .whole rfl ?_ ?_⟩
    · simp
    · simpa [received, text] using h
  | cons u us ih =>
    obtain ⟨hobjects, run₁, hrun, hcame⟩ :=
      h.upload lib url hs hm (henv u (.head _))
    have htext (hfails : ¬ u.InflateFails ci.zlibEnable) : text (received ci.zlibEnable (u :: us)) =
        text (u.pieces ci.zlibEnable) ++ text (received ci.zlibEnable us) := by
      simp [received, text, hfails]
    cases hcame with
    | whole haccepted hinflate h₁ =>
      obtain ⟨hobjects', run₂, hrun₂, hcame⟩ := ih h₁ fun v hv ↦ henv v (.tail _ hv)
      rw [htext hinflate, accepted_append, if_pos haccepted]
      rw [haccepted] at hobjects
      refine ⟨?_, run₂, by simp [Run.uploads, hrun, hrun₂], ?_⟩
      · rw [← List.append_assoc, hobjects', hobjects]
        simp [handedUploads, hrun]
      · cases hcame with
        | whole haccepted' hinflate' h₂ =>
          refine .whole ?_ ?_ ?_
          · rw [accepted_append, if_pos haccepted, haccepted']
          · simpa [hinflate] using hinflate'
          · rwa [← List.append_assoc]
        | failed hnot h₂ =>
          refine .failed (fun heq ↦ ?_) h₂
          obtain ⟨v, hv, hfails⟩ := hnot (accepted_append_eq_self heq).2
          exact ⟨v, .tail _ hv, hfails⟩
    | failed hnot h₁ =>
      obtain ⟨b, hb, hcode, hne⟩ := h₁
      obtain ⟨hnone, run₂, hrun₂, hb₂⟩ :=
        uploads_kept lib url hs hb (by simpa [connInfoHasQueueResponse] using hcode) us
      have hstops : lib.yajl.accepted done (text (received ci.zlibEnable (u :: us))) =
          lib.yajl.accepted done (text (u.pieces ci.zlibEnable)) := by
        by_cases hfails : u.InflateFails ci.zlibEnable
        · simp [received, hfails]
        · rw [htext hfails, accepted_append, if_neg (mt hnot hfails)]
      refine ⟨?_, run₂, by simp [Run.uploads, hrun, hrun₂],
        .failed (fun heq ↦ ?_) ⟨b, hb₂, hcode, hne⟩⟩
      · rw [hstops, hobjects]
        simp [handedUploads, hrun, hnone]
      · by_cases hfails : u.InflateFails ci.zlibEnable
        · exact ⟨u, .head _, hfails⟩
        · rw [htext hfails] at heq
          exact ⟨u, .head _, hnot (accepted_append_eq_self heq).1⟩

end Request

theorem openRequest_opened {l : HttpListener} {url : CStr} {e : Http.Env} {run : Run}
    (h : openRequest l url e = some run) :
    (∃ b, run.request.block = some b ∧ SameConnection (connInfo l e url (lit "POST")) b.info ∧
        b.info.httpError.code = 0) ∧
      run.session = newSession (attributes l url e) := by
  obtain ⟨b, hb, hsame, hprogress⟩ := (openRequest_reached plainLibraries h).block
  cases hprogress with
  | taken hcode _ answers _ h =>
    obtain ⟨hsession, -⟩ := Prod.mk.inj (Option.some.inj h)
    exact ⟨⟨b, hb, hsame, hcode⟩, hsession.symm⟩
  | refused _ _ last answers hrefused h =>
    obtain ⟨-, rfl⟩ := Prod.mk.inj (Option.some.inj h)
    exact absurd hrefused refused_nil
  | inflateFailed _ _ h => simp at h

theorem openRequest_awaits {l : HttpListener} {url : CStr} {e : Http.Env} {run : Run}
    (hjson : Decoder.ZzSession.contentTypeXml (attributes l url e) = false)
    (h : openRequest l url e = some run) : Awaits (connInfo l e url (lit "POST")) [] run := by
  obtain ⟨hblock, hsession⟩ := openRequest_opened h
  rw [newSession, if_neg (by simp [hjson])] at hsession
  exact ⟨hblock, _, hsession, holds_new⟩

variable (lib) in
theorem body_received {l : HttpListener} {url : CStr} {e : Http.Env} {us : List Upload} {run : Run}
    (hs : l.decoder.newSession = true) (hopen : openRequest l url e = some run)
    (hjson : Decoder.ZzSession.contentTypeXml (attributes l url e) = false)
    (hm : methodAllowed (attributes l url e) = true)
    (henv : ∀ p ∈ sent l url e us, Allocates p.call.json) :
    (handedUploads l lib url us run).map (·.1) = outermost (lib.yajl.accepted []
        (text (received (connInfo l e url (lit "POST")).zlibEnable us))) ∧
      ∃ run', body l lib url e us = some run' ∧
        Came lib.yajl (connInfo l e url (lit "POST")) []
          (text (received (connInfo l e url (lit "POST")).zlibEnable us))
          (∃ u ∈ us, u.InflateFails (connInfo l e url (lit "POST")).zlibEnable) run' := by
  have henv' : ∀ u ∈ us, ∀ p ∈ u.pieces (connInfo l e url (lit "POST")).zlibEnable,
      Allocates p.call.json := by
    intro u hu p hp
    exact henv p (List.mem_flatMap.mpr ⟨u, hu, hp⟩)
  obtain ⟨hobjects, run', hrun, hcame⟩ :=
    (openRequest_awaits hjson hopen).uploads lib url hs hm henv'
  exact ⟨hobjects.symm, run', by simp [body, hopen, hrun], hcame⟩

theorem Came.answersOk_iff {l : HttpListener} {url : CStr} {y : Grammar} {ci : ConnInfo}
    {new : Bytes} {fails : Prop} {run : Run} (hs : l.decoder.newSession = true)
    (h : Came y ci [] new fails run) (e : Http.Env) :
    AnswersOk l url e run ↔ y.accepted [] new = new ∧ ¬ fails := by
  cases h with
  | whole haccepted hinflate h =>
    obtain ⟨b, hb, -, hzero⟩ := h.block
    refine iff_of_true ?_ ⟨haccepted, hinflate⟩
    exact (TruncatedBody.answersOk_iff hs hb (by rw [hzero]; decide)).mpr hzero
  | failed hnot h =>
    obtain ⟨b, hb, hcode, hne⟩ := h
    refine iff_of_false (fun hok ↦ ?_) fun h ↦ h.2 (hnot h.1)
    exact hcode ((TruncatedBody.answersOk_iff hs hb hne).mp hok)

theorem received_false (us : List Upload) : received false us = us.map (·.piece) := by
  induction us with
  | nil => rfl
  | cons u us ih => simp [received, Upload.pieces, Upload.InflateFails, ih]

/-- Whatever parts the body comes in, its objects are given to rdkafka, each once and in order, up
to the first byte that yajl refuses; the answer is OK exactly if yajl refuses none. -/
theorem post_delivers (l : HttpListener) (sessionSize : ℕ) (hl : l.decoder = zzDecoder sessionSize)
    (lib : Libraries) (url : CStr) (e : Http.Env) (us : List Upload) (run : Run)
    (hopen : openRequest l url e = some run)
    (hjson : Decoder.ZzSession.contentTypeXml (attributes l url e) = false)
    (hm : methodAllowed (attributes l url e) = true)
    (hplain : (connInfo l e url (lit "POST")).zlibEnable = false)
    (henv : ∀ u ∈ us, Allocates u.piece.call.json) :
    (handedUploads l lib url us run).map (·.1) =
        outermost (lib.yajl.accepted [] (us.flatMap (·.piece.buffer))) ∧
      ∃ run', body l lib url e us = some run' ∧ ∀ e', AnswersOk l url e' run' ↔
        lib.yajl.accepted [] (us.flatMap (·.piece.buffer)) = us.flatMap (·.piece.buffer) := by
  have hs : l.decoder.newSession = true := by
    rw [hl]
    rfl
  have henv' : ∀ p ∈ sent l url e us, Allocates p.call.json := by
    intro p hp
    obtain ⟨u, hu, hp⟩ := List.mem_flatMap.mp hp
    rw [hplain] at hp
    rw [List.mem_singleton.mp hp]
    exact henv u hu
  obtain ⟨hobjects, run', hrun, hcame⟩ := body_received lib hs hopen hjson hm henv'
  rw [hplain, received_false, text, List.flatMap_map] at hobjects hcame
  refine ⟨hobjects, run', hrun, fun e' ↦ (hcame.answersOk_iff hs e').trans ?_⟩
  simp [Upload.InflateFails]

theorem allocates_plentiful : Allocates plentiful := ⟨rfl, rfl, fun _ ↦ rfl, rfl⟩

/-- Two objects, the first of them in two parts. -/
theorem two_objects_delivered :
    ∃ run, openRequest zzListener (lit "/v1/data/topic") (client []) = some run ∧
      (handedUploads zzListener plainLibraries (lit "/v1/data/topic")
        [plain (ascii "\x7b\"a\":") (by decide), plain (ascii "1\x7d\x7b\x7d") (by decide)]
          run).map (·.1) = [ascii "\x7b\"a\":1\x7d", ascii "\x7b\x7d"] := by
  obtain ⟨run, hrun⟩ := Option.isSome_iff_exists.mp
    (show (openRequest zzListener (lit "/v1/data/topic") (client [])).isSome by decide)
  refine ⟨run, hrun, ?_⟩
  obtain ⟨hobjects, -⟩ := post_delivers zzListener 1 rfl plainLibraries (lit "/v1/data/topic")
    (client []) [plain (ascii "\x7b\"a\":") (by decide), plain (ascii "1\x7d\x7b\x7d") (by decide)]
    run hrun rfl rfl rfl (by simpa [plain] using allocates_plentiful)
  exact hobjects.trans (by decide)

section Compressed

open Listener.Decompression

theorem compressedLoop_inflated {e : Http.Env} (hdecode : ∀ k, (e.decode k).rc = .ok)
    (zs : List Inflation) (calls : ℕ) (last : DecodeResult) (hlast : last.rc = .ok) :
    (compressedLoop e (zs.map (·.result)) calls last).1.flatten = text (inflated zs).1 ∧
      ((compressedLoop e (zs.map (·.result)) calls last).2.rc = .ok ↔ (inflated zs).2 = false) := by
  induction zs generalizing calls last with
  | nil => simp [compressedLoop, inflated, zlibFailure, text]
  | cons z zs ih =>
    rw [List.map_cons]
    by_cases hz : z.result.zret ≠ .ok ∧ z.result.zret ≠ .streamEnd
    · rw [inflated, if_pos hz, compressedLoop, if_pos hz]
      refine ⟨rfl, iff_of_false ?_ (by simp)⟩
      dsimp only [zlibFailure]
      split <;> simp
    by_cases hlen : z.result.output.length = 0
    · rw [inflated, if_neg hz, if_pos hlen, compressedLoop, if_neg hz, if_pos hlen]
      exact ⟨rfl, by simp [hlast]⟩
    rw [inflated_cons hz hlen, compressedLoop_cons hz hlen]
    obtain ⟨hblocks, hok⟩ := ih (calls + 1) _ (hdecode calls)
    by_cases hfull : z.result.output.length = zlibChunk
    · simpa [hdecode, hfull, text, Inflation.piece, hok] using hblocks
    · simp [hfull, hdecode, text, Inflation.piece]

variable {st : ZStream} {σ : Type*}

/-- `inflate` is called for these parts of the body as it is for one stream. -/
def Inflates (zl : Inflater st σ) : List Upload → σ → Prop
  | [], _ => True
  | u :: us, s =>
    u.inflations.map (·.result) = (zl.inflates (st.p.length + 1) s u.piece.buffer).1 ∧
      Inflates zl us (zl.inflates (st.p.length + 1) s u.piece.buffer).2

theorem Inflates.received {zl : Inflater st σ} {us : List Upload} {s : σ} (h : Inflates zl us s)
    (hus : us.flatMap (·.piece.buffer) = st.z.drop (zl.taken s)) (htaken : zl.taken s ≤ st.z.length)
    (hgiven : zl.given s = st.ready (zl.taken s)) :
    text (received true us) <+: st.p.drop (zl.given s) ∧
      (zl.Flows (us.map (·.piece.buffer)) s → text (received true us) = st.p.drop (zl.given s)) ∧
      ((∀ u ∈ us, ¬ u.InflateFails true) ↔ zl.Flows (us.map (·.piece.buffer)) s) := by
  induction us generalizing s with
  | nil =>
    have hend : st.z.length ≤ zl.taken s := List.drop_eq_nil_iff.mp hus.symm
    have hready : zl.given s = st.p.length := by rw [hgiven, ← st.whole, htaken.antisymm hend]
    simp [PostDelivery.received, text, hready, Inflater.Flows]
  | cons u us ih =>
    obtain ⟨hresults, hrest⟩ := h
    have hlen := congrArg List.length hus
    rw [List.flatMap_cons, List.length_append, List.length_drop] at hlen
    have hfuel : zl.yields s u.piece.buffer / zlibChunk < st.p.length + 1 := by
      apply Nat.lt_succ_of_le
      exact (Nat.div_le_self _ _).trans ((Nat.sub_le _ _).trans (st.bounded _))
    have haccepts (k : ℕ) : (accepting.decode k).rc = .ok := rfl
    obtain ⟨htaken', hgiven', hblocks, hrc⟩ := inflates_spec haccepts (st.p.length + 1) 0
      ⟨.ok, none, 0⟩ rfl ⟨us.flatMap (·.piece.buffer), hus⟩ hgiven.le hfuel
    rw [← hresults] at hblocks hrc
    obtain ⟨hpieces, hfails⟩ := compressedLoop_inflated haccepts u.inflations 0 ⟨.ok, none, 0⟩ rfl
    rw [hpieces] at hblocks
    have hfails' : ¬ u.InflateFails true ↔ ¬ zl.Stalls s u.piece.buffer := by
      rw [← hrc, hfails]
      simp [Upload.InflateFails]
    have hus' : us.flatMap (·.piece.buffer) =
        st.z.drop (zl.taken (zl.inflates (st.p.length + 1) s u.piece.buffer).2) := by
      rw [htaken', ← List.drop_drop, ← hus, List.flatMap_cons, List.drop_left]
    obtain ⟨hbefore, hwhole, hiff⟩ := ih hrest hus' (by omega) (by rw [hgiven', htaken'])
    have hyields : zl.given s + zl.yields s u.piece.buffer =
        st.ready (zl.taken s + u.piece.buffer.length) := by
      have hmono := st.mono _ _ (Nat.le_add_right (zl.taken s) u.piece.buffer.length)
      rw [Inflater.yields]
      omega
    have hdrop : text (u.pieces true) ++
        st.p.drop (zl.given (zl.inflates (st.p.length + 1) s u.piece.buffer).2) =
          st.p.drop (zl.given s) := by
      rw [hgiven', ← hyields, ← List.drop_drop]
      exact (congrArg (· ++ _) hblocks).trans (List.take_append_drop _ _)
    rw [List.map_cons, Inflater.Flows, List.forall_mem_cons, hiff, hfails', ← hdrop]
    by_cases hstalls : zl.Stalls s u.piece.buffer
    · have hreceived : PostDelivery.received true (u :: us) = u.pieces true := by
        simp [PostDelivery.received, not_not.mp (mt hfails'.mp (not_not.mpr hstalls))]
      rw [hreceived]
      exact ⟨List.prefix_append _ _, fun hflows ↦ absurd hstalls hflows.1, Iff.rfl⟩
    · have hreceived : text (PostDelivery.received true (u :: us)) =
          text (u.pieces true) ++ text (PostDelivery.received true us) := by
        simp [PostDelivery.received, hfails'.mpr hstalls, text]
      rw [hreceived]
      refine ⟨(List.prefix_append_right_inj _).mpr hbefore, fun hflows ↦ ?_, Iff.rfl⟩
      rw [hwhole hflows.2]

/-- A compressed body gives rdkafka the objects of the plaintext, whatever parts it comes in, up to
where yajl stops or a part stalls. -/
theorem compressed_post_delivers (l : HttpListener) (sessionSize : ℕ)
    (hl : l.decoder = zzDecoder sessionSize) (lib : Libraries) (url : CStr) (e : Http.Env)
    (us : List Upload) (run : Run) (hopen : openRequest l url e = some run)
    (hjson : Decoder.ZzSession.contentTypeXml (attributes l url e) = false)
    (hm : methodAllowed (attributes l url e) = true)
    (hzlib : (connInfo l e url (lit "POST")).zlibEnable = true)
    (henv : ∀ p ∈ sent l url e us, Allocates p.call.json) (zl : Inflater st σ)
    (hz : us.flatMap (·.piece.buffer) = st.z) (hinflates : Inflates zl us zl.init) :
    ∃ q, q <+: st.p ∧ (zl.Flows (us.map (·.piece.buffer)) zl.init → q = st.p) ∧
      (handedUploads l lib url us run).map (·.1) = outermost (lib.yajl.accepted [] q) ∧
      ∃ run', body l lib url e us = some run' ∧ ∀ e', AnswersOk l url e' run' ↔
        zl.Flows (us.map (·.piece.buffer)) zl.init ∧ lib.yajl.accepted [] st.p = st.p := by
  have hs : l.decoder.newSession = true := by
    rw [hl]
    rfl
  obtain ⟨hbefore, hwhole, hflows⟩ := hinflates.received (by rw [zl.taken_init, List.drop_zero, hz])
    (by rw [zl.taken_init]; exact Nat.zero_le _) (by rw [zl.taken_init, zl.given_init, st.zero])
  rw [zl.given_init, List.drop_zero] at hbefore hwhole
  obtain ⟨hobjects, run', hrun, hcame⟩ := body_received lib hs hopen hjson hm henv
  rw [hzlib] at hobjects hcame
  refine ⟨_, hbefore, hwhole, hobjects, run', hrun, fun e' ↦ (hcame.answersOk_iff hs e').trans ?_⟩
  have hfails : ¬ (∃ u ∈ us, u.InflateFails true) ↔ zl.Flows (us.map (·.piece.buffer)) zl.init := by
    simpa using hflows
  rw [hfails, and_comm]
  refine and_congr_right fun hflow ↦ ?_
  rw [hwhole hflow]

def storedBytes (p adler : Bytes) : Bytes := [0x78, 0x01] ++ (storedBlock true p ++ adler)

def storedReady (p : Bytes) (i : ℕ) : ℕ := min (i - 7) p.length

theorem storedReady_mono (p : Bytes) (i j : ℕ) (h : i ≤ j) :
    storedReady p i ≤ storedReady p j := by
  rw [storedReady, storedReady]
  omega

theorem storedReady_le (p : Bytes) (i : ℕ) : storedReady p i ≤ p.length :=
  Nat.min_le_right _ _

theorem storedReady_zero (p : Bytes) : storedReady p 0 = 0 :=
  Nat.zero_min _

theorem storedReady_whole (p adler : Bytes) :
    storedReady p (storedBytes p adler).length = p.length := by
  simp only [storedReady, storedBytes, storedBlock, List.length_append, List.length_cons,
    List.length_nil]
  omega

def storedText (p adler : Bytes) : ZStream where
  z := storedBytes p adler
  p := p
  ready := storedReady p
  mono := storedReady_mono p
  bounded := storedReady_le p
  zero := storedReady_zero p
  whole := storedReady_whole p adler

def emptyObject : ZStream := storedText (ascii "\x7b\x7d") [0x01, 0x75, 0x00, 0xf9]

def emptyObjectUpload : Upload where
  env := client []
  piece := ⟨emptyObject.z, plentiful, fun _ ↦ true, false⟩
  nonempty := by decide
  inflations := ((greedy emptyObject true).inflates 3 (0, 0) emptyObject.z).1.map
    fun r ↦ ⟨r, plentiful, fun _ ↦ true, false⟩

def compressedHeader : MhdValue := ⟨.header, lit "Content-Encoding", some (lit "gzip")⟩

theorem exists_of_mem_inflated {zs : List Inflation} {p : Piece} (hp : p ∈ (inflated zs).1) :
    ∃ z ∈ zs, p = z.piece := by
  induction zs with
  | nil => cases hp
  | cons z zs ih =>
    by_cases hz : z.result.zret ≠ .ok ∧ z.result.zret ≠ .streamEnd
    · simp [inflated, hz] at hp
    by_cases hlen : z.result.output.length = 0
    · rw [inflated, if_neg hz, if_pos hlen] at hp
      cases hp
    rw [inflated_cons hz hlen] at hp
    obtain rfl | hp := List.mem_cons.mp hp
    · exact ⟨z, .head _, rfl⟩
    · split at hp
      · obtain ⟨z', hz', rfl⟩ := ih hp
        exact ⟨z', .tail _ hz', rfl⟩
      · cases hp

theorem allocates_emptyObject : ∀ p ∈ sent zzListener (lit "/v1/data/topic")
    (client [compressedHeader]) [emptyObjectUpload], Allocates p.call.json := by
  intro p hp
  obtain ⟨u, hu, hp⟩ := List.mem_flatMap.mp hp
  rw [List.mem_singleton.mp hu] at hp
  obtain ⟨z, hz, rfl⟩ := exists_of_mem_inflated hp
  obtain ⟨r, -, rfl⟩ := List.mem_map.mp hz
  exact allocates_plentiful

theorem empty_object_delivered :
    ∃ run, openRequest zzListener (lit "/v1/data/topic") (client [compressedHeader]) = some run ∧
      (handedUploads zzListener plainLibraries (lit "/v1/data/topic") [emptyObjectUpload] run).map
        (·.1) = [ascii "\x7b\x7d"] := by
  obtain ⟨run, hrun⟩ := Option.isSome_iff_exists.mp (show (openRequest zzListener
    (lit "/v1/data/topic") (client [compressedHeader])).isSome by decide)
  refine ⟨run, hrun, ?_⟩
  have hz : [emptyObjectUpload].flatMap (·.piece.buffer) = emptyObject.z := List.append_nil _
  have hinflates : Inflates (greedy emptyObject true) [emptyObjectUpload] (0, 0) := by
    refine ⟨?_, trivial⟩
    rw [emptyObjectUpload, List.map_map]
    exact List.map_id _
  have hflows : (greedy emptyObject true).Flows
      ([emptyObjectUpload].map (·.piece.buffer)) (0, 0) :=
    ⟨fun h ↦ absurd h.full (by decide), trivial⟩
  obtain ⟨q, -, hq, hobjects, -⟩ := compressed_post_delivers zzListener 1 rfl plainLibraries
    (lit "/v1/data/topic") (client [compressedHeader]) [emptyObjectUpload] run hrun rfl rfl rfl
    allocates_emptyObject (greedy emptyObject true) hz hinflates
  rw [hobjects, hq hflows]
  decide

end Compressed

end N2Kafka.Listener.PostDelivery
