import N2Kafka.Lib.JsonGrammar
import N2Kafka.Listener.PostDelivery
import N2Kafka.Util.StringAppendJson

namespace N2Kafka.Listener.ErrorAnswers

open Lib.CString Lib.JsonText Lib.JsonGenerator Lib.JsonGrammar Lib.JsonUnescape Util.Pairs
open Util.JsonString Decoder.DecoderApi Decoder.Yajl Decoder.ZzParser Decoder.ZzDecoder
open Decoder.ZzParserJson Decoder.ZzParserXml Decoder.MessagesQueued Decoder.JsonFraming
open Decoder.BodyEnd
open Listener.Connection Listener.Http Listener.PostConnection Listener.TruncatedBody
open Listener.PostDelivery
open Decoder.Callbacks (Answer)
open Util.KafkaMessageArray (MessageArray kafkaMessageArraySize)
open Util.StringAppendJson (Group Next nextGroup groups next_nextGroup groups_cons wellFormed_text
  unescapes_text length_drop_le)

section Message

theorem appendJsonLoop_nul (n : ℕ) (rest : Bytes) :
    appendJsonLoop (n + 1) (0 :: rest) = (printNotUtf8Code 0, 1) := rfl

theorem appendJsonLoop_cons (n : ℕ) {c : UInt8} {rest : Bytes} (hzero : c ≠ 0) :
    (appendJsonLoop (n + 1) (c :: rest)).1 =
      (nextGroup c rest).1.text ++
        (appendJsonLoop n ((c :: rest).drop (nextGroup c rest).2)).1 := by
  have hnext := next_nextGroup c rest
  generalize nextGroup c rest = next at hnext ⊢
  cases hnext with
  | nul hnul => exact absurd hnul hzero
  | short hlookup => simp [appendJsonLoop, hlookup, Group.text]
  | quoted hlookup hquoted =>
    obtain rfl | rfl := hquoted
    · rfl
    · rfl
  | invalid hlookup _ hquoted hsize =>
    have hmem : c ∉ ascii "\"\\" := by simpa [ascii] using hquoted
    simp [appendJsonLoop, hlookup, hzero, hmem, printUtf8, hsize, Group.text]
  | character hlookup _ hquoted hsize =>
    have hmem : c ∉ ascii "\"\\" := by simpa [ascii] using hquoted
    simp [appendJsonLoop, hlookup, hzero, hmem, printUtf8, hsize, Group.text]

theorem nextGroup_ne_nul {c : UInt8} {rest : Bytes} (hzero : c ≠ 0) :
    (nextGroup c rest).1 ≠ .nul := by
  have hnext := next_nextGroup c rest
  intro h
  generalize nextGroup c rest = next at hnext h
  cases hnext with
  | nul hnul => exact hzero hnul
  | _ => cases h

theorem appendJsonLoop_sound : ∀ (n : ℕ) {data : Bytes}, data.length ≤ n →
    (∀ g ∈ groups data, g.Sound) → StringBody (appendJsonLoop n data).1 ∧
      Lib.Utf8.Valid (appendJsonLoop n data).1 ∧
      (Lib.Utf8.Valid data → 0 ∉ data → Unescapes (appendJsonLoop n data).1 data)
  | n, [], _, _ => by
    have hnil : appendJsonLoop n [] = ([], 0) := by cases n <;> rfl
    rw [hnil]
    exact ⟨.nil, Lib.Utf8.valid_nil, fun _ _ ↦ .nil⟩
  | 0, _ :: _, hlen, _ => absurd hlen (by simp)
  | n + 1, c :: rest, hlen, hsound => by
    by_cases hzero : c = 0
    · subst hzero
      rw [appendJsonLoop_nul]
      refine ⟨Util.StringAppendJson.stringBody_notUtf8Code 0,
        Util.StringAppendJson.valid_notUtf8Code 0, fun _ h ↦ ?_⟩
      exact absurd (.head _) h
    rw [groups_cons] at hsound
    obtain ⟨hgroup, hrest⟩ := List.forall_mem_cons.mp hsound
    obtain ⟨hbody, hvalid, hunescapes⟩ := appendJsonLoop_sound n (length_drop_le hlen) hrest
    obtain ⟨htext, htextValid⟩ := wellFormed_text (next_nextGroup c rest) hgroup
    rw [appendJsonLoop_cons n hzero]
    refine ⟨htext.append hbody, htextValid.append hvalid, fun hdata hno ↦ ?_⟩
    obtain ⟨hmeans, hdrop⟩ :=
      unescapes_text (next_nextGroup c rest) (nextGroup_ne_nul hzero) hgroup hdata
    have hwhole := hmeans.append (hunescapes hdrop fun h ↦ hno (List.mem_of_mem_drop h))
    rwa [List.take_append_drop] at hwhole

/-- The keys and values of an error answer. -/
def answerMembers (n : ℕ) (body : Bytes) : List (Bytes × Bytes) :=
  [(ascii "messages_queued", ascii (toString n)),
    (ascii "json_decoder_error", ascii "\"" ++ body ++ ascii "\"")]

/-- The text of an object with these members, in UTF-8. -/
def IsObject (t : Bytes) (members : List (Bytes × Bytes)) : Prop :=
  Lib.Utf8.Valid t ∧ ∃ inner, t = ascii "\x7b" ++ inner ++ ascii "\x7d" ∧ Members inner members

theorem valid_of_ascii {s : Bytes} (h : s.all fun b ↦ b.toNat < 0x80) : Lib.Utf8.Valid s := by
  apply Util.StringAppendJson.valid_ascii
  simpa using h

theorem isObject_errorMessageJson {e : Bytes} {rc : DecoderCallbackErr} (hrc : rc ≠ .ok) (n : ℕ)
    (hbody : StringBody (stringAppendJsonString e).1)
    (hvalid : Lib.Utf8.Valid (stringAppendJsonString e).1) :
    IsObject (errorMessageJson e rc n) (answerMembers n (stringAppendJsonString e).1) := by
  have hnumber : Lib.Utf8.Valid (ascii (toString n)) := by
    apply Util.StringAppendJson.valid_ascii
    intro b hb
    have hdigit := mem_ascii_toString hb
    omega
  let fields : List Field := [
    ⟨[], ascii "messages_queued", ([], []), ascii (toString n), []⟩,
    ⟨[], ascii "json_decoder_error", ([], []),
      ascii "\"" ++ (stringAppendJsonString e).1 ++ ascii "\"", []⟩]
  have hspaces : Spaces [] := by simp [Spaces]
  have hkey (s : Bytes) (h : s.all fun c ↦ 32 ≤ c ∧ c ≠ 34 ∧ c ≠ 92) : StringBody s :=
    stringBody_of_plain (by simpa using h)
  refine ⟨?_, commaSep (fields.map Field.text), ?_, fields, by simp [fields], ?_, rfl, rfl⟩
  · rw [errorMessageJson, if_pos hrc]
    refine Lib.Utf8.Valid.append (.append (.append (valid_of_ascii (by decide)) hnumber) ?_)
      (valid_of_ascii (by decide))
    exact .append (.append (valid_of_ascii (by decide)) hvalid) (valid_of_ascii (by decide))
  · simp [errorMessageJson, hrc, fields, Field.text, commaSep, ascii]
  · intro f hf
    obtain rfl | hf := List.mem_cons.mp hf
    · exact ⟨⟨hspaces, hkey (ascii "messages_queued") (by decide), ⟨hspaces, hspaces⟩, hspaces⟩,
        .number (number_toString n)⟩
    · rw [List.mem_singleton.mp hf]
      exact ⟨⟨hspaces, hkey (ascii "json_decoder_error") (by decide), ⟨hspaces, hspaces⟩, hspaces⟩,
        .string hbody⟩

end Message

section Pieces

variable (lib : Libraries) {props : KeyvalList}

def errorAnswer (p : Piece) (n : ℕ) : Answer :=
  ⟨.invalidRequest, some (errorMessageJson (errorText p.call.json) .invalidRequest n)⟩

theorem decode_refused {session : ZzSession ZzJsonSession} {text : Bytes} (h : Holds session text)
    (hm : methodAllowed props = true) {p : Piece} (henv : Allocates p.call.json)
    (hne : p.buffer ≠ []) (hnot : lib.yajl.accepted text p.buffer ≠ p.buffer) :
    ∃ last n, n ≤ (handedBy lib props p (.json session)).length ∧
      Decoder.BodyEnd.decode lib props p (.json session) = some (last, errorAnswer p n) := by
  obtain ⟨session', a, hd, -, hrc, -⟩ := h.decode lib hm henv hne
  obtain ⟨d, hz, heq⟩ := Option.map_eq_some_iff.mp hd
  obtain ⟨processed, hp, rfl⟩ := exists_processed hm hz
  have hbad : processed.rc ≠ .ok := by
    intro hok
    refine hnot (hrc.mp ?_)
    rw [← (Prod.mk.inj heq).2]
    exact (consume_rc _ _ processed).trans hok
  obtain ⟨hmessage, ⟨hok, -⟩ | ⟨hinvalid, hresponse⟩⟩ := processJsonBuffer_answer hp henv.malloc
  · exact absurd hok hbad
  have hanswer : (consume p.call.json.verdict p.call.json.clock processed).response =
      some (errorMessageJson (errorText p.call.json) .invalidRequest
        (kafkaMessageArraySize processed.session.kafkaMsgs)) := by
    have hmessage' : processed.session.errorMessage = errorMessageJson := hmessage.trans h.message
    have hresponse' : processed.session.httpResponse = errorText p.call.json := by
      rw [hresponse, h.response, List.nil_append]
    rw [consume_response _ _ hbad, hmessage', hresponse', hinvalid]
    rw [hmessage']
    exact errorMessageJson_ne_nil _ _ _
  refine ⟨.json session', kafkaMessageArraySize processed.session.kafkaMsgs, ?_, ?_⟩
  · simp [handedBy, hz, kafkaMessageArraySize, MessageArray.payloads]
  · rw [hd, ← (Prod.mk.inj heq).2, errorAnswer, hanswer, consume_rc, hinvalid]

theorem decodeAll_refused {session : ZzSession ZzJsonSession} {text : Bytes}
    (h : Holds session text) (hm : methodAllowed props = true) {ps : List Piece}
    (henv : ∀ p ∈ ps, Allocates p.call.json) (hne : ∀ p ∈ ps, p.buffer ≠ [])
    (hnot : lib.yajl.accepted text (ps.flatMap (·.buffer)) ≠ ps.flatMap (·.buffer)) :
    ∃ last answers p n, p ∈ ps ∧ n ≤ (handedAll lib props ps (.json session)).length ∧
      decodeAll lib props ps (.json session) = some (last, answers) ∧ Refused answers ∧
      answers.getLast? = some (errorAnswer p n) := by
  induction ps generalizing session text with
  | nil => exact absurd rfl hnot
  | cons p ps ih =>
    by_cases haccepted : lib.yajl.accepted text p.buffer = p.buffer
    · obtain ⟨session', a, hd, -, hrc, hnext⟩ := h.decode lib hm (henv p (.head _)) (hne p (.head _))
      have hok := hrc.mpr haccepted
      have hnot' : lib.yajl.accepted (text ++ p.buffer) (ps.flatMap (·.buffer)) ≠
          ps.flatMap (·.buffer) := by
        intro heq
        rw [List.flatMap_cons, accepted_append, if_pos haccepted, heq] at hnot
        exact hnot rfl
      obtain ⟨last, answers, q, n, hq, hn, hall, hrefused, hlast⟩ := ih (hnext hok)
        (fun q hq ↦ henv q (.tail _ hq)) (fun q hq ↦ hne q (.tail _ hq)) hnot'
      refine ⟨last, a :: answers, q, n, .tail _ hq, ?_, ?_, (refused_cons_of_ok hok).mpr hrefused, ?_⟩
      · simp only [handedAll, hd, Option.elim_some, hok, ne_eq, not_true_eq_false, if_false,
          List.length_append]
        omega
      · simp [decodeAll, hd, hok, hall]
      · rw [List.getLast?_cons, hlast]
        rfl
    · obtain ⟨last, n, hn, hd⟩ :=
        decode_refused lib h hm (henv p (.head _)) (hne p (.head _)) haccepted
      have hbad : (errorAnswer p n).rc ≠ .ok := by simp [errorAnswer]
      refine ⟨last, [errorAnswer p n], p, n, .head _, ?_, ?_, ⟨_, .head _, hbad⟩, rfl⟩
      · rw [handedAll, List.length_append]
        omega
      · simp [decodeAll, hd, hbad]

end Pieces

section Request

variable {l : HttpListener} {lib : Libraries} {url : CStr} {ci : ConnInfo} {done : Bytes} {run : Run}

theorem compressedLoop_refused {props : KeyvalList} {e : Http.Env} (zs : List Inflation)
    {session last : Session} {answers : List Answer}
    (h : decodeAll lib props (inflated zs).1 session = some (last, answers))
    (hrefused : Refused answers) (calls : ℕ)
    (hdecode : ∀ k, e.decode (calls + k) = (answers.map decodeResult).getD k ⟨.ok, none, 0⟩)
    (result : DecodeResult) :
    answers.getLast?.map decodeResult =
      some (compressedLoop e (zs.map (·.result)) calls result).2 := by
  induction zs generalizing session answers calls result with
  | nil =>
    obtain ⟨-, rfl⟩ := Prod.mk.inj (Option.some.inj h)
    exact absurd hrefused refused_nil
  | cons z zs ih =>
    rw [List.map_cons]
    by_cases hz : z.result.zret ≠ .ok ∧ z.result.zret ≠ .streamEnd
    · rw [inflated, if_pos hz] at h
      obtain ⟨-, rfl⟩ := Prod.mk.inj (Option.some.inj h)
      exact absurd hrefused refused_nil
    by_cases hlen : z.result.output.length = 0
    · rw [inflated, if_neg hz, if_pos hlen] at h
      obtain ⟨-, rfl⟩ := Prod.mk.inj (Option.some.inj h)
      exact absurd hrefused refused_nil
    rw [inflated_cons hz hlen] at h
    rw [compressedLoop_cons hz hlen]
    obtain ⟨session', a, -, hcases⟩ := decodeAll_cons h
    have hdecoded : e.decode calls = decodeResult a := by
      rw [← Nat.add_zero calls, hdecode]
      obtain ⟨-, -, rfl⟩ | ⟨-, rest, -, rfl⟩ := hcases
      · rfl
      · rfl
    have hrc' : (e.decode calls).rc = a.rc := by rw [hdecoded]; rfl
    obtain ⟨hrc, -, rfl⟩ | ⟨hrc, rest, hrest, rfl⟩ := hcases
    · rw [if_neg (by simp [hrc', hrc]), hdecoded]
      rfl
    · rw [refused_cons_of_ok hrc] at hrefused
      by_cases hfull : z.result.output.length = zlibChunk
      · rw [if_pos hfull] at hrest
        have hlast := ih hrest hrefused (calls + 1) (fun k ↦ by
          rw [Nat.add_assoc, Nat.add_comm 1, hdecode]
          rfl) (e.decode calls)
        obtain ⟨b, hb, -⟩ := Option.map_eq_some_iff.mp hlast
        rw [if_pos ⟨hrc'.trans hrc, hfull⟩, ← hlast, List.getLast?_cons, hb]
        rfl
      · rw [if_neg hfull] at hrest
        obtain ⟨-, rfl⟩ := Prod.mk.inj (Option.some.inj hrest)
        exact absurd hrefused refused_nil

theorem postChunk_refused {props : KeyvalList} {b : Block} (hs : l.decoder.newSession = true)
    {u : Upload} {session last : Session} {answers : List Answer}
    (h : decodeAll lib props (u.pieces b.info.zlibEnable) session = some (last, answers))
    (hrefused : Refused answers) :
    answers.getLast?.map decodeResult =
      some (postChunk l (u.answered answers) u.piece.buffer b).2.2 := by
  unfold postChunk
  simp only [hs, Bool.not_true, Bool.false_eq_true, if_false]
  cases hz : b.info.zlibEnable with
  | true =>
    simp only [Upload.pieces, hz, if_true] at h
    exact compressedLoop_refused u.inflations h hrefused 0 (fun k ↦ by rw [Nat.zero_add]; rfl) _
  | false =>
    simp only [Upload.pieces, hz, Bool.false_eq_true, if_false] at h
    obtain ⟨session', a, -, ⟨hrc, -, rfl⟩ | ⟨hrc, rest, hrest, rfl⟩⟩ := decodeAll_cons h
    · rfl
    · obtain ⟨-, rfl⟩ := Prod.mk.inj (Option.some.inj hrest)
      exact absurd ((refused_cons_of_ok hrc).mp hrefused) refused_nil

/-- A request that keeps the answer to one of these pieces. -/
def Explained (ps : List Piece) (given : ℕ) (run : Run) : Prop :=
  ∃ b p n, run.request.block = some b ∧ p ∈ ps ∧ n ≤ given ∧
    b.info.httpError.code = mhdHttpBadRequest ∧ b.info.httpError.str = (errorAnswer p n).response

variable (url) in
theorem upload_refused (hs : l.decoder.newSession = true) (h : Awaits ci done run)
    (hm : methodAllowed ci.decoderParams = true) {u : Upload}
    (henv : ∀ p ∈ u.pieces ci.zlibEnable, Allocates p.call.json)
    (hnot : lib.yajl.accepted done (text (u.pieces ci.zlibEnable)) ≠ text (u.pieces ci.zlibEnable)) :
    ∃ run', run.upload l lib url u = some run' ∧
      Explained (u.pieces ci.zlibEnable) (handedUpload lib u run).length run' := by
  obtain ⟨b, hb, hsame, hzero⟩ := h.block
  obtain ⟨session, hsession, hholds⟩ := h.session
  have hq : ¬ connInfoHasQueueResponse b.info = true := by simp [connInfoHasQueueResponse, hzero]
  obtain ⟨last, answers, p, n, hp, hn, hall, hrefused, hlast⟩ :=
    decodeAll_refused lib hholds hm henv (fun p hp ↦ Upload.buffer_ne_nil hp) hnot
  have hall' : Decoder.BodyEnd.decodeAll lib b.info.decoderParams (u.pieces b.info.zlibEnable)
      run.session = some (last, answers) := by
    rw [hsame.decoderParams, hsame.zlibEnable, hsession]
    exact hall
  have hresult := postChunk_refused hs hall' hrefused
  rw [hlast, Option.map_some, Option.some.injEq] at hresult
  have hblock := block_upload (u.answered answers) url hs hb u.nonempty
  have hbad : (decodeResult (errorAnswer p n)).rc ≠ .ok := by simp [decodeResult, errorAnswer]
  rw [if_neg hq, ← hresult, if_pos hbad] at hblock
  have hrun : run.upload l lib url u = some
      ⟨(handleRequest l (u.answered answers) url (lit "POST") u.piece.buffer run.request).1, last⟩ := by
    simp [Run.upload, hb, hq, hall']
  refine ⟨_, hrun, _, p, n, hblock, hp, ?_, rfl, rfl⟩
  simpa [handedUpload, hb, hq, hsame.decoderParams, hsame.zlibEnable, hsession] using hn

theorem uploads_refused (hs : l.decoder.newSession = true) (h : Awaits ci done run)
    (hm : methodAllowed ci.decoderParams = true) {us : List Upload}
    (henv : ∀ u ∈ us, ∀ p ∈ u.pieces ci.zlibEnable, Allocates p.call.json)
    (hnot : lib.yajl.accepted done (text (received ci.zlibEnable us)) ≠
      text (received ci.zlibEnable us)) :
    ∃ run', run.uploads l lib url us = some run' ∧ Explained (us.flatMap (·.pieces ci.zlibEnable))
      (handedUploads l lib url us run).length run' := by
  induction us generalizing done run with
  | nil => exact absurd rfl hnot
  | cons u us ih =>
    by_cases haccepted : lib.yajl.accepted done (text (u.pieces ci.zlibEnable)) =
        text (u.pieces ci.zlibEnable)
    · -- yajl refuses something behind this part, so `inflate` has not failed in it
      by_cases hfails : u.InflateFails ci.zlibEnable
      · simp only [received, hfails, if_true, List.append_nil] at hnot
        exact absurd haccepted hnot
      have htext : text (received ci.zlibEnable (u :: us)) =
          text (u.pieces ci.zlibEnable) ++ text (received ci.zlibEnable us) := by
        simp [received, text, hfails]
      obtain ⟨-, run₁, hrun, hcame⟩ := h.upload lib url hs hm (henv u (.head _))
      cases hcame with
      | failed hbad _ => exact absurd (hbad haccepted) hfails
      | whole _ _ h₁ =>
        obtain ⟨run₂, hrun₂, b, p, n, hb, hp, hn, hanswer⟩ :=
          ih h₁ (fun v hv ↦ henv v (.tail _ hv)) fun heq ↦ hnot (by
            rw [htext, accepted_append, if_pos haccepted, heq])
        refine ⟨run₂, by simp [Run.uploads, hrun, hrun₂], b, p, n, hb, ?_, ?_, hanswer⟩
        · rw [List.flatMap_cons]
          exact List.mem_append_right _ hp
        · simp only [handedUploads, hrun, Option.elim_some, List.length_append]
          omega
    · obtain ⟨run₁, hrun, b, p, n, hb, hp, hn, hcode, hstr⟩ :=
        upload_refused url hs h hm (henv u (.head _)) haccepted
      have hq : connInfoHasQueueResponse b.info = true := by
        simp [connInfoHasQueueResponse, hcode, mhdHttpBadRequest]
      obtain ⟨-, run₂, hrun₂, hb₂⟩ := uploads_kept lib url hs hb hq us
      refine ⟨run₂, by simp [Run.uploads, hrun, hrun₂], b, p, n, hb₂, ?_, ?_, hcode, hstr⟩
      · rw [List.flatMap_cons]
        exact List.mem_append_left _ hp
      · simp only [handedUploads, List.length_append]
        omega

theorem handleRequest_explained {b : Block} (hb : run.request.block = some b)
    (hcode : b.info.httpError.code ≠ 0) (e : Http.Env) :
    (handleRequest l e url (lit "POST") [] run.request).1.trace = run.request.trace ++
      [.use .handlePostEnd (run.request.cellGood l),
        .respond b.info.httpError.code b.info.httpError.str] := by
  have hpost : strcmp (lit "POST") (lit "POST") = 0 := by decide
  have hblock (es : List Event) : (run.request.log es).block = some b := hb
  rw [handleRequest, if_pos hpost, handlePost, if_neg (cell_ne_null hb), if_neg (by simp),
    handlePostEnd]
  simp only [hblock, ne_eq, hcode, not_false_eq_true, if_true, Request.log_log]
  rfl

end Request

/-- A JSON body that yajl refuses, compressed or not and in whatever parts, is answered with 400 and
an object of two members: a number of messages that is not too high, and what yajl said about one of
the pieces, as a string that means this text. -/
theorem refused_post_answered (l : HttpListener) (sessionSize : ℕ)
    (hl : l.decoder = zzDecoder sessionSize) (lib : Libraries) (url : CStr) (e : Http.Env)
    (us : List Upload) (run : Run) (hopen : openRequest l url e = some run)
    (hjson : Decoder.ZzSession.contentTypeXml (attributes l url e) = false)
    (hm : methodAllowed (attributes l url e) = true)
    (henv : ∀ p ∈ sent l url e us, Allocates p.call.json)
    (hsound : ∀ p ∈ sent l url e us, ∀ g ∈ groups (errorText p.call.json), g.Sound)
    (hnot : lib.yajl.accepted [] (text (received (connInfo l e url (lit "POST")).zlibEnable us)) ≠
      text (received (connInfo l e url (lit "POST")).zlibEnable us)) :
    ∃ run' p n s answer, body l lib url e us = some run' ∧ p ∈ sent l url e us ∧
      n ≤ (handedUploads l lib url us run).length ∧ IsObject answer (answerMembers n s) ∧
      (Lib.Utf8.Valid (errorText p.call.json) → 0 ∉ errorText p.call.json →
        Unescapes s (errorText p.call.json)) ∧
      ∀ e', (handleRequest l e' url (lit "POST") [] run'.request).1.trace = run'.request.trace ++
        [.use .handlePostEnd (run'.request.cellGood l), .respond mhdHttpBadRequest (some answer)] := by
  have hs : l.decoder.newSession = true := by
    rw [hl]
    rfl
  obtain ⟨run', hrun, b, p, n, hb, hp, hn, hcode, hstr⟩ := uploads_refused hs
    (openRequest_awaits hjson hopen) hm
    (fun u hu p hp ↦ henv p (List.mem_flatMap.mpr ⟨u, hu, hp⟩)) hnot
  obtain ⟨hbody, hvalid, hunescapes⟩ := appendJsonLoop_sound _ le_rfl (hsound p hp)
  have hrc : (errorAnswer p n).rc ≠ .ok := by simp [errorAnswer]
  refine ⟨run', p, n, _, _, by simp [body, hopen, hrun], hp, hn,
    isObject_errorMessageJson hrc n hbody hvalid, hunescapes, fun e' ↦ ?_⟩
  rw [handleRequest_explained hb (by rw [hcode]; decide), hcode, hstr]
  rfl

def strayBrace : Upload where
  env := client []
  piece := ⟨ascii "\x7d", { plentiful with yajlError := ascii "\"\x7d\"\n" }, fun _ ↦ true, false⟩
  nonempty := by decide
  inflations := []

theorem sound_strayBrace : ∀ g ∈ groups (errorText strayBrace.piece.call.json), g.Sound := by
  have hgroups : groups (errorText strayBrace.piece.call.json) =
      [.quoted 34, .character [125], .quoted 34, .short 110] := by decide
  simp only [hgroups, List.forall_mem_cons, Group.Sound]
  exact ⟨trivial, ⟨'\x7d', by decide, by decide⟩, trivial, trivial, by simp⟩

theorem stray_brace_answered :
    ∃ run run' n s answer, openRequest zzListener (lit "/v1/data/topic") (client []) = some run ∧
      body zzListener plainLibraries (lit "/v1/data/topic") (client []) [strayBrace] = some run' ∧
      IsObject answer (answerMembers n s) ∧ Unescapes s (ascii "\"\x7d\"\n") := by
  obtain ⟨run, hrun⟩ := Option.isSome_iff_exists.mp
    (show (openRequest zzListener (lit "/v1/data/topic") (client [])).isSome by decide)
  obtain ⟨run', p, n, s, answer, hrun', hp, -, hobject, hmeans, -⟩ := refused_post_answered
    zzListener 1 rfl plainLibraries (lit "/v1/data/topic") (client []) [strayBrace] run hrun rfl rfl
    (List.forall_mem_singleton.mpr ⟨rfl, rfl, fun _ ↦ rfl, rfl⟩)
    (List.forall_mem_singleton.mpr sound_strayBrace) (by decide)
  refine ⟨run, run', n, s, answer, hrun, hrun', hobject, ?_⟩
  rw [List.mem_singleton.mp hp] at hmeans
  exact hmeans (valid_of_ascii (by decide)) (by decide)

end N2Kafka.Listener.ErrorAnswers
