import N2Kafka.Decoder.BodyEnd
import N2Kafka.Listener.PostConnection

namespace N2Kafka.Listener.TruncatedBody

open Lib.CString Lib.JsonText Util.Pairs Decoder.DecoderApi Decoder.Yajl Decoder.BodyEnd
open Listener.Connection Listener.Http Listener.PostConnection
open Decoder.Callbacks (Answer)

/-- A call of `inflate`, and the call of the decoder that gets what it has written. -/
structure Inflation where
  result : Inflate
  call : DecodeCall

def Inflation.piece (z : Inflation) : Piece := ⟨z.result.output, z.call⟩

/-- The pieces `compressed_callback` passes on as long as the decoder takes them, and whether `inflate`
fails behind them. -/
def inflated : List Inflation → List Piece × Bool
  | [] => ([], true)
  | z :: zs =>
    if z.result.zret ≠ .ok ∧ z.result.zret ≠ .streamEnd then ([], true)
    else if z.result.output.length = 0 then ([], false)
    else if z.result.output.length ≠ zlibChunk then ([z.piece], false)
    else (z.piece :: (inflated zs).1, (inflated zs).2)

/-- A callback with a part of the body. Without compression the piece goes to the decoder as it is. -/
structure Upload where
  env : Env
  piece : Piece
  nonempty : piece.buffer ≠ []
  inflations : List Inflation

def Upload.pieces (u : Upload) (zlibEnable : Bool) : List Piece :=
  if zlibEnable then (inflated u.inflations).1 else [u.piece]

def Upload.InflateFails (u : Upload) (zlibEnable : Bool) : Prop :=
  zlibEnable = true ∧ (inflated u.inflations).2 = true

def decodeResult (a : Answer) : DecodeResult := ⟨a.rc, a.response, (a.response.getD []).length⟩

def Upload.answered (u : Upload) (answers : List Answer) : Env :=
  { u.env with
    inflates := u.inflations.map (·.result)
    decode := fun k ↦ (answers.map decodeResult).getD k ⟨.ok, none, 0⟩ }

structure Run where
  request : Request
  session : Session

variable (l : HttpListener) (lib : Libraries) (url : CStr)

def Run.upload (u : Upload) (run : Run) : Option Run :=
  run.request.block.bind fun b ↦
    if connInfoHasQueueResponse b.info then
      some ⟨(handleRequest l u.env url (lit "POST") u.piece.buffer run.request).1, run.session⟩
    else
      (decodeAll lib b.info.decoderParams (u.pieces b.info.zlibEnable) run.session).map fun decoded ↦
        ⟨(handleRequest l (u.answered decoded.2) url (lit "POST") u.piece.buffer run.request).1,
          decoded.1⟩

def Run.uploads : List Upload → Run → Option Run
  | [], run => some run
  | u :: us, run => (run.upload l lib url u).bind (Run.uploads us)

def openRequest (e : Env) : Option Run :=
  let r := (handleRequest l e url (lit "POST") [] .fresh).1
  r.block.map fun b ↦ ⟨r, newSession b.info.decoderParams⟩

/-- A request up to the last byte of its body. -/
def body (e : Env) (us : List Upload) : Option Run := (openRequest l url e).bind (Run.uploads l lib url us)

def AnswersOk (e : Env) (run : Run) : Prop :=
  .respond mhdHttpOk none ∈
    (handleRequest l e url (lit "POST") [] run.request).1.trace.drop run.request.trace.length

instance (e : Env) (run : Run) : Decidable (AnswersOk l url e run) :=
  inferInstanceAs (Decidable (_ ∈ _))

def attributes (e : Env) : KeyvalList := (connInfo l e url (lit "POST")).decoderParams

def sent (e : Env) (us : List Upload) : List Piece :=
  us.flatMap (·.pieces (connInfo l e url (lit "POST")).zlibEnable)

/-- A body that ends inside an object or an element is not answered with OK. -/
def Honest (e : Env) (us : List Upload) (run : Run) : Prop :=
  EndsOpen lib (attributes l url e) ((sent l url e us).flatMap (·.buffer)) →
    ∀ e', ¬ AnswersOk l url e' run

theorem inflated_cons {z : Inflation} {zs : List Inflation}
    (hz : ¬ (z.result.zret ≠ .ok ∧ z.result.zret ≠ .streamEnd)) (hlen : ¬ z.result.output.length = 0) :
    inflated (z :: zs) =
      (z.piece :: if z.result.output.length = zlibChunk then (inflated zs).1 else [],
        decide (z.result.output.length = zlibChunk) && (inflated zs).2) := by
  rw [inflated, if_neg hz, if_neg hlen]
  by_cases hfull : z.result.output.length = zlibChunk <;> simp [hfull]

theorem compressedLoop_cons {e : Env} {z : Inflate} {zs : List Inflate}
    (hz : ¬ (z.zret ≠ .ok ∧ z.zret ≠ .streamEnd)) (hlen : ¬ z.output.length = 0) (calls : ℕ)
    (result : DecodeResult) : compressedLoop e (z :: zs) calls result =
      if (e.decode calls).rc = .ok ∧ z.output.length = zlibChunk then
        (z.output :: (compressedLoop e zs (calls + 1) (e.decode calls)).1,
          (compressedLoop e zs (calls + 1) (e.decode calls)).2)
      else ([z.output], e.decode calls) := by
  rw [compressedLoop, if_neg hz, if_neg hlen]
  by_cases hrc : (e.decode calls).rc = .ok <;>
    by_cases hfull : z.output.length = zlibChunk <;> simp [hrc, hfull]

theorem compressedLoop_answered {lib : Libraries} {props : KeyvalList} {e : Env} (zs : List Inflation)
    {session last : Session} {answers : List Answer}
    (h : decodeAll lib props (inflated zs).1 session = some (last, answers)) (calls : ℕ)
    (hdecode : ∀ k, e.decode (calls + k) = (answers.map decodeResult).getD k ⟨.ok, none, 0⟩)
    (result : DecodeResult) (hresult : result.rc = .ok) :
    (compressedLoop e (zs.map (·.result)) calls result).1 =
        ((inflated zs).1.take answers.length).map (·.buffer) ∧
      ((compressedLoop e (zs.map (·.result)) calls result).2.rc = .ok ↔
        ¬ Refused answers ∧ (inflated zs).2 = false) := by
  induction zs generalizing session answers calls result with
  | nil => simp [compressedLoop, inflated, zlibFailure]
  | cons z zs ih =>
    rw [List.map_cons]
    by_cases hz : z.result.zret ≠ .ok ∧ z.result.zret ≠ .streamEnd
    · rw [inflated, if_pos hz, compressedLoop, if_pos hz]
      refine ⟨by simp, iff_of_false ?_ (by simp)⟩
      dsimp only [zlibFailure]
      split <;> simp
    by_cases hlen : z.result.output.length = 0
    · rw [inflated, if_neg hz, if_pos hlen] at h ⊢
      obtain ⟨-, rfl⟩ := Prod.mk.inj (Option.some.inj h)
      rw [compressedLoop, if_neg hz, if_pos hlen]
      exact ⟨rfl, by simp [hresult]⟩
    rw [inflated_cons hz hlen] at h ⊢
    rw [compressedLoop_cons hz hlen]
    obtain ⟨session', a, -, hcases⟩ := decodeAll_cons h
    have hdecoded : e.decode calls = decodeResult a := by
      rw [← Nat.add_zero calls, hdecode]
      obtain ⟨-, -, rfl⟩ | ⟨-, rest, -, rfl⟩ := hcases <;> rfl
    have hrc' : (e.decode calls).rc = a.rc := by rw [hdecoded]; rfl
    obtain ⟨hrc, -, rfl⟩ | ⟨hrc, rest, hrest, rfl⟩ := hcases
    · rw [if_neg (by simp [hrc', hrc])]
      simp [hrc', hrc, Refused, Inflation.piece]
    · rw [refused_cons_of_ok hrc]
      by_cases hfull : z.result.output.length = zlibChunk
      · rw [if_pos hfull] at hrest
        obtain ⟨hblocks, hok⟩ := ih hrest (calls + 1) (fun k ↦ by
          rw [Nat.add_assoc, Nat.add_comm 1, hdecode]
          rfl) _ (hrc'.trans hrc)
        rw [if_pos ⟨hrc'.trans hrc, hfull⟩]
        dsimp only
        rw [hblocks, hok]
        simp [hfull, Inflation.piece]
      · rw [if_neg hfull] at hrest
        obtain ⟨-, rfl⟩ := Prod.mk.inj (Option.some.inj hrest)
        rw [if_neg fun hboth ↦ hfull hboth.2]
        simp [hfull, hrc', hrc, Inflation.piece]

section Block

variable {l : HttpListener} {url : CStr} {e : Env} {r : Request} {b : Block}

theorem block_setInfo (hb : r.block = some b) (ci : ConnInfo) :
    (r.setInfo ci).block = some { b with info := ci } := by
  unfold Request.block at hb
  cases hcell : r.cell with
  | null | marker => simp [hcell] at hb
  | info id =>
    simp only [hcell] at hb
    simp [Request.setInfo, Request.block, hcell, hb]

theorem cell_ne_null (hb : r.block = some b) : r.cell ≠ .null := by
  intro hcell
  simp [Request.block, hcell] at hb

theorem block_upload (e : Env) (url : CStr) (hs : l.decoder.newSession = true)
    (hb : r.block = some b) {upload : Bytes} (hne : upload ≠ []) : (handleRequest l e url (lit "POST") upload r).1.block =
      if connInfoHasQueueResponse b.info then some b
      else some { b with info :=
        if (postChunk l e upload b).2.2.rc ≠ .ok then
          connInfoQueueResponse b.info (postChunk l e upload b).2.2
        else b.info } := by
  have hpost : strcmp (lit "POST") (lit "POST") = 0 := by decide
  have hlen : upload.length > 0 := List.length_pos_iff.mpr hne
  have hinfo : (postChunk l e upload b).1 = b.info := by
    unfold postChunk
    rw [hs]
    split
    · contradiction
    · split <;> rfl
  have hblock (es : List Event) : (r.log es).block = some b := hb
  rw [handleRequest, if_pos hpost, handlePost, if_neg (cell_ne_null hb), if_pos hlen,
    handleHttpPostChunk]
  simp only [hblock]
  split
  · exact hb
  · have hlogged : ((r.log [.use .handleHttpPostChunk (r.cellGood l)]).log
        (postChunk l e upload b).2.1).block = some b := hb
    rw [hinfo]
    exact block_setInfo hlogged _

theorem answersOk_iff (hs : l.decoder.newSession = true) {session : Session} (hb : r.block = some b)
    (hcode : b.info.httpError.code ≠ mhdHttpOk) :
    AnswersOk l url e ⟨r, session⟩ ↔ b.info.httpError.code = 0 := by
  have hpost : strcmp (lit "POST") (lit "POST") = 0 := by decide
  have hblock (es : List Event) : (r.log es).block = some b := hb
  rw [AnswersOk, handleRequest, if_pos hpost, handlePost, if_neg (cell_ne_null hb),
    if_neg (by simp), handlePostEnd]
  simp only [hblock]
  by_cases hzero : b.info.httpError.code = 0
  · simp [hzero, hs, Request.log]
  · have hne : mhdHttpOk ≠ b.info.httpError.code := hcode.symm
    simp [hzero, Request.log, hne]

end Block

theorem decoderErr2http_error {rc : DecoderCallbackErr} (hrc : rc ≠ .ok) :
    decoderErr2http rc ≠ 0 ∧ decoderErr2http rc ≠ mhdHttpOk := by
  cases rc with
  | ok => exact absurd rfl hrc
  | _ => decide

theorem postChunk_answered {l : HttpListener} {lib : Libraries} {props : KeyvalList} {b : Block}
    (hs : l.decoder.newSession = true) {u : Upload} {session last : Session} {answers : List Answer}
    (h : decodeAll lib props (u.pieces b.info.zlibEnable) session = some (last, answers)) :
    (postChunk l (u.answered answers) u.piece.buffer b).2.2.rc = .ok ↔
      ¬ Refused answers ∧ ¬ u.InflateFails b.info.zlibEnable := by
  unfold postChunk Upload.InflateFails
  simp only [hs, Bool.not_true, Bool.false_eq_true, if_false]
  cases hz : b.info.zlibEnable with
  | true =>
    simp only [Upload.pieces, hz, if_true] at h
    have hloop := (compressedLoop_answered (e := u.answered answers) u.inflations h 0
      (fun k ↦ by rw [Nat.zero_add]; rfl) ⟨.ok, none, 0⟩ rfl).2
    have hinflates : (u.answered answers).inflates = u.inflations.map (·.result) := rfl
    simpa [compressedCallback, hinflates] using hloop
  | false =>
    simp only [Upload.pieces, hz, Bool.false_eq_true, if_false] at h
    obtain ⟨session', a, -, ⟨hrc, -, rfl⟩ | ⟨hrc, rest, hrest, rfl⟩⟩ := decodeAll_cons h
    · simp [Upload.answered, decodeResult, Refused, hrc]
    · obtain ⟨-, rfl⟩ := Prod.mk.inj (Option.some.inj hrest)
      simp [Upload.answered, decodeResult, Refused, hrc]

/-- How far a request has come with a body: `code` is the one kept in its connection. Either all of
it went through the session, or it was refused, or a call of `inflate` failed. -/
inductive Progress (lib : Libraries) (ci : ConnInfo) (us : List Upload) (session : Session) (code : ℕ) :
    Prop
  | taken (hcode : code = 0) (hinflate : ∀ u ∈ us, ¬ u.InflateFails ci.zlibEnable)
      (answers : List Answer) (hok : ¬ Refused answers)
      (h : decodeAll lib ci.decoderParams (us.flatMap (·.pieces ci.zlibEnable))
        (newSession ci.decoderParams) = some (session, answers))
  | refused (hcode : code ≠ 0) (hne : code ≠ mhdHttpOk) (last : Session) (answers : List Answer)
      (hrefused : Refused answers)
      (h : decodeAll lib ci.decoderParams (us.flatMap (·.pieces ci.zlibEnable))
        (newSession ci.decoderParams) = some (last, answers))
  | inflateFailed (hcode : code ≠ 0) (hne : code ≠ mhdHttpOk)
      (h : ∃ u ∈ us, u.InflateFails ci.zlibEnable)

structure Reached (lib : Libraries) (ci : ConnInfo) (us : List Upload) (run : Run) : Prop where
  block : ∃ b, run.request.block = some b ∧ SameConnection ci b.info ∧
    Progress lib ci us run.session b.info.httpError.code

section Runs

variable {l : HttpListener} {lib : Libraries} {url : CStr} {ci : ConnInfo}

theorem Progress.upload {us : List Upload} {session : Session} {code : ℕ}
    (h : Progress lib ci us session code) (hcode : code ≠ 0) (u : Upload) :
    Progress lib ci (us ++ [u]) session code := by
  cases h with
  | taken hzero => exact absurd hzero hcode
  | refused _ hne last answers hrefused h =>
    refine .refused hcode hne last answers hrefused ?_
    rw [List.flatMap_append]
    exact decodeAll_append_of_refused _ h hrefused
  | inflateFailed _ hne h =>
    obtain ⟨u', hu', hfails⟩ := h
    exact .inflateFailed hcode hne ⟨u', List.mem_append_left _ hu', hfails⟩

theorem Progress.decoded {us : List Upload} {u : Upload} {session session' : Session}
    {front answers : List Answer} {code : ℕ} (hinflate : ∀ u ∈ us, ¬ u.InflateFails ci.zlibEnable)
    (hok : ¬ Refused front)
    (hfront : decodeAll lib ci.decoderParams (us.flatMap (·.pieces ci.zlibEnable))
      (newSession ci.decoderParams) = some (session, front))
    (hdecode : decodeAll lib ci.decoderParams (u.pieces ci.zlibEnable) session =
      some (session', answers))
    (hgood : ¬ Refused answers ∧ ¬ u.InflateFails ci.zlibEnable → code = 0)
    (hbad : ¬ (¬ Refused answers ∧ ¬ u.InflateFails ci.zlibEnable) → code ≠ 0 ∧ code ≠ mhdHttpOk) :
    Progress lib ci (us ++ [u]) session' code := by
  have hdecoded : decodeAll lib ci.decoderParams ((us ++ [u]).flatMap (·.pieces ci.zlibEnable))
      (newSession ci.decoderParams) = some (session', front ++ answers) := by
    rw [List.flatMap_append, List.flatMap_singleton]
    exact decodeAll_append hfront hok hdecode
  by_cases hrefused : Refused answers
  · obtain ⟨hcode, hne⟩ := hbad fun h ↦ h.1 hrefused
    obtain ⟨a, ha, hnot⟩ := hrefused
    exact .refused hcode hne _ _ ⟨a, List.mem_append_right _ ha, hnot⟩ hdecoded
  by_cases hfails : u.InflateFails ci.zlibEnable
  · obtain ⟨hcode, hne⟩ := hbad fun h ↦ h.2 hfails
    exact .inflateFailed hcode hne ⟨u, by simp, hfails⟩
  refine .taken (hgood ⟨hrefused, hfails⟩) ?_ _ ?_ hdecoded
  · intro u' hu'
    obtain hu' | hu' := List.mem_append.mp hu'
    · exact hinflate u' hu'
    · rwa [List.mem_singleton.mp hu']
  · rintro ⟨a, ha, hne⟩
    obtain ha | ha := List.mem_append.mp ha
    · exact hok ⟨a, ha, hne⟩
    · exact hrefused ⟨a, ha, hne⟩

theorem Reached.upload (hs : l.decoder.newSession = true) {us : List Upload} {u : Upload}
    {run run' : Run} (h : Reached lib ci us run) (hrun : run.upload l lib url u = some run') :
    Reached lib ci (us ++ [u]) run' := by
  obtain ⟨b, hb, hsame, hprogress⟩ := h.block
  simp only [Run.upload, hb, Option.bind_some] at hrun
  by_cases hq : connInfoHasQueueResponse b.info
  · rw [if_pos hq] at hrun
    obtain rfl := Option.some.inj hrun
    refine ⟨b, ?_, hsame, hprogress.upload (by simpa [connInfoHasQueueResponse] using hq) u⟩
    rw [block_upload _ _ hs hb u.nonempty, if_pos hq]
  · rw [if_neg hq] at hrun
    have hzero : b.info.httpError.code = 0 := by simpa [connInfoHasQueueResponse] using hq
    obtain ⟨⟨session, answers⟩, hdecode, rfl⟩ := Option.map_eq_some_iff.mp hrun
    have hrc := postChunk_answered hs hdecode
    rw [hsame.zlibEnable] at hrc
    rw [hsame.decoderParams, hsame.zlibEnable] at hdecode
    have hblock := block_upload (u.answered answers) url hs hb u.nonempty
    rw [if_neg hq] at hblock
    cases hprogress with
    | refused hcode => exact absurd hzero hcode
    | inflateFailed hcode => exact absurd hzero hcode
    | taken _ hinflate front hok hfront =>
      refine ⟨_, hblock, ?_, .decoded hinflate hok hfront hdecode ?_ ?_⟩
      · split
        · exact ⟨hsame.decoderParams, hsame.zlibEnable, hsame.decoderSess⟩
        · exact hsame
      · intro hgood
        rwa [if_neg (not_not.mpr (hrc.mpr hgood))]
      · intro hbad
        have hne := mt hrc.mp hbad
        rw [if_pos hne]
        exact decoderErr2http_error hne

theorem Reached.uploads (hs : l.decoder.newSession = true) {us done : List Upload} {run run' : Run}
    (h : Reached lib ci done run) (hrun : run.uploads l lib url us = some run') :
    Reached lib ci (done ++ us) run' := by
  induction us generalizing done run with
  | nil =>
    obtain rfl := Option.some.inj hrun
    rwa [List.append_nil]
  | cons u us ih =>
    obtain ⟨run₁, hfirst, hrest⟩ := Option.bind_eq_some_iff.mp hrun
    have hih := ih (h.upload hs hfirst) hrest
    rwa [List.append_assoc] at hih

theorem openRequest_reached (lib : Libraries) {e : Env} {run : Run}
    (h : openRequest l url e = some run) :
    Reached lib (connInfo l e url (lit "POST")) [] run := by
  have hpost : strcmp (lit "POST") (lit "POST") = 0 := by decide
  obtain ⟨b, hb, rfl⟩ := Option.map_eq_some_iff.mp h
  have hinit := @handleHttpPostInit_init l .fresh e url (lit "POST") rfl
  have hfirst : handleRequest l e url (lit "POST") [] .fresh =
      handleHttpPostInit l e url (lit "POST") .fresh := by
    rw [handleRequest, if_pos hpost, handlePost, if_pos (show Request.fresh.cell = .null from rfl)]
  rw [hfirst] at hb ⊢
  generalize (handleHttpPostInit l e url (lit "POST") .fresh).1 = r at hinit hb ⊢
  cases hinit with
  | refused | stuck | rejected => cases hb
  | opened =>
    have hblock : b = ⟨connInfo l e url (lit "POST"), l.decoder.newSession⟩ := by
      simpa [Request.block] using hb.symm
    subst hblock
    refine ⟨_, hb, ⟨rfl, rfl, rfl⟩, .taken ?_ (by simp) [] refused_nil rfl⟩
    rw [(connInfo_kept l e url _).2]

end Runs

theorem buffer_ne_nil_of_mem_inflated {zs : List Inflation} {p : Piece} (hp : p ∈ (inflated zs).1) :
    p.buffer ≠ [] := by
  induction zs with
  | nil => cases hp
  | cons z zs ih =>
    rw [inflated] at hp
    split at hp
    · cases hp
    · split at hp
      · cases hp
      · rename_i hlen
        have hne : z.piece.buffer ≠ [] := by simpa [Inflation.piece] using hlen
        split at hp
        · rwa [List.mem_singleton.mp hp]
        · obtain rfl | hp := List.mem_cons.mp hp
          · exact hne
          · exact ih hp

theorem Upload.buffer_ne_nil {u : Upload} {zlibEnable : Bool} {p : Piece}
    (hp : p ∈ u.pieces zlibEnable) : p.buffer ≠ [] := by
  unfold Upload.pieces at hp
  split at hp
  · exact buffer_ne_nil_of_mem_inflated hp
  · rw [List.mem_singleton.mp hp]
    exact u.nonempty

def zzListener : HttpListener := ⟨zzDecoder 1, none, false⟩

def client (values : List MhdValue) : Env where
  clientAddr := some (lit "10.0.0.1")
  certificate := false
  basicAuth := none
  authTurns := 0
  values := values
  allocated := true
  inflateInit := true
  newSessionRc := 0
  appended := true
  inflates := []
  decode := fun _ ↦ ⟨.ok, none, 0⟩
  queued := .yes

def xmlHeader : MhdValue := ⟨.header, lit "Content-type", some (lit "application/xml")⟩

def plain (buffer : Bytes) (h : buffer ≠ []) : Upload :=
  ⟨client [], ⟨buffer, Decoder.JsonFraming.plentiful, fun _ ↦ true, false⟩, h, []⟩

def plainLibraries : Libraries :=
  ⟨Decoder.JsonFraming.balanced, Decoder.XmlNesting.strictExpat, yajlStyle⟩

theorem exists_dishonest {l : HttpListener} {lib : Libraries} {url : CStr} {e : Env}
    {us : List Upload} {o : Option Run}
    (hopen : EndsOpen lib (attributes l url e) ((sent l url e us).flatMap (·.buffer)))
    (h : o.any (fun run ↦ run.session.Unfinished ∧ AnswersOk l url e run) = true) :
    ∃ run, o = some run ∧ run.session.Unfinished ∧ ¬ Honest l lib url e us run := by
  cases o with
  | none => cases h
  | some run =>
    obtain ⟨hsession, hok⟩ := of_decide_eq_true h
    exact ⟨run, rfl, hsession, fun hhonest ↦ hhonest hopen e hok⟩

end N2Kafka.Listener.TruncatedBody
