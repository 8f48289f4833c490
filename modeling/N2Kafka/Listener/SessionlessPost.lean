import N2Kafka.Listener.PostConnection

namespace N2Kafka.Listener.SessionlessPost

open Lib.CString Decoder.DecoderApi Listener.Connection Listener.Http Listener.PostConnection

/-- A listener whose decoder gets the body as a whole. -/
abbrev SessionlessListener := {l : HttpListener // l.decoder.newSession = false}

structure Upload where
  env : Env
  data : Bytes
  nonempty : data ≠ []

def Upload.call (u : Upload) : Call := ⟨u.env, u.data⟩

/-- A POST request that gets a connection, up to the end of its body. -/
structure Post (l : HttpListener) where
  first : Env
  admitted : Admitted l first
  uploads : List Upload
  last : Env

section Post

variable {l : HttpListener} (p : Post l) (url : CStr)

def Post.beforeEnd : List Call := ⟨p.first, []⟩ :: p.uploads.map Upload.call

def Post.calls : List Call := p.beforeEnd ++ [⟨p.last, []⟩]

def Post.uploaded : Bytes := p.uploads.flatMap (·.data)

/-- The body without its content encoding; `inflate` is what zlib makes of a whole stream. -/
def Post.body (inflate : Bytes → Option Bytes) : Option Bytes :=
  if (connInfo l p.first url (lit "POST")).zlibEnable then inflate p.uploaded else some p.uploaded

end Post

def decodes (trace : List Event) : List Bytes :=
  trace.filterMap fun
    | .decode buffer _ _ => some buffer
    | _ => none

def statuses (trace : List Event) : List ℕ :=
  trace.filterMap fun
    | .respond code _ => some code
    | _ => none

/-- The decoder is called once, at the end, with the whole body, and answers for the request. -/
structure Handled (inflate : Bytes → Option Bytes) (l : HttpListener) (url : CStr) (p : Post l) :
    Prop where
  notBefore : decodes (calls l url (lit "POST") p.beforeEnd .fresh).trace = []
  once : ∃ body, p.body url inflate = some body ∧
    decodes (request l url (lit "POST") p.calls).trace = [body]
  status : statuses (request l url (lit "POST") p.calls).trace =
    [decoderErr2http (p.last.decode 0).rc]

@[simp]
theorem decodes_append (s t : List Event) : decodes (s ++ t) = decodes s ++ decodes t := by
  simp [decodes]

@[simp]
theorem statuses_append (s t : List Event) : statuses (s ++ t) = statuses s ++ statuses t := by
  simp [statuses]

@[simp]
theorem decodes_use (fn : CellUser) (good : Bool) : decodes [.use fn good] = [] := rfl

@[simp]
theorem statuses_use (fn : CellUser) (good : Bool) : statuses [.use fn good] = [] := rfl

theorem connInfo_str (l : HttpListener) (e : Env) (url method : CStr) :
    (connInfo l e url method).str = [] := by
  have hfold (vs : List MhdValue) (ci : ConnInfo) :
      (vs.foldl connectionArgsIterator ci).str = ci.str := by
    induction vs generalizing ci with
    | nil => rfl
    | cons v vs ih =>
      rw [List.foldl_cons, ih, connectionArgsIterator]
      split <;> rfl
  exact hfold _ _

/-- A request whose body is being collected. Once a part could not be appended, the answer is
settled. -/
structure Collecting (r : Request) (data : Bytes) (failed : Bool) : Prop where
  connection : ∃ id ci, r.cell = .info id ∧ r.heap id = some ⟨ci, false⟩ ∧
    if failed then ci.httpError.code = mhdHttpInternalServerError
    else ci.str = data ∧ ci.httpError.code = 0
  stuck : r.stuck = false
  notDecoded : decodes r.trace = []
  notAnswered : statuses r.trace = []

theorem checkEvents_quiet (l : HttpListener) :
    decodes (checkEvents l) = [] ∧ statuses (checkEvents l) = [] := by
  unfold checkEvents certificateEvents passwordEvents
  split <;> split <;> exact ⟨rfl, rfl⟩

theorem inflateEvents_quiet (e : Env) (ci : ConnInfo) (id : ℕ) :
    decodes (inflateEvents e ci id) = [] ∧ statuses (inflateEvents e ci id) = [] := by
  unfold inflateEvents
  split <;> exact ⟨rfl, rfl⟩

theorem handleRequest_post (l : HttpListener) (e : Env) (url : CStr) (upload : Bytes) (r : Request) :
    handleRequest l e url (lit "POST") upload r = handlePost l e url (lit "POST") upload r := by
  rw [handleRequest, if_pos (by decide)]

variable (l : SessionlessListener) (url : CStr)

theorem collecting_first {e : Env} (h : Admitted l.1 e) :
    Collecting (handleRequest l.1 e url (lit "POST") [] .fresh).1 [] false := by
  have hnull : Request.fresh.cell = .null := rfl
  rw [handleRequest_post, handlePost, if_pos hnull]
  have hinit := handleHttpPostInit_init (l := l.1) (r := .fresh) e url (lit "POST") rfl
  generalize (handleHttpPostInit l.1 e url (lit "POST") .fresh).1 = r at hinit
  cases hinit with
  | refused _ _ ha => exact absurd h ha
  | stuck _ _ ha => exact absurd h ha
  | rejected _ hs => exact absurd (fun hn ↦ by simp [l.2] at hn) hs
  | opened _ _ =>
    have hcheck := checkEvents_quiet l.1
    have hinflate := inflateEvents_quiet e (connInfo l.1 e url (lit "POST")) 0
    have hsession : sessionEvents l.1 e 0 = [] := by simp [sessionEvents, l.2]
    refine ⟨⟨_, connInfo l.1 e url (lit "POST"), rfl, ?_, ?_⟩, rfl, ?_, ?_⟩
    · simp [l.2]
    · exact ⟨connInfo_str l.1 e url (lit "POST"), by rw [(connInfo_kept l.1 e url (lit "POST")).2]⟩
    · simp [Request.log, Request.fresh, hsession, hcheck.1, hinflate.1]
    · simp [Request.log, Request.fresh, hsession, hcheck.2, hinflate.2]

theorem Collecting.set {r : Request} {data data' : Bytes} {failed failed' : Bool}
    (h : Collecting r data failed) {id : ℕ} {ci ci' : ConnInfo} (hcell : r.cell = .info id)
    (hheap : r.heap id = some ⟨ci, false⟩) {es : List Event}
    (hes : decodes es = [] ∧ statuses es = [])
    (hstate : if failed' then ci'.httpError.code = mhdHttpInternalServerError
      else ci'.str = data' ∧ ci'.httpError.code = 0) :
    Collecting ((r.log es).setInfo ci') data' failed' := by
  have htrace : ((r.log es).setInfo ci').trace = r.trace ++ es := by
    simp [Request.setInfo, Request.log, hcell]
  refine ⟨⟨id, ci', ?_, ?_, hstate⟩, ?_, ?_, ?_⟩
  · simp [Request.setInfo, Request.log, hcell]
  · simp [Request.setInfo, Request.log, hcell, hheap]
  · simp [Request.setInfo, Request.log, hcell, h.stuck]
  · rw [htrace, decodes_append, h.notDecoded, hes.1, List.append_nil]
  · rw [htrace, statuses_append, h.notAnswered, hes.2, List.append_nil]

theorem Collecting.upload {r : Request} {data : Bytes} {failed : Bool} (h : Collecting r data failed)
    (u : Upload) : Collecting (handleRequest l.1 u.env url (lit "POST") u.data r).1 (data ++ u.data)
      (failed || !u.env.appended) := by
  obtain ⟨id, ci, hcell, hheap, hstate⟩ := h.connection
  have hlen : u.data.length > 0 := List.length_pos_of_ne_nil u.nonempty
  rw [handleRequest_post, handlePost, if_neg (by simp [hcell]), if_pos hlen, handleHttpPostChunk]
  simp only [Request.block_log hcell hheap]
  cases failed with
  | true =>
    have hcode : ci.httpError.code = mhdHttpInternalServerError := hstate
    have hqueued : connInfoHasQueueResponse ci = true := by
      simp [connInfoHasQueueResponse, hcode, mhdHttpInternalServerError]
    rw [if_pos hqueued]
    refine ⟨⟨id, ci, hcell, hheap, hcode⟩, h.stuck, ?_, ?_⟩
    · simp [Request.log, h.notDecoded]
    · simp [Request.log, h.notAnswered]
  | false =>
    obtain ⟨hstr, hcode⟩ : ci.str = data ∧ ci.httpError.code = 0 := hstate
    have hqueued : connInfoHasQueueResponse ci = false := by simp [connInfoHasQueueResponse, hcode]
    rw [if_neg (by simp [hqueued])]
    cases happended : u.env.appended with
    | true =>
      have hpost : postChunk l.1 u.env u.data ⟨ci, false⟩ =
          ({ ci with str := ci.str ++ u.data }, [], ⟨.ok, none, 0⟩) := by
        simp [postChunk, l.2, happended]
      simp only [hpost, ne_eq, not_true_eq_false, if_false, Request.log_log]
      exact h.set hcell hheap ⟨rfl, rfl⟩ ⟨congrArg (· ++ u.data) hstr, hcode⟩
    | false =>
      have hpost : postChunk l.1 u.env u.data ⟨ci, false⟩ = (ci, [], ⟨.memoryError, none, 0⟩) := by
        simp [postChunk, l.2, happended]
      simp only [hpost, ne_eq, reduceCtorEq, not_false_eq_true, if_true, Request.log_log]
      exact h.set hcell hheap ⟨rfl, rfl⟩ rfl

theorem Collecting.uploads {r : Request} {data : Bytes} {failed : Bool}
    (h : Collecting r data failed) (us : List Upload) :
    Collecting (calls l.1 url (lit "POST") (us.map Upload.call) r) (data ++ us.flatMap (·.data))
      (failed || us.any fun u ↦ !u.env.appended) := by
  induction us generalizing r data failed with
  | nil => simpa [calls] using h
  | cons u us ih =>
    have hstep := ih (h.upload l url u)
    have hcalls : calls l.1 url (lit "POST") ((u :: us).map Upload.call) r =
        calls l.1 url (lit "POST") (us.map Upload.call)
          (handleRequest l.1 u.env url (lit "POST") u.data r).1 := by
      rw [List.map_cons, calls, List.foldl_cons]
      simp only [h.stuck, Bool.false_eq_true, if_false]
      rfl
    rw [hcalls, List.flatMap_cons, List.any_cons, ← List.append_assoc, ← Bool.or_assoc]
    exact hstep

theorem collecting_beforeEnd (p : Post l.1) :
    Collecting (calls l.1 url (lit "POST") p.beforeEnd .fresh) p.uploaded
      (p.uploads.any fun u ↦ !u.env.appended) := by
  have h := (collecting_first l url p.admitted).uploads l url p.uploads
  rw [List.nil_append, Bool.false_or] at h
  exact h

theorem Collecting.last {r : Request} {data : Bytes} {failed : Bool} (h : Collecting r data failed)
    (e : Env) : ∃ r', (handleRequest l.1 e url (lit "POST") [] r).1 = r' ∧ r'.stuck = false ∧
      (∃ id b, r'.cell = .info id ∧ r'.heap id = some b) ∧
      decodes r'.trace = (if failed then [] else [data]) ∧
      statuses r'.trace = [if failed then mhdHttpInternalServerError else mhdHttpOk] := by
  obtain ⟨id, ci, hcell, hheap, hstate⟩ := h.connection
  refine ⟨_, rfl, ?_⟩
  rw [handleRequest_post, handlePost, if_neg (by simp [hcell]), if_neg (by simp), handlePostEnd]
  simp only [Request.block_log hcell hheap, l.2, Bool.not_false, if_true]
  cases failed with
  | true =>
    have hcode : ci.httpError.code = mhdHttpInternalServerError := hstate
    rw [if_pos (by simp [hcode, mhdHttpInternalServerError])]
    refine ⟨h.stuck, ⟨id, _, hcell, hheap⟩, ?_, ?_⟩
    · simp only [Request.log, decodes_append, h.notDecoded]
      rfl
    · simp only [Request.log, statuses_append, h.notAnswered, hcode]
      rfl
  | false =>
    obtain ⟨hstr, hcode⟩ : ci.str = data ∧ ci.httpError.code = 0 := hstate
    rw [if_neg (by simp [hcode])]
    refine ⟨h.stuck, ⟨id, _, hcell, hheap⟩, ?_, ?_⟩
    · simp only [Request.log, decodes_append, h.notDecoded, hstr]
      rfl
    · simp only [Request.log, statuses_append, h.notAnswered]
      rfl

theorem requestCompleted_quiet {r : Request} {id : ℕ} {b : Block} (hcell : r.cell = .info id)
    (hheap : r.heap id = some b) : decodes (requestCompleted l.1 r).trace = decodes r.trace ∧
      statuses (requestCompleted l.1 r).trace = statuses r.trace := by
  unfold requestCompleted
  simp only [hcell, Request.log, hheap]
  split <;> split <;> simp [decodes, statuses]

theorem request_trace (p : Post l.1) :
    decodes (request l.1 url (lit "POST") p.calls).trace =
        (if p.uploads.any fun u ↦ !u.env.appended then [] else [p.uploaded]) ∧
      statuses (request l.1 url (lit "POST") p.calls).trace =
        [if p.uploads.any fun u ↦ !u.env.appended then mhdHttpInternalServerError else mhdHttpOk] := by
  have hbefore := collecting_beforeEnd l url p
  obtain ⟨r', hlast, hstuck, ⟨id, b, hcell, hheap⟩, hdecodes, hstatuses⟩ :=
    hbefore.last l url p.last
  have hcalls : calls l.1 url (lit "POST") p.calls .fresh = r' := by
    rw [Post.calls, calls, List.foldl_append]
    show (if (calls l.1 url (lit "POST") p.beforeEnd .fresh).stuck then _ else _) = r'
    rw [hbefore.stuck, if_neg (by simp)]
    exact hlast
  obtain ⟨hd, hs⟩ := requestCompleted_quiet l hcell hheap
  unfold request
  simp only [hcalls, hstuck, Bool.false_eq_true, if_false]
  exact ⟨hd.trans hdecodes, hs.trans hstatuses⟩

theorem decoderErr2http_eq_ok_iff (rc : DecoderCallbackErr) :
    decoderErr2http rc = mhdHttpOk ↔ rc = .ok := by
  cases rc <;> decide

/-- The whole body is decoded, and its result sent, if every part could be stored, if the content
encoding leaves the body as it is, and if there is no error to report. -/
theorem handled_iff (inflate : Bytes → Option Bytes) (p : Post l.1) :
    Handled inflate l.1 url p ↔ (∀ u ∈ p.uploads, u.env.appended = true) ∧
      p.body url inflate = some p.uploaded ∧ (p.last.decode 0).rc = .ok := by
  obtain ⟨hdecodes, hstatuses⟩ := request_trace l url p
  have hany : (p.uploads.any fun u ↦ !u.env.appended) = false ↔
      ∀ u ∈ p.uploads, u.env.appended = true := by simp
  constructor
  · intro h
    obtain ⟨body, hbody, honce⟩ := h.once
    cases hfailed : p.uploads.any fun u ↦ !u.env.appended with
    | true =>
      rw [hdecodes, hfailed] at honce
      cases honce
    | false =>
      have hstatus := h.status
      rw [hstatuses, hfailed, List.singleton_inj] at hstatus
      rw [hdecodes, hfailed] at honce
      refine ⟨hany.mp hfailed, ?_, (decoderErr2http_eq_ok_iff _).mp hstatus.symm⟩
      rw [hbody, List.singleton_inj.mp honce]
  · rintro ⟨happended, hbody, hrc⟩
    have hfailed := hany.mpr happended
    refine ⟨(collecting_beforeEnd l url p).notDecoded, ⟨_, hbody, ?_⟩, ?_⟩
    · rw [hdecodes, hfailed]
      rfl
    · rw [hstatuses, hfailed, (decoderErr2http_eq_ok_iff _).mpr hrc]
      rfl

def dumbListener : SessionlessListener := ⟨⟨dumbDecoder, none, false⟩, rfl⟩

def served (values : List MhdValue) (rc : DecoderCallbackErr) : Env where
  clientAddr := some (lit "10.0.0.1")
  certificate := false
  basicAuth := none
  authTurns := 0
  values := values
  allocated := true
  inflateInit := true
  newSessionRc := 0
  appended := true
  inflates := []
  decode := fun _ ↦ ⟨rc, none, 0⟩
  queued := .yes

theorem admitted_served (values : List MhdValue) (rc : DecoderCallbackErr) :
    Admitted dumbListener.1 (served values rc) := by
  refine ⟨rfl, ?_, ?_, rfl⟩
  · intro h
    cases h
  · intro htpasswd h
    cases h

def testBody : Bytes := ascii "\x7b\"test\":1\x7d"

def testStream : Bytes := [120, 1, 1, 10, 0, 245, 255] ++ testBody ++ [19, 120, 3, 104]

def testPost (values : List MhdValue) (data : Bytes) (hdata : data ≠ []) (rc : DecoderCallbackErr) :
    Post dumbListener.1 :=
  ⟨served values .ok, admitted_served values .ok, [⟨served values .ok, data, hdata⟩],
    served values rc⟩

def compressedPost : Post dumbListener.1 :=
  testPost [⟨.header, lit "Content-Encoding", some (lit "deflate")⟩] testStream (by decide) .ok

def refusedPost : Post dumbListener.1 := testPost [] testBody (by decide) .bufferFull

/-- A compressed body is passed on as it came, and a full buffer is answered with OK. -/
theorem compressed_or_refused_not_handled :
    ¬ Handled (fun w ↦ if w = testStream then some testBody else none) dumbListener.1
        (lit "/v1/data/topic") compressedPost ∧
      ¬ Handled (fun w ↦ if w = testStream then some testBody else none) dumbListener.1
        (lit "/v1/data/topic") refusedPost := by
  constructor
  · intro h
    obtain ⟨body, hbody, honce⟩ := h.once
    rw [(request_trace dumbListener (lit "/v1/data/topic") compressedPost).1] at honce
    have hdecoded : compressedPost.body (lit "/v1/data/topic")
        (fun w ↦ if w = testStream then some testBody else none) = some testBody := by decide
    rw [← Option.some.inj (hdecoded.symm.trans hbody)] at honce
    revert honce
    decide
  · intro h
    have hstatus := h.status
    rw [(request_trace dumbListener (lit "/v1/data/topic") refusedPost).2] at hstatus
    revert hstatus
    decide

end N2Kafka.Listener.SessionlessPost
