import N2Kafka.Listener.Pairing

namespace N2Kafka.Listener.MerakiValidator

open Lib.CString Util.Pairs Decoder.DecoderApi Listener.Connection Listener.Http
open Decoder.Callbacks (Args Answer Parsing zzCallback)
open Listener.Pairing (attrs)

variable {σ : Type*}

/-- The memory from the start of a string on: its terminator, and whatever is behind that. -/
def memoryOf (s : CStr) (behind : Bytes) : Bytes := s.1 ++ 0 :: behind

def strlen (memory : Bytes) (start : ℕ) : Option ℕ :=
  if (0 : UInt8) ∈ memory.drop start then some (strAt (memory.drop start)).1.length else none

def merakiPrefix : CStr := lit "/v1/meraki"

/-- How far behind the start of the URL the response starts: `sizeof` counts the terminator of the
prefix too. -/
def urlValidator (url : CStr) : Option ℕ :=
  if strncmp merakiPrefix url merakiPrefix.1.length ≠ 0 then none
  else some (merakiPrefix.1.length + 1)

/-- There is no answer if an attribute is absent that is compared, a session that is used, or a
terminator that is looked for. -/
def merakiDecode (p : Parsing σ) (behind : Bytes) (a : Args σ) : Option Answer := do
  let httpMethod ← valueof a.attrs (lit "D-HTTP-method") strcmp
  if strcmp httpMethod (lit "GET") = 0 then
    let uri ← valueof a.attrs (lit "D-HTTP-URI") strcmp
    match urlValidator uri with
    | none => return ⟨.resourceNotFound, none⟩
    | some response =>
      let responseSize ← strlen (memoryOf uri behind) response
      return ⟨.ok, some (((memoryOf uri behind).drop response).take responseSize)⟩
  else (zzCallback p a).toOption

structure Get where
  env : Env
  upload : Option Bytes

def queued (r : Request) : Option (ℕ × Option Bytes) :=
  match r.trace.getLast? with
  | some (.respond code body) => some (code, body)
  | _ => none

/-- What the second call of `handle_get` sends, with this memory behind the URI that the decoder
reads. -/
def answer (p : Parsing σ) (uri : CStr) (g : Get) (behind : Bytes) : Option (ℕ × Option Bytes) := do
  let decoded ← merakiDecode p behind
    ⟨g.upload, attrs (.get g.env.values uri g.env.clientAddr g.upload), true, true, none⟩
  let env : Env := { g.env with
    decode _ := ⟨decoded.rc, decoded.response, (decoded.response.getD []).length⟩ }
  queued (handleGet env (g.upload.getD []) { Request.fresh with cell := .marker }).1

def Get.reads (g : Get) (uri key : CStr) : Option CStr :=
  decoderReads g.env.values (lit "GET") uri g.env.clientAddr key

/-- Two requests for one URI get one answer, whatever is behind the URI in the memory: what stands
behind the prefix and a slash, or that there is no such resource. -/
structure UriDecides (p : Parsing σ) (uri : CStr) (g g' : Get) : Prop where
  same : ∀ behind behind', answer p uri g behind = answer p uri g' behind'
  validator : ∀ v, uri.1 = merakiPrefix.1 ++ 47 :: v →
    ∀ behind, answer p uri g behind = some (mhdHttpOk, some v)
  notFound : ¬ merakiPrefix.1 ++ [47] <+: uri.1 →
    ∀ behind, ∃ body, answer p uri g behind = some (mhdHttpNotFound, body)

/-- The decoder reads the method of the request, and an URL that it takes for no more than it is. -/
def Unmistaken (uri : CStr) (g : Get) : Prop :=
  g.reads uri (lit "D-HTTP-method") = some (lit "GET") ∧
    ∃ url, g.reads uri (lit "D-HTTP-URI") = some url ∧
      ((∃ v c, uri.1 = merakiPrefix.1 ++ 47 :: v ∧ url.1 = merakiPrefix.1 ++ c :: v) ∨
        ¬ merakiPrefix.1 ++ [47] <+: uri.1 ∧ ¬ merakiPrefix.1 <+: url.1)

theorem urlValidator_eq (url : CStr) :
    urlValidator url =
      if merakiPrefix.1 <+: url.1 then some (merakiPrefix.1.length + 1) else none := by
  have hstart : strncmp merakiPrefix url merakiPrefix.1.length = 0 ↔ merakiPrefix.1 <+: url.1 := by
    rw [strncmp_eq_zero_iff, List.take_length, List.prefix_iff_eq_take]
  unfold urlValidator
  by_cases h : merakiPrefix.1 <+: url.1
  · rw [if_pos h, if_neg (not_not.mpr (hstart.mpr h))]
  · rw [if_neg h, if_pos (fun e ↦ h (hstart.mp e))]

def response (url : CStr) (behind : Bytes) : Option Bytes :=
  (strlen (memoryOf url behind) (merakiPrefix.1.length + 1)).map fun size ↦
    ((memoryOf url behind).drop (merakiPrefix.1.length + 1)).take size

theorem drop_memoryOf {url : CStr} {rest : Bytes} (h : url.1 = merakiPrefix.1 ++ rest)
    (behind : Bytes) :
    (memoryOf url behind).drop (merakiPrefix.1.length + 1) = (rest ++ 0 :: behind).tail := by
  unfold memoryOf
  rw [h, List.append_assoc, ← List.drop_drop, List.drop_left, List.drop_one]

theorem response_of_cons {url : CStr} {c : UInt8} {v : Bytes} (h : url.1 = merakiPrefix.1 ++ c :: v)
    (behind : Bytes) : response url behind = some v := by
  have hv : (0 : UInt8) ∉ v := by
    intro hmem
    have hurl := url.2
    rw [h] at hurl
    exact hurl (List.mem_append_right _ (List.mem_cons_of_mem c hmem))
  have hdrop : (memoryOf url behind).drop (merakiPrefix.1.length + 1) = v ++ 0 :: behind :=
    drop_memoryOf h behind
  unfold response strlen
  rw [hdrop, if_pos (by simp), strAt_append v behind hv, Option.map_some, List.take_left]

theorem response_of_eq {url : CStr} (h : url.1 = merakiPrefix.1) : response url [] = none := by
  have hdrop : (memoryOf url []).drop (merakiPrefix.1.length + 1) = [] :=
    drop_memoryOf (h.trans (List.append_nil _).symm) []
  unfold response strlen
  rw [hdrop, if_neg List.not_mem_nil, Option.map_none]

theorem merakiDecode_eq (p : Parsing σ) (behind : Bytes) {a : Args σ} (hr : a.response = true)
    (hz : a.responseSize = true)
    (hurl : ∀ url, valueof a.attrs (lit "D-HTTP-URI") strcmp = some url → url.1 ≠ merakiPrefix.1) :
    merakiDecode p behind a = (Decoder.Callbacks.merakiDecode p a).toOption := by
  have hsame : merakiPrefix.1 = Decoder.Callbacks.merakiPrefix := by decide
  unfold merakiDecode Decoder.Callbacks.merakiDecode
  cases valueof a.attrs (lit "D-HTTP-method") strcmp with
  | none => rfl
  | some method =>
    simp only [Option.bind_eq_bind, Option.bind_some]
    by_cases hget : strcmp method (lit "GET") = 0
    · rw [if_pos hget, if_pos hget]
      cases huri : valueof a.attrs (lit "D-HTTP-URI") strcmp with
      | none => rfl
      | some url =>
        simp only [Option.bind_some, urlValidator_eq, Decoder.Callbacks.urlValidator, ← hsame,
          List.isPrefixOf_iff_prefix]
        by_cases hstart : merakiPrefix.1 <+: url.1
        · obtain ⟨rest, hrest⟩ := hstart
          cases rest with
          | nil => exact absurd (hrest.symm.trans (List.append_nil _)) (hurl url huri)
          | cons c v =>
            have hdrop : url.1.drop (merakiPrefix.1.length + 1) = v := by
              rw [← hrest, ← List.drop_drop, List.drop_left, List.drop_one, List.tail_cons]
            have hresponse := response_of_cons hrest.symm behind
            obtain ⟨size, hsize, htext⟩ := Option.map_eq_some_iff.mp hresponse
            simp only [if_pos (show merakiPrefix.1 <+: url.1 from ⟨c :: v, hrest⟩)]
            rw [hsize, hdrop, Option.bind_some, htext]
            simp only [Args.answer, hr, hz]
            rfl
        · simp only [if_neg hstart, hr]
          rfl
    · rw [if_neg hget, if_neg hget]

theorem zzCallback_get (p : Parsing σ) (a : Args σ) {method : CStr}
    (hmethod : valueof a.attrs (lit "D-HTTP-method") strcmp = some method)
    (hsession : a.session = none) :
    (zzCallback p a).toOption =
      if method = lit "POST" then none else some ⟨.httpMethodNotAllowed, none⟩ := by
  have hallowed : Decoder.ZzParser.methodAllowed a.attrs = decide (method = lit "POST") := by
    unfold Decoder.ZzParser.methodAllowed
    rw [hmethod]
    simp only [strcmp_eq_zero_iff, eq_comm (b := method)]
  unfold zzCallback
  rw [hallowed, hsession]
  by_cases h : method = lit "POST"
  · rw [if_pos h, decide_eq_true h]
    cases a.buffer with
    | none => rfl
    | some buffer => rfl
  · rw [if_neg h, decide_eq_false h]
    rfl

theorem answer_eq (p : Parsing σ) (uri : CStr) (g : Get) (behind : Bytes) :
    answer p uri g behind = (g.reads uri (lit "D-HTTP-method")).bind fun method ↦
      if method = lit "GET" then
        (g.reads uri (lit "D-HTTP-URI")).bind fun url ↦
          if merakiPrefix.1 <+: url.1 then (response url behind).map (mhdHttpOk, some ·)
          else some (mhdHttpNotFound, none)
      else if method = lit "POST" then none
      else some (mhdHttpMethodNotAllowed, none) := by
  have hreads (key : CStr) : valueof (attrs (.get g.env.values uri g.env.clientAddr g.upload)) key
      strcmp = g.reads uri key := rfl
  unfold answer merakiDecode
  simp only [hreads]
  cases hmethod : g.reads uri (lit "D-HTTP-method") with
  | none => rfl
  | some method =>
    simp only [Option.bind_eq_bind, Option.bind_some, strcmp_eq_zero_iff]
    by_cases hget : method = lit "GET"
    · simp only [if_pos hget]
      cases huri : g.reads uri (lit "D-HTTP-URI") with
      | none => rfl
      | some url =>
        simp only [Option.bind_some, urlValidator_eq]
        by_cases hstart : merakiPrefix.1 <+: url.1
        · simp only [if_pos hstart]
          unfold response
          cases strlen (memoryOf url behind) (merakiPrefix.1.length + 1) with
          | none => rfl
          | some size => rfl
        · simp only [if_neg hstart]
          rfl
    · simp only [if_neg hget]
      rw [zzCallback_get p ⟨g.upload, attrs (.get g.env.values uri g.env.clientAddr g.upload), true,
        true, none⟩ ((hreads _).trans hmethod) rfl]
      split_ifs
      · rfl
      · rfl

variable {p : Parsing σ} {uri : CStr} {g : Get}

theorem answer_of_get {url : CStr} (hmethod : g.reads uri (lit "D-HTTP-method") = some (lit "GET"))
    (huri : g.reads uri (lit "D-HTTP-URI") = some url) (behind : Bytes) :
    answer p uri g behind =
      if merakiPrefix.1 <+: url.1 then (response url behind).map (mhdHttpOk, some ·)
      else some (mhdHttpNotFound, none) := by
  rw [answer_eq, hmethod, Option.bind_some, if_pos rfl, huri, Option.bind_some]

theorem reads_of_answer {behind : Bytes} {code : ℕ} {body : Option Bytes}
    (h : answer p uri g behind = some (code, body)) (hcode : code ≠ mhdHttpMethodNotAllowed) :
    g.reads uri (lit "D-HTTP-method") = some (lit "GET") ∧
      ∃ url, g.reads uri (lit "D-HTTP-URI") = some url := by
  rw [answer_eq] at h
  obtain ⟨method, hmethod, h⟩ := Option.bind_eq_some_iff.mp h
  split_ifs at h with hget hpost
  · obtain ⟨url, huri, -⟩ := Option.bind_eq_some_iff.mp h
    exact ⟨hmethod.trans (congrArg some hget), url, huri⟩
  · exact absurd (congrArg Prod.fst (Option.some.inj h)).symm hcode

theorem answer_validator_iff {v : Bytes} :
    (∀ behind, answer p uri g behind = some (mhdHttpOk, some v)) ↔
      g.reads uri (lit "D-HTTP-method") = some (lit "GET") ∧
        ∃ url c, g.reads uri (lit "D-HTTP-URI") = some url ∧ url.1 = merakiPrefix.1 ++ c :: v := by
  constructor
  · intro h
    obtain ⟨hmethod, url, huri⟩ := reads_of_answer (h []) (by decide)
    refine ⟨hmethod, url, ?_⟩
    have hnil := h []
    rw [answer_of_get hmethod huri] at hnil
    have hstart : merakiPrefix.1 <+: url.1 := by
      by_contra hstart
      rw [if_neg hstart] at hnil
      have hne : mhdHttpNotFound ≠ mhdHttpOk := by decide
      exact hne (congrArg Prod.fst (Option.some.inj hnil))
    rw [if_pos hstart] at hnil
    obtain ⟨rest, hrest⟩ := hstart
    cases rest with
    | nil =>
      rw [response_of_eq (hrest.symm.trans (List.append_nil _))] at hnil
      cases hnil
    | cons c rest =>
      rw [response_of_cons hrest.symm] at hnil
      obtain rfl : rest = v := by simpa using hnil
      exact ⟨c, huri, hrest.symm⟩
  · intro ⟨hmethod, url, c, huri, hurl⟩ behind
    rw [answer_of_get hmethod huri, if_pos ⟨c :: v, hurl.symm⟩, response_of_cons hurl]
    rfl

theorem answer_notFound_iff {behind : Bytes} :
    (∃ body, answer p uri g behind = some (mhdHttpNotFound, body)) ↔
      g.reads uri (lit "D-HTTP-method") = some (lit "GET") ∧
        ∃ url, g.reads uri (lit "D-HTTP-URI") = some url ∧ ¬ merakiPrefix.1 <+: url.1 := by
  constructor
  · intro ⟨body, h⟩
    obtain ⟨hmethod, url, huri⟩ := reads_of_answer h (by decide)
    refine ⟨hmethod, url, huri, ?_⟩
    intro hstart
    rw [answer_of_get hmethod huri, if_pos hstart] at h
    obtain ⟨text, -, htext⟩ := Option.map_eq_some_iff.mp h
    have hne : mhdHttpOk ≠ mhdHttpNotFound := by decide
    exact hne (congrArg Prod.fst htext)
  · intro ⟨hmethod, url, huri, hstart⟩
    exact ⟨none, by rw [answer_of_get hmethod huri, if_neg hstart]⟩

theorem prefix_slash_iff {l : Bytes} :
    merakiPrefix.1 ++ [47] <+: l ↔ ∃ v, l = merakiPrefix.1 ++ 47 :: v := by
  constructor
  · intro ⟨v, hv⟩
    exact ⟨v, by rw [← hv, List.append_assoc, List.singleton_append]⟩
  · intro ⟨v, hv⟩
    exact ⟨v, by rw [hv, List.append_assoc, List.singleton_append]⟩

theorem unmistaken_validator_iff {v : Bytes} (huri : uri.1 = merakiPrefix.1 ++ 47 :: v) :
    Unmistaken uri g ↔ ∀ behind, answer p uri g behind = some (mhdHttpOk, some v) := by
  rw [answer_validator_iff]
  constructor
  · intro ⟨hmethod, url, hurl, halike⟩
    obtain ⟨w, c, hw, hc⟩ | ⟨hno, -⟩ := halike
    · obtain rfl : w = v := by simpa using hw.symm.trans huri
      exact ⟨hmethod, url, c, hurl, hc⟩
    · exact absurd (prefix_slash_iff.mpr ⟨v, huri⟩) hno
  · intro ⟨hmethod, url, c, hurl, hc⟩
    exact ⟨hmethod, url, hurl, .inl ⟨v, c, huri, hc⟩⟩

theorem unmistaken_notFound_iff (huri : ¬ merakiPrefix.1 ++ [47] <+: uri.1) (behind : Bytes) :
    Unmistaken uri g ↔ ∃ body, answer p uri g behind = some (mhdHttpNotFound, body) := by
  rw [answer_notFound_iff]
  constructor
  · intro ⟨hmethod, url, hurl, halike⟩
    obtain ⟨v, _, hv, -⟩ | ⟨-, hno⟩ := halike
    · exact absurd (prefix_slash_iff.mpr ⟨v, hv⟩) huri
    · exact ⟨hmethod, url, hurl, hno⟩
  · intro ⟨hmethod, url, hurl, hno⟩
    exact ⟨hmethod, url, hurl, .inr ⟨huri, hno⟩⟩

theorem body_of_notFound {behind : Bytes} {body : Option Bytes}
    (h : answer p uri g behind = some (mhdHttpNotFound, body)) : body = none := by
  obtain ⟨hmethod, url, huri, hstart⟩ := answer_notFound_iff.mp ⟨body, h⟩
  rw [answer_of_get hmethod huri, if_neg hstart] at h
  exact (congrArg Prod.snd (Option.some.inj h)).symm

/-- Two requests for a URI get the answer of the URI exactly if the decoder mistakes it in neither. -/
theorem uriDecides_iff (p : Parsing σ) (uri : CStr) (g g' : Get) :
    UriDecides p uri g g' ↔ Unmistaken uri g ∧ Unmistaken uri g' := by
  by_cases huri : merakiPrefix.1 ++ [47] <+: uri.1
  · obtain ⟨v, hv⟩ := prefix_slash_iff.mp huri
    rw [unmistaken_validator_iff (p := p) hv, unmistaken_validator_iff (p := p) hv]
    constructor
    · intro h
      refine ⟨h.validator v hv, ?_⟩
      intro behind
      rw [← h.same [] behind]
      exact h.validator v hv []
    · intro ⟨h, h'⟩
      refine ⟨fun behind behind' ↦ (h behind).trans (h' behind').symm, ?_, absurd huri⟩
      intro w hw
      obtain rfl : v = w := by simpa using hv.symm.trans hw
      exact h
  · constructor
    · intro h
      have hbody := h.notFound huri []
      refine ⟨(unmistaken_notFound_iff (p := p) huri []).mpr hbody, ?_⟩
      apply (unmistaken_notFound_iff (p := p) huri []).mpr
      rw [← h.same [] []]
      exact hbody
    · intro ⟨h, h'⟩
      have hnone {f : Get} (hf : Unmistaken uri f) (behind : Bytes) :
          answer p uri f behind = some (mhdHttpNotFound, none) := by
        obtain ⟨body, hbody⟩ := (unmistaken_notFound_iff huri behind).mp hf
        rw [hbody, body_of_notFound hbody]
      refine ⟨fun behind behind' ↦ (hnone h behind).trans (hnone h' behind').symm, ?_, ?_⟩
      · intro v hv
        exact absurd (prefix_slash_iff.mpr ⟨v, hv⟩) huri
      · exact fun _ behind ↦ ⟨none, hnone h behind⟩

theorem unmistaken_own_iff
    (h : Unforged g.env.values (lit "GET") uri g.env.clientAddr) :
    Unmistaken uri g ↔ (merakiPrefix.1 <+: uri.1 → merakiPrefix.1 ++ [47] <+: uri.1) := by
  have hreads := (decoderReads_own_iff _ _ _ _).mpr h
  have hmethod : g.reads uri (lit "D-HTTP-method") = some (lit "GET") :=
    hreads ⟨lit "D-HTTP-method", some (lit "GET")⟩ (.head _)
  have huri : g.reads uri (lit "D-HTTP-URI") = some uri :=
    hreads ⟨lit "D-HTTP-URI", some uri⟩ (.tail _ (.head _))
  constructor
  · intro ⟨_, url, hurl, halike⟩ hstart
    obtain rfl := Option.some.inj (huri.symm.trans hurl)
    obtain ⟨v, _, hv, -⟩ | ⟨-, hno⟩ := halike
    · exact prefix_slash_iff.mpr ⟨v, hv⟩
    · exact absurd hstart hno
  · intro hslash
    refine ⟨hmethod, uri, huri, ?_⟩
    by_cases hstart : merakiPrefix.1 <+: uri.1
    · obtain ⟨v, hv⟩ := prefix_slash_iff.mp (hslash hstart)
      exact .inl ⟨v, 47, hv, hv⟩
    · exact .inr ⟨fun e ↦ hstart ((List.prefix_append _ _).trans e), hstart⟩

def plainGet : Get where
  env := {
    clientAddr := some (lit "10.0.0.1"), certificate := true, basicAuth := none, authTurns := 0,
    values := [], allocated := true, inflateInit := true, newSessionRc := 0, appended := true,
    inflates := [], decode := fun _ ↦ ⟨.ok, none, 0⟩, queued := .yes }
  upload := none

/-- The bytes behind the URI are sent. -/
theorem bare_prefix_leaks :
    answer Pairing.quietParsing (lit "/v1/meraki") plainGet [115, 101, 99, 0] =
        some (mhdHttpOk, some [115, 101, 99]) ∧
      ¬ UriDecides Pairing.quietParsing (lit "/v1/meraki") plainGet plainGet := by
  have hsecret : answer Pairing.quietParsing (lit "/v1/meraki") plainGet [115, 101, 99, 0] =
      some (mhdHttpOk, some [115, 101, 99]) := by decide
  have hempty : answer Pairing.quietParsing (lit "/v1/meraki") plainGet [0] =
      some (mhdHttpOk, some []) := by decide
  refine ⟨hsecret, ?_⟩
  intro h
  have hsame := h.same [115, 101, 99, 0] [0]
  rw [hsecret, hempty] at hsame
  cases hsame

end N2Kafka.Listener.MerakiValidator
