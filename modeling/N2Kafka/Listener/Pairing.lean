import Mathlib.Data.PNat.Notation
import N2Kafka.Decoder.Callbacks
import N2Kafka.Engine.GlobalConfig
import N2Kafka.Listener.PostConnection
import N2Kafka.Listener.RequestGate

namespace N2Kafka.Listener.Pairing

open Lib.CString Lib.Jansson Util.Pairs Decoder.DecoderApi Decoder.ZzParser Decoder.ZzDecoder
  Decoder.Callbacks Engine.GlobalConfig Listener.Connection Listener.Http Listener.PostConnection

variable {σ : Type*}

def sizeAlignTo (size alignment : ℕ) : ℕ :=
  if size % alignment = 0 then size else (size / alignment + 1) * alignment

/-- Alignment to 128 bits. -/
def zzSessionSize (sizeofZzSession : ℕ+) : ℕ := sizeAlignTo sizeofZzSession 16

def n2kDecoder (size : ℕ+) : Engine.GlobalConfig.Decoder → N2kDecoder
  | .dumb => dumbDecoder
  | .meraki => merakiDecoder (zzSessionSize size)
  | .zz => zzDecoder (zzSessionSize size)

/-- What makes a listener call its decoder: a GET, a block of a POST body (the whole body if the
decoder has no sessions), or data on a socket. -/
inductive Reception
  | get (values : List MhdValue) (uri : CStr) (client : Option CStr) (upload : Option Bytes)
  | post (values : List MhdValue) (uri : CStr) (client : CStr) (body : Bytes)
  | socket (client : CStr) (data : Bytes)

def Received : ListenerFactory → Reception → Prop
  | .http, .get .. | .http, .post .. => True
  | .tcp, .socket .. | .udp, .socket .. => True
  | _, _ => False

def attrs : Reception → KeyvalList
  | .get values uri client _ => (decoderOpts values (lit "GET") uri client zeroed).decoderParams
  | .post values uri client _ =>
    (decoderOpts values (lit "POST") uri (some client) zeroed).decoderParams
  | .socket client _ => [⟨lit "client_ip", some client⟩]

def args (d : N2kDecoder) (session : ZzSession σ) (r : Reception) : Args σ :=
  match r with
  | .get _ _ _ upload => ⟨upload, attrs r, true, true, none⟩
  | .post _ _ _ body =>
    if d.newSession then
      ⟨some body, attrs r, true, true, if d.sessionSize.getD 0 ≠ 0 then some session else none⟩
    else ⟨if body = [] then none else some body, attrs r, false, false, none⟩
  | .socket _ data => ⟨some data, attrs r, false, false, none⟩

def listenerDecode (kafka : Kafka) (p : Parsing σ) (d : Engine.GlobalConfig.Decoder) (a : Args σ) :
    Except Absent Answer :=
  match d with
  | .dumb => dumbDecode kafka a
  | .meraki => merakiDecode p a
  | .zz => zzCallback p a

def methodOf (r : Reception) : Option CStr := valueof (attrs r) (lit "D-HTTP-method") strcmp

def uriOf (r : Reception) : Option CStr := valueof (attrs r) (lit "D-HTTP-URI") strcmp

/-- What the decoder needs is there: on a GET the method it reads is not POST; a decoder without
sessions is not refused by rdkafka when it cannot answer; a session decoder is not behind a socket. -/
def Supplied (kafka : Kafka) : Engine.GlobalConfig.Decoder → Reception → Prop
  | .dumb, .get .. => True
  | .dumb, .post .. | .dumb, .socket .. => kafka.topic = true ∧ kafka.refused = none
  | .zz, .get values uri client upload =>
    ∃ m, methodOf (.get values uri client upload) = some m ∧ m ≠ lit "POST"
  | .zz, .post .. => True
  | .zz, .socket .. => False
  | .meraki, .get values uri client upload =>
    ∃ m, methodOf (.get values uri client upload) = some m ∧ m ≠ lit "POST" ∧
      (m = lit "GET" → (uriOf (.get values uri client upload)).isSome)
  | .meraki, .post values uri client body =>
    ∃ m, methodOf (.post values uri client body) = some m ∧
      (m = lit "GET" → (uriOf (.post values uri client body)).isSome)
  | .meraki, .socket .. => False

theorem sizeAlignTo_pos (size : ℕ+) : 0 < zzSessionSize size := by
  unfold zzSessionSize sizeAlignTo
  split
  · exact size.2
  · exact Nat.mul_pos (Nat.succ_pos _) (Nat.succ_pos _)

theorem attrs_args (d : N2kDecoder) (session : ZzSession σ) (r : Reception) :
    (args d session r).attrs = attrs r := by
  cases r with
  | post => simp only [args]; split <;> rfl
  | _ => rfl

theorem methodOf_socket (client : CStr) (data : Bytes) : methodOf (.socket client data) = none := by
  have hne : lit "D-HTTP-method" ≠ lit "client_ip" := by decide
  simp [methodOf, attrs, valueof, hne]

theorem methodAllowed_iff (attrs : KeyvalList) : methodAllowed attrs = true ↔
    ∀ m, valueof attrs (lit "D-HTTP-method") strcmp = some m → m = lit "POST" := by
  unfold methodAllowed
  cases valueof attrs (lit "D-HTTP-method") strcmp with
  | none => simp
  | some m =>
    simp only [decide_eq_true_eq, strcmp_eq_zero_iff, Option.some.injEq, forall_eq']
    exact eq_comm

theorem merakiDecode_ok_iff {p : Parsing σ} {a : Args σ} (hr : a.response = true)
    (hz : a.responseSize = true) :
    (∃ answer, merakiDecode p a = .ok answer) ↔
      ∃ m, valueof a.attrs (lit "D-HTTP-method") strcmp = some m ∧
        (m = lit "GET" → (valueof a.attrs (lit "D-HTTP-URI") strcmp).isSome) ∧
        (m = lit "POST" → a.buffer.isSome ∧ a.session.isSome) := by
  have hzz := zzCallback_ok_iff (p := p) (a := a) fun _ ↦ ⟨hr, hz⟩
  have hne : lit "GET" ≠ lit "POST" := by decide
  unfold merakiDecode
  cases hm : valueof a.attrs (lit "D-HTTP-method") strcmp with
  | none => simp
  | some m =>
    rcases eq_or_ne m (lit "GET") with rfl | hget
    · simp only [(strcmp_eq_zero_iff _ _).mpr rfl, if_true]
      cases valueof a.attrs (lit "D-HTTP-URI") strcmp with
      | none => simp
      | some uri =>
        refine iff_of_true ?_ ⟨_, rfl, by simp, fun h ↦ absurd h hne⟩
        simp only
        cases urlValidator uri with
        | none => simp [hr]
        | some text => exact answer_ok_iff.mpr ⟨hr, hz⟩
    · rw [methodAllowed_iff, hm] at hzz
      simp only [strcmp_eq_zero_iff, if_neg hget, hzz]
      simp [hget]

/-- Whatever is received, the decoder callback uses nothing that its listener has left out exactly if
what it needs is supplied. -/
theorem supplied_iff (size : ℕ+) (kafka : Kafka) (p : Parsing σ) (session : ZzSession σ)
    (d : Engine.GlobalConfig.Decoder) (r : Reception) :
    (∃ answer, listenerDecode kafka p d (args (n2kDecoder size d) session r) = .ok answer) ↔
      Supplied kafka d r := by
  have hsize : zzSessionSize size ≠ 0 := (sizeAlignTo_pos size).ne'
  cases d with
  | dumb =>
    simp only [listenerDecode, dumbDecode_ok_iff]
    cases r with
    | get => simp [args, Supplied]
    | post => simp [args, Supplied, n2kDecoder, dumbDecoder]
    | socket => simp [args, Supplied]
  | zz =>
    simp only [listenerDecode]
    cases r with
    | get values uri client upload =>
      rw [zzCallback_ok_iff (by simp [args]), methodAllowed_iff, attrs_args]
      simp only [args, Supplied, methodOf, Option.isSome_none, Bool.false_eq_true, and_false,
        imp_false, not_forall, exists_prop]
    | post values uri client body =>
      rw [zzCallback_ok_iff (by simp [args, n2kDecoder, zzDecoder])]
      simp [args, Supplied, n2kDecoder, zzDecoder, hsize]
    | socket client data =>
      rw [zzCallback_ok_iff (by simp [args]), methodAllowed_iff, attrs_args, ← methodOf,
        methodOf_socket]
      simp [args, Supplied]
  | meraki =>
    simp only [listenerDecode]
    cases r with
    | get values uri client upload =>
      rw [merakiDecode_ok_iff rfl rfl, attrs_args]
      simp only [args, Supplied, methodOf, uriOf, Option.isSome_none, Bool.false_eq_true, and_false,
        imp_false, ne_eq, and_comm (a := ¬ _ = lit "POST")]
    | post values uri client body =>
      have hargs : args (n2kDecoder size .meraki) session (.post values uri client body) =
          ⟨some body, attrs (.post values uri client body), true, true, some session⟩ := by
        simp [args, n2kDecoder, merakiDecoder, hsize]
      rw [hargs, merakiDecode_ok_iff rfl rfl]
      simp only [Supplied, methodOf, uriOf, Option.isSome_some, and_self, implies_true, and_true]
    | socket client data =>
      rw [merakiDecode, attrs_args, ← methodOf, methodOf_socket]
      simp [Supplied]

structure PresenceInv (l : HttpListener) (r : Request) : Prop where
  cell : r.cell = .null ∨ ∃ id b, r.cell = .info id ∧ r.heap id = some b ∧
    b.info.decoderSess = decide (l.decoder.sessionSize.getD 0 ≠ 0)
  decodes : ∀ buffer response session, .decode buffer response session ∈ r.trace →
    response = l.decoder.newSession ∧
      session = (l.decoder.newSession && decide (l.decoder.sessionSize.getD 0 ≠ 0))

theorem Check.not_decode {es : List Event} (h : ∀ ev ∈ es, Check ev) (buffer : Bytes)
    (response session : Bool) : .decode buffer response session ∉ es :=
  fun hm ↦ h _ hm

theorem PresenceInv.init {l : HttpListener} {e : Env} {url method : CStr} {r r' : Request}
    (h : PresenceInv l r) (hcell : r.cell = .null) (hi : Init l e url method r r') :
    PresenceInv l r' := by
  have hmade : ∀ buffer response session, .decode buffer response session ∈ r.trace ++
        (checkEvents l ++ inflateEvents e (connInfo l e url method) r.next ++
          sessionEvents l e r.next) →
      .decode buffer response session ∈ r.trace := by
    intro buffer response session hm
    unfold inflateEvents sessionEvents at hm
    have hnot := Check.not_decode (check_checkEvents l) buffer response session
    simp only [List.mem_append, hnot, false_or] at hm
    obtain hm | hm | hm := hm
    · exact hm
    · split at hm <;> simp at hm
    · split at hm <;> simp at hm
  have hchecked : ∀ es : List Event, (∀ ev ∈ es, Check ev) → ∀ buffer response session,
      .decode buffer response session ∈ r.trace ++ es → .decode buffer response session ∈ r.trace := by
    intro es hes buffer response session hm
    cases List.mem_append.mp hm with
    | inl hm => exact hm
    | inr hm => exact absurd hm (Check.not_decode hes buffer response session)
  cases hi with
  | refused es hes =>
    exact ⟨.inl hcell, fun b x y hm ↦ h.decodes b x y (hchecked es hes b x y hm)⟩
  | stuck es hes =>
    exact ⟨.inl hcell, fun b x y hm ↦ h.decodes b x y (hchecked es hes b x y hm)⟩
  | rejected => exact ⟨.inl hcell, fun b x y hm ↦ h.decodes b x y (hmade b x y hm)⟩
  | opened =>
    refine ⟨.inr ⟨r.next, _, rfl, Function.update_self .., (connInfo_kept l e url method).1⟩, ?_⟩
    exact fun b x y hm ↦ h.decodes b x y (hmade b x y hm)

theorem PresenceInv.served {l : HttpListener} {r r' : Request} {id : ℕ} {b : Block}
    (h : PresenceInv l r) (hcell : r.cell = .info id)
    (hsess : b.info.decoderSess = decide (l.decoder.sessionSize.getD 0 ≠ 0))
    (hs : Served l r id b r') : PresenceInv l r' := by
  obtain ⟨fn, es, htrace, hes⟩ := hs.trace
  obtain ⟨ci, hsame, hheap⟩ := hs.heap
  constructor
  · refine .inr ⟨id, ⟨ci, b.session⟩, hs.cell.trans hcell, ?_, hsame.decoderSess.trans hsess⟩
    exact hheap ▸ Function.update_self ..
  · intro buffer response session hm
    rw [htrace] at hm
    obtain hm | hm := List.mem_append.mp hm
    · exact h.decodes buffer response session hm
    · obtain hm | hm := List.mem_cons.mp hm
      · cases hm
      · exact hsess ▸ hes _ hm

theorem calls_presence (l : HttpListener) (url : CStr) (cs : List Http.Call) :
    PresenceInv l (calls l url (lit "POST") cs .fresh) := by
  induction cs using List.reverseRecOn with
  | nil => exact ⟨.inl rfl, by simp [calls, Request.fresh]⟩
  | append_singleton cs c ih =>
    rw [RequestGate.calls_concat]
    split
    · exact ih
    · rw [RequestGate.handleRequest_post rfl]
      have hcell : (calls l url (lit "POST") cs .fresh).cell = .null ∨ ∃ id b,
          (calls l url (lit "POST") cs .fresh).cell = .info id ∧
            (calls l url (lit "POST") cs .fresh).heap id = some b := by
        obtain hn | ⟨id, b, hc, hb, -⟩ := ih.cell
        · exact .inl hn
        · exact .inr ⟨id, b, hc, hb⟩
      obtain ⟨hc, hi⟩ | ⟨id, b, hc, hb, hs⟩ :=
        handlePost_cases l c.env url (lit "POST") c.upload hcell
      · exact ih.init hc hi
      · obtain hn | ⟨id', b', hc', hb', hsess⟩ := ih.cell
        · simp [hc] at hn
        · rw [hc, ConCls.info.injEq] at hc'
          rw [← hc', hb, Option.some.injEq] at hb'
          exact ih.served hc (hb' ▸ hsess) hs

theorem http_decode_args (size : ℕ+) (d : Engine.GlobalConfig.Decoder) (session : ZzSession σ)
    (l : HttpListener) (hl : l.decoder = n2kDecoder size d) (url method : CStr) (cs : List Http.Call)
    {buffer : Bytes} {response given : Bool}
    (h : .decode buffer response given ∈ (request l url method cs).trace) :
    (method = lit "POST" ∧ ∀ values uri client body,
      response = (args (n2kDecoder size d) session (.post values uri client body)).response ∧
      given = (args (n2kDecoder size d) session (.post values uri client body)).session.isSome) ∨
    (method = lit "GET" ∧ ∀ values uri client upload,
      response = (args (n2kDecoder size d) session (.get values uri client upload)).response ∧
      given = (args (n2kDecoder size d) session (.get values uri client upload)).session.isSome) := by
  rcases eq_or_ne method (lit "POST") with rfl | hpost
  · have hcalls : .decode buffer response given ∈ (calls l url (lit "POST") cs .fresh).trace := by
      rcases RequestGate.request_post (l := l) rfl url cs with ⟨htr, -⟩ | ⟨id, b, -, htr⟩
      · rwa [htr] at h
      · rw [htr] at h
        cases b <;> cases l.decoder.newSession <;> simpa using h
    obtain ⟨hresponse, hgiven⟩ := (calls_presence l url cs).decodes _ _ _ hcalls
    refine .inl ⟨rfl, fun values uri client body ↦ ?_⟩
    have hsize : zzSessionSize size ≠ 0 := (sizeAlignTo_pos size).ne'
    rw [hresponse, hgiven, hl]
    cases d <;>
      simp [args, n2kDecoder, dumbDecoder, merakiDecoder, zzDecoder, hsize]
  · rcases eq_or_ne method (lit "GET") with rfl | hget
    · obtain ⟨es, htr, hes⟩ := RequestGate.request_get (l := l) rfl url cs
      rw [htr] at h
      cases List.mem_append.mp h with
      | inl hcalls =>
        refine .inr ⟨rfl, fun _ _ _ _ ↦ ?_⟩
        obtain ⟨_, he⟩ | ⟨_, _, he⟩ := (RequestGate.calls_get (l := l) rfl url cs).events _ hcalls
        · cases he
          exact ⟨rfl, rfl⟩
        · cases he
      | inr hm => exact absurd hm (hes _ _ _)
    · obtain ⟨_, _, he⟩ := RequestGate.request_other (l := l) hpost hget url cs _ h
      cases he

/-- `parse_listener` takes the entry and makes a listener of this kind with this decoder. -/
def ParsedAs (world : World) (index : ℕ) (config : Json) (f : ListenerFactory)
    (d : Engine.GlobalConfig.Decoder) : Prop :=
  (∃ l, createListener world index config = .ok (some l)) ∧
    (config.unpackString (lit "proto")).bind listenerFor = some f ∧
    (config.unpackStringOpt (lit "decode_as") (lit "")).bind locateRegisteredDecoder = some d

def entry (f : ListenerFactory) (d : Engine.GlobalConfig.Decoder) : Json :=
  .object [(lit "proto", .string f.name), (lit "port", .integer 2056),
    (lit "decode_as", .string d.name)]

theorem parsedAs_entry (f : ListenerFactory) (d : Engine.GlobalConfig.Decoder) :
    ParsedAs ⟨fun _ ↦ .started, fun _ ↦ true⟩ 0 (entry f d) f d := by
  cases f <;> cases d <;> exact ⟨⟨_, rfl⟩, rfl, rfl⟩

def quietSession : ZzSession Unit where
  parser := ()
  kafkaMsgs := .initializer
  lastWarning _ := 0
  httpResponse := []
  errorMessage _ _ _ := []

def quietParsing : Parsing Unit where
  processBuffer _ session := ⟨session, .ok, []⟩
  verdict _ := .noError
  clock _ := 0

def healthyKafka : Kafka := ⟨true, none, fun _ ↦ []⟩

theorem socket_leaves_out_session :
    ¬ ∀ (world : World) (index : ℕ) (config : Json) (f : ListenerFactory)
      (d : Engine.GlobalConfig.Decoder) (size : ℕ+) (kafka : Kafka) (p : Parsing Unit)
      (session : ZzSession Unit) (r : Reception), ParsedAs world index config f d → Received f r →
        ∃ answer, listenerDecode kafka p d (args (n2kDecoder size d) session r) = .ok answer := by
  intro h
  obtain ⟨answer, hanswer⟩ := h _ 0 _ _ _ ⟨1, Nat.one_pos⟩ healthyKafka quietParsing quietSession
    (.socket (lit "10.0.0.1") (ascii "\x7b\x7d")) (parsedAs_entry .tcp .zz) trivial
  cases hanswer

end N2Kafka.Listener.Pairing
