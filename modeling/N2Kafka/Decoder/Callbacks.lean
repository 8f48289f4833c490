import N2Kafka.Decoder.ZzDecoder

namespace N2Kafka.Decoder.Callbacks

open Lib.CString Util.Pairs Util.KafkaMessageArray Decoder.DecoderApi Decoder.ZzParser
  Decoder.ZzDecoder

variable {σ : Type*}

/-- The arguments of a decoder callback. A pointer that a listener may leave out is optional; of
`response` and `response_size`, which are only written, it matters whether they are there. -/
structure Args (σ : Type*) where
  buffer : Option Bytes
  attrs : KeyvalList
  response : Bool
  responseSize : Bool
  session : Option (ZzSession σ)

/-- What a callback used though it was not there. -/
inductive Absent
  | buffer
  | session
  | response
  | responseSize
  | attribute
  deriving DecidableEq

structure Answer where
  rc : DecoderCallbackErr
  response : Option Bytes

def Args.answer (a : Args σ) (rc : DecoderCallbackErr) (text : Bytes) : Except Absent Answer :=
  if !a.response then .error .response
  else if !a.responseSize then .error .responseSize
  else .ok ⟨rc, some text⟩

/-- rdkafka during a call of the dumb decoder: whether there is a topic, and the last error if the
message was not taken. -/
structure Kafka where
  topic : Bool
  refused : Option RespErr
  err2str : RespErr → Bytes

def produceRc : RespErr → DecoderCallbackErr
  | .noError => .ok
  | .queueFull => .bufferFull
  | .msgSizeTooLarge => .unknownTopic
  | .unknownPartition => .unknownPartition
  | .unknownTopic => .msgTooLarge
  | .other _ => .genericError

def dumbDecode (kafka : Kafka) (a : Args σ) : Except Absent Answer :=
  if !kafka.topic then a.answer .unknownTopic (ascii "No topic specified in config file")
  else
    match kafka.refused with
    | none => .ok ⟨.ok, none⟩
    | some err => a.answer (produceRc err) (kafka.err2str err)

structure Parsing (σ : Type*) where
  processBuffer : Bytes → ZzSession σ → Processed σ
  verdict : ℕ → RespErr
  clock : ℕ → ℤ

def zzCallback (p : Parsing σ) (a : Args σ) : Except Absent Answer :=
  if !methodAllowed a.attrs then .ok ⟨.httpMethodNotAllowed, none⟩
  else
    match a.buffer, a.session with
    | none, _ => .error .buffer
    | some _, none => .error .session
    | some buffer, some session =>
      let decoded := consume p.verdict p.clock
        (p.processBuffer buffer { session with kafkaMsgs := .initializer })
      match decoded.response with
      | none => .ok ⟨decoded.rc, none⟩
      | some text => a.answer decoded.rc text

def merakiPrefix : Bytes := ascii "/v1/meraki"

/-- The rest of the URL behind the prefix and one more byte. A URL that ends with the prefix leaves
the pointer behind its terminator. -/
def urlValidator (url : CStr) : Option Bytes :=
  if merakiPrefix.isPrefixOf url.1 then some (url.1.drop (merakiPrefix.length + 1)) else none

def merakiDecode (p : Parsing σ) (a : Args σ) : Except Absent Answer :=
  match valueof a.attrs (lit "D-HTTP-method") strcmp with
  | none => .error .attribute
  | some httpMethod =>
    if strcmp httpMethod (lit "GET") = 0 then
      match valueof a.attrs (lit "D-HTTP-URI") strcmp with
      | none => .error .attribute
      | some uri =>
        match urlValidator uri with
        | none => if !a.response then .error .response else .ok ⟨.resourceNotFound, none⟩
        | some text => a.answer .ok text
    else zzCallback p a

theorem zzCallback_eq_zzDecode (p : Parsing σ) {a : Args σ} {buffer : Bytes} {session : ZzSession σ}
    (hb : a.buffer = some buffer) (hs : a.session = some session) (hr : a.response = true)
    (hz : a.responseSize = true) :
    ∃ decoded, zzDecode (fun b s ↦ some (p.processBuffer b s)) p.verdict p.clock a.attrs buffer
        session = some decoded ∧ zzCallback p a = .ok ⟨decoded.rc, decoded.response⟩ := by
  unfold zzCallback zzDecode
  cases hm : methodAllowed a.attrs with
  | false => exact ⟨_, rfl, rfl⟩
  | true =>
    refine ⟨_, rfl, ?_⟩
    simp only [hb, hs, Bool.not_true, Bool.false_eq_true, if_false]
    cases hresp : (consume p.verdict p.clock
        (p.processBuffer buffer { session with kafkaMsgs := .initializer })).response with
    | none => rfl
    | some text => simp [Args.answer, hr, hz]

section Used

variable {a : Args σ}

theorem answer_ok_iff {rc : DecoderCallbackErr} {text : Bytes} :
    (∃ answer, a.answer rc text = .ok answer) ↔ a.response = true ∧ a.responseSize = true := by
  unfold Args.answer
  cases a.response <;> cases a.responseSize <;> simp

theorem dumbDecode_ok_iff {kafka : Kafka} :
    (∃ answer, dumbDecode kafka a = .ok answer) ↔
      kafka.topic = true ∧ kafka.refused = none ∨ a.response = true ∧ a.responseSize = true := by
  unfold dumbDecode
  cases kafka.topic with
  | false => simp [answer_ok_iff]
  | true =>
    cases kafka.refused with
    | none => simp
    | some err => simp [answer_ok_iff]

theorem zzCallback_ok_iff {p : Parsing σ} (hr : a.session.isSome → a.response ∧ a.responseSize) :
    (∃ answer, zzCallback p a = .ok answer) ↔
      (methodAllowed a.attrs = true → a.buffer.isSome ∧ a.session.isSome) := by
  unfold zzCallback
  cases hm : methodAllowed a.attrs with
  | false => simp
  | true =>
    cases hb : a.buffer with
    | none => simp
    | some buffer =>
      cases hs : a.session with
      | none => simp
      | some session =>
        obtain ⟨hresp, hsize⟩ := hr (by simp [hs])
        simp only [Bool.not_true, Bool.false_eq_true, if_false]
        cases (consume p.verdict p.clock
            (p.processBuffer buffer { session with kafkaMsgs := .initializer })).response with
        | none => simp
        | some text => simp [Args.answer, hresp, hsize]

end Used

end N2Kafka.Decoder.Callbacks
