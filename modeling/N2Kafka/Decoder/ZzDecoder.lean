import N2Kafka.Decoder.DecoderApi
import N2Kafka.Decoder.ZzParser
import N2Kafka.Util.KafkaMessageArray

namespace N2Kafka.Decoder.ZzDecoder

open Lib.CString Util.Pairs Util.KafkaMessageArray Decoder.DecoderApi Decoder.ZzParser

variable {σ : Type*}

/-- `parser` is the JSON or the XML session, `lastWarning` the warning times with the word behind
them, `errorMessage` the callback of that name. -/
structure ZzSession (σ : Type*) where
  parser : σ
  kafkaMsgs : MessageArray
  lastWarning : ℕ → ℤ
  httpResponse : Bytes
  errorMessage : Bytes → DecoderCallbackErr → ℕ → Bytes

abbrev Handed := Bytes × RespErr

/-- What `process_buffer` leaves: messages it has produced itself come before those in
`kafka_msgs`. -/
structure Processed (σ : Type*) where
  session : ZzSession σ
  rc : DecoderCallbackErr
  handed : List Handed

structure Decoded (σ : Type*) where
  session : ZzSession σ
  rc : DecoderCallbackErr
  response : Option Bytes
  handed : List Handed

/-- The part of `zz_decode` after `process_buffer`. `verdict k` is rdkafka's answer to the message
handed over as number `k` in this call. -/
def consume (verdict : ℕ → RespErr) (clock : ℕ → ℤ) (processed : Processed σ) : Decoded σ :=
  let array := processed.session.kafkaMsgs
  let batchVerdict := fun i ↦ verdict (processed.handed.length + i)
  let produced := kafkaMessageArrayProduce array batchVerdict clock
    (some processed.session.lastWarning)
  let handed := processed.handed ++
    array.payloads.zip ((List.range array.payloads.length).map batchVerdict)
  let session := { processed.session with
    kafkaMsgs := .initializer
    lastWarning := produced.lastTime.getD processed.session.lastWarning }
  if processed.rc ≠ .ok ∨ kafkaMessageArraySize array ≠ produced.msgsOk then
    let rc := if processed.rc ≠ .ok then processed.rc else .bufferFull
    let fullError : Bytes :=
      session.errorMessage session.httpResponse processed.rc produced.msgsOk
    let httpResponse := if fullError.length > 0 then fullError else session.httpResponse
    ⟨{ session with httpResponse := httpResponse }, rc, some httpResponse, handed⟩
  else ⟨session, .ok, none, handed⟩

/-- The main decoder entry point; `none` is a run into a null pointer. -/
def zzDecode (process : Bytes → ZzSession σ → Option (Processed σ)) (verdict : ℕ → RespErr)
    (clock : ℕ → ℤ) (props : KeyvalList) (buffer : Bytes) (session : ZzSession σ) :
    Option (Decoded σ) :=
  if !methodAllowed props then some ⟨session, .httpMethodNotAllowed, none, []⟩
  else (process buffer { session with kafkaMsgs := .initializer }).map (consume verdict clock)

@[simp]
theorem consume_rc (verdict : ℕ → RespErr) (clock : ℕ → ℤ) (processed : Processed σ) :
    (consume verdict clock processed).rc = processed.rc := by
  simp only [consume, kafkaMessageArrayProduce_msgsOk, ne_eq, not_true_eq_false, or_false]
  split
  · simp
  · rename_i hrc
    exact (not_not.mp hrc).symm

@[simp]
theorem parser_consume (verdict : ℕ → RespErr) (clock : ℕ → ℤ) (processed : Processed σ) :
    (consume verdict clock processed).session.parser = processed.session.parser := by
  simp only [consume]
  split <;> rfl

@[simp]
theorem consume_handed (verdict : ℕ → RespErr) (clock : ℕ → ℤ) (processed : Processed σ) :
    (consume verdict clock processed).handed = processed.handed ++
      processed.session.kafkaMsgs.payloads.zip
        ((List.range processed.session.kafkaMsgs.payloads.length).map
          fun i ↦ verdict (processed.handed.length + i)) := by
  simp only [consume]
  split <;> rfl

@[simp]
theorem errorMessage_consume (verdict : ℕ → RespErr) (clock : ℕ → ℤ) (processed : Processed σ) :
    (consume verdict clock processed).session.errorMessage = processed.session.errorMessage := by
  simp only [consume]
  split <;> rfl

theorem httpResponse_consume (verdict : ℕ → RespErr) (clock : ℕ → ℤ) {processed : Processed σ}
    (hrc : processed.rc = .ok) :
    (consume verdict clock processed).session.httpResponse = processed.session.httpResponse := by
  simp [consume, hrc, kafkaMessageArrayProduce_msgsOk]

theorem consume_response (verdict : ℕ → RespErr) (clock : ℕ → ℤ) {processed : Processed σ}
    (hrc : processed.rc ≠ .ok)
    (hne : processed.session.errorMessage processed.session.httpResponse processed.rc
      (kafkaMessageArraySize processed.session.kafkaMsgs) ≠ []) :
    (consume verdict clock processed).response =
      some (processed.session.errorMessage processed.session.httpResponse processed.rc
        (kafkaMessageArraySize processed.session.kafkaMsgs)) := by
  simp [consume, hrc, kafkaMessageArrayProduce_msgsOk, List.length_pos_iff, hne]

theorem zzDecode_of_processed {process : Bytes → ZzSession σ → Option (Processed σ)}
    {verdict : ℕ → RespErr} {clock : ℕ → ℤ} {props : KeyvalList} {buffer : Bytes}
    {session : ZzSession σ} {processed : Processed σ} (hm : methodAllowed props)
    (hp : process buffer { session with kafkaMsgs := .initializer } = some processed) :
    zzDecode process verdict clock props buffer session = some (consume verdict clock processed) := by
  simp [zzDecode, hm, hp]

end N2Kafka.Decoder.ZzDecoder
