import Mathlib.Data.List.Range
import Mathlib.Data.Nat.Notation
import Mathlib.Logic.Function.Basic
import N2Kafka.Lib.CString

namespace N2Kafka.Util.KafkaMessageArray

open Lib.CString

inductive RespErr
  | noError | queueFull | msgSizeTooLarge | unknownPartition | unknownTopic | other (code : ℤ)
  deriving DecidableEq

/-- The payload is an offset into the payload buffer of the array, `none` for a null pointer. -/
structure RdKafkaMessage where
  payload : Option ℕ
  len : ℕ
  deriving DecidableEq

/-- The bytes of `buffer` that a message stands for. A null pointer stands for none, whatever its
length says. -/
def RdKafkaMessage.bytes (buffer : Bytes) (m : RdKafkaMessage) : Bytes :=
  match m.payload with
  | none => []
  | some start => (buffer.drop start).take m.len

structure MessageArray where
  msgs : List RdKafkaMessage
  payloadBuffer : Option Bytes
  deriving DecidableEq

def MessageArray.initializer : MessageArray := ⟨[], none⟩

def kafkaMessageArraySize (array : MessageArray) : ℕ := array.msgs.length

def kafkaMessageArraySetPayloadBuffer (array : MessageArray) (buffer : Bytes) : MessageArray :=
  { array with payloadBuffer := some buffer }

def kafkaMsgArrayAdd (appended : Bool) (array : MessageArray) (msg : RdKafkaMessage) : MessageArray :=
  if appended then { array with msgs := array.msgs ++ [msg] } else array

def MessageArray.payloads (array : MessageArray) : List Bytes :=
  array.msgs.map (·.bytes (array.payloadBuffer.getD []))

theorem kafkaMsgArrayAdd_bytes (buffer : Bytes) (appended : Bool) (array : MessageArray)
    (msg : RdKafkaMessage) :
    (kafkaMsgArrayAdd appended array msg).msgs.map (·.bytes buffer) =
      array.msgs.map (·.bytes buffer) ++ if appended then [msg.bytes buffer] else [] := by
  cases appended <;> simp [kafkaMsgArrayAdd]

theorem RdKafkaMessage.bytes_append {buffer : Bytes} {m : RdKafkaMessage}
    (h : m.payload.getD 0 + m.len ≤ buffer.length) (more : Bytes) :
    m.bytes (buffer ++ more) = m.bytes buffer := by
  unfold bytes
  cases hpayload : m.payload with
  | none => rfl
  | some start =>
    rw [hpayload, Option.getD_some] at h
    dsimp only
    rw [List.drop_append_of_le_length (by omega), List.take_append_of_le_length]
    rw [List.length_drop]
    omega

@[simp]
theorem RdKafkaMessage.bytes_behind (buffer text : Bytes) :
    bytes (buffer ++ text) ⟨some buffer.length, text.length⟩ = text := by
  simp [bytes]

def lastWarningTimeEnd : ℕ := 4

def kafkaErrorToWarningTimePos : RespErr → ℕ
  | .queueFull => 0
  | .msgSizeTooLarge => 1
  | .unknownPartition => 2
  | .unknownTopic => 3
  | .noError | .other _ => lastWarningTimeEnd

def alertThreshold : ℤ := 5 * 60

/-- The produce loop: its count, the references dropped, the warning times (the slot
`lastWarningTimeEnd` is the word behind the table), the errors logged and the calls of `time`. -/
structure Produced where
  msgsOk : ℕ
  decrefs : ℕ
  lastTime : Option (ℕ → ℤ)
  logged : List RespErr
  ticks : ℕ

def Produced.warn (clock : ℕ → ℤ) (err : RespErr) (p : Produced) : Produced :=
  let pos := kafkaErrorToWarningTimePos err
  match p.lastTime with
  | none => { p with logged := p.logged ++ [err] }
  | some times =>
    if pos ≤ lastWarningTimeEnd then
      let now := clock p.ticks
      if now - times pos < alertThreshold then { p with ticks := p.ticks + 1 }
      else { p with
        lastTime := some (Function.update times pos now)
        logged := p.logged ++ [err]
        ticks := p.ticks + 1 }
    else { p with logged := p.logged ++ [err] }

def produceLoop (clock : ℕ → ℤ) (messagesInBatch : ℕ) : List RespErr → Produced → Produced
  | [], p => p
  | err :: errs, p =>
    if p.msgsOk < messagesInBatch then
      if err = .noError then produceLoop clock messagesInBatch errs p
      else
        let p := Produced.warn clock err { p with msgsOk := p.msgsOk + 1 }
        produceLoop clock messagesInBatch errs { p with decrefs := p.decrefs + 1 }
    else p

/-- What `rd_kafka_produce_batch` returns when it leaves these errors in the messages. -/
def rdKafkaProduceBatch (errs : List RespErr) : ℕ := errs.count .noError

def kafkaMessageArrayProduce (array : MessageArray) (verdict : ℕ → RespErr) (clock : ℕ → ℤ)
    (state : Option (ℕ → ℤ)) : Produced :=
  let messagesInBatch := kafkaMessageArraySize array
  let errs := (List.range messagesInBatch).map verdict
  let msgsOk := rdKafkaProduceBatch errs
  if messagesInBatch = 0 then ⟨0, 0, state, [], 0⟩
  else if msgsOk = messagesInBatch then ⟨msgsOk, 0, state, [], 0⟩
  else produceLoop clock messagesInBatch errs ⟨msgsOk, 0, state, [], 0⟩

def rejected (errs : List RespErr) : ℕ := errs.countP (· ≠ .noError)

theorem count_add_rejected (errs : List RespErr) :
    errs.count .noError + rejected errs = errs.length := by
  induction errs with
  | nil => rfl
  | cons err errs ih =>
    by_cases he : err = .noError
    · simp [rejected, he] at ih ⊢
      omega
    · simp [rejected, he] at ih ⊢
      omega

@[simp]
theorem Produced.warn_msgsOk (clock : ℕ → ℤ) (err : RespErr) (p : Produced) :
    (p.warn clock err).msgsOk = p.msgsOk := by
  simp only [Produced.warn]
  repeat' split
  all_goals rfl

@[simp]
theorem Produced.warn_decrefs (clock : ℕ → ℤ) (err : RespErr) (p : Produced) :
    (p.warn clock err).decrefs = p.decrefs := by
  simp only [Produced.warn]
  repeat' split
  all_goals rfl

theorem produceLoop_counts (clock : ℕ → ℤ) (n : ℕ) (errs : List RespErr) (p : Produced)
    (h : p.msgsOk + rejected errs ≤ n) :
    (produceLoop clock n errs p).msgsOk = p.msgsOk + rejected errs ∧
      (produceLoop clock n errs p).decrefs = p.decrefs + rejected errs := by
  induction errs generalizing p with
  | nil => exact ⟨rfl, rfl⟩
  | cons err errs ih =>
    by_cases he : err = .noError
    · have hr : rejected (err :: errs) = rejected errs := by simp [rejected, he]
      rw [hr] at h ⊢
      rw [produceLoop]
      split
      · exact ih p h
      · have hz : rejected errs = 0 := by omega
        simp [hz]
    · have hr : rejected (err :: errs) = rejected errs + 1 := by simp [rejected, he]
      rw [hr] at h ⊢
      rw [produceLoop, if_pos (by omega), if_neg he]
      obtain ⟨hm, hd⟩ := ih { Produced.warn clock err { p with msgsOk := p.msgsOk + 1 } with
        decrefs := (Produced.warn clock err { p with msgsOk := p.msgsOk + 1 }).decrefs + 1 }
        (by simpa using by omega)
      simp only [Produced.warn_msgsOk, Produced.warn_decrefs] at hm hd ⊢
      exact ⟨by omega, by omega⟩

theorem kafkaMessageArrayProduce_msgsOk (array : MessageArray) (verdict : ℕ → RespErr) (clock : ℕ → ℤ)
    (state : Option (ℕ → ℤ)) :
    (kafkaMessageArrayProduce array verdict clock state).msgsOk = kafkaMessageArraySize array := by
  have hall := count_add_rejected ((List.range (kafkaMessageArraySize array)).map verdict)
  rw [List.length_map, List.length_range] at hall
  unfold kafkaMessageArrayProduce
  dsimp only
  split
  · rename_i h
    exact h.symm
  · split
    · assumption
    · rw [(produceLoop_counts clock _ _ _ hall.le).1]
      exact hall

def verdicts (array : MessageArray) (verdict : ℕ → RespErr) : List RespErr :=
  (List.range (kafkaMessageArraySize array)).map verdict

theorem kafkaMessageArrayProduce_decrefs (array : MessageArray) (verdict : ℕ → RespErr)
    (clock : ℕ → ℤ) (state : Option (ℕ → ℤ)) :
    (kafkaMessageArrayProduce array verdict clock state).decrefs = rejected (verdicts array verdict) := by
  have hall := count_add_rejected (verdicts array verdict)
  have hlen : (verdicts array verdict).length = kafkaMessageArraySize array := by simp [verdicts]
  unfold kafkaMessageArrayProduce
  dsimp only
  split
  · rename_i h
    simp [verdicts, h, rejected]
  · split
    · rename_i h
      have h' : (verdicts array verdict).count .noError = kafkaMessageArraySize array := h
      have hzero : rejected (verdicts array verdict) = 0 := by omega
      exact hzero.symm
    · have hcounts := produceLoop_counts clock (kafkaMessageArraySize array) (verdicts array verdict)
        ⟨(verdicts array verdict).count .noError, 0, state, [], 0⟩ (hall.trans hlen).le
      rw [Nat.zero_add] at hcounts
      exact hcounts.2

theorem rejected_eq_zero {errs : List RespErr} : rejected errs = 0 ↔ ∀ err ∈ errs, err = .noError := by
  simp [rejected, List.countP_eq_zero]

/-- The documented result: how many messages were effectively queued, and a reference less for each
of the others. -/
structure ReportsQueued (array : MessageArray) (verdict : ℕ → RespErr) (p : Produced) : Prop where
  queued : p.msgsOk = (verdicts array verdict).count .noError
  dropped : p.decrefs = rejected (verdicts array verdict)

/-- The loop counts each rejected message as sent, so the result is right only without any. -/
theorem reportsQueued_iff (array : MessageArray) (verdict : ℕ → RespErr) (clock : ℕ → ℤ)
    (state : Option (ℕ → ℤ)) :
    ReportsQueued array verdict (kafkaMessageArrayProduce array verdict clock state) ↔
      ∀ i < kafkaMessageArraySize array, verdict i = .noError := by
  have hall := count_add_rejected (verdicts array verdict)
  have hlen : (verdicts array verdict).length = kafkaMessageArraySize array := by simp [verdicts]
  have hnone : rejected (verdicts array verdict) = 0 ↔
      ∀ i < kafkaMessageArraySize array, verdict i = .noError := by
    rw [rejected_eq_zero]
    simp [verdicts]
  rw [← hnone]
  constructor
  · intro h
    have hqueued := h.queued
    rw [kafkaMessageArrayProduce_msgsOk] at hqueued
    omega
  · intro h
    refine ⟨?_, kafkaMessageArrayProduce_decrefs array verdict clock state⟩
    rw [kafkaMessageArrayProduce_msgsOk]
    omega

/-- Two messages, the second of which finds the queue full. -/
theorem full_queue_reported_as_queued :
    ¬ ReportsQueued ⟨[⟨some 0, 2⟩, ⟨some 2, 2⟩], some (ascii "\x7b\x7d\x7b\x7d")⟩
        (fun i ↦ if i = 0 then .noError else .queueFull)
        (kafkaMessageArrayProduce ⟨[⟨some 0, 2⟩, ⟨some 2, 2⟩], some (ascii "\x7b\x7d\x7b\x7d")⟩
          (fun i ↦ if i = 0 then .noError else .queueFull) (fun _ ↦ 0) none) := by
  intro h
  have hqueued := h.queued
  revert hqueued
  decide

end N2Kafka.Util.KafkaMessageArray
