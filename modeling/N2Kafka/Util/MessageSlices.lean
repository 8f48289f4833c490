import N2Kafka.Util.KafkaMessageArray

namespace N2Kafka.Util.MessageSlices

open Lib.CString Util.KafkaMessageArray

/-- The slices of texts that stand one behind the other. -/
def adjacent : ℕ → List Bytes → List RdKafkaMessage
  | _, [] => []
  | start, t :: ts => ⟨some start, t.length⟩ :: adjacent (start + t.length) ts

/-- With `sum_offset`, offsets into the payload buffer become addresses, a null pointer being the
offset 0. -/
def kafkaMessageArraySetPayloadBuffer0 (payloadBuffer : ℕ) (sumOffset : Bool)
    (msgs : List RdKafkaMessage) : List RdKafkaMessage :=
  if !sumOffset then msgs
  else msgs.map fun m ↦ { m with payload := some (m.payload.getD 0 + payloadBuffer) }

def Stored (memory : ℕ → UInt8) (address : ℕ) (bytes : Bytes) : Prop :=
  ∀ i (h : i < bytes.length), memory (address + i) = bytes[i]

def read (memory : ℕ → UInt8) (m : RdKafkaMessage) : Bytes :=
  (List.range m.len).map fun i ↦ memory (m.payload.getD 0 + i)

theorem adjacent_concat (start : ℕ) (ts : List Bytes) (t : Bytes) :
    adjacent start (ts ++ [t]) =
      adjacent start ts ++ [⟨some (start + ts.flatten.length), t.length⟩] := by
  induction ts generalizing start with
  | nil => rfl
  | cons u ts ih =>
    rw [List.cons_append, adjacent, ih, adjacent, List.flatten_cons, List.length_append, Nat.add_assoc]
    rfl

theorem length_adjacent (start : ℕ) (ts : List Bytes) : (adjacent start ts).length = ts.length := by
  induction ts generalizing start with
  | nil => rfl
  | cons t ts ih => rw [adjacent, List.length_cons, ih, List.length_cons]

theorem setPayloadBuffer0_adjacent (payloadBuffer start : ℕ) (ts : List Bytes) :
    kafkaMessageArraySetPayloadBuffer0 payloadBuffer true (adjacent start ts) =
      adjacent (start + payloadBuffer) ts := by
  induction ts generalizing start with
  | nil => rfl
  | cons t ts ih =>
    have hrest := ih (start + t.length)
    rw [kafkaMessageArraySetPayloadBuffer0] at hrest ⊢
    rw [adjacent, adjacent, Nat.add_right_comm start payloadBuffer, ← hrest]
    rfl

section Memory

variable {memory : ℕ → UInt8} {address : ℕ}

theorem Stored.append {s t : Bytes} (h : Stored memory address (s ++ t)) :
    Stored memory address s ∧ Stored memory (address + s.length) t := by
  constructor
  · intro i hi
    rw [h i (by rw [List.length_append]; omega), List.getElem_append_left hi]
  · intro i hi
    rw [Nat.add_assoc, h (s.length + i) (by rw [List.length_append]; omega),
      List.getElem_append_right (Nat.le_add_right _ _)]
    simp

theorem Stored.read_eq {bytes : Bytes} (h : Stored memory address bytes) :
    read memory ⟨some address, bytes.length⟩ = bytes := by
  apply List.ext_getElem
  · simp [read]
  · intro i hi hi'
    simp [read, h i hi']

theorem Stored.read_adjacent {ts : List Bytes} {extra : Bytes}
    (h : Stored memory address (ts.flatten ++ extra)) :
    (adjacent address ts).map (read memory) = ts := by
  induction ts generalizing address with
  | nil => rfl
  | cons t ts ih =>
    rw [List.flatten_cons, List.append_assoc] at h
    obtain ⟨ht, hts⟩ := h.append
    rw [adjacent, List.map_cons, ht.read_eq, ih hts]

end Memory

end N2Kafka.Util.MessageSlices
