import N2Kafka.Lib.Transition
import N2Kafka.Util.KafkaMessageArray
import N2Kafka.Util.StringWidths

namespace N2Kafka.Util.MessageArrayLayout

open Lib Lib.CString Lib.MachineWords StringWidths
open GrowableString (Str Appended stringMinSize)

/-- How the compiler lays out a `kafka_message_array_internal` with its messages. There is no magic
if the assertions are compiled out. -/
structure Layout where
  magic : Bytes
  messageSize : ℕ
  messageSize_pos : 0 < messageSize
  fits : magic.length + 16 + messageSize ≤ stringMinSize

/-- With assertions, 8 bytes for a pointer and a `size_t` and 72 for an `rd_kafka_message_t`. -/
def debugLayout : Layout where
  magic := littleEndian 8 0xaa343aa13aaa343a
  messageSize := 72
  messageSize_pos := by decide
  fits := by
    rw [length_littleEndian]
    decide

namespace Layout

variable (l : Layout)

abbrev Message := {bytes : Bytes // bytes.length = l.messageSize}

def countAt : ℕ := l.magic.length + 8

def headerSize : ℕ := l.magic.length + 16

def karrayInit : Bytes := l.magic ++ List.replicate 8 0 ++ List.replicate 8 0

end Layout

variable (l : Layout)

/-- The block as an array, if it has a whole header and passes the assertion on its magic. -/
def kafkaMessageArrayGetInternal (array : Str) : Option Bytes :=
  if l.headerSize ≤ array.block.length ∧ array.block.take l.magic.length = l.magic then
    some array.block
  else none

def countOf (block : Bytes) : ℕ := ofLittleEndian ((block.drop l.countAt).take 8)

def kafkaMessageArraySize (array : Str) : Option ℕ :=
  if array.size = 0 then some 0 else (kafkaMessageArrayGetInternal l array).map (countOf l)

variable (m : ShiftLeft)

structure Add where
  msg : l.Message
  servedHeader : Bool
  servedMessage : Bool

variable {l}

/-- The second half of `kafka_msg_array_add`. -/
def addMessage (array : Str) (add : Add l) : Option (ℤ × Str) := do
  let (rc, array) ← stringAppend m add.servedMessage array add.msg.1
  if rc = 0 then
    let block ← kafkaMessageArrayGetInternal l array
    let array ← array.write l.countAt (littleEndian 8 (countOf l block + 1))
    return (rc, array)
  else return (rc, array)

def kafkaMsgArrayAdd (array : Str) (add : Add l) : Option (ℤ × Str) := do
  let count ← kafkaMessageArraySize l array
  if count = 0 then
    let (createRc, array) ← stringAppend m add.servedHeader array l.karrayInit
    if createRc ≠ 0 then return (createRc, array)
    addMessage m array add
  else addMessage m array add

def Layout.header (l : Layout) (count : ℕ) : Bytes :=
  l.magic ++ List.replicate 8 0 ++ littleEndian 8 count

def payload (msgs : List l.Message) : Bytes := (msgs.map Subtype.val).flatten

/-- The array holds these messages, in order, behind one header. -/
structure Holds (msgs : List l.Message) (array : Str) : Prop where
  contents : array.contents = if msgs = [] then [] else l.header msgs.length ++ payload msgs
  size : array.size = if msgs = [] then 0 else l.headerSize + msgs.length * l.messageSize
  count : kafkaMessageArraySize l array = some msgs.length

def Add.step (add : Add l) (array : Str) : Option Str :=
  (kafkaMsgArrayAdd m array add).map Prod.snd

def added : Str → List (Add l) → List l.Message
  | _, [] => []
  | array, add :: adds =>
    match kafkaMsgArrayAdd m array add with
    | none => []
    | some (rc, array') => if rc = 0 then add.msg :: added array' adds else added array' adds

@[simp]
theorem Layout.length_header (l : Layout) (count : ℕ) : (l.header count).length = l.headerSize := by
  simp only [header, headerSize, List.length_append, List.length_replicate, length_littleEndian]

theorem Layout.karrayInit_eq (l : Layout) : l.karrayInit = l.header 0 := by
  unfold karrayInit header
  rw [littleEndian_zero]

theorem length_payload (msgs : List l.Message) :
    (payload msgs).length = msgs.length * l.messageSize := by
  induction msgs with
  | nil => exact (Nat.zero_mul _).symm
  | cons msg msgs ih =>
    have hcons : payload (msg :: msgs) = msg.1 ++ payload msgs := rfl
    rw [hcons, List.length_append, ih, msg.2, List.length_cons, Nat.succ_mul, Nat.add_comm]

theorem payload_append (msgs : List l.Message) (msg : l.Message) :
    payload (msgs ++ [msg]) = payload msgs ++ msg.1 := by
  simp [payload]

variable {m}

def Headed (l : Layout) (count : ℕ) (rest : Bytes) (array : Str) : Prop :=
  array.contents = l.header count ++ rest

section
variable {array : Str} {count : ℕ} {rest : Bytes}

theorem Headed.size (h : Headed l count rest array) (hs : Roomy m array) :
    array.size = l.headerSize + rest.length := by
  rw [← hs.contents_length, h, List.length_append, l.length_header]

theorem Headed.block (h : Headed l count rest array) :
    ∃ behind, array.block = l.header count ++ (rest ++ behind) := by
  refine ⟨array.block.drop array.size, ?_⟩
  rw [← List.append_assoc, ← show array.contents = l.header count ++ rest from h]
  exact (List.take_append_drop array.size array.block).symm

theorem Headed.internal (h : Headed l count rest array) :
    kafkaMessageArrayGetInternal l array = some array.block := by
  obtain ⟨behind, hblock⟩ := h.block
  have hlen : l.headerSize ≤ array.block.length := by
    rw [hblock, List.length_append, l.length_header]
    exact Nat.le_add_right _ _
  have hmagic : array.block.take l.magic.length = l.magic := by
    rw [hblock]
    simp only [Layout.header, List.append_assoc]
    exact List.take_left' rfl
  unfold kafkaMessageArrayGetInternal
  rw [if_pos ⟨hlen, hmagic⟩]

theorem Layout.length_before_count (l : Layout) :
    (l.magic ++ List.replicate 8 0).length = l.countAt := by
  rw [List.length_append, List.length_replicate]
  rfl

theorem Headed.countOf (h : Headed l count rest array) :
    countOf l array.block = count % 2 ^ 64 := by
  obtain ⟨behind, hblock⟩ := h.block
  have hdrop : array.block.drop l.countAt = littleEndian 8 count ++ (rest ++ behind) := by
    rw [hblock, Layout.header, List.append_assoc]
    exact List.drop_left' l.length_before_count
  have hwidth : 256 ^ 8 = 2 ^ 64 := by decide
  unfold MessageArrayLayout.countOf
  rw [hdrop, List.take_left' (length_littleEndian 8 count), ← hwidth]
  exact ofLittleEndian_littleEndian 8 count

theorem Headed.kafkaMessageArraySize (h : Headed l count rest array) (hs : Roomy m array) :
    kafkaMessageArraySize l array = some (count % 2 ^ 64) := by
  have hsize := h.size hs
  have hpos : 0 < l.headerSize := Nat.succ_pos _
  unfold MessageArrayLayout.kafkaMessageArraySize
  rw [if_neg (by omega), h.internal, Option.map_some, h.countOf]

theorem Headed.buf_ne_none (h : Headed l count rest array) (hs : Roomy m array) :
    array.buf ≠ none := by
  intro hbuf
  have hsize := h.size hs
  have hpos : 0 < l.headerSize := Nat.succ_pos _
  rw [hs.none hbuf] at hsize
  exact absurd hsize (by show ¬ 0 = _; omega)

theorem Headed.write (h : Headed l count rest array) (hs : Roomy m array) (count' : ℕ) :
    ∃ array', array.write l.countAt (littleEndian 8 count') = some array' ∧
      Headed l count' rest array' ∧ Roomy m array' ∧ array'.size = array.size := by
  obtain ⟨behind, hblock⟩ := h.block
  obtain ⟨block, hbuf⟩ := Option.ne_none_iff_exists'.mp (h.buf_ne_none hs)
  have hb : array.block = block := by simp [Str.block, hbuf]
  rw [hb] at hblock
  have hmem : memWrite block l.countAt (littleEndian 8 count') =
      l.header count' ++ rest ++ behind := by
    have hold : block = l.magic ++ List.replicate 8 0 ++ littleEndian 8 count ++ (rest ++ behind) :=
      hblock
    rw [hold, ← l.length_before_count, memWrite_append _ _ _ _ (by simp), ← List.append_assoc]
    rfl
  have hroom : l.countAt + (littleEndian 8 count').length ≤ block.length := by
    rw [hblock, List.length_append, l.length_header, length_littleEndian]
    exact Nat.le_add_right _ _
  have hwrite : array.write l.countAt (littleEndian 8 count') =
      some { array with buf := some (l.header count' ++ rest ++ behind) } := by
    unfold Str.write
    simp only [hbuf, hmem]
    exact if_pos hroom
  refine ⟨_, hwrite, ?_, hs.written (GrowableString.written_of_write hwrite), rfl⟩
  have hsize : (l.header count' ++ rest).length = array.size := by
    rw [h.size hs, List.length_append, l.length_header]
  exact List.take_left' hsize

theorem addMessage_spec (h : Headed l count rest array) (hs : Roomy m array) (add : Add l) :
    ∃ rc array', addMessage m array add = some (rc, array') ∧ Roomy m array' ∧
      (rc = 0 ∧ Headed l (count % 2 ^ 64 + 1) (rest ++ add.msg.1) array' ∨
        rc = -1 ∧ array'.size = array.size ∧ array'.contents = array.contents ∧
          stringAllocated m array < array.size + l.messageSize) := by
  have hlt := hs.size_lt
  have hfits := l.fits
  unfold stringMinSize at hfits
  obtain ⟨rc, array₁, happend, hs₁, ⟨rfl, happended⟩ | ⟨rfl, hsize, hcontents, -, hroom⟩⟩ :=
    stringAppend_spec hs add.servedMessage add.msg.1 (by rw [add.msg.2]; omega)
  · have h₁ : Headed l count (rest ++ add.msg.1) array₁ := by
      show array₁.contents = _
      rw [happended.contents, show array.contents = l.header count ++ rest from h,
        List.append_assoc]
    obtain ⟨array₂, hwrite, h₂, hs₂, -⟩ := h₁.write hs₁ (count % 2 ^ 64 + 1)
    refine ⟨0, array₂, ?_, hs₂, .inl ⟨rfl, h₂⟩⟩
    unfold addMessage
    rw [happend, Option.bind_eq_bind, Option.bind_some]
    simp only [if_true]
    rw [h₁.internal, Option.bind_eq_bind, Option.bind_some, h₁.countOf, hwrite]
    rfl
  · rw [add.msg.2] at hroom
    refine ⟨-1, array₁, ?_, hs₁, .inr ⟨rfl, hsize, hcontents, hroom⟩⟩
    unfold addMessage
    rw [happend]
    rfl

end

theorem Headed.length_lt {msgs : List l.Message} {array : Str}
    (h : Headed l msgs.length (payload msgs) array) (hs : Roomy m array) : msgs.length < 2 ^ 64 := by
  have hsize := h.size hs
  have hlt := hs.size_lt
  have hcount : msgs.length ≤ msgs.length * l.messageSize :=
    Nat.le_mul_of_pos_right _ l.messageSize_pos
  rw [length_payload] at hsize
  omega

theorem Holds.of_headed {msgs : List l.Message} {array : Str} (hne : msgs ≠ [])
    (h : Headed l msgs.length (payload msgs) array) (hs : Roomy m array) : Holds msgs array := by
  have hsize := h.size hs
  rw [length_payload] at hsize
  constructor
  · rw [if_neg hne]
    exact h
  · rw [if_neg hne]
    exact hsize
  · rw [h.kafkaMessageArraySize hs, Nat.mod_eq_of_lt (h.length_lt hs)]

theorem Holds.headed {msgs : List l.Message} {array : Str} (h : Holds msgs array) (hne : msgs ≠ []) :
    Headed l msgs.length (payload msgs) array := by
  have hcontents := h.contents
  rw [if_neg hne] at hcontents
  exact hcontents

theorem Holds.empty {array : Str} (hcontents : array.contents = []) (hsize : array.size = 0) :
    Holds ([] : List l.Message) array := by
  refine ⟨hcontents, hsize, ?_⟩
  unfold kafkaMessageArraySize
  rw [if_pos hsize]
  rfl

theorem Holds.same {msgs : List l.Message} {array array' : Str} (h : Holds msgs array)
    (hs' : Roomy m array') (hsize : array'.size = array.size)
    (hcontents : array'.contents = array.contents) : Holds msgs array' := by
  by_cases hne : msgs = []
  · obtain rfl := hne
    exact .empty (hcontents.trans h.contents) (hsize.trans h.size)
  · exact .of_headed hne (hcontents.trans (h.headed hne)) hs'

inductive Effect (msgs : List l.Message) (array : Str) (add : Add l) : ℤ → Str → Prop
  | done {array' : Str} (h : Holds (msgs ++ [add.msg]) array') : Effect msgs array add 0 array'
  | failed {array' : Str} (h : Holds msgs array') (hsize : array'.size = array.size)
    (hcontents : array'.contents = array.contents) : Effect msgs array add (-1) array'

/-- A block that has a header has room for a message behind it, and so no second header is ever
written because the message of the first one failed. -/
theorem Headed.message_fits {array : Str} {count : ℕ} (h : Headed l count [] array)
    (hs : Roomy m array) : array.size + l.messageSize ≤ stringAllocated m array := by
  have hsize : array.size = l.magic.length + 16 := h.size hs
  have hmin := hs.le_stringAllocated (h.buf_ne_none hs)
  have hfits := l.fits
  omega

theorem create_spec {array : Str} (h : Holds ([] : List l.Message) array) (hs : Roomy m array)
    (served : Bool) :
    ∃ rc array', stringAppend m served array l.karrayInit = some (rc, array') ∧ Roomy m array' ∧
      (rc = 0 ∧ Headed l 0 [] array' ∨
        rc = -1 ∧ array'.size = array.size ∧ array'.contents = array.contents) := by
  have hsize : array.size = 0 := h.size
  have hinit : l.karrayInit.length = l.magic.length + 16 := by
    rw [l.karrayInit_eq]
    exact l.length_header 0
  have hfits := l.fits
  unfold stringMinSize at hfits
  obtain ⟨rc, array', happend, hs', ⟨rfl, happended⟩ | ⟨rfl, hsame, hcontents, -⟩⟩ :=
    stringAppend_spec hs served l.karrayInit (by omega)
  · refine ⟨0, array', happend, hs', .inl ⟨rfl, ?_⟩⟩
    show array'.contents = l.header 0 ++ []
    rw [happended.contents, show array.contents = [] from h.contents, l.karrayInit_eq,
      List.nil_append, List.append_nil]
  · exact ⟨-1, array', happend, hs', .inr ⟨rfl, hsame, hcontents⟩⟩

theorem kafkaMsgArrayAdd_effect {msgs : List l.Message} {array : Str} (h : Holds msgs array)
    (hs : Roomy m array) (add : Add l) :
    ∃ rc array', kafkaMsgArrayAdd m array add = some (rc, array') ∧ Roomy m array' ∧
      Effect msgs array add rc array' := by
  unfold kafkaMsgArrayAdd
  rw [h.count, Option.bind_eq_bind, Option.bind_some]
  by_cases hne : msgs = []
  · obtain rfl := hne
    rw [if_pos List.length_nil]
    obtain ⟨rc, array₁, hcreate, hs₁, ⟨rfl, h₁⟩ | ⟨rfl, hsize, hcontents⟩⟩ :=
      create_spec h hs add.servedHeader
    · have hroom := h₁.message_fits hs₁
      obtain ⟨rc, array₂, hadd, hs₂, ⟨rfl, h₂⟩ | ⟨-, -, -, hlt⟩⟩ := addMessage_spec h₁ hs₁ add
      · refine ⟨0, array₂, ?_, hs₂, .done (.of_headed (List.cons_ne_nil _ _) ?_ hs₂)⟩
        · rw [hcreate, Option.bind_eq_bind, Option.bind_some]
          exact hadd
        · rw [payload_append]
          exact h₂
      · omega
    · refine ⟨-1, array₁, ?_, hs₁, .failed (h.same hs₁ hsize hcontents) hsize hcontents⟩
      rw [hcreate]
      rfl
  · have hheaded := h.headed hne
    rw [if_neg (fun e ↦ hne (List.length_eq_zero_iff.mp e))]
    obtain ⟨rc, array', hadd, hs', ⟨rfl, h'⟩ | ⟨rfl, hsize, hcontents, -⟩⟩ :=
      addMessage_spec hheaded hs add
    · refine ⟨0, array', hadd, hs', .done (.of_headed (by simp) ?_ hs')⟩
      rw [Nat.mod_eq_of_lt (hheaded.length_lt hs)] at h'
      rw [payload_append, List.length_append]
      exact h'
    · exact ⟨-1, array', hadd, hs', .failed (h.same hs' hsize hcontents) hsize hcontents⟩

/-- The bytes do what the array does as a list of messages, however those are encoded. -/
theorem kafkaMsgArrayAdd_refines (encode : KafkaMessageArray.RdKafkaMessage → l.Message)
    {list : KafkaMessageArray.MessageArray} {array : Str}
    (h : Holds (list.msgs.map encode) array) (hs : Roomy m array) (add : Add l)
    {msg : KafkaMessageArray.RdKafkaMessage} (hmsg : add.msg = encode msg) :
    ∃ rc array', kafkaMsgArrayAdd m array add = some (rc, array') ∧ Roomy m array' ∧
      Holds ((KafkaMessageArray.kafkaMsgArrayAdd (rc == 0) list msg).msgs.map encode) array' := by
  obtain ⟨rc, array', hadd, hs', heffect⟩ := kafkaMsgArrayAdd_effect h hs add
  refine ⟨rc, array', hadd, hs', ?_⟩
  cases heffect with
  | done h' =>
    show Holds ((list.msgs ++ [msg]).map encode) array'
    rw [List.map_append, List.map_singleton, ← hmsg]
    exact h'
  | failed h' _ _ => exact h'

theorem added_cons {array array' : Str} {add : Add l} {rc : ℤ}
    (h : kafkaMsgArrayAdd m array add = some (rc, array')) (adds : List (Add l)) :
    added m array (add :: adds) =
      if rc = 0 then add.msg :: added m array' adds else added m array' adds := by
  rw [added, h]

theorem run_holds (adds : List (Add l)) {msgs : List l.Message} {array : Str}
    (h : Holds msgs array) (hs : Roomy m array) :
    ∃ array', Transition.run (Add.step m) adds array = some array' ∧ Roomy m array' ∧
      Holds (msgs ++ added m array adds) array' := by
  induction adds generalizing msgs array with
  | nil => exact ⟨array, rfl, hs, by rwa [added, List.append_nil]⟩
  | cons add adds ih =>
    obtain ⟨rc, array₁, hadd, hs₁, heffect⟩ := kafkaMsgArrayAdd_effect h hs add
    have hstep : add.step m array = some array₁ := by
      unfold Add.step
      rw [hadd]
      rfl
    have hcons {array' : Str} (hrun : Transition.run (Add.step m) adds array₁ = some array') :
        Transition.run (Add.step m) (add :: adds) array = some array' := by
      rw [Transition.run, hstep]
      exact hrun
    cases heffect with
    | done h₁ =>
      obtain ⟨array', hrun, hs', h'⟩ := ih h₁ hs₁
      refine ⟨array', hcons hrun, hs', ?_⟩
      rw [added_cons hadd, if_pos rfl, List.append_cons]
      exact h'
    | failed h₁ _ _ =>
      obtain ⟨array', hrun, hs', h'⟩ := ih h₁ hs₁
      refine ⟨array', hcons hrun, hs', ?_⟩
      rw [added_cons hadd, if_neg (by decide)]
      exact h'

/-- Whatever the reallocations answer and however many calls there are, the array holds the messages
whose calls return 0, and a call that does not return 0 leaves what is read of the array. -/
theorem run_layout (m : ShiftLeft) (l : Layout) (adds : List (Add l)) :
    (∃ array, Transition.run (Add.step m) adds .initializer = some array ∧
      Holds (added m .initializer adds) array) ∧
    ∀ before add after, adds = before ++ add :: after →
      ∃ array rc array', Transition.run (Add.step m) before .initializer = some array ∧
        kafkaMsgArrayAdd m array add = some (rc, array') ∧
        Effect (added m .initializer before) array add rc array' := by
  have hinit : Holds ([] : List l.Message) .initializer := .empty rfl rfl
  constructor
  · obtain ⟨array, hrun, -, h⟩ := run_holds (m := m) adds hinit .initializer
    exact ⟨array, hrun, h⟩
  · intro before add after _
    obtain ⟨array, hrun, hs, h⟩ := run_holds (m := m) before hinit .initializer
    obtain ⟨rc, array', hadd, -, heffect⟩ := kafkaMsgArrayAdd_effect h hs add
    exact ⟨array, rc, array', hrun, hadd, heffect⟩

/-- The first call takes a small part of the least block. -/
example : debugLayout.headerSize + debugLayout.messageSize = 96 := by decide

end N2Kafka.Util.MessageArrayLayout
