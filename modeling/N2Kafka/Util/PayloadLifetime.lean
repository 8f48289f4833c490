import N2Kafka.Lib.RefCount
import N2Kafka.Lib.Transition
import N2Kafka.Util.KafkaMessageArray

namespace N2Kafka.Util.PayloadLifetime

open Lib.RefCount Lib.Transition Util.KafkaMessageArray

/-- A message array with a payload buffer, and the error `rd_kafka_produce_batch` leaves in each
message. -/
structure Batch where
  array : MessageArray
  size_pos : 0 < kafkaMessageArraySize array
  size_fits : kafkaMessageArraySize array < 2 ^ 64
  shared : array.payloadBuffer.isSome
  err : ℕ → RespErr

def Batch.size (b : Batch) : ℕ := kafkaMessageArraySize b.array

def Batch.errs (b : Batch) (k : ℕ) : List RespErr := (List.range k).map b.err

/-- Where `kafka_message_array_produce` is: setting the private fields, in
`rd_kafka_produce_batch` after its first `k` messages, and in its loop. -/
inductive Producer
  | prepare (i : ℕ)
  | batch (k : ℕ)
  | returned (msgsOk : ℕ)
  | loop (i msgsOk : ℕ)
  | warning (i msgsOk : ℕ)
  | log (i msgsOk : ℕ)
  | decref (i msgsOk : ℕ)
  | finished (msgsOk : ℕ)
  deriving DecidableEq

inductive Delivery
  | unsent | queued | delivered
  deriving DecidableEq

def payloadPart : ℕ := 0

def arrayPart : ℕ := 1

/-- `bad` once a step has looked at something released before. -/
structure State where
  producer : Producer
  delivery : ℕ → Delivery
  array : Counted ℕ
  bad : Bool

def State.init (b : Batch) : State := ⟨.prepare 0, fun _ ↦ .unsent, .init b.size, false⟩

def State.touch (part : ℕ) (s : State) : State :=
  { s with bad := s.bad || decide (s.array.frees part ≠ 0) }

/-- The next step of `kafka_message_array_internal_decref` on behalf of message `i`: the atomic
decrement, then for the last reference the two calls of `free`. -/
def State.internalDecref (i : ℕ) (s : State) : State :=
  { s.touch arrayPart with array := s.array.drop 64 2 i }

def State.goto (p : Producer) (s : State) : State := { s with producer := p }

def State.setDelivery (i : ℕ) (d : Delivery) (s : State) : State :=
  { s with delivery := Function.update s.delivery i d }

def produceStep (b : Batch) (warn : Bool) (s : State) : Option State :=
  match s.producer with
  | .prepare i =>
    if i < b.size then some ((s.touch arrayPart).goto (.prepare (i + 1)))
    else some (s.goto (.batch 0))
  | .batch k =>
    if k < b.size then
      let s := (s.touch arrayPart).goto (.batch (k + 1))
      some (if b.err k = .noError then s.setDelivery k .queued else s)
    else some (s.goto (.returned (rdKafkaProduceBatch (b.errs b.size))))
  | .returned msgsOk =>
    some (s.goto (if msgsOk = b.size then .finished msgsOk else .loop 0 msgsOk))
  | .loop i msgsOk =>
    if i < b.size ∧ msgsOk < b.size then
      some ((s.touch arrayPart).goto
        (if b.err i = .noError then .loop (i + 1) msgsOk else .warning i (msgsOk + 1)))
    else some (s.goto (.finished msgsOk))
  | .warning i msgsOk =>
    some ((s.touch arrayPart).goto (if warn then .log i msgsOk else .decref i msgsOk))
  | .log i msgsOk => some ((s.touch arrayPart).goto (.decref i msgsOk))
  | .decref i msgsOk =>
    if s.array.ref i = .dropped then some (s.goto (.loop (i + 1) msgsOk))
    else some (s.internalDecref i)
  | .finished _ => none

def deliverStep (i : ℕ) (s : State) : Option State :=
  match s.delivery i with
  | .unsent => none
  | .queued => some ((s.touch arrayPart).setDelivery i .delivered)
  | .delivered => if s.array.ref i = .dropped then none else some (s.internalDecref i)

inductive Action
  | produce (warn : Bool)
  | transmit (i : ℕ)
  | deliver (i : ℕ)

def step (b : Batch) : Action → State → Option State
  | .produce warn, s => produceStep b warn s
  | .transmit i, s => if s.delivery i = .queued then some (s.touch payloadPart) else none
  | .deliver i, s => deliverStep i s

variable (b : Batch)

def Batch.Accepted (i : ℕ) : Prop := i < b.size ∧ b.err i = .noError

def Batch.Rejected (i : ℕ) : Prop := i < b.size ∧ b.err i ≠ .noError

/-- The producer has returned, and so has the delivery callback of every accepted message. -/
def Complete (s : State) : Prop :=
  (∃ msgsOk, s.producer = .finished msgsOk) ∧
    ∀ i, b.Accepted i → s.delivery i = .delivered ∧ s.array.ref i = .dropped

/-- No step looks at a released part, nothing is released twice or too early, and every run can be
completed and then has released both parts. -/
structure Safe (s : State) : Prop where
  good : s.bad = false
  once : ∀ part, s.array.frees part ≤ 1
  late : ∀ part, 0 < s.array.frees part →
    (∀ i, b.Accepted i → s.delivery i = .delivered) ∧ ∀ i, b.Rejected i → s.array.ref i ≠ .held
  released : Complete b s → s.array.frees payloadPart = 1 ∧ s.array.frees arrayPart = 1
  progress : Complete b s ∨ (∀ warn, (produceStep b warn s).isSome) ∨ ∃ i, (deliverStep i s).isSome

def Batch.owners : Finset ℕ := Finset.range b.size

def Producer.frontier : Producer → ℕ
  | .prepare _ | .batch _ | .returned _ => 0
  | .loop i _ | .warning i _ | .log i _ | .decref i _ => i
  | .finished _ => b.size

def Producer.sent : Producer → ℕ → Prop
  | .prepare _, _ => False
  | .batch k, i => i < k
  | _, _ => True

/-- `msgs_ok` counts the accepted messages and the rejected ones passed so far. -/
def Producer.Position : Producer → Prop
  | .prepare _ => True
  | .batch k => k ≤ b.size
  | .returned msgsOk => msgsOk = rdKafkaProduceBatch (b.errs b.size)
  | .loop i msgsOk => i ≤ b.size ∧ msgsOk = rdKafkaProduceBatch (b.errs b.size) + rejected (b.errs i)
  | .warning i msgsOk | .log i msgsOk | .decref i msgsOk =>
    b.Rejected i ∧ msgsOk = rdKafkaProduceBatch (b.errs b.size) + rejected (b.errs (i + 1))
  | .finished msgsOk => msgsOk = b.size

structure Inv (s : State) : Prop where
  good : s.bad = false
  array : Shared 2 b.owners s.array
  position : s.producer.Position b
  unsent : ∀ i, ¬ b.Accepted i → s.delivery i = .unsent
  sent : ∀ i, b.Accepted i → (s.delivery i = .unsent ↔ ¬ s.producer.sent i)
  delivered : ∀ i, b.Accepted i → s.array.ref i ≠ .held → s.delivery i = .delivered
  done : ∀ i, b.Rejected i → i < s.producer.frontier b → s.array.ref i = .dropped
  ahead : ∀ i, b.Rejected i → s.producer.frontier b ≤ i → (∀ msgsOk, s.producer ≠ .decref i msgsOk) →
    s.array.ref i = .held

variable {b}

theorem Batch.Accepted.mem {i : ℕ} (h : b.Accepted i) : i ∈ b.owners := Finset.mem_range.mpr h.1

theorem Batch.Rejected.mem {i : ℕ} (h : b.Rejected i) : i ∈ b.owners := Finset.mem_range.mpr h.1

theorem Batch.accepted_or_rejected {i : ℕ} (h : i < b.size) : b.Accepted i ∨ b.Rejected i := by
  by_cases he : b.err i = .noError
  · exact .inl ⟨h, he⟩
  · exact .inr ⟨h, he⟩

theorem Batch.Accepted.not_rejected {i : ℕ} (h : b.Accepted i) : ¬ b.Rejected i :=
  fun hr ↦ hr.2 h.2

theorem Batch.errs_succ (k : ℕ) : b.errs (k + 1) = b.errs k ++ [b.err k] := by
  simp [Batch.errs, List.range_succ]

theorem Batch.rejected_succ_of_noError {k : ℕ} (h : b.err k = .noError) :
    rejected (b.errs (k + 1)) = rejected (b.errs k) := by
  simp [Batch.errs_succ, rejected, h]

theorem Batch.rejected_succ {k : ℕ} (h : b.err k ≠ .noError) :
    rejected (b.errs (k + 1)) = rejected (b.errs k) + 1 := by
  simp [Batch.errs_succ, rejected, h]

theorem Batch.all_counted :
    rdKafkaProduceBatch (b.errs b.size) + rejected (b.errs b.size) = b.size := by
  have h := count_add_rejected (b.errs b.size)
  rwa [Batch.errs, List.length_map, List.length_range] at h

theorem Batch.rejected_eq_of_none {i n : ℕ} (hin : i ≤ n)
    (h : ∀ j, i ≤ j → j < n → b.err j = .noError) : rejected (b.errs n) = rejected (b.errs i) := by
  induction n, hin using Nat.le_induction with
  | base => rfl
  | succ n hin ih =>
    rw [Batch.rejected_succ_of_noError (h n hin (by omega)), ih fun j hij hj ↦ h j hij (by omega)]

theorem Batch.rejected_mono {i n : ℕ} (hin : i ≤ n) : rejected (b.errs i) ≤ rejected (b.errs n) := by
  induction n, hin using Nat.le_induction with
  | base => exact le_rfl
  | succ n hin ih =>
    by_cases he : b.err n = .noError
    · rwa [Batch.rejected_succ_of_noError he]
    · rw [Batch.rejected_succ he]
      omega

theorem Batch.exists_rejected {i : ℕ} (hi : i ≤ b.size)
    (h : rdKafkaProduceBatch (b.errs b.size) + rejected (b.errs i) < b.size) :
    ∃ j, i ≤ j ∧ b.Rejected j := by
  by_contra hnone
  have heq := Batch.rejected_eq_of_none (b := b) hi fun j hij hj ↦ by
    by_contra he
    exact hnone ⟨j, hij, hj, he⟩
  have hall := b.all_counted
  omega

theorem Batch.rejected_lt {i j : ℕ} (hij : i ≤ j) (hj : b.Rejected j) :
    rejected (b.errs i) < rejected (b.errs b.size) := by
  have hstep := Batch.rejected_succ hj.2
  have hlow := Batch.rejected_mono (b := b) hij
  have hhigh := Batch.rejected_mono (b := b) (show j + 1 ≤ b.size from hj.1)
  omega

theorem State.touch_of_zero {s : State} {part : ℕ} (h : s.array.frees part = 0) :
    s.touch part = s := by
  simp [State.touch, h]

theorem Inv.alive {s : State} (h : Inv b s) {i : ℕ} (hi : i ∈ b.owners)
    (hr : s.array.ref i ≠ .dropped) : s.array.frees arrayPart = 0 :=
  h.array.alive hi hr

theorem Inv.touch {s : State} (h : Inv b s) {i : ℕ} (hi : i ∈ b.owners)
    (hr : s.array.ref i ≠ .dropped) : s.touch arrayPart = s :=
  State.touch_of_zero (h.alive hi hr)

theorem Inv.goto {s : State} (h : Inv b s) {p : Producer} (hpos : p.Position b)
    (hsent : ∀ i, b.Accepted i → (p.sent i ↔ s.producer.sent i))
    (hdone : ∀ i, b.Rejected i → i < p.frontier b → s.array.ref i = .dropped)
    (hahead : ∀ i, b.Rejected i → p.frontier b ≤ i → (∀ msgsOk, p ≠ .decref i msgsOk) →
      s.array.ref i = .held) : Inv b (s.goto p) where
  good := h.good
  array := h.array
  position := hpos
  unsent := h.unsent
  sent i hi := (h.sent i hi).trans (not_congr (hsent i hi).symm)
  delivered := h.delivered
  done := hdone
  ahead := hahead

theorem Inv.internalDecref {s : State} (h : Inv b s) {i : ℕ} (hi : i ∈ b.owners)
    (hr : s.array.ref i ≠ .dropped) (hacc : b.Accepted i → s.delivery i = .delivered)
    (hrej : b.Rejected i → ∃ msgsOk, s.producer = .decref i msgsOk) :
    Inv b (s.internalDecref i) := by
  have hother {j : ℕ} (hj : j ≠ i) : (s.array.drop 64 2 i).ref j = s.array.ref j :=
    Counted.drop_ref_of_ne 64 2 s.array hj
  have hcard : b.owners.card < 2 ^ 64 := by
    rw [Batch.owners, Finset.card_range]
    exact b.size_fits
  rw [State.internalDecref, h.touch hi hr]
  refine ⟨h.good, h.array.drop hcard (by omega) hi, h.position, h.unsent, h.sent, ?_, ?_, ?_⟩
  · intro j hj hheld
    by_cases hji : j = i
    · subst hji
      exact hacc hj
    · dsimp only at hheld
      rw [hother hji] at hheld
      exact h.delivered j hj hheld
  · intro j hj hlt
    have hji : j ≠ i := by
      rintro rfl
      obtain ⟨msgsOk, hp⟩ := hrej hj
      dsimp only at hlt
      rw [hp] at hlt
      exact absurd hlt (lt_irrefl j)
    dsimp only
    rw [hother hji]
    exact h.done j hj hlt
  · intro j hj hle hne
    have hji : j ≠ i := by
      rintro rfl
      obtain ⟨msgsOk, hp⟩ := hrej hj
      exact hne msgsOk hp
    dsimp only
    rw [hother hji]
    exact h.ahead j hj hle hne

theorem inv_init : Inv b (.init b) where
  good := rfl
  array := by
    have hne : b.owners.Nonempty := ⟨0, Finset.mem_range.mpr b.size_pos⟩
    have h := shared_init 2 hne
    rwa [Batch.owners, Finset.card_range] at h
  position := trivial
  unsent _ _ := rfl
  sent i _ := by simp [State.init, Producer.sent]
  delivered i _ h := absurd rfl h
  done i _ h := absurd h (Nat.not_lt_zero i)
  ahead _ _ _ _ := rfl

theorem Inv.held_of_frontier {s : State} (h : Inv b s) (hf : s.producer.frontier b = 0)
    (hne : ∀ i msgsOk, s.producer ≠ .decref i msgsOk) {i : ℕ} (hi : b.Rejected i) :
    s.array.ref i = .held :=
  h.ahead i hi (by omega) (hne i)

theorem Inv.held_of_unsent {s : State} (h : Inv b s) (hf : s.producer.frontier b = 0)
    (hne : ∀ i msgsOk, s.producer ≠ .decref i msgsOk) {i : ℕ} (hi : i < b.size)
    (hs : ¬ s.producer.sent i) : s.array.ref i = .held := by
  rcases Batch.accepted_or_rejected hi with ha | hr
  · by_contra hheld
    have hd := h.delivered i ha hheld
    rw [(h.sent i ha).mpr hs] at hd
    cases hd
  · exact h.held_of_frontier hf hne hr

theorem Inv.prepare {s : State} (h : Inv b s) {i : ℕ} (hp : s.producer = .prepare i) (warn : Bool)
    {s' : State} (hs : produceStep b warn s = some s') : Inv b s' := by
  have hf : s.producer.frontier b = 0 := by rw [hp]; rfl
  have hne (j msgsOk : ℕ) : s.producer ≠ .decref j msgsOk := by simp [hp]
  have hheld {j : ℕ} (hj : b.Rejected j) := h.held_of_frontier hf hne hj
  simp only [produceStep, hp] at hs
  split at hs <;> cases hs
  · rename_i hi
    have hk := h.held_of_unsent hf hne hi (by simp [hp, Producer.sent])
    rw [h.touch (Finset.mem_range.mpr hi) (by simp [hk])]
    exact h.goto trivial (fun j _ ↦ by simp [hp, Producer.sent])
      (fun j _ hj ↦ absurd hj (Nat.not_lt_zero j)) (fun j hj _ _ ↦ hheld hj)
  · exact h.goto (Nat.zero_le _) (fun j _ ↦ by simp [hp, Producer.sent])
      (fun j _ hj ↦ absurd hj (Nat.not_lt_zero j)) (fun j hj _ _ ↦ hheld hj)

theorem Inv.queue {s : State} (h : Inv b s) {k : ℕ} (hp : s.producer = .batch k)
    (hk : b.Accepted k) : Inv b ((s.goto (.batch (k + 1))).setDelivery k .queued) := by
  have hheld : s.array.ref k = .held :=
    h.held_of_unsent (by rw [hp]; rfl) (by simp [hp]) hk.1 (by simp [hp, Producer.sent])
  refine ⟨h.good, h.array, hk.1, ?_, ?_, ?_, ?_, ?_⟩
  · intro j hj
    have hjk : j ≠ k := by
      rintro rfl
      exact hj hk
    simpa [State.setDelivery, State.goto, hjk] using h.unsent j hj
  · intro j hj
    by_cases hjk : j = k
    · simp [State.setDelivery, State.goto, Producer.sent, hjk]
    · have hsent := h.sent j hj
      rw [hp] at hsent
      have hlt : j < k + 1 ↔ j < k := by omega
      simpa [State.setDelivery, State.goto, Producer.sent, hjk, hlt] using hsent
  · intro j hj href
    have hjk : j ≠ k := by
      rintro rfl
      exact href hheld
    simpa [State.setDelivery, State.goto, hjk] using h.delivered j hj href
  · intro j _ hlt
    exact absurd hlt (Nat.not_lt_zero j)
  · intro j hj _ _
    exact h.held_of_frontier (by rw [hp]; rfl) (by simp [hp]) hj

theorem Inv.batch {s : State} (h : Inv b s) {k : ℕ} (hp : s.producer = .batch k) (warn : Bool)
    {s' : State} (hs : produceStep b warn s = some s') : Inv b s' := by
  have hf : s.producer.frontier b = 0 := by rw [hp]; rfl
  have hne (j msgsOk : ℕ) : s.producer ≠ .decref j msgsOk := by simp [hp]
  have hheld {j : ℕ} (hj : b.Rejected j) := h.held_of_frontier hf hne hj
  have hpos := h.position
  rw [hp] at hpos
  simp only [produceStep, hp] at hs
  split at hs <;> cases hs
  · rename_i hk
    have hown := h.held_of_unsent hf hne hk (by simp [hp, Producer.sent])
    rw [h.touch (Finset.mem_range.mpr hk) (by simp [hown])]
    split
    · rename_i he
      exact h.queue hp ⟨hk, he⟩
    · rename_i he
      refine h.goto hk (fun j hj ↦ ?_) (fun j _ hj ↦ absurd hj (Nat.not_lt_zero j))
        (fun j hj _ _ ↦ hheld hj)
      have hjk : j ≠ k := by
        rintro rfl
        exact he hj.2
      simp only [hp, Producer.sent]
      omega
  · rename_i hk
    refine h.goto rfl (fun j hj ↦ ?_) (fun j _ hj ↦ absurd hj (Nat.not_lt_zero j))
      (fun j hj _ _ ↦ hheld hj)
    have hlt := hj.1
    simp only [hp, Producer.sent, true_iff]
    exact lt_of_lt_of_le hlt (not_lt.mp hk)

theorem Inv.returned {s : State} (h : Inv b s) {msgsOk : ℕ} (hp : s.producer = .returned msgsOk)
    (warn : Bool) {s' : State} (hs : produceStep b warn s = some s') : Inv b s' := by
  have hheld {j : ℕ} (hj : b.Rejected j) :=
    h.held_of_frontier (by rw [hp]; rfl) (by simp [hp]) hj
  have hpos := h.position
  rw [hp] at hpos
  simp only [produceStep, hp] at hs
  cases hs
  split
  · rename_i hall
    refine h.goto hall (fun j _ ↦ by simp [hp, Producer.sent]) (fun j hj _ ↦ ?_)
      (fun j hj _ _ ↦ hheld hj)
    have hlt := Batch.rejected_lt (Nat.zero_le j) hj
    have hcounted := b.all_counted
    have hpos' : msgsOk = rdKafkaProduceBatch (b.errs b.size) := hpos
    omega
  · refine h.goto ⟨Nat.zero_le _, ?_⟩ (fun j _ ↦ by simp [hp, Producer.sent])
      (fun j _ hj ↦ absurd hj (Nat.not_lt_zero j)) (fun j hj _ _ ↦ hheld hj)
    exact hpos

theorem Inv.loop {s : State} (h : Inv b s) {i msgsOk : ℕ} (hp : s.producer = .loop i msgsOk)
    (warn : Bool) {s' : State} (hs : produceStep b warn s = some s') : Inv b s' := by
  have hpos := h.position
  have hdone := h.done
  have hahead := h.ahead
  rw [hp] at hpos hdone hahead
  obtain ⟨hi, hok⟩ := hpos
  simp only [produceStep, hp] at hs
  split at hs <;> cases hs
  · rename_i hrun
    -- a rejected message is still ahead, so its reference keeps the array alive
    obtain ⟨j, hij, hj⟩ := Batch.exists_rejected hi (hok ▸ hrun.2)
    rw [h.touch hj.mem (by simp [hahead j hj hij (by simp)])]
    split
    · rename_i he
      refine h.goto ⟨hrun.1, ?_⟩ (fun j _ ↦ by simp [hp, Producer.sent]) (fun j hj hlt ↦ ?_)
        (fun j hj hle _ ↦ ?_)
      · rw [Batch.rejected_succ_of_noError he, hok]
      · have hne : j ≠ i := by
          rintro rfl
          exact hj.2 he
        have hlt' : j < i + 1 := hlt
        exact hdone j hj (show j < i by omega)
      · have hle' : i + 1 ≤ j := hle
        exact hahead j hj (show i ≤ j by omega) (by simp)
    · rename_i he
      refine h.goto ⟨⟨hrun.1, he⟩, ?_⟩ (fun j _ ↦ by simp [hp, Producer.sent]) hdone
        (fun j hj hle _ ↦ hahead j hj hle (by simp))
      rw [Batch.rejected_succ he, hok]
      omega
  · rename_i hend
    have hle := Batch.rejected_mono (b := b) hi
    have hall := b.all_counted
    have hend' : i = b.size ∨ msgsOk = b.size := by omega
    have hnone : ∀ j, b.Rejected j → j < i := by
      intro j hj
      by_contra hij
      have hlt := Batch.rejected_lt (not_lt.mp hij) hj
      have hj' := hj.1
      omega
    refine h.goto ?_ (fun j _ ↦ by simp [hp, Producer.sent]) (fun j hj _ ↦ hdone j hj (hnone j hj))
      (fun j hj hle' _ ↦ absurd hj.1 (not_lt.mpr hle'))
    rcases hend' with rfl | hend'
    · exact hok.trans hall
    · exact hend'

theorem Inv.reading {s : State} (h : Inv b s) {i : ℕ} (hi : b.Rejected i) {p : Producer}
    (hf : s.producer.frontier b = i) (hf' : p.frontier b = i)
    (hne : ∀ j msgsOk, s.producer ≠ .decref j msgsOk) (hpos : p.Position b)
    (hsent : ∀ j, p.sent j ↔ s.producer.sent j) : Inv b ((s.touch arrayPart).goto p) := by
  rw [h.touch hi.mem (by simp [h.ahead i hi hf.le (hne i)])]
  refine h.goto hpos (fun j _ ↦ hsent j) (fun j hj hlt ↦ h.done j hj (by omega)) ?_
  intro j hj hle _
  exact h.ahead j hj (by omega) (hne j)

theorem Inv.decref {s : State} (h : Inv b s) {i msgsOk : ℕ} (hp : s.producer = .decref i msgsOk)
    (warn : Bool) {s' : State} (hs : produceStep b warn s = some s') : Inv b s' := by
  have hpos := h.position
  have hdone := h.done
  have hahead := h.ahead
  rw [hp] at hpos hdone hahead
  obtain ⟨hi, hok⟩ := hpos
  simp only [produceStep, hp] at hs
  split at hs <;> cases hs
  · rename_i hdropped
    refine h.goto ⟨hi.1, hok⟩ (fun j _ ↦ by simp [hp, Producer.sent]) (fun j hj hlt ↦ ?_)
      (fun j hj hle _ ↦ ?_)
    · by_cases hji : j = i
      · rw [hji, hdropped]
      · have hlt' : j < i + 1 := hlt
        exact hdone j hj (show j < i by omega)
    · have hle' : i + 1 ≤ j := hle
      have hij : i ≠ j := by omega
      exact hahead j hj (show i ≤ j by omega) (by simp [hij])
  · rename_i hheld
    exact h.internalDecref hi.mem hheld (fun ha ↦ absurd hi ha.not_rejected) fun _ ↦ ⟨msgsOk, hp⟩

theorem Inv.produce {s : State} (h : Inv b s) (warn : Bool) {s' : State}
    (hs : produceStep b warn s = some s') : Inv b s' := by
  have hpos := h.position
  cases hp : s.producer with
  | prepare i => exact h.prepare hp warn hs
  | batch k => exact h.batch hp warn hs
  | returned msgsOk => exact h.returned hp warn hs
  | loop i msgsOk => exact h.loop hp warn hs
  | warning i msgsOk =>
    rw [hp] at hpos
    simp only [produceStep, hp] at hs
    cases hs
    cases warn <;>
    exact h.reading hpos.1 (by rw [hp]; rfl) rfl (by simp [hp]) hpos (by simp [hp, Producer.sent])
  | log i msgsOk =>
    rw [hp] at hpos
    simp only [produceStep, hp] at hs
    cases hs
    exact h.reading hpos.1 (by rw [hp]; rfl) rfl (by simp [hp]) hpos (by simp [hp, Producer.sent])
  | decref i msgsOk => exact h.decref hp warn hs
  | finished msgsOk => simp [produceStep, hp] at hs

theorem Inv.deliver {s : State} (h : Inv b s) {i : ℕ} {s' : State}
    (hs : deliverStep i s = some s') : Inv b s' := by
  have hacc (hne : s.delivery i ≠ .unsent) : b.Accepted i := by
    by_contra hi
    exact hne (h.unsent i hi)
  unfold deliverStep at hs
  cases hd : s.delivery i with
  | unsent => simp [hd] at hs
  | queued =>
    simp only [hd] at hs
    cases hs
    have hi := hacc (by simp [hd])
    have hheld : s.array.ref i = .held := by
      by_contra hheld
      rw [h.delivered i hi hheld] at hd
      cases hd
    rw [h.touch hi.mem (by simp [hheld])]
    refine ⟨h.good, h.array, h.position, ?_, ?_, ?_, h.done, h.ahead⟩
    · intro j hj
      have hji : j ≠ i := by
        rintro rfl
        exact hj hi
      simpa [State.setDelivery, hji] using h.unsent j hj
    · intro j hj
      by_cases hji : j = i
      · have hsent := h.sent i hi
        simp only [hd, reduceCtorEq, false_iff, not_not] at hsent
        simpa [State.setDelivery, hji] using hsent
      · simpa [State.setDelivery, hji] using h.sent j hj
    · intro j hj href
      by_cases hji : j = i
      · simp [State.setDelivery, hji]
      · simpa [State.setDelivery, hji] using h.delivered j hj href
  | delivered =>
    simp only [hd] at hs
    split at hs <;> cases hs
    rename_i hheld
    have hi := hacc (by simp [hd])
    exact h.internalDecref hi.mem hheld (fun _ ↦ hd) fun hr ↦ absurd hr hi.not_rejected

theorem Inv.step {s s' : State} (h : Inv b s) {a : Action} (hs : step b a s = some s') :
    Inv b s' := by
  cases a with
  | produce warn => exact h.produce warn hs
  | deliver i => exact h.deliver hs
  | transmit i =>
    simp only [PayloadLifetime.step] at hs
    split at hs <;> cases hs
    rename_i hq
    have hi : b.Accepted i := by
      by_contra hi
      rw [h.unsent i hi] at hq
      cases hq
    have hheld : s.array.ref i = .held := by
      by_contra hheld
      rw [h.delivered i hi hheld] at hq
      cases hq
    have hzero : s.array.frees payloadPart = 0 := by
      rw [(h.array.freed_zero hi.mem hheld).1]
      rfl
    rw [State.touch_of_zero hzero]
    exact h

theorem produceStep_isSome {s : State} (h : ∀ msgsOk, s.producer ≠ .finished msgsOk) (warn : Bool) :
    (produceStep b warn s).isSome := by
  unfold produceStep
  cases hp : s.producer with
  | finished msgsOk => exact absurd hp (h msgsOk)
  | prepare i | batch k | loop i msgsOk | decref i msgsOk =>
    dsimp only
    split <;> rfl
  | returned msgsOk | warning i msgsOk | log i msgsOk => rfl

theorem Inv.deliverStep_isSome {s : State} (h : Inv b s) {msgsOk : ℕ}
    (hp : s.producer = .finished msgsOk) {i : ℕ} (hi : b.Accepted i)
    (hn : ¬ (s.delivery i = .delivered ∧ s.array.ref i = .dropped)) : (deliverStep i s).isSome := by
  unfold deliverStep
  cases hd : s.delivery i with
  | unsent =>
    have hsent := (h.sent i hi).mp hd
    rw [hp] at hsent
    exact absurd trivial hsent
  | queued => rfl
  | delivered =>
    rw [hd, and_iff_right rfl] at hn
    simp [hn]

theorem Inv.progress {s : State} (h : Inv b s) :
    Complete b s ∨ (∀ warn, (produceStep b warn s).isSome) ∨ ∃ i, (deliverStep i s).isSome := by
  by_cases hf : ∃ msgsOk, s.producer = .finished msgsOk
  · by_cases hc : Complete b s
    · exact .inl hc
    · obtain ⟨msgsOk, hp⟩ := hf
      simp only [Complete, hp, not_and, not_forall] at hc
      obtain ⟨i, hi, hn⟩ := hc ⟨msgsOk, rfl⟩
      exact .inr (.inr ⟨i, h.deliverStep_isSome hp hi (not_and.mpr hn)⟩)
  · exact .inr (.inl (produceStep_isSome (not_exists.mp hf)))

theorem Inv.safe {s : State} (h : Inv b s) : Safe b s where
  good := h.good
  once := h.array.frees_le_one
  late part hpart := by
    have hheld {i : ℕ} (hi : i ∈ b.owners) := h.array.not_held_of_freed hpart hi
    exact ⟨fun i hi ↦ h.delivered i hi (hheld hi.mem), fun i hi ↦ hheld hi.mem⟩
  released hc := by
    obtain ⟨⟨msgsOk, hp⟩, hacc⟩ := hc
    have hfreed := h.array.freed_all ⟨0, Finset.mem_range.mpr b.size_pos⟩ fun i hi ↦ by
      rcases Batch.accepted_or_rejected (Finset.mem_range.mp hi) with ha | hr
      · exact (hacc i ha).2
      · refine h.done i hr ?_
        rw [hp]
        exact hr.1
    exact ⟨hfreed payloadPart, hfreed arrayPart⟩
  progress := h.progress

theorem inv_of_reachable {s : State} (h : Reachable (step b) (.init b) s) : Inv b s :=
  h.invariant inv_init fun _ _ _ hi hs ↦ Inv.step hi hs

/-- Whatever the callbacks do in between, the producer returns what the sequential model says. -/
theorem finished_msgsOk {s : State} (h : Reachable (step b) (.init b) s) {msgsOk : ℕ}
    (hp : s.producer = .finished msgsOk) (clock : ℕ → ℤ) (state : Option (ℕ → ℤ)) :
    msgsOk = (kafkaMessageArrayProduce b.array b.err clock state).msgsOk := by
  have hpos := (inv_of_reachable h).position
  rw [hp] at hpos
  rw [kafkaMessageArrayProduce_msgsOk]
  exact hpos

theorem safe_of_reachable (b : Batch) {s : State} (h : Reachable (step b) (.init b) s) : Safe b s :=
  (inv_of_reachable h).safe

def halfQueued : Batch where
  array := ⟨[⟨some 0, 2⟩, ⟨some 2, 2⟩], some (Lib.CString.ascii "\x7b\x7d\x7b\x7d")⟩
  size_pos := by decide
  size_fits := by decide
  shared := rfl
  err i := if i = 0 then .noError else .queueFull

def earlyDelivery : List Action :=
  [.produce false, .produce false, .produce false, .produce false, .transmit 0, .deliver 0,
    .deliver 0, .produce false, .produce false, .produce false, .produce false, .produce true,
    .produce true, .produce true, .produce true, .produce true, .produce true, .produce true,
    .produce true]

theorem safe_after_early_delivery :
    ∃ s, run (step halfQueued) earlyDelivery (.init halfQueued) = some s ∧
      Complete halfQueued s ∧ Safe halfQueued s := by
  refine ⟨_, rfl, ⟨⟨2, rfl⟩, ?_⟩,
    safe_of_reachable halfQueued (reachable_of_run .start earlyDelivery rfl)⟩
  rintro i ⟨hi, he⟩
  have hzero : i = 0 := by
    by_contra hne
    simp [halfQueued, hne] at he
  subst hzero
  exact ⟨rfl, by decide +kernel⟩

end N2Kafka.Util.PayloadLifetime
