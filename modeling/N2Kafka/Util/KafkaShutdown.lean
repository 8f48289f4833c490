import Mathlib.Algebra.GroupWithZero.Nat
import N2Kafka.Util.PayloadLifetime

namespace N2Kafka.Util.KafkaShutdown

open Lib.RefCount Lib.Transition Util.KafkaMessageArray Util.PayloadLifetime

/-- A call of `kafka_message_array_produce`, with what has become of its messages. -/
structure Sending where
  batch : Batch
  state : State

/-- Before `stop_rdkafka`, in its loop, and behind `rd_kafka_destroy`. -/
inductive Stage
  | serving | draining | destroyed
  deriving DecidableEq

/-- `callback` is the message whose `msg_delivered` the main thread is in. Nothing else polls, so
there is one such call at most. `waited` is set when `rd_kafka_wait_destroyed` has returned 0. -/
structure Rdkafka where
  stage : Stage
  sendings : List Sending
  callback : Option (ℕ × ℕ)
  waited : Bool

def start : Rdkafka := ⟨.serving, [], none, false⟩

def Sending.queued (x : Sending) : Finset ℕ :=
  (Finset.range x.batch.size).filter fun i ↦ x.state.delivery i = .queued

def Rdkafka.outqLen (s : Rdkafka) : ℕ := (s.sendings.map (·.queued.card)).sum

def Rdkafka.put (s : Rdkafka) (j : ℕ) (x : Sending) (state : State) : Rdkafka :=
  { s with sendings := s.sendings.set j { x with state := state } }

def Sending.returned (x : Sending) : Bool :=
  match x.state.producer with
  | .finished _ => true
  | _ => false

inductive Action
  | produce (b : Batch)
  | thread (j : ℕ) (warn : Bool)
  | transmit (j i : ℕ)
  | poll (j i : ℕ)
  | pollNothing
  | callback
  | stop
  | destroy
  | waitDestroyed (gone : Bool)

/-- A thread of a listener produces a batch, or goes on with it; rdkafka sends a message; the main
thread polls, which calls the callback of a message or comes back without a report, or goes on in the
callback; and it enters and leaves `stop_rdkafka`. The threads of the listeners have ended by then. -/
def step : Action → Rdkafka → Option Rdkafka
  | .produce b, s =>
    if s.stage = .serving then some { s with sendings := s.sendings ++ [⟨b, .init b⟩] } else none
  | .thread j warn, s =>
    s.sendings[j]?.bind fun x ↦ (produceStep x.batch warn x.state).map (s.put j x)
  | .transmit j i, s =>
    if s.stage = .destroyed then none
    else s.sendings[j]?.bind fun x ↦
      (PayloadLifetime.step x.batch (.transmit i) x.state).map (s.put j x)
  | .poll j i, s =>
    if s.stage = .destroyed ∨ s.callback ≠ none then none
    else s.sendings[j]?.bind fun x ↦
      if x.state.delivery i = .queued then
        (deliverStep i x.state).map fun t ↦ { s.put j x t with callback := some (j, i) }
      else none
  | .pollNothing, s => if s.stage = .destroyed ∨ s.callback ≠ none then none else some s
  | .callback, s =>
    s.callback.bind fun m ↦ s.sendings[m.1]?.bind fun x ↦
      (deliverStep m.2 x.state).map fun t ↦
        { s.put m.1 x t with callback := if t.array.ref m.2 = .dropped then none else some m }
  | .stop, s =>
    if s.stage = .serving ∧ s.callback = none ∧ s.sendings.all (·.returned) then
      some { s with stage := .draining }
    else none
  | .destroy, s =>
    if s.stage = .draining ∧ s.callback = none ∧ s.outqLen = 0 then
      some { s with stage := .destroyed }
    else none
  | .waitDestroyed gone, s =>
    if s.stage = .destroyed ∧ s.waited = false then some { s with waited := gone } else none

def Running (t : State) (i : ℕ) : Prop := t.delivery i = .delivered ∧ t.array.ref i ≠ .dropped

structure Good (s : Rdkafka) : Prop where
  inv : ∀ x ∈ s.sendings, Inv x.batch x.state
  running : ∀ j x, s.sendings[j]? = some x → ∀ i, Running x.state i ↔ s.callback = some (j, i)
  present : ∀ m ∈ s.callback, m.1 < s.sendings.length
  finished : s.stage ≠ .serving → ∀ x ∈ s.sendings, x.returned = true
  drained : s.stage = .destroyed → s.callback = none ∧ s.outqLen = 0

section Batches

variable {b : Batch} {t t' : State} {i : ℕ}

theorem running_of_produceStep (h : Inv b t) {warn : Bool} (hs : produceStep b warn t = some t')
    (i : ℕ) : Running t' i ↔ Running t i := by
  have hsent := h.sent
  have hposition := h.position
  unfold produceStep at hs
  cases hp : t.producer with
  | prepare k | loop k msgsOk =>
    simp only [hp] at hs
    split at hs <;>
    · obtain rfl := Option.some.inj hs
      rfl
  | batch k =>
    simp only [hp] at hs hsent
    split at hs
    · rename_i hk
      split at hs
      · rename_i he
        obtain rfl := Option.some.inj hs
        by_cases hik : i = k
        · subst hik
          have hunsent := (hsent i ⟨hk, he⟩).mpr (lt_irrefl i)
          simp [Running, State.setDelivery, hunsent]
        · simp [Running, State.setDelivery, State.goto, State.touch, hik]
      · obtain rfl := Option.some.inj hs
        rfl
    · obtain rfl := Option.some.inj hs
      rfl
  | returned msgsOk | warning k msgsOk | log k msgsOk =>
    simp only [hp] at hs
    obtain rfl := Option.some.inj hs
    rfl
  | decref k msgsOk =>
    simp only [hp] at hs hposition
    split at hs
    · obtain rfl := Option.some.inj hs
      rfl
    · obtain rfl := Option.some.inj hs
      by_cases hik : i = k
      · subst hik
        have hunsent := h.unsent i fun ha ↦ ha.not_rejected hposition.1
        simp [Running, State.internalDecref, State.touch, hunsent]
      · have href := Counted.drop_ref_of_ne 64 2 t.array hik
        simp [Running, State.internalDecref, State.touch, href]
  | finished msgsOk =>
    simp only [hp] at hs
    cases hs

theorem returned_iff {x : Sending} :
    x.returned = true ↔ ∃ msgsOk, x.state.producer = .finished msgsOk := by
  unfold Sending.returned
  cases x.state.producer <;> simp

theorem produceStep_of_returned {x : Sending} (h : x.returned = true) (warn : Bool) :
    produceStep x.batch warn x.state = none := by
  obtain ⟨msgsOk, hp⟩ := returned_iff.mp h
  rw [produceStep, hp]

theorem deliverStep_queued (h : Inv b t) (hq : t.delivery i = .queued) :
    deliverStep i t = some ((t.touch arrayPart).setDelivery i .delivered) ∧
      b.Accepted i ∧ t.array.ref i = .held := by
  have ha : b.Accepted i := by
    by_contra hno
    rw [h.unsent i hno] at hq
    cases hq
  refine ⟨by rw [deliverStep, hq], ha, ?_⟩
  by_contra hheld
  rw [h.delivered i ha hheld] at hq
  cases hq

theorem deliverStep_running (hr : Running t i) : deliverStep i t = some (t.internalDecref i) := by
  rw [deliverStep, hr.1]
  exact if_neg hr.2

theorem running_setDelivery (h : Inv b t) (hq : t.delivery i = .queued) (k : ℕ) :
    Running ((t.touch arrayPart).setDelivery i .delivered) k ↔ Running t k ∨ k = i := by
  obtain ⟨-, -, hheld⟩ := deliverStep_queued h hq
  by_cases hki : k = i
  · subst hki
    simp [Running, State.setDelivery, State.touch, hheld]
  · simp [Running, State.setDelivery, State.touch, hki]

theorem running_internalDecref (hr : Running t i) (k : ℕ) : Running (t.internalDecref i) k ↔
    if k = i then (t.internalDecref i).array.ref i ≠ .dropped else Running t k := by
  by_cases hki : k = i
  · subst hki
    rw [if_pos rfl]
    exact and_iff_right hr.1
  · have href := Counted.drop_ref_of_ne 64 2 t.array hki
    rw [if_neg hki]
    simp [Running, State.internalDecref, State.touch, href]

end Batches

variable {s s' : Rdkafka} {j : ℕ} {x : Sending} {t : State}

theorem Good.put (h : Good s) (hx : s.sendings[j]? = some x) (hinv : Inv x.batch t)
    {c : Option (ℕ × ℕ)} (hrunning : ∀ i, Running t i ↔ c = some (j, i))
    (hothers : ∀ k i, k ≠ j → (c = some (k, i) ↔ s.callback = some (k, i)))
    (hreturned : s.stage ≠ .serving → (Sending.mk x.batch t).returned = true)
    (hstage : s.stage ≠ .destroyed) : Good { s.put j x t with callback := c } := by
  obtain ⟨hj, hget⟩ := List.getElem?_eq_some_iff.mp hx
  constructor
  · intro y hy
    obtain hy | rfl := List.mem_or_eq_of_mem_set hy
    · exact h.inv y hy
    · exact hinv
  · intro k y hy i
    by_cases hkj : k = j
    · subst hkj
      have hset : (s.sendings.set k ⟨x.batch, t⟩)[k]? = some ⟨x.batch, t⟩ :=
        List.getElem?_set_self hj
      obtain rfl := Option.some.inj (hset.symm.trans hy)
      exact hrunning i
    · have hset : (s.sendings.set j ⟨x.batch, t⟩)[k]? = s.sendings[k]? :=
        List.getElem?_set_ne (Ne.symm hkj)
      exact (h.running k y (hset.symm.trans hy) i).trans (hothers k i hkj).symm
  · intro m hm
    rw [Rdkafka.put, List.length_set]
    by_cases hmj : m.1 = j
    · rwa [hmj]
    · exact h.present m ((hothers m.1 m.2 hmj).mp hm)
  · intro hs y hy
    obtain hy | rfl := List.mem_or_eq_of_mem_set hy
    · exact h.finished hs y hy
    · exact hreturned hs
  · intro hs
    exact absurd hs hstage

theorem good_start : Good start where
  inv x hx := absurd hx List.not_mem_nil
  running j x hx := by simp [start] at hx
  present m hm := by simp [start] at hm
  finished h := absurd rfl h
  drained h := by simp [start] at h

theorem Good.thread (h : Good s) {warn : Bool} (hx : s.sendings[j]? = some x)
    (hs : produceStep x.batch warn x.state = some t) : Good (s.put j x t) := by
  have hmem := List.mem_of_getElem? hx
  have hserving : s.stage = .serving := by
    by_contra hne
    rw [produceStep_of_returned (h.finished hne x hmem) warn] at hs
    cases hs
  refine h.put hx ((h.inv x hmem).produce warn hs) (fun i ↦ ?_) (fun _ _ _ ↦ Iff.rfl)
    (fun hne ↦ absurd hserving hne) (by simp [hserving])
  exact (running_of_produceStep (h.inv x hmem) hs i).trans (h.running j x hx i)

theorem Good.transmit (h : Good s) {i : ℕ} (hx : s.sendings[j]? = some x)
    (hstage : s.stage ≠ .destroyed)
    (hs : PayloadLifetime.step x.batch (.transmit i) x.state = some t) : Good (s.put j x t) := by
  have hmem := List.mem_of_getElem? hx
  have hinv := (h.inv x hmem).step hs
  simp only [PayloadLifetime.step] at hs
  split at hs
  · obtain rfl := Option.some.inj hs
    exact h.put hx hinv (h.running j x hx) (fun _ _ _ ↦ Iff.rfl)
      (fun hne ↦ h.finished hne x hmem) hstage
  · cases hs

theorem Good.poll (h : Good s) {i : ℕ} (hx : s.sendings[j]? = some x) (hstage : s.stage ≠ .destroyed)
    (hnone : s.callback = none) (hq : x.state.delivery i = .queued)
    (hs : deliverStep i x.state = some t) : Good { s.put j x t with callback := some (j, i) } := by
  have hmem := List.mem_of_getElem? hx
  have hinv := h.inv x hmem
  obtain ⟨hdeliver, -, -⟩ := deliverStep_queued hinv hq
  refine h.put hx (hinv.deliver hs) (fun k ↦ ?_) (fun k l hk ↦ ?_) ?_ hstage
  · obtain rfl := Option.some.inj (hdeliver.symm.trans hs)
    rw [running_setDelivery hinv hq, h.running j x hx, hnone]
    simp [eq_comm]
  · simp [hnone, Ne.symm hk]
  · obtain rfl := Option.some.inj (hdeliver.symm.trans hs)
    exact fun hne ↦ h.finished hne x hmem

theorem Good.called (h : Good s) {i : ℕ} (hx : s.sendings[j]? = some x)
    (hcallback : s.callback = some (j, i)) (hs : deliverStep i x.state = some t) :
    Good { s.put j x t with
      callback := if t.array.ref i = .dropped then none else some (j, i) } := by
  have hmem := List.mem_of_getElem? hx
  have hinv := h.inv x hmem
  have hrunning : Running x.state i := (h.running j x hx i).mpr hcallback
  have hstage : s.stage ≠ .destroyed := by
    intro hd
    rw [(h.drained hd).1] at hcallback
    cases hcallback
  refine h.put hx (hinv.deliver hs) (fun k ↦ ?_) (fun k l hk ↦ ?_) ?_ hstage
  · obtain rfl := Option.some.inj ((deliverStep_running hrunning).symm.trans hs)
    rw [running_internalDecref hrunning, h.running j x hx, hcallback]
    by_cases hki : k = i
    · subst hki
      simp
    · simp [hki, Ne.symm hki]
  · rw [hcallback]
    split <;> simp [Ne.symm hk]
  · obtain rfl := Option.some.inj ((deliverStep_running hrunning).symm.trans hs)
    exact fun hne ↦ h.finished hne x hmem

theorem Good.produce (h : Good s) (hstage : s.stage = .serving) (b : Batch) :
    Good { s with sendings := s.sendings ++ [⟨b, .init b⟩] } := by
  constructor
  · intro y hy
    obtain hy | hy := List.mem_append.mp hy
    · exact h.inv y hy
    · rw [List.mem_singleton.mp hy]
      exact inv_init
  · intro k y hy i
    by_cases hk : k < s.sendings.length
    · rw [List.getElem?_append_left hk] at hy
      exact h.running k y hy i
    · have hlast : k = s.sendings.length := by
        have hlt := (List.getElem?_eq_some_iff.mp hy).1
        rw [List.length_append, List.length_singleton] at hlt
        omega
      subst hlast
      rw [List.getElem?_concat_length] at hy
      obtain rfl := Option.some.inj hy
      refine iff_of_false (by simp [Running, State.init]) fun hc ↦ ?_
      exact lt_irrefl _ (h.present _ hc)
  · intro m hm
    rw [List.length_append]
    exact Nat.lt_add_right _ (h.present m hm)
  · exact fun hne ↦ absurd hstage hne
  · intro hd
    rw [hstage] at hd
    cases hd

/-- What one step can do, and when. -/
inductive Stepped (s : Rdkafka) : Action → Rdkafka → Prop
  | produce {b : Batch} (hstage : s.stage = .serving) :
      Stepped s (.produce b) { s with sendings := s.sendings ++ [⟨b, .init b⟩] }
  | thread {j : ℕ} {warn : Bool} {x : Sending} {t : State} (hx : s.sendings[j]? = some x)
      (ht : produceStep x.batch warn x.state = some t) : Stepped s (.thread j warn) (s.put j x t)
  | transmit {j i : ℕ} {x : Sending} {t : State} (hstage : s.stage ≠ .destroyed)
      (hx : s.sendings[j]? = some x)
      (ht : PayloadLifetime.step x.batch (.transmit i) x.state = some t) :
      Stepped s (.transmit j i) (s.put j x t)
  | poll {j i : ℕ} {x : Sending} {t : State} (hstage : s.stage ≠ .destroyed)
      (hnone : s.callback = none) (hx : s.sendings[j]? = some x)
      (hq : x.state.delivery i = .queued) (ht : deliverStep i x.state = some t) :
      Stepped s (.poll j i) { s.put j x t with callback := some (j, i) }
  | pollNothing : Stepped s .pollNothing s
  | callback {j i : ℕ} {x : Sending} {t : State} (hcallback : s.callback = some (j, i))
      (hx : s.sendings[j]? = some x) (ht : deliverStep i x.state = some t) :
      Stepped s .callback { s.put j x t with
        callback := if t.array.ref i = .dropped then none else some (j, i) }
  | stop (hstage : s.stage = .serving) (hreturned : ∀ x ∈ s.sendings, x.returned = true) :
      Stepped s .stop { s with stage := .draining }
  | destroy (hstage : s.stage = .draining) (hnone : s.callback = none) (hlen : s.outqLen = 0) :
      Stepped s .destroy { s with stage := .destroyed }
  | waitDestroyed {gone : Bool} (hstage : s.stage = .destroyed) (hwaited : s.waited = false) :
      Stepped s (.waitDestroyed gone) { s with waited := gone }

theorem stepped_of_step {a : Action} (hs : step a s = some s') : Stepped s a s' := by
  cases a with
  | produce b =>
    obtain ⟨hstage, rfl⟩ := by simpa [KafkaShutdown.step] using hs
    exact .produce hstage
  | thread j warn =>
    obtain ⟨x, hx, hs⟩ := Option.bind_eq_some_iff.mp hs
    obtain ⟨t, ht, rfl⟩ := Option.map_eq_some_iff.mp hs
    exact .thread hx ht
  | transmit j i =>
    simp only [KafkaShutdown.step] at hs
    split at hs
    · cases hs
    · rename_i hstage
      obtain ⟨x, hx, hs⟩ := Option.bind_eq_some_iff.mp hs
      obtain ⟨t, ht, rfl⟩ := Option.map_eq_some_iff.mp hs
      exact .transmit hstage hx ht
  | poll j i =>
    simp only [KafkaShutdown.step] at hs
    split at hs
    · cases hs
    · rename_i hguard
      obtain ⟨hstage, hnone⟩ := not_or.mp hguard
      obtain ⟨x, hx, hs⟩ := Option.bind_eq_some_iff.mp hs
      split at hs
      · rename_i hq
        obtain ⟨t, ht, rfl⟩ := Option.map_eq_some_iff.mp hs
        exact .poll hstage (not_not.mp hnone) hx hq ht
      · cases hs
  | pollNothing =>
    obtain ⟨-, rfl⟩ := by simpa [KafkaShutdown.step] using hs
    exact .pollNothing
  | callback =>
    obtain ⟨⟨j, i⟩, hcallback, hs⟩ := Option.bind_eq_some_iff.mp hs
    obtain ⟨x, hx, hs⟩ := Option.bind_eq_some_iff.mp hs
    obtain ⟨t, ht, rfl⟩ := Option.map_eq_some_iff.mp hs
    exact .callback hcallback hx ht
  | stop =>
    simp only [KafkaShutdown.step] at hs
    split at hs
    · rename_i hguard
      obtain ⟨hstage, -, hall⟩ := hguard
      obtain rfl := Option.some.inj hs
      exact .stop hstage (List.all_eq_true.mp hall)
    · cases hs
  | destroy =>
    obtain ⟨⟨hstage, hnone, hlen⟩, rfl⟩ := by simpa [KafkaShutdown.step] using hs
    exact .destroy hstage hnone hlen
  | waitDestroyed gone =>
    obtain ⟨⟨hstage, hwaited⟩, rfl⟩ := by simpa [KafkaShutdown.step] using hs
    exact .waitDestroyed hstage hwaited

theorem Good.stepped {a : Action} (h : Good s) (hs : Stepped s a s') : Good s' := by
  cases hs with
  | produce hstage => exact h.produce hstage _
  | thread hx ht => exact h.thread hx ht
  | transmit hstage hx ht => exact h.transmit hx hstage ht
  | poll hstage hnone hx hq ht => exact h.poll hx hstage hnone hq ht
  | pollNothing => exact h
  | callback hcallback hx ht => exact h.called hx hcallback ht
  | stop hstage hreturned =>
    refine ⟨h.inv, h.running, h.present, fun _ ↦ hreturned, fun hd ↦ ?_⟩
    cases hd
  | destroy hstage hnone hlen =>
    refine ⟨h.inv, h.running, h.present, fun _ ↦ h.finished ?_, fun _ ↦ ⟨hnone, hlen⟩⟩
    simp [hstage]
  | waitDestroyed hstage hwaited =>
    exact ⟨h.inv, h.running, h.present, h.finished, h.drained⟩

theorem Good.step {a : Action} (h : Good s) (hs : step a s = some s') : Good s' :=
  h.stepped (stepped_of_step hs)

theorem good_of_reachable (h : Reachable step start s) : Good s :=
  h.invariant good_start fun _ _ _ hg hs ↦ hg.step hs

theorem sum_set {l : List ℕ} {j m : ℕ} (n : ℕ) (h : l[j]? = some m) :
    (l.set j n).sum + m = l.sum + n := by
  induction l generalizing j with
  | nil => cases h
  | cons k l ih =>
    cases j with
    | zero =>
      obtain rfl := Option.some.inj h
      simp only [List.set_cons_zero, List.sum_cons]
      omega
    | succ j =>
      have hih := ih h
      simp only [List.set_cons_succ, List.sum_cons]
      omega

theorem outqLen_put (t : State) (hx : s.sendings[j]? = some x) :
    (s.put j x t).outqLen + x.queued.card = s.outqLen + (Sending.mk x.batch t).queued.card := by
  have hget : (s.sendings.map (·.queued.card))[j]? = some x.queued.card := by
    rw [List.getElem?_map, hx]
    rfl
  rw [Rdkafka.outqLen, Rdkafka.put, List.map_set]
  exact sum_set _ hget

theorem queued_polled {i : ℕ} (h : Inv x.batch x.state) (hq : x.state.delivery i = .queued) :
    (Sending.mk x.batch ((x.state.touch arrayPart).setDelivery i .delivered)).queued.card + 1 =
      x.queued.card := by
  obtain ⟨-, ha, -⟩ := deliverStep_queued h hq
  have hmem : i ∈ x.queued := Finset.mem_filter.mpr ⟨ha.mem, hq⟩
  have herase : (Sending.mk x.batch ((x.state.touch arrayPart).setDelivery i .delivered)).queued =
      x.queued.erase i := by
    ext k
    rw [Finset.mem_erase, Sending.queued, Sending.queued, Finset.mem_filter, Finset.mem_filter]
    by_cases hki : k = i
    · subst hki
      simp [State.setDelivery]
    · simp [State.setDelivery, State.touch, hki]
  rw [herase]
  exact Finset.card_erase_add_one hmem

theorem mem_queued_iff {i : ℕ} (h : Inv x.batch x.state) :
    i ∈ x.queued ↔ x.state.delivery i = .queued := by
  rw [Sending.queued, Finset.mem_filter]
  refine and_iff_right_of_imp fun hq ↦ ?_
  exact (deliverStep_queued h hq).2.1.mem

theorem Good.complete (h : Good s) (hstage : s.stage = .destroyed) (hx : x ∈ s.sendings) :
    Complete x.batch x.state := by
  obtain ⟨hnone, hlen⟩ := h.drained hstage
  have hinv := h.inv x hx
  obtain ⟨msgsOk, hp⟩ := returned_iff.mp (h.finished (by simp [hstage]) x hx)
  obtain ⟨j, hj, hget⟩ := List.mem_iff_getElem.mp hx
  have hqueued : x.queued = ∅ := by
    have hzero := List.sum_eq_zero_iff_forall_eq_nat.mp hlen _ (List.mem_map.mpr ⟨x, hx, rfl⟩)
    exact Finset.card_eq_zero.mp hzero
  refine ⟨⟨msgsOk, hp⟩, fun i hi ↦ ?_⟩
  have hdelivered : x.state.delivery i = .delivered := by
    cases hd : x.state.delivery i with
    | delivered => rfl
    | unsent =>
      have hsent := (hinv.sent i hi).mp hd
      rw [hp] at hsent
      exact absurd trivial hsent
    | queued =>
      have hmem := (mem_queued_iff hinv).mpr hd
      rw [hqueued] at hmem
      exact absurd hmem (Finset.notMem_empty i)
  refine ⟨hdelivered, ?_⟩
  by_contra hne
  have hcallback := (h.running j x (List.getElem?_eq_some_iff.mpr ⟨hj, hget⟩) i).mp ⟨hdelivered, hne⟩
  rw [hnone] at hcallback
  cases hcallback

def stopping : List Action := .produce halfQueued :: List.replicate 13 (.thread 0 false) ++ [.stop]

theorem stopping_runs : (run step stopping start).isSome := rfl

def waiting : Rdkafka := (run step stopping start).get stopping_runs

theorem waiting_reachable : Reachable step start waiting :=
  reachable_of_run .start _ (Option.some_get stopping_runs).symm

def emptying : List Action :=
  [.pollNothing, .poll 0 0, .callback, .callback, .callback, .destroy, .waitDestroyed false,
    .waitDestroyed true]

theorem emptying_runs : (run step emptying waiting).isSome := rfl

def emptied : Rdkafka := (run step emptying waiting).get emptying_runs

theorem emptied_reachable : Reachable step start emptied :=
  reachable_of_run waiting_reachable _ (Option.some_get emptying_runs).symm

/-- However batches, deliveries and the shutdown interleave, nothing released is looked at or
released again; and when the handle of rdkafka is destroyed, every batch ever produced has got all
its callbacks and both of its blocks are released. -/
theorem stop_releases_all (h : Reachable step start s) :
    (∀ x ∈ s.sendings, Safe x.batch x.state) ∧
      (s.stage = .destroyed → ∀ x ∈ s.sendings, Complete x.batch x.state ∧
        x.state.array.frees payloadPart = 1 ∧ x.state.array.frees arrayPart = 1) := by
  have hgood := good_of_reachable h
  refine ⟨fun x hx ↦ (hgood.inv x hx).safe, fun hstage x hx ↦ ?_⟩
  have hcomplete := hgood.complete hstage hx
  exact ⟨hcomplete, (hgood.inv x hx).safe.released hcomplete⟩

theorem emptied_released : emptied.sendings.Forall fun x ↦ Complete x.batch x.state ∧
    x.state.array.frees payloadPart = 1 ∧ x.state.array.frees arrayPart = 1 :=
  List.forall_iff_forall_mem.mpr ((stop_releases_all emptied_reachable).2 rfl)

def isMain : Action → Bool
  | .poll _ _ | .pollNothing | .callback | .destroy | .waitDestroyed _ => true
  | .produce _ | .thread _ _ | .transmit _ _ | .stop => false

/-- rdkafka has nothing to say. -/
def isIdle : Action → Bool
  | .pollNothing | .waitDestroyed false => true
  | _ => false

def refWork : Ref → ℕ
  | .held => 3
  | .releasing 0 => 2
  | .releasing (_ + 1) => 1
  | .dropped => 0

def Rdkafka.callbackWork (s : Rdkafka) : ℕ :=
  s.callback.elim 0 fun m ↦ (s.sendings[m.1]?).elim 0 fun x ↦ refWork (x.state.array.ref m.2)

/-- The calls of `rd_kafka_destroy` and `rd_kafka_wait_destroyed` that are left. -/
def Rdkafka.closing (s : Rdkafka) : ℕ :=
  (if s.stage = .destroyed then 0 else 1) + if s.waited then 0 else 1

def Rdkafka.work (s : Rdkafka) : ℕ := 4 * s.outqLen + s.callbackWork + s.closing

theorem refWork_le (r : Ref) : refWork r ≤ 3 := by
  cases r with
  | held | dropped => decide
  | releasing p =>
    cases p with
    | zero => decide
    | succ p => exact (show 1 ≤ 3 by decide)

theorem Rdkafka.work_le (s : Rdkafka) : s.work ≤ 4 * s.outqLen + 5 := by
  have hcallback : s.callbackWork ≤ 3 := by
    unfold Rdkafka.callbackWork
    cases s.callback with
    | none => exact Nat.zero_le _
    | some m =>
      cases hx : s.sendings[m.1]? with
      | none => simp [hx]
      | some x => simpa [hx] using refWork_le _
  have hclosing : s.closing ≤ 2 := by
    unfold Rdkafka.closing
    split <;> split <;> omega
  unfold Rdkafka.work
  omega

theorem refWork_drop {t : State} {i : ℕ} (hr : t.array.ref i ≠ .dropped) :
    refWork ((t.internalDecref i).array.ref i) < refWork (t.array.ref i) := by
  simp only [State.internalDecref, State.touch, Counted.drop]
  cases href : t.array.ref i with
  | held =>
    simp only [Function.update_self]
    split <;> decide
  | releasing p =>
    simp only [Function.update_self]
    cases p with
    | zero => decide
    | succ p =>
      rw [if_neg (by omega)]
      exact Nat.one_pos
  | dropped => exact absurd href hr

theorem work_polled (h : Good s) {i : ℕ} (hx : s.sendings[j]? = some x) (hnone : s.callback = none)
    (hq : x.state.delivery i = .queued) (hs : deliverStep i x.state = some t) :
    Rdkafka.work { s.put j x t with callback := some (j, i) } + 1 = s.work := by
  have hinv := h.inv x (List.mem_of_getElem? hx)
  obtain ⟨hdeliver, -, hheld⟩ := deliverStep_queued hinv hq
  obtain rfl := Option.some.inj (hdeliver.symm.trans hs)
  have hlen := outqLen_put ((x.state.touch arrayPart).setDelivery i .delivered) hx
  have hcard := queued_polled hinv hq
  have hj : (s.sendings.set j ⟨x.batch, (x.state.touch arrayPart).setDelivery i .delivered⟩)[j]? =
      some ⟨x.batch, (x.state.touch arrayPart).setDelivery i .delivered⟩ :=
    List.getElem?_set_self (List.getElem?_eq_some_iff.mp hx).1
  have hcallback : Rdkafka.callbackWork { s.put j x
      ((x.state.touch arrayPart).setDelivery i .delivered) with callback := some (j, i) } = 3 := by
    simp only [Rdkafka.callbackWork, Rdkafka.put, Option.elim_some, hj]
    exact congrArg refWork hheld
  have hzero : s.callbackWork = 0 := by simp [Rdkafka.callbackWork, hnone]
  have houtq (c : Option (ℕ × ℕ)) (t : State) :
      Rdkafka.outqLen { s.put j x t with callback := c } = (s.put j x t).outqLen := rfl
  have hclosing (c : Option (ℕ × ℕ)) (t : State) :
      Rdkafka.closing { s.put j x t with callback := c } = s.closing := rfl
  rw [Rdkafka.work, Rdkafka.work, hcallback, hzero, houtq, hclosing]
  omega

theorem work_called (h : Good s) {i : ℕ} (hx : s.sendings[j]? = some x)
    (hcallback : s.callback = some (j, i)) (hs : deliverStep i x.state = some t) :
    Rdkafka.work { s.put j x t with
      callback := if t.array.ref i = .dropped then none else some (j, i) } + 1 ≤ s.work := by
  have hrunning : Running x.state i := (h.running j x hx i).mpr hcallback
  obtain rfl := Option.some.inj ((deliverStep_running hrunning).symm.trans hs)
  have hlt := refWork_drop hrunning.2
  have hlen := outqLen_put (x.state.internalDecref i) hx
  have hj : (s.sendings.set j ⟨x.batch, x.state.internalDecref i⟩)[j]? =
      some ⟨x.batch, x.state.internalDecref i⟩ :=
    List.getElem?_set_self (List.getElem?_eq_some_iff.mp hx).1
  have hold : s.callbackWork = refWork (x.state.array.ref i) := by
    simp [Rdkafka.callbackWork, hcallback, hx]
  have hnew : Rdkafka.callbackWork { s.put j x (x.state.internalDecref i) with
      callback := if (x.state.internalDecref i).array.ref i = .dropped then none
        else some (j, i) } = refWork ((x.state.internalDecref i).array.ref i) := by
    by_cases hd : (x.state.internalDecref i).array.ref i = .dropped
    · simp [Rdkafka.callbackWork, hd, refWork]
    · simp [Rdkafka.callbackWork, Rdkafka.put, hd, hj]
  have houtq (c : Option (ℕ × ℕ)) (t : State) :
      Rdkafka.outqLen { s.put j x t with callback := c } = (s.put j x t).outqLen := rfl
  have hclosing (c : Option (ℕ × ℕ)) (t : State) :
      Rdkafka.closing { s.put j x t with callback := c } = s.closing := rfl
  have hqueued : (Sending.mk x.batch (x.state.internalDecref i)).queued = x.queued := rfl
  rw [hqueued] at hlen
  rw [Rdkafka.work, Rdkafka.work, hold, hnew, houtq, hclosing]
  omega

theorem work_touched (part : ℕ) (hx : s.sendings[j]? = some x) :
    (s.put j x (x.state.touch part)).work = s.work := by
  have hlen := outqLen_put (x.state.touch part) hx
  have hqueued : (Sending.mk x.batch (x.state.touch part)).queued = x.queued := rfl
  rw [hqueued, Nat.add_right_cancel_iff] at hlen
  have hcallback : (s.put j x (x.state.touch part)).callbackWork = s.callbackWork := by
    simp only [Rdkafka.callbackWork, Rdkafka.put]
    cases s.callback with
    | none => rfl
    | some m =>
      by_cases hmj : j = m.1
      · have hj : (s.sendings.set m.1 ⟨x.batch, x.state.touch part⟩)[m.1]? =
            some ⟨x.batch, x.state.touch part⟩ :=
          List.getElem?_set_self (List.getElem?_eq_some_iff.mp (hmj ▸ hx)).1
        subst hmj
        simp only [Option.elim_some, hj, hx]
        rfl
      · simp [hmj]
  have hclosing : (s.put j x (x.state.touch part)).closing = s.closing := rfl
  rw [Rdkafka.work, Rdkafka.work, hlen, hcallback, hclosing]

theorem work_destroyed (hstage : s.stage = .draining) :
    Rdkafka.work { s with stage := .destroyed } + 1 = s.work := by
  have hlen : Rdkafka.outqLen { s with stage := .destroyed } = s.outqLen := rfl
  have hcallback : Rdkafka.callbackWork { s with stage := .destroyed } = s.callbackWork := rfl
  simp only [Rdkafka.work, Rdkafka.closing, hlen, hcallback, hstage]
  simp
  omega

theorem work_waited (hwaited : s.waited = false) (gone : Bool) :
    Rdkafka.work { s with waited := gone } + (if gone then 1 else 0) = s.work := by
  have hlen : Rdkafka.outqLen { s with waited := gone } = s.outqLen := rfl
  have hcallback : Rdkafka.callbackWork { s with waited := gone } = s.callbackWork := rfl
  simp only [Rdkafka.work, Rdkafka.closing, hlen, hcallback, hwaited]
  cases gone with
  | false => simp
  | true =>
    simp
    omega

/-- From `stop_rdkafka` on, each step of the main thread is one less to do unless rdkafka has nothing
to say, and no other step adds to what there is to do. -/
theorem Good.stopping (h : Good s) (hstage : s.stage ≠ .serving) {a : Action}
    (hs : KafkaShutdown.step a s = some s') :
    s'.stage ≠ .serving ∧
      (if isMain a then 1 else 0) + s'.work ≤ s.work + if isIdle a then 1 else 0 := by
  cases stepped_of_step hs with
  | produce hserving => exact absurd hserving hstage
  | thread hx ht =>
    rw [produceStep_of_returned (h.finished hstage _ (List.mem_of_getElem? hx))] at ht
    cases ht
  | transmit _ hx ht =>
    simp only [PayloadLifetime.step] at ht
    split at ht
    · obtain rfl := Option.some.inj ht
      refine ⟨hstage, ?_⟩
      rw [work_touched payloadPart hx]
      simp [isMain]
    · cases ht
  | poll _ hnone hx hq ht =>
    refine ⟨hstage, ?_⟩
    rw [← work_polled h hx hnone hq ht]
    simp [isMain, Nat.add_comm]
  | pollNothing => exact ⟨hstage, (Nat.add_comm 1 _).le⟩
  | callback hcallback hx ht =>
    refine ⟨hstage, ?_⟩
    have hwork := work_called h hx hcallback ht
    rw [Nat.add_comm]
    exact hwork.trans (Nat.le_add_right _ _)
  | stop hserving => exact absurd hserving hstage
  | destroy hdraining =>
    refine ⟨by simp, ?_⟩
    rw [← work_destroyed hdraining]
    simp [isMain, Nat.add_comm]
  | @waitDestroyed gone _ hwaited =>
    refine ⟨hstage, ?_⟩
    rw [← work_waited hwaited gone]
    cases gone with
    | false => simp [isMain, isIdle, Nat.add_comm]
    | true => simp [isMain, isIdle, Nat.add_comm]

theorem run_stopping (hgood : Good s) (hstage : s.stage ≠ .serving) {as : List Action}
    (hr : run step as s = some s') :
    Good s' ∧ s'.stage ≠ .serving ∧
      as.countP isMain + s'.work ≤ s.work + as.countP isIdle := by
  induction as generalizing s with
  | nil =>
    obtain rfl := Option.some.inj hr
    exact ⟨hgood, hstage, by simp⟩
  | cons a as ih =>
    obtain ⟨t, ht, hrest⟩ := Option.bind_eq_some_iff.mp hr
    obtain ⟨hstage', hwork⟩ := hgood.stopping hstage ht
    obtain ⟨hgood', hlast, hwork'⟩ := ih (hgood.step ht) hstage' hrest
    refine ⟨hgood', hlast, ?_⟩
    rw [List.countP_cons, List.countP_cons]
    omega

/-- Until `rd_kafka_wait_destroyed` has returned 0, there is something for rdkafka to say. -/
theorem Good.exists_main (h : Good s) (hstage : s.stage ≠ .serving)
    (hends : s.stage ≠ .destroyed ∨ s.waited = false) :
    ∃ a, isMain a = true ∧ isIdle a = false ∧ (KafkaShutdown.step a s).isSome = true := by
  cases hs : s.stage with
  | serving => exact absurd hs hstage
  | destroyed =>
    have hwaited : s.waited = false := hends.resolve_left (not_not_intro hs)
    exact ⟨.waitDestroyed true, rfl, rfl, by simp [KafkaShutdown.step, hs, hwaited]⟩
  | draining =>
    cases hcallback : s.callback with
    | some m =>
      obtain ⟨x, hx⟩ : ∃ x, s.sendings[m.1]? = some x :=
        ⟨_, List.getElem?_eq_getElem (h.present m hcallback)⟩
      have hrunning := (h.running m.1 _ hx m.2).mpr hcallback
      refine ⟨.callback, rfl, rfl, ?_⟩
      simp [KafkaShutdown.step, hcallback, hx, deliverStep_running hrunning]
    | none =>
      by_cases hlen : s.outqLen = 0
      · exact ⟨.destroy, rfl, rfl, by simp [KafkaShutdown.step, hs, hcallback, hlen]⟩
      · obtain ⟨n, hn, hpos⟩ := List.sum_pos_iff_exists_pos_nat.mp (Nat.pos_of_ne_zero hlen)
        obtain ⟨x, hx, rfl⟩ := List.mem_map.mp hn
        obtain ⟨i, hi⟩ := Finset.card_pos.mp hpos
        obtain ⟨j, hj, hget⟩ := List.mem_iff_getElem.mp hx
        have hx' : s.sendings[j]? = some x := List.getElem?_eq_some_iff.mpr ⟨hj, hget⟩
        have hq := (mem_queued_iff (h.inv x hx)).mp hi
        obtain ⟨hdeliver, -, -⟩ := deliverStep_queued (h.inv x hx) hq
        refine ⟨.poll j i, rfl, rfl, ?_⟩
        simp [KafkaShutdown.step, hs, hcallback, hx', hq, hdeliver]

/-- `stop_rdkafka` ends as soon as rdkafka has given back the messages and is gone: apart from the
polls without a report and the waits that time out, four steps for each message that waits, and five
more, are all it can take; and until its end one of these is always possible. -/
theorem stop_ends (h : Reachable step start s) (hstage : s.stage = .draining) {as : List Action}
    (hr : run step as s = some s') :
    as.countP isMain ≤ 4 * s.outqLen + 5 + as.countP isIdle ∧
      ((s'.stage = .destroyed ∧ s'.waited = true) ∨
        ∃ a, isMain a = true ∧ isIdle a = false ∧ (step a s').isSome = true) := by
  obtain ⟨hgood, hstage', hwork⟩ :=
    run_stopping (good_of_reachable h) (by simp [hstage]) hr
  have hle := s.work_le
  refine ⟨by omega, ?_⟩
  by_cases hends : s'.stage = .destroyed ∧ s'.waited = true
  · exact .inl hends
  · refine .inr (hgood.exists_main hstage' ?_)
    rwa [not_and_or, Bool.not_eq_true] at hends

theorem emptying_ends : emptying.countP isMain ≤ 4 * waiting.outqLen + 5 + emptying.countP isIdle ∧
    ((emptied.stage = .destroyed ∧ emptied.waited = true) ∨
      ∃ a, isMain a = true ∧ isIdle a = false ∧ (step a emptied).isSome = true) :=
  stop_ends waiting_reachable rfl (Option.some_get emptying_runs).symm

end N2Kafka.Util.KafkaShutdown
