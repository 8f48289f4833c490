import N2Kafka.Decoder.JsonAllocations

namespace N2Kafka.Decoder.RejectedMessages

open Lib.CString Lib.JsonText Util.Pairs Util.KafkaMessageArray Decoder.DecoderApi Decoder.Yajl
open Decoder.ZzParser Decoder.ZzDecoder Decoder.ZzParserJson Decoder.JsonFraming
open Decoder.JsonAllocations

def acceptedPayloads (handed : List Handed) : List Bytes :=
  (handed.filter (·.2 = .noError)).map (·.1)

def completedIn (before after : ZzJsonSession) : List Bytes :=
  (outermost after.yajlHandler.text).drop (outermost before.yajlHandler.text).length

/-- A call answers OK only if every object it completed was accepted; otherwise it answers with an
error, and with `BUFFER_FULL` if the input was valid. -/
structure Loud (before : ZzJsonSession) (d : Decoded ZzJsonSession) : Prop where
  ok : d.rc = .ok → acceptedPayloads d.handed = completedIn before d.session.parser
  error : acceptedPayloads d.handed ≠ completedIn before d.session.parser → d.rc ≠ .ok ∧
    (d.session.parser.yajlHandler.failed = false → d.rc = .bufferFull)

/-- Every object that a chunk completes gets its memory and is accepted by rdkafka, and no earlier
chunk has lost bytes of it. -/
structure Delivered (env : Env) (y : Grammar) (json : ZzJsonSession) (buffer : Bytes) : Prop where
  begun : begunEarlier y json buffer ≠ [] → Intact json ∧ env.splitAppended
  added : ∀ k < (begunHere y json buffer).length, env.added k
  accepted : ∀ k < (completes y json buffer).length, env.verdict k = .noError

variable {env : Env} {y : Grammar} {json : ZzJsonSession} {buffer : Bytes}

theorem acceptedPayloads_eq {handed : List Handed} (h : ∀ x ∈ handed, x.2 = .noError) :
    acceptedPayloads handed = handed.map (·.1) := by
  rw [acceptedPayloads, List.filter_eq_self.mpr (by simpa using h)]

theorem accepted_of_length {handed : List Handed} {objects : List Bytes}
    (h : acceptedPayloads handed = objects) (hle : handed.length ≤ objects.length) :
    handed.map (·.1) = objects ∧ ∀ x ∈ handed, x.2 = .noError := by
  have hlen := congrArg List.length h
  rw [acceptedPayloads, List.length_map] at hlen
  have hfilter := List.length_filter_le (·.2 = .noError) handed
  have hself : (handed.filter (·.2 = .noError)).length = handed.length := by omega
  have hall : ∀ x ∈ handed, x.2 = .noError := by
    simpa using List.length_filter_eq_length_iff.mp hself
  exact ⟨(acceptedPayloads_eq hall).symm.trans h, hall⟩

theorem loud_of_nothing {json : ZzJsonSession} {d : Decoded ZzJsonSession} (hh : d.handed = [])
    (htext : d.session.parser.yajlHandler.text = json.yajlHandler.text) : Loud json d := by
  have heq : acceptedPayloads d.handed = completedIn json d.session.parser := by
    simp [hh, htext, acceptedPayloads, completedIn]
  exact ⟨fun _ ↦ heq, fun hne ↦ absurd heq hne⟩

theorem delivered_nil (y : Grammar) (json : ZzJsonSession) : Delivered env y json [] := by
  have hcompletes : completes y json [] = [] := by simp [completes, Grammar.accepted]
  constructor <;> simp [begunEarlier, begunHere, hcompletes]

section Through

variable {processed : Processed ZzJsonSession} {front own : List Bytes}

theorem verdicts_iff (ho : Outcome env y json buffer processed front own) :
    (∀ x ∈ (consume env.verdict env.clock processed).handed, x.2 = .noError) ↔
      ∀ k < (payloadsOf env y json buffer).length, env.verdict k = .noError := by
  have hmem : (∀ v ∈ (consume env.verdict env.clock processed).handed.map (·.2), v = .noError) ↔
      ∀ k < (payloadsOf env y json buffer).length, env.verdict k = .noError := by
    rw [handed_verdicts ho]
    simp
  rw [← hmem, List.forall_mem_map]

theorem accepted_iff_delivered (ho : Outcome env y json buffer processed front own) :
    acceptedPayloads (consume env.verdict env.clock processed).handed = completes y json buffer ↔
      Delivered env y json buffer := by
  have hhanded := handed_payloads ho
  have hlen := congrArg List.length hhanded
  rw [List.length_map] at hlen
  constructor
  · intro h
    obtain ⟨heq, hall⟩ := accepted_of_length h (hlen.le.trans payloadsOf_length_le)
    rw [hhanded] at heq
    obtain ⟨hbegun, hadded⟩ := delivered_of_subperm (List.Perm.of_eq heq.symm).subperm
    exact ⟨hbegun, hadded, heq ▸ (verdicts_iff ho).mp hall⟩
  · intro h
    have heq := payloadsOf_eq h.begun h.added
    rw [acceptedPayloads_eq ((verdicts_iff ho).mpr (heq.symm ▸ h.accepted)), hhanded, heq]

theorem loud_iff_delivered (ho : Outcome env y json buffer processed front own)
    (hacc : y.accepted json.yajlHandler.text buffer = buffer) :
    Loud json (consume env.verdict env.clock processed) ↔ Delivered env y json buffer := by
  have hcompleted : completedIn json (consume env.verdict env.clock processed).session.parser =
      completes y json buffer := by
    rw [parser_consume, completedIn, ho.text, completes]
  have hrc : (consume env.verdict env.clock processed).rc = .ok := by
    rw [consume_rc, ho.rc, if_pos hacc]
  rw [← accepted_iff_delivered ho, ← hcompleted]
  exact ⟨fun h ↦ h.ok hrc, fun heq ↦ ⟨fun _ ↦ heq, fun hne ↦ absurd heq hne⟩⟩

theorem loud_of_refused (ho : Outcome env y json buffer processed front own)
    (hacc : y.accepted json.yajlHandler.text buffer ≠ buffer) :
    Loud json (consume env.verdict env.clock processed) := by
  have hrc : (consume env.verdict env.clock processed).rc ≠ .ok := by
    rw [consume_rc, ho.rc, if_neg hacc]
    decide
  refine ⟨fun hok ↦ absurd hok hrc, fun _ ↦ ⟨hrc, fun hfailed ↦ ?_⟩⟩
  rw [parser_consume, ho.failed] at hfailed
  simp [hacc] at hfailed

end Through

theorem loud_iff (y : Grammar) (env : Env) (props : KeyvalList) (buffer : Bytes)
    (session : ZzSession ZzJsonSession) (hs : Reached y session) :
    ∃ d, zzDecodeJson env y props buffer session = some d ∧
      (Loud session.parser d ↔
        methodAllowed props → env.malloc → session.parser.yajlHandler.failed = false →
          y.accepted session.parser.yajlHandler.text buffer = buffer →
          Delivered env y session.parser buffer) := by
  cases hf : session.parser.yajlHandler.failed with
  | true =>
    by_cases hm : methodAllowed props
    · obtain ⟨d, hd, hh, hhandler, -⟩ := zzDecodeJson_failed env y hm hf buffer
      exact ⟨d, hd, iff_of_true (loud_of_nothing hh (by rw [hhandler])) (by simp)⟩
    · exact ⟨⟨session, .httpMethodNotAllowed, none, []⟩, by simp [zzDecodeJson, zzDecode, hm],
        iff_of_true (loud_of_nothing rfl rfl) fun h ↦ absurd h hm⟩
  | false =>
    obtain ⟨d, hd, hdecoding⟩ := zzDecodeJson_decoding env y props buffer (hs.lossy hf)
    refine ⟨d, hd, ?_⟩
    cases hdecoding with
    | idle _ hhanded htext hempty =>
      refine iff_of_true (loud_of_nothing hhanded htext) fun hm hmalloc _ _ ↦ ?_
      rw [hempty hm hmalloc]
      exact delivered_nil y _
    | through processed front own ho hm hmalloc =>
      by_cases hacc : y.accepted session.parser.yajlHandler.text buffer = buffer
      · rw [loud_iff_delivered ho hacc]
        simp [hm, hmalloc, hacc]
      · exact iff_of_true (loud_of_refused ho hacc) fun _ _ _ h ↦ absurd h hacc

def freshSession : ZzSession ZzJsonSession := newZzSessionJson fun _ _ _ ↦ []

def queueFull : Env := { plentiful with verdict := fun _ ↦ .queueFull }

/-- A full queue, and an object whose beginning could not be saved. -/
theorem loud_iff_full_queue :
    (∃ d, zzDecodeJson queueFull balanced [] (ascii "\x7b\"a\":1\x7d") freshSession = some d ∧
      (Loud freshSession.parser d ↔ False)) ∧
    ∃ d₀, zzDecodeJson { plentiful with saved := false } balanced [] (ascii "\x7b\"a\":")
        freshSession = some d₀ ∧ d₀.rc = .ok ∧
      ∃ d, zzDecodeJson plentiful balanced [] (ascii "1\x7d") d₀.session = some d ∧ d.rc = .ok ∧
        (Loud d₀.session.parser d ↔ False) := by
  constructor
  · obtain ⟨d, hd, hiff⟩ := loud_iff balanced queueFull [] (ascii "\x7b\"a\":1\x7d") freshSession
      (.new _)
    refine ⟨d, hd, hiff.trans (iff_of_false (fun h ↦ ?_) id)⟩
    have hdelivered := h rfl rfl rfl (by decide)
    cases hdelivered.accepted 0 (by decide)
  · refine ⟨_, rfl, rfl, ?_⟩
    obtain ⟨d, hd, hiff⟩ := loud_iff balanced plentiful [] (ascii "1\x7d") _
      (@Reached.call balanced freshSession _ { plentiful with saved := false } []
        (ascii "\x7b\"a\":") (.new _) rfl)
    refine ⟨d, hd, ?_, hiff.trans (iff_of_false (fun h ↦ ?_) id)⟩
    · obtain rfl := Option.some.inj hd
      rfl
    have hdelivered := h rfl rfl rfl (by decide)
    have hintact := (hdelivered.begun (by decide)).1
    revert hintact
    unfold Intact
    decide

theorem full_queue_answered_ok :
    ∃ d, zzDecodeJson queueFull balanced [] (ascii "\x7b\"a\":1\x7d") freshSession = some d ∧
      d.rc = .ok ∧ d.handed = [(ascii "\x7b\"a\":1\x7d", .queueFull)] ∧
      ¬ Loud freshSession.parser d := by
  refine ⟨_, rfl, rfl, by decide, fun h ↦ ?_⟩
  have hok := h.ok rfl
  revert hok
  decide

end N2Kafka.Decoder.RejectedMessages
