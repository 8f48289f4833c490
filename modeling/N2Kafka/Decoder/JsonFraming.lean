import N2Kafka.Decoder.ZzParserJson
import N2Kafka.Util.PayloadLifetime

namespace N2Kafka.Decoder.JsonFraming

open Lib.CString Lib.JsonText Util.Pairs Util.KafkaMessageArray Decoder.DecoderApi Decoder.Yajl
open Decoder.ZzParser Decoder.ZzDecoder Decoder.ZzParserJson

structure Call where
  buffer : Bytes
  env : Env

variable (y : Grammar) (props : KeyvalList)

/-- The chunks of one request body, one call of `zz_decode` each. -/
def feed : List Call → ZzSession ZzJsonSession → Option (ZzSession ZzJsonSession × List Handed)
  | [], session => some (session, [])
  | c :: cs, session =>
    (zzDecodeJson c.env y props c.buffer session).bind fun d ↦
      (feed cs d.session).map fun last ↦ (last.1, d.handed ++ last.2)

structure Allocates (env : Env) : Prop where
  malloc : env.malloc
  splitAppended : env.splitAppended
  added : ∀ k, env.added k
  saved : env.saved

variable {y props} {env : Env}

theorem kept_eq (h : ∀ k, env.added k) (own : List Bytes) : kept env own = own := by
  simp [kept, h]

theorem zzDecodeJson_failed (env : Env) (y : Grammar) (hm : methodAllowed props)
    {session : ZzSession ZzJsonSession} (hf : session.parser.yajlHandler.failed)
    (buffer : Bytes) :
    ∃ d, zzDecodeJson env y props buffer session = some d ∧ d.handed = [] ∧
      d.session.parser.yajlHandler = session.parser.yajlHandler ∧ (buffer ≠ [] → d.rc ≠ .ok) := by
  have hprocess : ∃ processed, processJsonBuffer env y buffer
      { session with kafkaMsgs := .initializer } = some processed ∧ processed.handed = [] ∧
        processed.session.kafkaMsgs.msgs = [] ∧
        processed.session.parser.yajlHandler = session.parser.yajlHandler ∧
        (buffer ≠ [] → processed.rc ≠ .ok) := by
    unfold processJsonBuffer
    by_cases hb : buffer.length = 0
    · rw [if_pos hb]
      refine ⟨_, rfl, rfl, rfl, rfl, fun hne ↦ absurd (List.length_eq_zero_iff.mp hb) hne⟩
    · rw [if_neg hb]
      by_cases hmal : env.malloc
      · simp only [hmal, Bool.not_true, Bool.false_eq_true, if_false, yajlParse, hf, if_true,
          Option.map_some]
        exact ⟨_, rfl, rfl, rfl, rfl, by simp [finishChunk, hf]⟩
      · simp only [hmal, Bool.not_false, if_true]
        exact ⟨_, rfl, rfl, rfl, rfl, by simp⟩
  obtain ⟨processed, hp, hhanded, hmsgs, hhandler, hrc⟩ := hprocess
  refine ⟨_, zzDecode_of_processed hm hp, ?_, ?_, ?_⟩
  · simp [hhanded, MessageArray.payloads, hmsgs]
  · simpa using hhandler
  · simpa using hrc

theorem feed_failed (hm : methodAllowed props) (cs : List Call)
    {session : ZzSession ZzJsonSession} (hf : session.parser.yajlHandler.failed) :
    ∃ last, feed y props cs session = some (last, []) := by
  induction cs generalizing session with
  | nil => exact ⟨session, rfl⟩
  | cons c cs ih =>
    obtain ⟨d, hd, hhanded, hhandler, -⟩ := zzDecodeJson_failed c.env y hm hf c.buffer
    have hf' : d.session.parser.yajlHandler.failed := by
      rw [hhandler]
      exact hf
    obtain ⟨last, hlast⟩ := ih hf'
    exact ⟨last, by simp [feed, hd, hlast, hhanded]⟩

theorem zzDecodeJson_framing (y : Grammar) (hm : methodAllowed props)
    {session : ZzSession ZzJsonSession} (hb : Between session.parser)
    (hrun : session.parser.yajlHandler.failed = false) (henv : Allocates env) (buffer : Bytes) :
    ∃ d, zzDecodeJson env y props buffer session = some d ∧
      d.session.parser.yajlHandler.text = session.parser.yajlHandler.text ++
        y.accepted session.parser.yajlHandler.text buffer ∧
      d.session.parser.yajlHandler.failed =
        decide (y.accepted session.parser.yajlHandler.text buffer ≠ buffer) ∧
      outermost d.session.parser.yajlHandler.text =
        outermost session.parser.yajlHandler.text ++ d.handed.map (·.1) ∧
      (y.accepted session.parser.yajlHandler.text buffer = buffer → Between d.session.parser) := by
  by_cases hne : buffer = []
  · subst hne
    refine ⟨_, zzDecode_of_processed hm processJsonBuffer_empty, ?_, ?_, ?_, ?_⟩
    · simp [Grammar.accepted]
    · simp [Grammar.accepted, hrun]
    · simp [MessageArray.payloads, MessageArray.initializer]
    · simpa using fun _ ↦ hb
  · have hlossy : Lossy { session with kafkaMsgs := MessageArray.initializer }.parser := hb.lossy hrun
    obtain ⟨processed, front, own, hp, ho⟩ := processJsonBuffer_outcome env y hlossy rfl hne henv.malloc
    refine ⟨_, zzDecode_of_processed hm hp, ?_, ?_, ?_, ?_⟩
    · rw [parser_consume, ho.text]
    · rw [parser_consume, ho.failed]
    · obtain ⟨hapart, hnulls⟩ := ho.intact hb
      rw [parser_consume, ho.objects, consume_handed, ho.payloads, ho.handed, hapart, hnulls,
        kept_eq henv.added, if_pos henv.splitAppended, List.map_append, List.map_map,
        List.map_fst_zip (by simp)]
      simp [Function.comp_def]
    · rw [parser_consume]
      exact fun hacc ↦ ho.between hacc henv.saved hb

theorem feed_objects (y : Grammar) (hm : methodAllowed props) {cs : List Call}
    (henv : ∀ c ∈ cs, Allocates c.env) {session : ZzSession ZzJsonSession}
    (hb : Between session.parser) (hrun : session.parser.yajlHandler.failed = false) :
    ∃ last handed, feed y props cs session = some (last, handed) ∧
      outermost (session.parser.yajlHandler.text ++
          y.accepted session.parser.yajlHandler.text (cs.flatMap (·.buffer))) =
        outermost session.parser.yajlHandler.text ++ handed.map (·.1) := by
  induction cs generalizing session with
  | nil => exact ⟨session, [], rfl, by simp [Grammar.accepted]⟩
  | cons c cs ih =>
    obtain ⟨d, hd, htext, hfailed, hobjects, hbetween⟩ :=
      zzDecodeJson_framing y hm hb hrun (henv c (.head _)) c.buffer
    rw [List.flatMap_cons, accepted_append]
    by_cases hacc : y.accepted session.parser.yajlHandler.text c.buffer = c.buffer
    · have hrun' : d.session.parser.yajlHandler.failed = false := by simp [hfailed, hacc]
      obtain ⟨last, handed, hfeed, hout⟩ :=
        ih (fun c' hc' ↦ henv c' (.tail _ hc')) (hbetween hacc) hrun'
      refine ⟨last, d.handed ++ handed, by simp [feed, hd, hfeed], ?_⟩
      rw [if_pos hacc, ← List.append_assoc, List.map_append, ← List.append_assoc, ← hobjects, ← hout,
        htext, hacc]
    · have hf : d.session.parser.yajlHandler.failed := by simp [hfailed, hacc]
      obtain ⟨last, hlast⟩ := feed_failed (y := y) hm cs hf
      refine ⟨last, d.handed, by simp [feed, hd, hlast], ?_⟩
      rw [if_neg hacc, ← hobjects, htext]

theorem between_new (errorMessage : Bytes → DecoderCallbackErr → ℕ → Bytes) :
    Between (newZzSessionJson errorMessage).parser := ⟨rfl, rfl, rfl⟩

theorem feed_eq_outermost (y : Grammar) (props : KeyvalList)
    (errorMessage : Bytes → DecoderCallbackErr → ℕ → Bytes) (cs : List Call)
    (hm : methodAllowed props) (henv : ∀ c ∈ cs, Allocates c.env) :
    ∃ last handed, feed y props cs (newZzSessionJson errorMessage) = some (last, handed) ∧
      handed.map (·.1) = outermost (y.accepted [] (cs.flatMap (·.buffer))) := by
  obtain ⟨last, handed, hfeed, hout⟩ := feed_objects y hm henv (between_new errorMessage) rfl
  exact ⟨last, handed, hfeed, hout.symm⟩

theorem exists_batch {json : ZzJsonSession} {buffer : Bytes} {processed : Processed ZzJsonSession}
    {front own : List Bytes} (ho : Outcome env y json buffer processed front own)
    (hne : processed.session.kafkaMsgs.msgs ≠ [])
    (hfits : kafkaMessageArraySize processed.session.kafkaMsgs < 2 ^ 64) (err : ℕ → RespErr) :
    ∃ b : Util.PayloadLifetime.Batch, b.array = processed.session.kafkaMsgs ∧ b.err = err :=
  ⟨⟨_, List.length_pos_iff.mpr hne, hfits, ho.shared hne, err⟩, rfl, rfl⟩

/-- Takes every text in which each closing brace has its opening one. -/
def balanced : Grammar where
  accepts text c := (nest text).lex.brace c ≠ some .closing || depth text ≠ 0
  closing text c hc ha := by simpa [hc] using ha

def plentiful : Env where
  malloc := true
  inBuffer := 4096
  splitAppended := true
  added := fun _ ↦ true
  saved := true
  responded := true
  verdict := fun _ ↦ .noError
  clock := fun _ ↦ 0
  yajlError := []

theorem feed_three_chunks :
    ∃ last handed, feed balanced []
        [⟨ascii "\x7b\"a\":1\x7d\x7b\"b", plentiful⟩, ⟨ascii "\":\x7b", plentiful⟩,
          ⟨ascii "\x7d\x7d", plentiful⟩] (newZzSessionJson fun _ _ _ ↦ []) = some (last, handed) ∧
      handed.map (·.1) = [ascii "\x7b\"a\":1\x7d", ascii "\x7b\"b\":\x7b\x7d\x7d"] := by
  have h := feed_eq_outermost balanced [] (fun _ _ _ ↦ [])
    [⟨ascii "\x7b\"a\":1\x7d\x7b\"b", plentiful⟩, ⟨ascii "\":\x7b", plentiful⟩,
      ⟨ascii "\x7d\x7d", plentiful⟩] rfl
    (by simpa using ⟨rfl, rfl, fun _ ↦ rfl, rfl⟩)
  rwa [show outermost _ = [ascii "\x7b\"a\":1\x7d", ascii "\x7b\"b\":\x7b\x7d\x7d"] by decide] at h

end N2Kafka.Decoder.JsonFraming
