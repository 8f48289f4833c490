import N2Kafka.Decoder.RejectedMessages
import N2Kafka.Util.JsonString

namespace N2Kafka.Decoder.MessagesQueued

open Lib.CString Lib.JsonText Util.Pairs Util.KafkaMessageArray Util.JsonString Decoder.DecoderApi
open Decoder.Yajl Decoder.ZzParser Decoder.ZzDecoder Decoder.ZzParserJson Decoder.JsonFraming
open Decoder.RejectedMessages

def errorMessageJson (errorStr : Bytes) (decoderRc : DecoderCallbackErr) (messagesQueued : ℕ) :
    Bytes :=
  ascii "\x7b\"messages_queued\":" ++ ascii (toString messagesQueued) ++
    (if decoderRc ≠ .ok then
      ascii ",\"json_decoder_error\":\"" ++ (stringAppendJsonString errorStr).1 ++ ascii "\""
    else []) ++ ascii "\x7d"

theorem errorMessageJson_ne_nil (errorStr : Bytes) (rc : DecoderCallbackErr) (n : ℕ) :
    errorMessageJson errorStr rc n ≠ [] := by
  simp [errorMessageJson, ascii]

theorem takeWhile_digits (n : ℕ) (rest : Bytes) :
    (ascii (toString n) ++ 44 :: rest).takeWhile (· ≠ 44) = ascii (toString n) := by
  rw [List.takeWhile_append_of_pos]
  · simp
  · intro b hb
    have hdigit := mem_ascii_toString hb
    simp only [ne_eq, decide_eq_true_eq]
    rintro rfl
    simp at hdigit

theorem errorMessageJson_inj {e e' : Bytes} {rc : DecoderCallbackErr} {n m : ℕ} (hrc : rc ≠ .ok)
    (h : errorMessageJson e rc n = errorMessageJson e' rc m) : n = m := by
  simp only [errorMessageJson, hrc, ne_eq, not_false_eq_true, if_true, List.append_assoc,
    List.append_cancel_left_eq] at h
  have hdigits := congrArg (List.takeWhile (· ≠ 44)) h
  have hcomma (t : Bytes) : ascii ",\"json_decoder_error\":\"" ++ t =
      44 :: (ascii "\"json_decoder_error\":\"" ++ t) := rfl
  rw [hcomma, hcomma, takeWhile_digits, takeWhile_digits] at hdigits
  exact ascii_toString_injective hdigits

def Answers (d : Decoded ZzJsonSession) (figure : ℕ) : Prop :=
  ∃ errorStr, d.response = some (errorMessageJson errorStr d.rc figure)

/-- The figure is the number of messages of the request that rdkafka has accepted so far. -/
def AnswersTotal (handed : List Handed) (d : Decoded ZzJsonSession) : Prop :=
  Answers d (acceptedPayloads (handed ++ d.handed)).length

theorem Answers.unique {d : Decoded ZzJsonSession} {n m : ℕ} (hrc : d.rc ≠ .ok) (hn : Answers d n)
    (hm : Answers d m) : n = m := by
  obtain ⟨e, he⟩ := hn
  obtain ⟨e', he'⟩ := hm
  rw [he, Option.some.injEq] at he'
  exact errorMessageJson_inj hrc he'

/-- The call completes an object that an earlier chunk has begun, and hands it over on its own. -/
structure FinishesSplit (env : Env) (y : Grammar) (json : ZzJsonSession) (buffer : Bytes) : Prop where
  running : json.yajlHandler.failed = false
  malloc : env.malloc
  splitAppended : env.splitAppended
  begun : json.lastObject ≠ []
  completes : (outermost json.yajlHandler.text).length <
    (outermost (json.yajlHandler.text ++ y.accepted json.yajlHandler.text buffer)).length

/-- What holds of a session whatever allocations have failed, as long as yajl has not. -/
structure Tracked (json : ZzJsonSession) : Prop where
  stackPos : json.stackPos = depth json.yajlHandler.text
  lastOpenMap : json.lastOpenMap = none
  lastObject : json.lastObject ≠ [] → depth json.yajlHandler.text ≠ 0

structure Tracks (env : Env) (text carry done : Bytes) (p : Parsing) : Prop where
  stackPos : p.stackPos = depth (text ++ done)
  lastOpenMap : p.lastOpenMap ≠ none → depth (text ++ done) ≠ 0
  lastObject : p.lastObject ≠ [] → depth (text ++ done) ≠ 0 ∧ p.lastOpenMap = none
  verdicts : ∀ x ∈ p.handed, ∃ k, x.2 = env.verdict k
  phase : (carry ≠ [] ∧ p.lastObject = carry ∧ p.handed = [] ∧
      (scan (text ++ done)).objects.length = (scan text).objects.length) ∨
    (p.lastObject = [] ∧ p.handed.length = (if carry ≠ [] ∧ env.splitAppended then 1 else 0) ∧
      (carry ≠ [] → (scan text).objects.length < (scan (text ++ done)).objects.length))

section

variable {env : Env} {y : Grammar} {text carry buffer done : Bytes} {c : UInt8} {p p' : Parsing}

theorem scan_objects_length_concat (text : Bytes) (c : UInt8) :
    (scan (text ++ [c])).objects.length = (scan text).objects.length +
      if depth text ≠ 0 ∧ depth (text ++ [c]) = 0 then 1 else 0 := by
  by_cases h' : depth (text ++ [c]) = 0
  · by_cases h : depth text = 0
    · simp [scan_outside h h', h]
    · simp [scan_closes h h', h, h']
  · simp [(scan_inside h').1, h']

theorem Tracks.inner (h : Tracks env text carry done p)
    (hobjects : ¬ (depth (text ++ done) ≠ 0 ∧ depth (text ++ done ++ [c]) = 0))
    (hstack : p'.stackPos = depth (text ++ done ++ [c]))
    (hopen : p'.lastOpenMap ≠ none → depth (text ++ done ++ [c]) ≠ 0)
    (hlast : p'.lastObject = p.lastObject) (hhanded : p'.handed = p.handed)
    (hcarried : p'.lastObject ≠ [] → p'.lastOpenMap = none) :
    Tracks env text carry (done ++ [c]) p' := by
  have hlen := scan_objects_length_concat (text ++ done) c
  rw [if_neg hobjects, Nat.add_zero] at hlen
  rw [List.append_assoc] at hlen hobjects hstack hopen
  refine ⟨hstack, hopen, ?_, ?_, ?_⟩
  · intro hne
    refine ⟨fun h0 ↦ hobjects ⟨?_, h0⟩, hcarried hne⟩
    rw [hlast] at hne
    exact (h.lastObject hne).1
  · rw [hhanded]
    exact h.verdicts
  · rw [hlast, hhanded, hlen]
    exact h.phase

theorem Tracks.closes (h : Tracks env text carry done p) (hdeep : depth (text ++ done) ≠ 0)
    (hpred : depth (text ++ done ++ [c]) = depth (text ++ done) - 1)
    (hout : depth (text ++ done ++ [c]) = 0) {consumed : ℕ}
    (hstep : zzParseEndJsonMap env buffer consumed p = some p') :
    Tracks env text carry (done ++ [c]) p' := by
  have hlen := scan_objects_length_concat (text ++ done) c
  rw [if_pos ⟨hdeep, hout⟩, List.append_assoc] at hlen
  have hzero : p.stackPos - 1 = 0 := by
    rw [h.stackPos]
    omega
  rw [List.append_assoc] at hout
  simp only [zzParseEndJsonMap, hzero, ne_eq, not_true_eq_false, if_false] at hstep
  split at hstep
  · -- the object was begun in an earlier chunk
    rename_i hlast
    have hne : p.lastObject ≠ [] := List.length_pos_iff.mp hlast
    obtain ⟨hcarry, -, hhanded, hobjects⟩ | ⟨hnil, -⟩ := h.phase
    · obtain rfl := Option.some.inj hstep
      have hnone := (h.lastObject hne).2
      unfold zzParseEndJsonMapSplit
      split
      · rename_i hs
        refine ⟨hout.symm, fun ho ↦ absurd hnone ho, fun ho ↦ absurd rfl ho, ?_, .inr ⟨rfl, ?_, ?_⟩⟩
        · simp [hhanded]
        · simp [hhanded, hcarry, hs]
        · intro _
          omega
      · rename_i hs
        refine ⟨hout.symm, fun ho ↦ absurd hnone ho, fun ho ↦ absurd rfl ho, h.verdicts,
          .inr ⟨rfl, ?_, ?_⟩⟩
        · simp [hhanded, hs]
        · intro _
          omega
    · exact absurd hnil hne
  · rename_i hlast
    have hnil : p.lastObject = [] := by simpa using hlast
    obtain ⟨hcarry, heq, -⟩ | ⟨-, hhanded, hobjects⟩ := h.phase
    · exact absurd (heq.symm.trans hnil) hcarry
    · obtain ⟨msg, -, rfl⟩ := Option.map_eq_some_iff.mp hstep
      refine ⟨hout.symm, fun ho ↦ absurd rfl ho, fun ho ↦ absurd hnil ho, h.verdicts,
        .inr ⟨hnil, hhanded, ?_⟩⟩
      intro hcarry
      have hlt := hobjects hcarry
      omega

theorem Tracks.byte (h : Tracks env text carry done p) (ha : y.accepts (text ++ done) c)
    (hstep : (yajlCallbacks env buffer).byte (text ++ done) c (done.length + 1) p = some p') :
    Tracks env text carry (done ++ [c]) p' := by
  have hdepth := depth_concat (text ++ done) c
  unfold Callbacks.byte at hstep
  split at hstep
  · rename_i hbrace
    rw [hbrace] at hdepth
    obtain rfl := Option.some.inj hstep
    have hdeep : depth (text ++ done ++ [c]) ≠ 0 := by
      rw [hdepth]
      exact Nat.succ_ne_zero _
    apply h.inner
    · exact fun hclose ↦ hdeep hclose.2
    · rw [hdepth, ← h.stackPos]
      rfl
    · exact fun _ ↦ hdeep
    · rfl
    · rfl
    · intro hne
      obtain ⟨hinside, hnone⟩ := h.lastObject hne
      rw [← h.stackPos] at hinside
      simp [zzParseStartJsonMap, hinside, hnone]
  · rename_i hbrace
    rw [hbrace] at hdepth
    have hdeep := y.closing _ _ hbrace ha
    by_cases hout : depth (text ++ done ++ [c]) = 0
    · exact h.closes hdeep hdepth hout hstep
    · have hstack : p.stackPos - 1 = depth (text ++ done ++ [c]) := by rw [h.stackPos, hdepth]
      simp only [yajlCallbacks, zzParseEndJsonMap, hstack, ne_eq, hout, not_false_eq_true, if_true]
        at hstep
      obtain rfl := Option.some.inj hstep
      apply h.inner
      · exact fun hclose ↦ hout hclose.2
      · rfl
      · exact fun _ ↦ hout
      · rfl
      · rfl
      · exact fun hne ↦ (h.lastObject hne).2
  · rename_i hbrace
    rw [hbrace] at hdepth
    obtain rfl := Option.some.inj hstep
    apply h.inner
    · rw [hdepth]
      exact fun hclose ↦ hclose.1 hclose.2
    · rw [h.stackPos, hdepth]
    · rw [hdepth]
      exact h.lastOpenMap
    · rfl
    · rfl
    · exact fun hne ↦ (h.lastObject hne).2

end

theorem Tracked.tracks {json : ZzJsonSession} (h : Tracked json) (env : Env) (array : MessageArray) :
    Tracks env json.yajlHandler.text json.lastObject []
      ⟨json.stackPos, json.lastOpenMap, json.lastObject, array, 0, []⟩ := by
  refine ⟨?_, fun ho ↦ absurd h.lastOpenMap ho, fun hne ↦ ⟨?_, h.lastOpenMap⟩, by simp, ?_⟩
  · rw [List.append_nil, h.stackPos]
  · rw [List.append_nil]
    exact h.lastObject hne
  · by_cases hcarry : json.lastObject = []
    · exact .inr ⟨hcarry, by simp [hcarry], fun hne ↦ absurd hcarry hne⟩
    · exact .inl ⟨hcarry, rfl, rfl, by rw [List.append_nil]⟩

structure Handled (env : Env) (y : Grammar) (buffer : Bytes) (session : ZzSession ZzJsonSession)
    (processed : Processed ZzJsonSession) : Prop where
  handed : processed.handed = [] ↔ ¬ FinishesSplit env y session.parser buffer
  verdicts : ∀ x ∈ processed.handed, ∃ k, x.2 = env.verdict k
  tracked : processed.session.parser.yajlHandler.failed = false → Tracked processed.session.parser
  errorMessage : processed.session.errorMessage = session.errorMessage

theorem saveLastObject_outside {env : Env} {buffer : Bytes} {p : Parsing} (hopen : p.lastOpenMap = none)
    (hlast : p.lastObject = []) : saveLastObject env buffer p = [] := by
  simp [saveLastObject, hopen, hlast]

theorem Tracks.handled {env : Env} {y : Grammar} {buffer : Bytes} {session : ZzSession ZzJsonSession}
    {p : Parsing} (hmalloc : env.malloc) (hf : session.parser.yajlHandler.failed = false)
    (h : Tracks env session.parser.yajlHandler.text session.parser.lastObject
      (y.accepted session.parser.yajlHandler.text buffer) p) :
    Handled env y buffer session (finishChunk env buffer session
      ⟨session.parser.yajlHandler.text ++ y.accepted session.parser.yajlHandler.text buffer,
        decide (y.accepted session.parser.yajlHandler.text buffer ≠ buffer)⟩ p) := by
  have hphase := h.phase
  rw [scan_objects, scan_objects] at hphase
  refine ⟨?_, h.verdicts, ?_, rfl⟩
  · show p.handed = [] ↔ _
    obtain ⟨-, -, hhanded, hobjects⟩ | ⟨-, hhanded, hobjects⟩ := hphase
    · exact iff_of_true hhanded fun hs ↦ absurd hs.completes hobjects.not_gt
    · rw [← List.length_eq_zero_iff, hhanded]
      constructor
      · intro hzero hs
        rw [if_pos ⟨hs.begun, hs.splitAppended⟩] at hzero
        cases hzero
      · intro hs
        apply if_neg
        intro hboth
        exact hs ⟨hf, hmalloc, hboth.2, hboth.1, hobjects hboth.1⟩
  · intro hok
    have hacc : y.accepted session.parser.yajlHandler.text buffer = buffer := by
      simpa [finishChunk] using hok
    simp only [finishChunk, hacc, ne_eq, not_true_eq_false, decide_false, Bool.not_false, if_true]
    rw [hacc] at h
    refine ⟨h.stackPos, rfl, fun hne h0 ↦ hne (saveLastObject_outside ?_ ?_)⟩
    · by_contra hopen
      exact h.lastOpenMap hopen h0
    · by_contra hlast
      exact (h.lastObject hlast).1 h0

theorem processJsonBuffer_run {env : Env} {y : Grammar} {buffer : Bytes}
    {session : ZzSession ZzJsonSession} {processed : Processed ZzJsonSession}
    (hp : processJsonBuffer env y buffer session = some processed)
    (hf : session.parser.yajlHandler.failed = false) (hne : ¬ buffer.length = 0)
    (hmalloc : env.malloc = true) (I : Bytes → Parsing → Prop)
    (hstep : ∀ done c p p', y.accepts (session.parser.yajlHandler.text ++ done) c → I done p →
      (yajlCallbacks env buffer).byte (session.parser.yajlHandler.text ++ done) c (done.length + 1) p =
        some p' → I (done ++ [c]) p')
    (hstart : I [] ⟨session.parser.stackPos, session.parser.lastOpenMap, session.parser.lastObject,
      session.kafkaMsgs, 0, []⟩) :
    ∃ p, processed = finishChunk env buffer session
        ⟨session.parser.yajlHandler.text ++ y.accepted session.parser.yajlHandler.text buffer,
          decide (y.accepted session.parser.yajlHandler.text buffer ≠ buffer)⟩ p ∧
      I (y.accepted session.parser.yajlHandler.text buffer) p := by
  rw [processJsonBuffer_parses (mt List.length_eq_zero_iff.mpr hne) hmalloc hf] at hp
  obtain ⟨⟨handler, p⟩, hparse, rfl⟩ := Option.map_eq_some_iff.mp hp
  have hhandler : session.parser.yajlHandler = ⟨session.parser.yajlHandler.text ++ [], false⟩ := by
    rw [List.append_nil, ← hf]
  rw [hhandler] at hparse
  obtain ⟨rfl, hI⟩ := yajlLoop_run y (yajlCallbacks env buffer) session.parser.yajlHandler.text I
    hstep buffer [] hstart hparse
  simp only [List.append_nil, List.nil_append] at hI ⊢
  exact ⟨p, rfl, hI⟩

theorem handled_of_tracked {env : Env} {y : Grammar} {buffer : Bytes}
    {session : ZzSession ZzJsonSession} {processed : Processed ZzJsonSession}
    (h : session.parser.yajlHandler.failed = false → Tracked session.parser)
    (hp : processJsonBuffer env y buffer session = some processed) :
    Handled env y buffer session processed := by
  by_cases hnil : buffer.length = 0
  · rw [processJsonBuffer, if_pos hnil] at hp
    obtain rfl := Option.some.inj hp
    have hbuffer : buffer = [] := List.length_eq_zero_iff.mp hnil
    refine ⟨⟨fun _ hs ↦ ?_, fun _ ↦ rfl⟩, by simp, h, rfl⟩
    have hlt := hs.completes
    simp [hbuffer, Grammar.accepted] at hlt
  cases hmalloc : env.malloc with
  | false =>
    rw [processJsonBuffer_noMemory (mt List.length_eq_zero_iff.mpr hnil) (by simp [hmalloc])] at hp
    obtain rfl := Option.some.inj hp
    refine ⟨⟨fun _ hs ↦ ?_, fun _ ↦ rfl⟩, by simp, fun hf ↦ ?_, rfl⟩
    · exact absurd (hmalloc.symm.trans hs.malloc) (by decide)
    · obtain ⟨hstack, hopen, hlast⟩ := h hf
      exact ⟨hstack, rfl, hlast⟩
  | true =>
    cases hf : session.parser.yajlHandler.failed with
    | true =>
      simp only [processJsonBuffer, if_neg hnil, hmalloc, Bool.not_true, Bool.false_eq_true, if_false,
        yajlParse, hf, if_true, Option.map_some] at hp
      obtain rfl := Option.some.inj hp
      refine ⟨⟨fun _ hs ↦ ?_, fun _ ↦ rfl⟩, by simp [finishChunk], fun hf' ↦ ?_, rfl⟩
      · exact absurd (hf.symm.trans hs.running) (by decide)
      · exact absurd (hf.symm.trans hf') (by decide)
    | false =>
      obtain ⟨p, rfl, htracks⟩ := processJsonBuffer_run hp hf hnil hmalloc
        (Tracks env session.parser.yajlHandler.text session.parser.lastObject)
        (fun done c p p' ha hs hb ↦ hs.byte ha hb) ((h hf).tracks env session.kafkaMsgs)
      exact htracks.handled hmalloc hf

section Runs

variable {y : Grammar} {props : KeyvalList} {env : Env}

theorem exists_processed {buffer : Bytes} {session : ZzSession ZzJsonSession}
    {d : Decoded ZzJsonSession} (hm : methodAllowed props)
    (hd : zzDecodeJson env y props buffer session = some d) :
    ∃ processed, processJsonBuffer env y buffer { session with kafkaMsgs := .initializer } =
      some processed ∧ d = consume env.verdict env.clock processed := by
  simp only [zzDecodeJson, zzDecode, hm, Bool.not_true, Bool.false_eq_true, if_false] at hd
  obtain ⟨processed, hp, rfl⟩ := Option.map_eq_some_iff.mp hd
  exact ⟨processed, hp, rfl⟩

def AcceptsAll (env : Env) : Prop := ∀ k, env.verdict k = .noError

theorem consume_accepted (haccepts : AcceptsAll env) {processed : Processed ZzJsonSession}
    (h : ∀ x ∈ processed.handed, ∃ k, x.2 = env.verdict k) :
    ∀ x ∈ (consume env.verdict env.clock processed).handed, x.2 = .noError := by
  intro x hx
  rw [consume_handed] at hx
  obtain hx | hx := List.mem_append.mp hx
  · obtain ⟨k, hk⟩ := h x hx
    exact hk.trans (haccepts k)
  · obtain ⟨i, -, hi⟩ := List.mem_map.mp (List.of_mem_zip hx).2
    rw [← hi]
    exact haccepts _

structure Ran (session : ZzSession ZzJsonSession) (handed : List Handed) : Prop where
  tracked : session.parser.yajlHandler.failed = false → Tracked session.parser
  errorMessage : session.errorMessage = errorMessageJson
  accepted : ∀ x ∈ handed, x.2 = .noError

theorem Ran.handled {session : ZzSession ZzJsonSession} {handed : List Handed} (h : Ran session handed)
    {buffer : Bytes} {processed : Processed ZzJsonSession}
    (hp : processJsonBuffer env y buffer { session with kafkaMsgs := .initializer } = some processed) :
    Handled env y buffer { session with kafkaMsgs := .initializer } processed := by
  apply handled_of_tracked _ hp
  exact h.tracked

theorem feed_ran (hm : methodAllowed props) {cs : List Call} (haccepts : ∀ c ∈ cs, AcceptsAll c.env)
    {session last : ZzSession ZzJsonSession} {handed : List Handed} (h : Ran session [])
    (hfeed : feed y props cs session = some (last, handed)) : Ran last handed := by
  induction cs generalizing session handed with
  | nil =>
    obtain ⟨rfl, rfl⟩ := Prod.mk.inj (Option.some.inj hfeed)
    exact h
  | cons c cs ih =>
    obtain ⟨d, hd, hfeed⟩ := Option.bind_eq_some_iff.mp hfeed
    obtain ⟨⟨last', handed'⟩, hrest, heq⟩ := Option.map_eq_some_iff.mp hfeed
    obtain ⟨rfl, rfl⟩ := Prod.mk.inj heq
    obtain ⟨processed, hp, rfl⟩ := exists_processed hm hd
    have hh := h.handled hp
    have hnext : Ran (consume c.env.verdict c.env.clock processed).session [] := by
      refine ⟨?_, ?_, by simp⟩
      · rw [parser_consume]
        exact hh.tracked
      · rw [errorMessage_consume, hh.errorMessage]
        exact h.errorMessage
    have hlast := ih (fun c' hc' ↦ haccepts c' (.tail _ hc')) hnext hrest
    refine ⟨hlast.tracked, hlast.errorMessage, fun x hx ↦ ?_⟩
    obtain hx | hx := List.mem_append.mp hx
    · exact consume_accepted (haccepts c (.head _)) hh.verdicts x hx
    · exact hlast.accepted x hx

theorem Ran.answers_iff_finishes (hm : methodAllowed props) {session : ZzSession ZzJsonSession}
    {handed : List Handed} (h : Ran session handed) (haccepts : AcceptsAll env) {buffer : Bytes}
    {d : Decoded ZzJsonSession} (hd : zzDecodeJson env y props buffer session = some d)
    (hrc : d.rc ≠ .ok) :
    AnswersTotal handed d ↔ handed = [] ∧ ¬ FinishesSplit env y session.parser buffer := by
  obtain ⟨processed, hp, rfl⟩ := exists_processed hm hd
  have hh := h.handled hp
  have hmessage : processed.session.errorMessage = errorMessageJson :=
    hh.errorMessage.trans h.errorMessage
  have hanswers : Answers (consume env.verdict env.clock processed)
      (kafkaMessageArraySize processed.session.kafkaMsgs) := by
    refine ⟨processed.session.httpResponse, ?_⟩
    rw [consume_rc] at hrc ⊢
    rw [consume_response _ _ hrc, hmessage]
    rw [hmessage]
    exact errorMessageJson_ne_nil _ _ _
  have hall : ∀ x ∈ handed ++ (consume env.verdict env.clock processed).handed, x.2 = .noError := by
    intro x hx
    obtain hx | hx := List.mem_append.mp hx
    · exact h.accepted x hx
    · exact consume_accepted haccepts hh.verdicts x hx
  have htotal : (acceptedPayloads (handed ++ (consume env.verdict env.clock processed).handed)).length =
      handed.length + processed.handed.length + kafkaMessageArraySize processed.session.kafkaMsgs := by
    rw [acceptedPayloads_eq hall, consume_handed]
    simp [MessageArray.payloads, kafkaMessageArraySize, Nat.add_assoc]
  rw [← hh.handed, AnswersTotal, htotal, ← List.length_eq_zero_iff, ← List.length_eq_zero_iff]
  constructor
  · intro htot
    have heq := hanswers.unique hrc htot
    omega
  · intro hzero
    rwa [hzero.1, hzero.2, Nat.zero_add]

theorem feed_valid (y : Grammar) (hm : methodAllowed props) {cs : List Call}
    (henv : ∀ c ∈ cs, Allocates c.env) {session : ZzSession ZzJsonSession}
    (hb : Between session.parser) (hrun : session.parser.yajlHandler.failed = false)
    (hvalid : y.accepted session.parser.yajlHandler.text (cs.flatMap (·.buffer)) =
      cs.flatMap (·.buffer)) :
    ∃ last handed, feed y props cs session = some (last, handed) ∧ Between last.parser ∧
      last.parser.yajlHandler.failed = false ∧
      last.parser.yajlHandler.text = session.parser.yajlHandler.text ++ cs.flatMap (·.buffer) ∧
      outermost last.parser.yajlHandler.text =
        outermost session.parser.yajlHandler.text ++ handed.map (·.1) := by
  induction cs generalizing session with
  | nil => exact ⟨session, [], rfl, hb, hrun, by simp, by simp⟩
  | cons c cs ih =>
    rw [List.flatMap_cons] at hvalid ⊢
    obtain ⟨hc, hcs⟩ := accepted_append_eq_self hvalid
    obtain ⟨d, hd, htext, hfailed, hobjects, hbetween⟩ :=
      zzDecodeJson_framing y hm hb hrun (henv c (.head _)) c.buffer
    rw [hc] at htext
    have hrun' : d.session.parser.yajlHandler.failed = false := by simp [hfailed, hc]
    obtain ⟨last, handed, hfeed, hblast, hflast, htlast, holast⟩ :=
      ih (fun c' hc' ↦ henv c' (.tail _ hc')) (hbetween hc) hrun' (by rw [htext, hcs])
    refine ⟨last, d.handed ++ handed, by simp [feed, hd, hfeed], hblast, hflast, ?_, ?_⟩
    · rw [htlast, htext, List.append_assoc]
    · rw [holast, hobjects, List.map_append, List.append_assoc]

theorem finishesSplit_iff (henv : Allocates env) {session : ZzSession ZzJsonSession}
    (hb : Between session.parser) (hrun : session.parser.yajlHandler.failed = false)
    (hnone : outermost session.parser.yajlHandler.text = []) (buffer : Bytes) :
    ¬ FinishesSplit env y session.parser buffer ↔ depth session.parser.yajlHandler.text = 0 ∨
      outermost (session.parser.yajlHandler.text ++
        y.accepted session.parser.yajlHandler.text buffer) = [] := by
  have hcurrent := scan_current_eq_nil_iff session.parser.yajlHandler.text
  rw [← hb.lastObject] at hcurrent
  constructor
  · intro h
    by_contra hboth
    obtain ⟨hdeep, hsome⟩ := not_or.mp hboth
    refine h ⟨hrun, henv.malloc, henv.splitAppended, mt hcurrent.mp hdeep, ?_⟩
    rw [hnone]
    exact List.length_pos_iff.mpr hsome
  · rintro (hzero | hnil) h
    · exact h.begun (hcurrent.mpr hzero)
    · have hlt := h.completes
      simp [hnil] at hlt

theorem rc_of_rejected (hm : methodAllowed props) (henv : Allocates env)
    {session : ZzSession ZzJsonSession} (hb : Between session.parser)
    (hrun : session.parser.yajlHandler.failed = false) {buffer : Bytes} {d : Decoded ZzJsonSession}
    (hd : zzDecodeJson env y props buffer session = some d)
    (hbad : y.accepted session.parser.yajlHandler.text buffer ≠ buffer) : d.rc = .invalidRequest := by
  obtain ⟨processed, hp, rfl⟩ := exists_processed hm hd
  have hne : buffer ≠ [] := by
    rintro rfl
    exact hbad rfl
  have hlossy : Lossy { session with kafkaMsgs := MessageArray.initializer }.parser := hb.lossy hrun
  obtain ⟨processed', front, own, hp', ho⟩ := processJsonBuffer_outcome env y hlossy rfl hne henv.malloc
  obtain rfl := Option.some.inj (hp.symm.trans hp')
  rw [consume_rc, ho.rc, if_neg hbad]

theorem ran_new : Ran (newZzSessionJson errorMessageJson) [] :=
  ⟨fun _ ↦ ⟨rfl, rfl, fun h ↦ absurd rfl h⟩, rfl, by simp⟩

end Runs

/-- The figure is the request's total exactly if every message of the request lies in the batch of
the failing call. If no allocation fails, that says where the objects of the body begin and end. -/
theorem answersTotal_iff (y : Grammar) (props : KeyvalList) (before : List Call) (c : Call)
    (hm : methodAllowed props) (haccepts : ∀ c' ∈ before ++ [c], AcceptsAll c'.env) :
    (∀ last handed d, feed y props before (newZzSessionJson errorMessageJson) = some (last, handed) →
      zzDecodeJson c.env y props c.buffer last = some d → d.rc ≠ .ok →
      (AnswersTotal handed d ↔ handed = [] ∧ ¬ FinishesSplit c.env y last.parser c.buffer)) ∧
    ((∀ c' ∈ before ++ [c], Allocates c'.env) →
      y.accepted [] (before.flatMap (·.buffer)) = before.flatMap (·.buffer) →
      y.accepted (before.flatMap (·.buffer)) c.buffer ≠ c.buffer →
      ∃ last handed d, feed y props before (newZzSessionJson errorMessageJson) = some (last, handed) ∧
        zzDecodeJson c.env y props c.buffer last = some d ∧ d.rc = .invalidRequest ∧
        (acceptedPayloads (handed ++ d.handed)).length =
          (outermost (y.accepted [] ((before ++ [c]).flatMap (·.buffer)))).length ∧
        (AnswersTotal handed d ↔ outermost (before.flatMap (·.buffer)) = [] ∧
          (depth (before.flatMap (·.buffer)) = 0 ∨
            outermost (y.accepted [] ((before ++ [c]).flatMap (·.buffer))) = []))) := by
  have hbefore : ∀ c' ∈ before, AcceptsAll c'.env :=
    fun c' hc' ↦ haccepts c' (List.mem_append_left _ hc')
  have hlast : AcceptsAll c.env := haccepts c (by simp)
  have hiff : ∀ last handed d,
      feed y props before (newZzSessionJson errorMessageJson) = some (last, handed) →
      zzDecodeJson c.env y props c.buffer last = some d → d.rc ≠ .ok →
      (AnswersTotal handed d ↔ handed = [] ∧ ¬ FinishesSplit c.env y last.parser c.buffer) := by
    intro last handed d hfeed hd hrc
    exact (feed_ran hm hbefore ran_new hfeed).answers_iff_finishes hm hlast hd hrc
  refine ⟨hiff, fun henv hvalid herror ↦ ?_⟩
  have hc : Allocates c.env := henv c (by simp)
  obtain ⟨last, handed, hfeed, hb, hrun, htext, hobjects⟩ := feed_valid y hm
    (fun c' hc' ↦ henv c' (List.mem_append_left _ hc')) (between_new errorMessageJson) rfl hvalid
  have htext' : last.parser.yajlHandler.text = before.flatMap (·.buffer) := htext
  have hwhole : y.accepted [] ((before ++ [c]).flatMap (·.buffer)) =
      before.flatMap (·.buffer) ++ y.accepted (before.flatMap (·.buffer)) c.buffer := by
    rw [List.flatMap_append, accepted_append, if_pos hvalid]
    simp
  have hobjects' : outermost (before.flatMap (·.buffer)) = handed.map (·.1) := by
    rw [← htext', hobjects]
    rfl
  obtain ⟨d, hd, hdtext, -, hdobjects, -⟩ := zzDecodeJson_framing y hm hb hrun hc c.buffer
  have hrc := rc_of_rejected hm hc hb hrun hd (by rwa [htext'])
  have hran := feed_ran hm hbefore ran_new hfeed
  obtain ⟨processed, hp, rfl⟩ := exists_processed hm hd
  have hall : ∀ x ∈ handed ++ (consume c.env.verdict c.env.clock processed).handed,
      x.2 = .noError := by
    intro x hx
    obtain hx | hx := List.mem_append.mp hx
    · exact hran.accepted x hx
    · exact consume_accepted hlast (hran.handled hp).verdicts x hx
  refine ⟨last, handed, _, hfeed, hd, hrc, ?_, ?_⟩
  · rw [acceptedPayloads_eq hall, List.map_append, ← hobjects', hwhole, ← htext', ← hdobjects, hdtext]
  · rw [hiff last handed _ hfeed hd (by rw [hrc]; decide), hobjects',
      List.map_eq_nil_iff]
    apply and_congr_right
    intro hnil
    have hnone : outermost last.parser.yajlHandler.text = [] := by rw [htext', hobjects', hnil, List.map_nil]
    rw [finishesSplit_iff hc hb hrun hnone, htext', hwhole]

/-- An object in the first chunk, and a stray brace in the second. -/
theorem queued_before_not_counted :
    ∃ last handed d,
      feed balanced [] [⟨ascii "\x7b\"a\":1\x7d", plentiful⟩] (newZzSessionJson errorMessageJson) =
        some (last, handed) ∧
      zzDecodeJson plentiful balanced [] (ascii "\x7d") last = some d ∧ d.rc = .invalidRequest ∧
      (acceptedPayloads (handed ++ d.handed)).length = 1 ∧ Answers d 0 ∧ ¬ AnswersTotal handed d := by
  refine ⟨_, _, _, rfl, rfl, rfl, by decide, ⟨[], rfl⟩, fun h ↦ ?_⟩
  have heq := h.unique (by decide) ⟨[], rfl⟩
  revert heq
  decide

theorem queued_in_one_chunk :
    ∃ last handed d,
      feed balanced [] [] (newZzSessionJson errorMessageJson) = some (last, handed) ∧
      zzDecodeJson plentiful balanced [] (ascii "\x7b\"a\":1\x7d\x7d") last = some d ∧
      d.rc = .invalidRequest ∧ (acceptedPayloads (handed ++ d.handed)).length = 1 ∧
      AnswersTotal handed d := by
  have h := answersTotal_iff balanced [] [] ⟨ascii "\x7b\"a\":1\x7d\x7d", plentiful⟩ rfl
    fun c' hc' _ ↦ by rw [List.mem_singleton.mp hc']; rfl
  obtain ⟨last, handed, d, hfeed, hd, hrc, hlen, hiff⟩ :=
    h.2 (by simpa using ⟨rfl, rfl, fun _ ↦ rfl, rfl⟩) rfl (by decide)
  exact ⟨last, handed, d, hfeed, hd, hrc, hlen.trans (by decide), hiff.mpr ⟨by decide, .inl rfl⟩⟩

end N2Kafka.Decoder.MessagesQueued
