import N2Kafka.Decoder.Yajl
import N2Kafka.Decoder.ZzDecoder

namespace N2Kafka.Decoder.ZzParserJson

open Lib.CString Lib.JsonText Util.Pairs Util.KafkaMessageArray Decoder.DecoderApi Decoder.Yajl
open Decoder.ZzParser Decoder.ZzDecoder

/-- `last_open_map` is an offset into the chunk, `none` for a null pointer. -/
structure ZzJsonSession where
  yajlHandler : Handle
  stackPos : ℕ
  lastOpenMap : Option ℕ
  lastObject : Bytes
  deriving DecidableEq

def newZzSessionJson (errorMessage : Bytes → DecoderCallbackErr → ℕ → Bytes) :
    ZzSession ZzJsonSession where
  parser := ⟨⟨[], false⟩, 0, none, []⟩
  kafkaMsgs := .initializer
  lastWarning := fun _ ↦ 0
  httpResponse := []
  errorMessage := errorMessage

/-- How the allocations of one call go, and what rdkafka, the clock and `yajl_get_error` answer.
`inBuffer` is where `malloc` puts the copy of the chunk. -/
structure Env where
  malloc : Bool
  inBuffer : ℕ
  splitAppended : Bool
  added : ℕ → Bool
  saved : Bool
  responded : Bool
  verdict : ℕ → RespErr
  clock : ℕ → ℤ
  yajlError : Bytes

/-- The session while yajl runs over a chunk, the calls of `kafka_msg_array_add` so far, and the
message handed over by `zz_parse_end_json_map_split`. -/
structure Parsing where
  stackPos : ℕ
  lastOpenMap : Option ℕ
  lastObject : Bytes
  kafkaMsgs : MessageArray
  adds : ℕ
  handed : List Handed

def zzParseStartJsonMap (consumed : ℕ) (p : Parsing) : Parsing :=
  { p with
    stackPos := p.stackPos + 1
    lastOpenMap := if p.stackPos = 0 then some (consumed - 1) else p.lastOpenMap }

variable (env : Env)

/-- Pointers are offsets into the chunk, but for the null pointer, behind which the whole address of
the byte read last is taken for a length. `none` is the failed assertion. -/
def zzParseGenerateRdkafkaMessage (consumed : ℕ) (p : Parsing) : Option RdKafkaMessage :=
  match p.lastOpenMap with
  | some start => if consumed > start then some ⟨some start, consumed - start⟩ else none
  | none =>
    if env.inBuffer + consumed > 0 then some ⟨none, env.inBuffer + consumed⟩ else none

def zzParseEndJsonMap0 (consumed : ℕ) (p : Parsing) : Option Parsing :=
  (zzParseGenerateRdkafkaMessage env consumed p).map fun msg ↦
    { p with
      kafkaMsgs := kafkaMsgArrayAdd (env.added p.adds) p.kafkaMsgs msg
      adds := p.adds + 1
      lastOpenMap := none }

def zzParseEndJsonMapSplit (buffer : Bytes) (consumed : ℕ) (p : Parsing) : Parsing :=
  if env.splitAppended then
    { p with
      handed := p.handed ++
        [(p.lastObject ++ buffer.take consumed, env.verdict p.handed.length)]
      lastObject := [] }
  else { p with lastObject := [] }

def zzParseEndJsonMap (buffer : Bytes) (consumed : ℕ) (p : Parsing) : Option Parsing :=
  let p := { p with stackPos := p.stackPos - 1 }
  if p.stackPos ≠ 0 then some p
  else if p.lastObject.length > 0 then some (zzParseEndJsonMapSplit env buffer consumed p)
  else zzParseEndJsonMap0 env consumed p

def yajlCallbacks (buffer : Bytes) : Callbacks Parsing where
  startMap consumed p := some (zzParseStartJsonMap consumed p)
  endMap := zzParseEndJsonMap env buffer

def saveLastObject (buffer : Bytes) (p : Parsing) : Bytes :=
  let unfinished :=
    match p.lastOpenMap with
    | some start => buffer.drop start
    | none => if p.lastObject.length ≠ 0 then buffer else []
  if env.saved then p.lastObject ++ unfinished else p.lastObject

def finishChunk (buffer : Bytes) (session : ZzSession ZzJsonSession) (handler : Handle)
    (p : Parsing) : Processed ZzJsonSession :=
  let ok := !handler.failed
  { session :=
      { session with
        parser :=
          { yajlHandler := handler
            stackPos := p.stackPos
            lastOpenMap := none
            lastObject := if ok then saveLastObject env buffer p else p.lastObject }
        kafkaMsgs :=
          if kafkaMessageArraySize p.kafkaMsgs ≠ 0 then
            kafkaMessageArraySetPayloadBuffer p.kafkaMsgs buffer
          else p.kafkaMsgs
        httpResponse :=
          if !ok ∧ env.responded then session.httpResponse ++ env.yajlError
          else session.httpResponse }
    rc := if ok then .ok else .invalidRequest
    handed := p.handed }

def processJsonBuffer (y : Grammar) (buffer : Bytes) (session : ZzSession ZzJsonSession) :
    Option (Processed ZzJsonSession) :=
  let json := session.parser
  if buffer.length = 0 then some ⟨session, .ok, []⟩
  else if !env.malloc then
    some ⟨{ session with parser := { json with lastOpenMap := none } }, .memoryError, []⟩
  else
    (yajlParse y (yajlCallbacks env buffer) buffer json.yajlHandler
      ⟨json.stackPos, json.lastOpenMap, json.lastObject, session.kafkaMsgs, 0, []⟩).map
      fun parsed ↦ finishChunk env buffer session parsed.1 parsed.2

def zzDecodeJson (y : Grammar) (props : KeyvalList) (buffer : Bytes)
    (session : ZzSession ZzJsonSession) : Option (Decoded ZzJsonSession) :=
  zzDecode (processJsonBuffer env y) env.verdict env.clock props buffer session

variable {env}

section

variable {y : Grammar} {buffer : Bytes} {session : ZzSession ZzJsonSession}

theorem processJsonBuffer_empty :
    processJsonBuffer env y [] session = some ⟨session, .ok, []⟩ := rfl

theorem processJsonBuffer_noMemory (hne : buffer ≠ []) (hmalloc : ¬ env.malloc) :
    processJsonBuffer env y buffer session =
      some ⟨{ session with parser := { session.parser with lastOpenMap := none } }, .memoryError,
        []⟩ := by
  simp [processJsonBuffer, hne, hmalloc]

theorem processJsonBuffer_parses (hne : buffer ≠ []) (hmalloc : env.malloc)
    (hrun : session.parser.yajlHandler.failed = false) :
    processJsonBuffer env y buffer session =
      (yajlLoop y (yajlCallbacks env buffer) buffer 0 session.parser.yajlHandler
        ⟨session.parser.stackPos, session.parser.lastOpenMap, session.parser.lastObject,
          session.kafkaMsgs, 0, []⟩).map
        fun parsed ↦ finishChunk env buffer session parsed.1 parsed.2 := by
  simp [processJsonBuffer, hne, hmalloc, yajlParse, hrun]

theorem finishChunk_rc (text : Bytes) (P : Prop) [Decidable P] (p : Parsing) :
    (finishChunk env buffer session ⟨text, decide (¬ P)⟩ p).rc =
      if P then .ok else .invalidRequest := by
  by_cases h : P <;> simp [finishChunk, h]

theorem payloads_finishChunk (handler : Handle) (p : Parsing) :
    (finishChunk env buffer session handler p).session.kafkaMsgs.payloads =
      p.kafkaMsgs.msgs.map (·.bytes buffer) := by
  simp only [finishChunk]
  split
  · rfl
  · rename_i hzero
    have hnil : p.kafkaMsgs.msgs = [] := by simpa [kafkaMessageArraySize] using hzero
    simp [MessageArray.payloads, hnil]

end

/-- Between two chunks the session holds exactly the object that is still open. -/
structure Between (json : ZzJsonSession) : Prop where
  stackPos : json.stackPos = depth json.yajlHandler.text
  lastOpenMap : json.lastOpenMap = none
  lastObject : json.lastObject = (scan json.yajlHandler.text).current

/-- Either nothing of the open object is lost, or what is saved of it is shorter. -/
def SavedOf (lastObject current : Bytes) : Prop :=
  lastObject = current ∨ lastObject.length < current.length

/-- Between two chunks, whatever allocations have failed: bytes of the open object may be missing. -/
structure Lossy (json : ZzJsonSession) : Prop where
  running : json.yajlHandler.failed = false
  stackPos : json.stackPos = depth json.yajlHandler.text
  lastOpenMap : json.lastOpenMap = none
  lastObject : SavedOf json.lastObject (scan json.yajlHandler.text).current

theorem Between.lossy {json : ZzJsonSession} (h : Between json)
    (hrun : json.yajlHandler.failed = false) : Lossy json :=
  ⟨hrun, h.stackPos, h.lastOpenMap, .inl h.lastObject⟩

theorem savedOf_nil (current : Bytes) : SavedOf [] current := by
  cases current with
  | nil => exact .inl rfl
  | cons c current => exact .inr (Nat.succ_pos _)

theorem SavedOf.eq_nil {lastObject : Bytes} (h : SavedOf lastObject []) : lastObject = [] := by
  simpa [SavedOf] using h

section Front

variable (text saved : Bytes)

/-- What is handed over for an object that an earlier chunk has begun: its end, behind the part of
it that was saved. -/
def mangled (object : Bytes) : Bytes := saved ++ object.drop (scan text).current.length

def apart (front : List Bytes) : List Bytes :=
  if saved = [] then [] else front.map (mangled text saved)

def nulls (front : List Bytes) : List Bytes := if saved = [] then front.map fun _ ↦ [] else []

end Front

variable (env)

def kept (own : List Bytes) : List Bytes := (own.zipIdx.filter (env.added ·.2)).map (·.1)

/-- Inside a chunk that continues `text`, with `saved` of the object that is open: `front` is that
object, once it is complete, and `own` are the objects that lie inside the chunk. -/
structure Own (text saved buffer done : Bytes) (front own : List Bytes) (p : Parsing) : Prop where
  objects : (scan (text ++ done)).objects = (scan text).objects ++ (front ++ own)
  front_length : front.length = if depth text = 0 then 0 else 1
  begun : ∀ o ∈ front, ∃ back, o = (scan text).current ++ back
  lastObject : p.lastObject = []
  outside : depth (text ++ done) = 0 → p.lastOpenMap = none
  inside : depth (text ++ done) ≠ 0 → ∃ start ≤ done.length, p.lastOpenMap = some start ∧
    (scan (text ++ done)).current = done.drop start
  adds : p.adds = (nulls saved front ++ own).length
  handed : p.handed =
    if env.splitAppended then (apart text saved front).map ((·, env.verdict 0)) else []
  msgs : p.kafkaMsgs.msgs.map (·.bytes buffer) = kept env (nulls saved front ++ own)

structure Carried (text saved done : Bytes) (p : Parsing) : Prop where
  begun : depth text ≠ 0
  objects : (scan (text ++ done)).objects = (scan text).objects
  deep : depth (text ++ done) ≠ 0
  current : (scan (text ++ done)).current = (scan text).current ++ done
  lastObject : p.lastObject = saved
  lastOpenMap : p.lastOpenMap = none
  adds : p.adds = 0
  handed : p.handed = []
  msgs : p.kafkaMsgs.msgs = []

structure InChunk (text saved buffer done : Bytes) (p : Parsing) : Prop where
  stackPos : p.stackPos = depth (text ++ done)
  phase : Carried text saved done p ∨ ∃ front own, Own env text saved buffer done front own p

variable {env}

theorem kept_concat (own : List Bytes) (o : Bytes) :
    kept env (own ++ [o]) = kept env own ++ if env.added own.length then [o] else [] := by
  simp only [kept, List.zipIdx_append, List.filter_append, List.map_append, Nat.zero_add]
  by_cases h : env.added own.length <;> simp [h]

section

variable {text saved buffer done back : Bytes} {c : UInt8} {p : Parsing}

theorem Carried.inside_byte (h : Carried text saved done p)
    (hdeep : depth (text ++ (done ++ [c])) ≠ 0) (stackPos : ℕ) :
    Carried text saved (done ++ [c]) { p with stackPos := stackPos } := by
  rw [← List.append_assoc] at hdeep
  obtain ⟨hobj, hcur⟩ := scan_inside hdeep
  refine ⟨h.begun, ?_, ?_, ?_, h.lastObject, h.lastOpenMap, h.adds, h.handed, h.msgs⟩
  · rw [← List.append_assoc, hobj, h.objects]
  · rwa [← List.append_assoc]
  · rw [← List.append_assoc, hcur, h.current, List.append_assoc]

theorem Own.inside_byte {front own : List Bytes} (h : Own env text saved buffer done front own p)
    (hdeep : depth (text ++ done) ≠ 0) (hdeep' : depth (text ++ (done ++ [c])) ≠ 0)
    (stackPos : ℕ) :
    Own env text saved buffer (done ++ [c]) front own { p with stackPos := stackPos } := by
  obtain ⟨start, hstart, hopen, hcurrent⟩ := h.inside hdeep
  rw [← List.append_assoc] at hdeep'
  obtain ⟨hobj, hcur⟩ := scan_inside hdeep'
  refine ⟨?_, h.front_length, h.begun, h.lastObject, fun h0 ↦ ?_,
    fun _ ↦ ⟨start, ?_, hopen, ?_⟩, h.adds, h.handed, h.msgs⟩
  · rw [← List.append_assoc, hobj, h.objects]
  · rw [← List.append_assoc] at h0
    exact absurd h0 hdeep'
  · rw [List.length_append]
    omega
  · rw [← List.append_assoc, hcur, hcurrent, List.drop_append_of_le_length hstart]

theorem Own.outside_byte {front own : List Bytes}
    (h : Own env text saved buffer done front own p) (hout : depth (text ++ done) = 0)
    (hout' : depth (text ++ (done ++ [c])) = 0) :
    Own env text saved buffer (done ++ [c]) front own p := by
  have hout'' := hout'
  rw [← List.append_assoc] at hout''
  refine ⟨?_, h.front_length, h.begun, h.lastObject, fun _ ↦ h.outside hout,
    fun h1 ↦ absurd hout' h1, h.adds, h.handed, h.msgs⟩
  rw [← List.append_assoc, scan_outside hout hout'', h.objects]

theorem Own.opens {front own : List Bytes} (h : Own env text saved buffer done front own p)
    (hout : depth (text ++ done) = 0) (hdeep : depth (text ++ (done ++ [c])) ≠ 0)
    (stackPos : ℕ) :
    Own env text saved buffer (done ++ [c]) front own
      { p with stackPos := stackPos, lastOpenMap := some done.length } := by
  have hdeep' := hdeep
  rw [← List.append_assoc] at hdeep'
  obtain ⟨hobj, hcur⟩ := scan_inside hdeep'
  refine ⟨?_, h.front_length, h.begun, h.lastObject, fun h0 ↦ absurd h0 hdeep,
    fun _ ↦ ⟨done.length, by simp, rfl, ?_⟩, h.adds, h.handed, h.msgs⟩
  · rw [← List.append_assoc, hobj, h.objects]
  · rw [← List.append_assoc, hcur, (scan_current_eq_nil_iff _).mpr hout]
    simp

theorem Own.closes {front own : List Bytes} (h : Own env text saved buffer done front own p)
    (hb : buffer = done ++ c :: back) (hdeep : depth (text ++ done) ≠ 0)
    (hout : depth (text ++ (done ++ [c])) = 0) (stackPos : ℕ) :
    ∃ own' p', zzParseEndJsonMap0 env (done.length + 1) { p with stackPos := stackPos } = some p' ∧
      p'.stackPos = stackPos ∧ Own env text saved buffer (done ++ [c]) front own' p' := by
  obtain ⟨start, hstart, hopen, hcurrent⟩ := h.inside hdeep
  have hout' := hout
  rw [← List.append_assoc] at hout'
  have hslice : RdKafkaMessage.bytes buffer ⟨some start, done.length + 1 - start⟩ =
      done.drop start ++ [c] := by
    simp only [RdKafkaMessage.bytes]
    rw [hb, List.drop_append_of_le_length hstart, List.take_append,
      List.take_of_length_le (by rw [List.length_drop]; omega), List.length_drop]
    have hone : done.length + 1 - start - (done.length - start) = 1 := by omega
    rw [hone, List.take_succ_cons, List.take_zero]
  have hmap0 : zzParseEndJsonMap0 env (done.length + 1) { p with stackPos := stackPos } =
      some { p with
        stackPos := stackPos
        kafkaMsgs := kafkaMsgArrayAdd (env.added p.adds) p.kafkaMsgs
          ⟨some start, done.length + 1 - start⟩
        adds := p.adds + 1
        lastOpenMap := none } := by
    have hlt : done.length + 1 > start := by omega
    simp [zzParseEndJsonMap0, zzParseGenerateRdkafkaMessage, hopen, hlt]
  refine ⟨own ++ [done.drop start ++ [c]], _, hmap0, rfl, ?_⟩
  refine ⟨?_, h.front_length, h.begun, h.lastObject, fun _ ↦ rfl, fun h1 ↦ absurd hout h1, ?_,
    h.handed, ?_⟩
  · rw [← List.append_assoc, scan_closes hdeep hout', h.objects, hcurrent]
    simp
  · simp [h.adds, Nat.add_assoc]
  · rw [← List.append_assoc, kept_concat, ← h.msgs, kafkaMsgArrayAdd_bytes, hslice, h.adds]

theorem Carried.objects_closes (h : Carried text saved done p)
    (hout : depth (text ++ (done ++ [c])) = 0) :
    (scan (text ++ (done ++ [c]))).objects =
      (scan text).objects ++ ([(scan text).current ++ (done ++ [c])] ++ []) := by
  rw [← List.append_assoc] at hout ⊢
  rw [scan_closes h.deep hout, h.objects, h.current]
  simp

theorem Carried.closes_split (h : Carried text saved done p) (hb : buffer = done ++ c :: back)
    (hsaved : saved ≠ []) (hout : depth (text ++ (done ++ [c])) = 0) (stackPos : ℕ) :
    Own env text saved buffer (done ++ [c]) [(scan text).current ++ (done ++ [c])] []
      (zzParseEndJsonMapSplit env buffer (done.length + 1) { p with stackPos := stackPos }) := by
  have htake : buffer.take (done.length + 1) = done ++ [c] := by
    rw [hb, List.take_append, List.take_of_length_le (by omega)]
    simp
  have hbegun : ∀ o ∈ [(scan text).current ++ (done ++ [c])], ∃ back, o = (scan text).current ++ back :=
    fun o ho ↦ ⟨_, List.mem_singleton.mp ho⟩
  unfold zzParseEndJsonMapSplit
  by_cases hs : env.splitAppended
  · rw [if_pos hs]
    refine ⟨h.objects_closes hout, by simp [h.begun], hbegun, rfl, fun _ ↦ h.lastOpenMap,
      fun h1 ↦ absurd hout h1, ?_, ?_, ?_⟩
    · simp [h.adds, nulls, hsaved]
    · simp [hs, h.handed, h.lastObject, htake, apart, hsaved, mangled]
    · simp [h.msgs, kept, nulls, hsaved]
  · rw [if_neg hs]
    refine ⟨h.objects_closes hout, by simp [h.begun], hbegun, rfl, fun _ ↦ h.lastOpenMap,
      fun h1 ↦ absurd hout h1, ?_, ?_, ?_⟩
    · simp [h.adds, nulls, hsaved]
    · simp [hs, h.handed]
    · simp [h.msgs, kept, nulls, hsaved]

theorem Carried.closes_null (h : Carried text [] done p)
    (hout : depth (text ++ (done ++ [c])) = 0) (stackPos : ℕ) :
    ∃ p', zzParseEndJsonMap0 env (done.length + 1) { p with stackPos := stackPos } = some p' ∧
      p'.stackPos = stackPos ∧
      Own env text [] buffer (done ++ [c]) [(scan text).current ++ (done ++ [c])] [] p' := by
  have hmap0 : zzParseEndJsonMap0 env (done.length + 1) { p with stackPos := stackPos } =
      some { p with
        stackPos := stackPos
        kafkaMsgs := kafkaMsgArrayAdd (env.added p.adds) p.kafkaMsgs
          ⟨none, env.inBuffer + (done.length + 1)⟩
        adds := p.adds + 1
        lastOpenMap := none } := by
    simp [zzParseEndJsonMap0, zzParseGenerateRdkafkaMessage, h.lastOpenMap]
  refine ⟨_, hmap0, rfl, h.objects_closes hout, by simp [h.begun],
    fun o ho ↦ ⟨_, List.mem_singleton.mp ho⟩, h.lastObject, fun _ ↦ rfl, fun h1 ↦ absurd hout h1, ?_,
    ?_, ?_⟩
  · simp [h.adds, nulls]
  · simp [h.handed, apart]
  · rw [kafkaMsgArrayAdd_bytes, h.msgs, h.adds]
    have hone : kept env ([] ++ [[]]) = _ := kept_concat [] []
    simpa [nulls, RdKafkaMessage.bytes, kept] using hone.symm

theorem InChunk.noBrace (h : InChunk env text saved buffer done p)
    (hd : depth (text ++ (done ++ [c])) = depth (text ++ done)) :
    InChunk env text saved buffer (done ++ [c]) p := by
  refine ⟨h.stackPos.trans hd.symm, ?_⟩
  rcases h.phase with hc | ⟨front, own, ho⟩
  · exact .inl (hc.inside_byte (hd.symm ▸ hc.deep) p.stackPos)
  · refine .inr ⟨front, own, ?_⟩
    by_cases h0 : depth (text ++ done) = 0
    · exact ho.outside_byte h0 (hd.trans h0)
    · exact ho.inside_byte h0 (hd.symm ▸ h0) p.stackPos

theorem InChunk.startMap (h : InChunk env text saved buffer done p)
    (hd : depth (text ++ (done ++ [c])) = depth (text ++ done) + 1) :
    InChunk env text saved buffer (done ++ [c]) (zzParseStartJsonMap (done.length + 1) p) := by
  have hdeep : depth (text ++ (done ++ [c])) ≠ 0 := by omega
  refine ⟨by simp [zzParseStartJsonMap, h.stackPos, hd], ?_⟩
  have hpos := h.stackPos
  unfold zzParseStartJsonMap
  rcases h.phase with hc | ⟨front, own, ho⟩
  · rw [if_neg (hpos ▸ hc.deep)]
    exact .inl (hc.inside_byte hdeep _)
  · refine .inr ⟨front, own, ?_⟩
    by_cases h0 : depth (text ++ done) = 0
    · rw [if_pos (hpos.trans h0), Nat.add_sub_cancel]
      exact ho.opens h0 hdeep _
    · rw [if_neg (hpos ▸ h0)]
      exact ho.inside_byte h0 hdeep _

theorem InChunk.endMap (h : InChunk env text saved buffer done p) (hb : buffer = done ++ c :: back)
    (hdeep : depth (text ++ done) ≠ 0)
    (hd : depth (text ++ (done ++ [c])) = depth (text ++ done) - 1) :
    ∃ p', zzParseEndJsonMap env buffer (done.length + 1) p = some p' ∧
      InChunk env text saved buffer (done ++ [c]) p' := by
  have hpos : p.stackPos - 1 = depth (text ++ (done ++ [c])) := by rw [h.stackPos, hd]
  unfold zzParseEndJsonMap
  by_cases h0 : depth (text ++ (done ++ [c])) = 0
  · rw [if_neg (not_not.mpr (hpos.trans h0))]
    rcases h.phase with hc | ⟨front, own, ho⟩
    · by_cases hsaved : saved = []
      · subst hsaved
        rw [if_neg (by simp [hc.lastObject])]
        obtain ⟨p', hp', hstack, ho⟩ := hc.closes_null h0 (p.stackPos - 1)
        exact ⟨p', hp', hstack.trans hpos, .inr ⟨_, _, ho⟩⟩
      · have hlen : p.lastObject.length > 0 := by
          rw [hc.lastObject]
          exact List.length_pos_iff.mpr hsaved
        rw [if_pos hlen]
        refine ⟨_, rfl, ?_, .inr ⟨_, _, hc.closes_split hb hsaved h0 (p.stackPos - 1)⟩⟩
        unfold zzParseEndJsonMapSplit
        split <;> exact hpos
    · rw [if_neg (by simp [ho.lastObject])]
      obtain ⟨own', p', hp', hstack, ho'⟩ := ho.closes hb hdeep h0 (p.stackPos - 1)
      exact ⟨p', hp', hstack.trans hpos, .inr ⟨front, own', ho'⟩⟩
  · rw [if_pos (hpos.symm ▸ h0)]
    refine ⟨_, rfl, hpos, ?_⟩
    rcases h.phase with hc | ⟨front, own, ho⟩
    · exact .inl (hc.inside_byte h0 _)
    · exact .inr ⟨front, own, ho.inside_byte hdeep h0 _⟩

/-- Every byte that yajl accepts keeps the session in step with the scan of the whole text. -/
theorem InChunk.byte (y : Grammar) (h : InChunk env text saved buffer done p)
    (hb : buffer = done ++ c :: back) (ha : y.accepts (text ++ done) c) :
    ∃ p', (yajlCallbacks env buffer).byte (text ++ done) c (done.length + 1) p = some p' ∧
      InChunk env text saved buffer (done ++ [c]) p' := by
  have hd := depth_concat (text ++ done) c
  rw [List.append_assoc] at hd
  have hclosing := y.closing (text ++ done) c
  unfold Callbacks.byte
  cases hbrace : (nest (text ++ done)).lex.brace c with
  | none =>
    rw [hbrace] at hd
    exact ⟨p, rfl, h.noBrace hd⟩
  | some brace =>
    rw [hbrace] at hd hclosing
    cases brace with
    | opening => exact ⟨_, rfl, h.startMap hd⟩
    | closing => exact h.endMap hb (hclosing rfl ha) hd

structure Completed (env : Env) (text saved buffer done : Bytes) (front own : List Bytes)
    (p : Parsing) : Prop where
  objects : (scan (text ++ done)).objects = (scan text).objects ++ (front ++ own)
  front_le : front.length ≤ 1
  front_eq : front ++ own ≠ [] → front.length = if depth text = 0 then 0 else 1
  begun : ∀ o ∈ front, ∃ back, o = (scan text).current ++ back
  handed : p.handed =
    if env.splitAppended then (apart text saved front).map ((·, env.verdict 0)) else []
  msgs : p.kafkaMsgs.msgs.map (·.bytes buffer) = kept env (nulls saved front ++ own)

theorem InChunk.completed (h : InChunk env text saved buffer done p) :
    ∃ front own, Completed env text saved buffer done front own p := by
  rcases h.phase with hc | ⟨front, own, ho⟩
  · refine ⟨[], [], ?_, by simp, by simp, by simp, by simp [hc.handed, apart],
      by simp [hc.msgs, kept, nulls]⟩
    rw [hc.objects, List.append_nil, List.append_nil]
  · refine ⟨front, own, ho.objects, ?_, fun _ ↦ ho.front_length, ho.begun, ho.handed, ho.msgs⟩
    rw [ho.front_length]
    split <;> omega

theorem Own.save_eq {front own : List Bytes} (h : Own env text saved buffer buffer front own p)
    (hs : env.saved) : saveLastObject env buffer p = (scan (text ++ buffer)).current := by
  simp only [saveLastObject, hs, if_true]
  rw [h.lastObject, List.nil_append]
  by_cases h0 : depth (text ++ buffer) = 0
  · rw [h.outside h0, (scan_current_eq_nil_iff _).mpr h0]
    rfl
  · obtain ⟨start, -, hopen, hcurrent⟩ := h.inside h0
    rw [hopen, hcurrent]

theorem Carried.savedOf (h : Carried text saved buffer p) (hbuffer : buffer ≠ [])
    (hsaved : SavedOf saved (scan text).current) :
    SavedOf (saveLastObject env buffer p) (scan (text ++ buffer)).current := by
  have hpos := List.length_pos_iff.mpr hbuffer
  have hle : saved.length ≤ (scan text).current.length := by
    rcases hsaved with hsaved | hsaved
    · rw [hsaved]
    · exact hsaved.le
  unfold saveLastObject
  rw [h.lastOpenMap, h.lastObject, h.current]
  by_cases hs : env.saved = true
  · simp only [hs, if_true]
    by_cases hlast : saved.length ≠ 0
    · rw [if_pos hlast]
      rcases hsaved with hsaved | hsaved
      · exact .inl (by rw [hsaved])
      · refine .inr ?_
        rw [List.length_append, List.length_append]
        omega
    · have hnil : saved = [] := by simpa using hlast
      rw [if_neg hlast, hnil]
      exact savedOf_nil _
  · rw [if_neg hs]
    refine .inr ?_
    rw [List.length_append]
    omega

theorem InChunk.savedOf (h : InChunk env text saved buffer buffer p) (hbuffer : buffer ≠ [])
    (hsaved : SavedOf saved (scan text).current) :
    SavedOf (saveLastObject env buffer p) (scan (text ++ buffer)).current := by
  rcases h.phase with hc | ⟨front, own, ho⟩
  · exact hc.savedOf hbuffer hsaved
  · by_cases hs : env.saved = true
    · exact .inl (ho.save_eq hs)
    · have hnil : saveLastObject env buffer p = [] := by simp [saveLastObject, hs, ho.lastObject]
      rw [hnil]
      exact savedOf_nil _

theorem InChunk.save_eq (h : InChunk env text (scan text).current buffer buffer p) (hs : env.saved) :
    saveLastObject env buffer p = (scan (text ++ buffer)).current := by
  rcases h.phase with hc | ⟨front, own, ho⟩
  · have hne := mt (scan_current_eq_nil_iff text).mp hc.begun
    simp [saveLastObject, hs, hc.lastOpenMap, hc.lastObject, hc.current, hne]
  · exact ho.save_eq hs

end

theorem Lossy.inChunk {json : ZzJsonSession} (h : Lossy json) (env : Env) (buffer : Bytes) :
    InChunk env json.yajlHandler.text json.lastObject buffer []
      ⟨json.stackPos, json.lastOpenMap, json.lastObject, .initializer, 0, []⟩ := by
  have hnil := scan_current_eq_nil_iff json.yajlHandler.text
  refine ⟨by rw [List.append_nil, h.stackPos], ?_⟩
  by_cases h0 : depth json.yajlHandler.text = 0
  · have hlast := h.lastObject
    rw [hnil.mpr h0] at hlast
    refine .inr ⟨[], [], by simp, by simp [h0], by simp, hlast.eq_nil, fun _ ↦ h.lastOpenMap,
      fun h1 ↦ ?_, by simp [nulls], by simp [apart], by simp [MessageArray.initializer, kept, nulls]⟩
    exact absurd (by rwa [List.append_nil]) h1
  · refine .inl ⟨h0, by rw [List.append_nil], by rwa [List.append_nil], ?_, rfl, h.lastOpenMap, rfl,
      rfl, rfl⟩
    rw [List.append_nil, List.append_nil]

structure Outcome (env : Env) (y : Grammar) (json : ZzJsonSession) (buffer : Bytes)
    (processed : Processed ZzJsonSession) (front own : List Bytes) : Prop where
  text : processed.session.parser.yajlHandler.text =
    json.yajlHandler.text ++ y.accepted json.yajlHandler.text buffer
  failed : processed.session.parser.yajlHandler.failed =
    decide (y.accepted json.yajlHandler.text buffer ≠ buffer)
  rc : processed.rc =
    if y.accepted json.yajlHandler.text buffer = buffer then .ok else .invalidRequest
  objects : outermost processed.session.parser.yajlHandler.text =
    outermost json.yajlHandler.text ++ (front ++ own)
  front_le : front.length ≤ 1
  front_eq : front ++ own ≠ [] →
    front.length = if depth json.yajlHandler.text = 0 then 0 else 1
  begun : ∀ o ∈ front, ∃ back, o = (scan json.yajlHandler.text).current ++ back
  handed : processed.handed = if env.splitAppended then
    (apart json.yajlHandler.text json.lastObject front).map ((·, env.verdict 0)) else []
  payloads : processed.session.kafkaMsgs.payloads = kept env (nulls json.lastObject front ++ own)
  shared : processed.session.kafkaMsgs.msgs ≠ [] →
    processed.session.kafkaMsgs.payloadBuffer.isSome
  lossy : y.accepted json.yajlHandler.text buffer = buffer → Lossy processed.session.parser
  between : y.accepted json.yajlHandler.text buffer = buffer → env.saved → Between json →
    Between processed.session.parser

theorem Outcome.intact {env : Env} {y : Grammar} {json : ZzJsonSession} {buffer : Bytes}
    {processed : Processed ZzJsonSession} {front own : List Bytes}
    (h : Outcome env y json buffer processed front own) (hb : Between json) :
    apart json.yajlHandler.text json.lastObject front = front ∧ nulls json.lastObject front = [] := by
  have hnil := scan_current_eq_nil_iff json.yajlHandler.text
  by_cases hsaved : json.lastObject = []
  · have hfront : front = [] := by
      by_contra hne
      have hlen := h.front_eq (by simp [hne])
      rw [if_pos (hnil.mp (hb.lastObject.symm.trans hsaved))] at hlen
      exact hne (List.length_eq_zero_iff.mp hlen)
    simp [apart, nulls, hfront]
  · refine ⟨?_, by simp [nulls, hsaved]⟩
    rw [apart, if_neg hsaved]
    refine (List.map_congr_left fun o ho ↦ ?_).trans (List.map_id _)
    obtain ⟨back, rfl⟩ := h.begun o ho
    rw [mangled, List.drop_left, hb.lastObject]
    rfl

theorem processJsonBuffer_outcome (env : Env) (y : Grammar) {session : ZzSession ZzJsonSession}
    (hl : Lossy session.parser) (hmsgs : session.kafkaMsgs = .initializer) {buffer : Bytes}
    (hne : buffer ≠ []) (hmalloc : env.malloc) :
    ∃ processed front own, processJsonBuffer env y buffer session = some processed ∧
      Outcome env y session.parser buffer processed front own := by
  obtain ⟨json, kafkaMsgs, lastWarning, httpResponse, errorMessage⟩ := session
  obtain ⟨⟨text, failed⟩, stackPos, lastOpenMap, lastObject⟩ := json
  obtain rfl : failed = false := hl.running
  obtain rfl : kafkaMsgs = .initializer := hmsgs
  obtain ⟨h', p, hparse, hh', hp⟩ := yajlLoop_spec y (yajlCallbacks env buffer) text
    (InChunk env text lastObject buffer) buffer [] (fun front c back s heq ha hs ↦ hs.byte y heq ha)
    (hl.inChunk env buffer)
  simp only [List.append_nil, List.nil_append, List.length_nil] at hparse hh' hp
  obtain ⟨front, own, hdone⟩ := hp.completed
  have hfailed : h'.failed = decide (y.accepted text buffer ≠ buffer) := by rw [hh']
  have hrun : processJsonBuffer env y buffer
      ⟨⟨⟨text, false⟩, stackPos, lastOpenMap, lastObject⟩, .initializer, lastWarning, httpResponse,
        errorMessage⟩ = some (finishChunk env buffer
      ⟨⟨⟨text, false⟩, stackPos, lastOpenMap, lastObject⟩, .initializer, lastWarning, httpResponse,
        errorMessage⟩ h' p) := by
    rw [processJsonBuffer_parses hne hmalloc rfl, hparse, Option.map_some]
  refine ⟨_, front, own, hrun, ?_⟩
  refine ⟨by rw [finishChunk, hh'], hfailed, ?_, ?_, hdone.front_le, hdone.front_eq, hdone.begun,
    hdone.handed, ?_, ?_, fun hacc ↦ ?_, fun hacc hsaved hb ↦ ?_⟩
  · rw [hh']
    exact finishChunk_rc _ _ _
  · rw [finishChunk, hh', ← scan_objects, ← scan_objects]
    exact hdone.objects
  · rw [← hdone.msgs, payloads_finishChunk]
  · simp only [finishChunk]
    intro hmsgs
    split at hmsgs
    · rename_i hsize
      rw [if_pos hsize]
      rfl
    · rename_i hzero
      exact absurd (by simpa [kafkaMessageArraySize] using hzero) hmsgs
  · have hok : h'.failed = false := by simp [hfailed, hacc]
    rw [hacc] at hp
    refine ⟨hok, ?_, rfl, ?_⟩
    · simp only [finishChunk, hp.stackPos, hh', hacc]
    · simp only [finishChunk, hok, Bool.not_false, if_true]
      rw [hh', hacc]
      exact hp.savedOf hne hl.lastObject
  · have hok : h'.failed = false := by simp [hfailed, hacc]
    obtain rfl : lastObject = (scan text).current := hb.lastObject
    rw [hacc] at hp
    refine ⟨?_, rfl, ?_⟩
    · simp only [finishChunk, hp.stackPos, hh', hacc]
    · simp only [finishChunk, hok, Bool.not_false, if_true]
      rw [hp.save_eq hsaved, hh', hacc]

end N2Kafka.Decoder.ZzParserJson
