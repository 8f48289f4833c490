import N2Kafka.Decoder.XmlDepth
import N2Kafka.Util.MessageSlices

namespace N2Kafka.Decoder.XmlSlices

open Lib.CString Lib.JsonGenerator Util.KafkaMessageArray Util.MessageSlices Decoder.DecoderApi
open Decoder.Expat Decoder.ZzDecoder Decoder.ZzParserXml Decoder.XmlDocument
open Decoder.XmlTranslation Decoder.XmlNesting Decoder.XmlAllocations Decoder.XmlErrors
open Decoder.XmlDepth

structure Ending where
  status : XmlStatus
  error : XmlError
  position : Position

/-- The ending of a call, given the chunks since the last reset, the chunk, and the position behind
the event in whose handler the parser was stopped. -/
abbrev Endings := List Bytes → Bytes → Position → Ending

section Loop

variable (env : Env)

def xmlParseEnding (endings : Endings) (buffer : Bytes) (s : Parsing) :
    Option (XmlStatus × Parsing) :=
  if s.expatHandler.stopped then xmlParse env buffer s
  else
    (xmlParse env buffer s).map fun (stat, s') ↦
      if s'.expatHandler.stopped then
        let ending := endings s.expatHandler.fed buffer s'.expatHandler.position
        (ending.status, { s' with expatHandler :=
          { s'.expatHandler with error := ending.error, position := ending.position } })
      else (stat, s')

def xmlLoopOver (parse : Bytes → Parsing → Option (XmlStatus × Parsing)) :
    ℕ → Bytes → Parsing → Option Parsing
  | 0, _, s => some s
  | fuel + 1, buffer, s =>
    if buffer.length > 0 ∧ s.httpResponse.length = 0 then
      (parse buffer s).bind fun (stat, s) ↦
        if stat = .ok then some s
        else if trueError stat s then
          (queueXmlError env (ascii "Error parsing XML") .ok s).printed
        else
          let offset := s.expatHandler.position.byte
          if offset ≤ 0 ∧ s.httpResponse.length = 0 then
            (queueXmlError env (ascii "Can't get parse offset") .ok s).printed
          else if 0 ≤ offset ∧ offset ≤ buffer.length then
            xmlLoopOver parse fuel (buffer.drop offset.toNat) (zzResetXmlHandler s)
          else none
    else some s

def processXmlBufferEnding (endings : Endings) (buffer : Bytes) (session : ZzSession ZzXmlSession) :
    Option (Processed ZzXmlSession) :=
  (xmlLoopOver env (xmlParseEnding env endings) buffer.length buffer (enterXmlChunk env session)).map
    (finishXmlChunk session)

def abortedAt : Endings := fun _ _ position ↦ ⟨.error, .aborted, position⟩

variable {env}

theorem xmlParseEnding_abortedAt (buffer : Bytes) (s : Parsing) :
    xmlParseEnding env abortedAt buffer s = xmlParse env buffer s := by
  rw [xmlParseEnding]
  split
  · rfl
  · rename_i hrun
    rw [Bool.not_eq_true] at hrun
    rw [xmlParse]
    simp only [hrun, Bool.false_eq_true, if_false]
    split
    · simp [hrun]
    · cases hs' : xmlDeliver env (env.expat.parse s.expatHandler.fed buffer).tokens s with
      | none => rfl
      | some s' =>
        cases hstop : s'.expatHandler.stopped with
        | false => simp [hstop]
        | true =>
          obtain ⟨t, -, -, haborted⟩ := XmlOffsets.xmlDeliver_stopped hs' hrun hstop
          simp only [Option.map_some, hstop, if_true, abortedAt, ← haborted]
          rw [← hstop]

theorem xmlLoopOver_eq {parse : Bytes → Parsing → Option (XmlStatus × Parsing)}
    (hparse : ∀ buffer s, parse buffer s = xmlParse env buffer s) (fuel : ℕ) (buffer : Bytes)
    (s : Parsing) : xmlLoopOver env parse fuel buffer s = xmlLoop env fuel buffer s := by
  induction fuel generalizing buffer s with
  | zero => rfl
  | succ fuel ih =>
    rw [xmlLoopOver, xmlLoop, hparse]
    simp only [ih]

/-- The model of `process_xml_buffer` in which a stopped call ends with `XML_ERROR_ABORTED`, behind
the event, is one of these. -/
theorem processXmlBufferEnding_abortedAt (buffer : Bytes) (session : ZzSession ZzXmlSession) :
    processXmlBufferEnding env abortedAt buffer session = processXmlBuffer env buffer session := by
  rw [processXmlBufferEnding, processXmlBuffer, xmlLoopOver_eq xmlParseEnding_abortedAt]

end Loop

/-- A document of a chunk, and the bytes behind its root over which the byte index has gone when the
stop takes effect. What else stands before the next document belongs to that one. -/
structure Segment (env : Env) extends Piece env where
  behind : Bytes

variable {env : Env}

def chunkText : List (Segment env) → Bytes → Bytes
  | [], rest => rest
  | p :: ps, rest => p.bytes ++ (p.behind ++ chunkText ps rest)

/-- How expat may end the call in which the root of `p` has stopped it. -/
inductive StopsBehind (p : Segment env) (rest : Bytes) (ending : Ending) : Prop
  | index (hstatus : ending.status = .error)
      (herror : ending.error = .aborted ∨ ending.error = .junkAfterDocElement)
      (hbyte : ending.position.byte = p.bytes.length + p.behind.length)
  | nothing (hstatus : ending.status = .ok) (hrest : rest = [])

def StopsAtRoots (endings : Endings) : List (Segment env) → Bytes → Prop
  | [], _ => True
  | p :: ps, rest =>
    (∀ stop : Position, stop.byte = p.bytes.length →
      StopsBehind p (chunkText ps rest) (endings [] (chunkText (p :: ps) rest) stop)) ∧
      StopsAtRoots endings ps rest

/-- No root ends in these events unless an element before it is too deep. -/
def Unended (maxDepth : ℕ) (ts : List Token) (depth : ℕ) : Prop :=
  (∃ depth', reach ts depth = .opened depth') ∨ fits maxDepth ts depth = false

/-- What stands behind the documents: an unfinished or failing one, white space, or nothing. -/
structure Remainder (env : Env) (endings : Endings) (rest : Bytes) : Prop where
  unended : rest ≠ [] → Unended env.style.maxDepth (env.expat.parse [] rest).tokens 0
  within : ∀ t ∈ (env.expat.parse [] rest).tokens,
    0 ≤ (endings [] rest t.stop).position.byte ∧
      (endings [] rest t.stop).position.byte ≤ rest.length

/-- The messages are these texts, one behind the other in the buffer, wherever it stands. -/
structure Partitions (array : MessageArray) (texts : List Bytes) : Prop where
  count : kafkaMessageArraySize array = texts.length
  slices : ∀ address, kafkaMessageArraySetPayloadBuffer0 address true array.msgs =
    adjacent address texts
  buffer : texts ≠ [] → ∃ extra, array.payloadBuffer = some (texts.flatten ++ extra)
  reads : ∀ memory address, (∀ buffer, array.payloadBuffer = some buffer →
      Stored memory address buffer) →
    (kafkaMessageArraySetPayloadBuffer0 address true array.msgs).map (read memory) = texts

structure Gathered (texts : List Bytes) (extra : Bytes) (s : Parsing) : Prop where
  buf : s.yajlGenBuf = texts.flatten ++ extra
  kafkaMsgs : s.kafkaMsgs = ⟨adjacent 0 texts, none⟩

structure Fresh (texts : List Bytes) (s : Parsing) : Prop extends Gathered texts [] s where
  idle : Idle s
  parser : s.expatHandler = .fresh
  rc : s.rc = .ok

theorem Gathered.partitions (session : ZzSession ZzXmlSession) {texts : List Bytes} {extra : Bytes}
    {s : Parsing} (h : Gathered texts extra s) :
    Partitions (finishXmlChunk session s).session.kafkaMsgs texts := by
  have hmsgs : (finishXmlChunk session s).session.kafkaMsgs.msgs = adjacent 0 texts := by
    simp only [finishXmlChunk, h.kafkaMsgs, kafkaMessageArraySetPayloadBuffer]
    split <;> rfl
  have hbuffer : texts ≠ [] → (finishXmlChunk session s).session.kafkaMsgs.payloadBuffer =
      some (texts.flatten ++ extra) := by
    intro hne
    have hsize : kafkaMessageArraySize s.kafkaMsgs ≠ 0 := by
      rw [h.kafkaMsgs, kafkaMessageArraySize, length_adjacent]
      simpa using hne
    rw [← h.buf]
    simp [finishXmlChunk, hsize, kafkaMessageArraySetPayloadBuffer]
  have hslices (address : ℕ) : kafkaMessageArraySetPayloadBuffer0 address true
      (finishXmlChunk session s).session.kafkaMsgs.msgs = adjacent address texts := by
    rw [hmsgs, setPayloadBuffer0_adjacent, Nat.zero_add]
  refine ⟨?_, hslices, fun hne ↦ ⟨extra, hbuffer hne⟩, ?_⟩
  · rw [kafkaMessageArraySize, hmsgs, length_adjacent]
  · intro memory address hstored
    rw [hslices]
    by_cases hne : texts = []
    · rw [hne]
      rfl
    · exact (hstored _ (hbuffer hne)).read_adjacent

section Calls

variable {endings : Endings} {buffer : Bytes} {s s' : Parsing}

theorem xmlParseEnding_running (hfresh : s.expatHandler = .fresh)
    (hs' : xmlDeliver env (env.expat.parse [] buffer).tokens s = some s')
    (hrun : s'.expatHandler.stopped = false) :
    xmlParseEnding env endings buffer s = some ((env.expat.parse [] buffer).status, { s' with
      expatHandler := ⟨[buffer], (env.expat.parse [] buffer).error,
        (env.expat.parse [] buffer).position, false⟩ }) := by
  rw [xmlParseEnding, xmlParse, hfresh]
  simp [XmlParser.fresh, hs', hrun]

theorem xmlParseEnding_stopped (hfresh : s.expatHandler = .fresh)
    (hs' : xmlDeliver env (env.expat.parse [] buffer).tokens s = some s')
    (hstop : s'.expatHandler.stopped = true) :
    xmlParseEnding env endings buffer s =
      some ((endings [] buffer s'.expatHandler.position).status, { s' with expatHandler :=
        { s'.expatHandler with
          error := (endings [] buffer s'.expatHandler.position).error
          position := (endings [] buffer s'.expatHandler.position).position } }) := by
  rw [xmlParseEnding, xmlParse, hfresh]
  simp [XmlParser.fresh, hs', hstop]

end Calls

section Documents

variable {endings : Endings} {texts : List Bytes} {s : Parsing}

theorem Fresh.segment (halloc : ∀ k, env.alloc k) (h : Fresh texts s) (p : Segment env)
    {rest : Bytes} (hstops : ∀ stop : Position, stop.byte = p.bytes.length →
      StopsBehind p rest (endings [] (p.bytes ++ (p.behind ++ rest)) stop)) (fuel : ℕ) :
    ∃ s', xmlLoopOver env (xmlParseEnding env endings) (fuel + 1)
        (p.bytes ++ (p.behind ++ rest)) s = some s' ∧ rest = [] ∧
          Gathered (texts ++ [p.message]) [] s' ∨
      xmlLoopOver env (xmlParseEnding env endings) (fuel + 1) (p.bytes ++ (p.behind ++ rest)) s =
          xmlLoopOver env (xmlParseEnding env endings) fuel rest s' ∧
        Fresh (texts ++ [p.message]) s' := by
  obtain ⟨ts, last, hts, hlast, hbyte, htokens⟩ := p.reads.tokens
  obtain ⟨more, hmore⟩ := htokens (p.behind ++ rest)
  obtain ⟨s', hs', hstop, -, hpos, htr⟩ := h.idle.document halloc p.document hts hlast more
  have hne := List.length_pos_iff.mpr p.reads.ne_nil
  have hgo : (p.bytes ++ (p.behind ++ rest)).length > 0 ∧ s.httpResponse.length = 0 :=
    ⟨by simp; omega, by simp [h.idle.response]⟩
  have hgathered : s'.yajlGenBuf = (texts ++ [p.message]).flatten ++ [] ∧
      s'.kafkaMsgs = ⟨adjacent 0 (texts ++ [p.message]), none⟩ := by
    rw [htr.buf, htr.kafkaMsgs, h.buf, h.kafkaMsgs, adjacent_concat, Nat.zero_add]
    simp [Piece.message]
  rw [List.append_cons, hmore] at hs'
  have hparse : xmlParseEnding env endings (p.bytes ++ (p.behind ++ rest)) s = _ :=
    xmlParseEnding_stopped h.parser hs' hstop
  have hending := hstops last.stop hbyte
  rw [hpos] at hparse
  rw [xmlLoopOver, if_pos hgo, hparse, Option.bind_some]
  dsimp only
  generalize endings [] (p.bytes ++ (p.behind ++ rest)) last.stop = ending at hending
  cases hending with
  | nothing hstatus hrest =>
    rw [if_pos hstatus]
    exact ⟨_, .inl ⟨rfl, hrest, hgathered.1, hgathered.2⟩⟩
  | index hstatus herror hindex =>
    have htrue (s₁ : Parsing) (h₁ : s₁.expatHandler.error = ending.error) :
        trueError ending.status s₁ = false := by
      rw [hstatus, trueError, h₁]
      obtain herror | herror := herror <;> simp [herror]
    have hdrop : (p.bytes ++ (p.behind ++ rest)).drop
        ((p.bytes.length : ℤ) + p.behind.length).toNat = rest := by
      have hsum : ((p.bytes.length : ℤ) + p.behind.length).toNat = (p.bytes ++ p.behind).length := by
        rw [List.length_append]
        omega
      rw [hsum, ← List.append_assoc, List.drop_left]
    rw [if_neg (by simp [hstatus]), htrue _ rfl, if_neg (by simp), hindex, if_neg (by omega),
      if_pos ⟨by omega, by simp only [List.length_append]; omega⟩, hdrop]
    exact ⟨_, .inr ⟨rfl, ⟨hgathered.1, hgathered.2⟩,
      ⟨htr.stackPos, htr.gen_eq, htr.response, rfl⟩, rfl, htr.rc.trans h.rc⟩⟩

theorem fits_cons {maxDepth depth : ℕ} {t : Token} {ts : List Token} (hallowed : Allowed depth t.event)
    (hroot : ¬ EndsRoot depth t.event) :
    fits maxDepth (t :: ts) depth =
      (roomForEvent maxDepth depth t.event && fits maxDepth ts (depthAfter depth t.event)) := by
  cases he : t.event with
  | startElement el attr => simp [fits, he, roomForEvent, depthAfter]
  | endElement el =>
    rw [he] at hallowed hroot
    simp [fits, he, roomForEvent, depthAfter, not_le_one_of_not_endsRoot hallowed hroot]
  | characterData text => simp [fits, he, roomForEvent, depthAfter]

theorem Unended.tail {maxDepth depth : ℕ} {t : Token} {ts : List Token}
    (h : Unended maxDepth (t :: ts) depth) (hallowed : Allowed depth t.event)
    (hroom : roomForEvent maxDepth depth t.event = true) :
    ¬ EndsRoot depth t.event ∧ Unended maxDepth ts (depthAfter depth t.event) := by
  have hroot : ¬ EndsRoot depth t.event := by
    rintro ⟨rfl, el, he⟩
    obtain ⟨depth', hreach⟩ | hfits := h
    · simp [reach, he] at hreach
    · simp [fits, he] at hfits
  refine ⟨hroot, ?_⟩
  rwa [Unended, reach_cons _ hallowed hroot, fits_cons hallowed hroot, hroom, Bool.true_and] at h

structure Left (s₀ : Parsing) (ts : List Token) (depth : ℕ) (s : Parsing) : Prop where
  buf : ∃ text, s.yajlGenBuf = s₀.yajlGenBuf ++ text
  kafkaMsgs : s.kafkaMsgs = s₀.kafkaMsgs
  running : s.expatHandler.stopped = false → ∃ depth', reach ts depth = .opened depth'
  stopped : s.expatHandler.stopped = true → s.httpResponse ≠ []
  short : s.httpResponse.length ≤ 1024

theorem deliver_unended (halloc : ∀ k, env.alloc k) (ts : List Token) {s₀ : Parsing} {depth : ℕ}
    {text : Bytes} (h : Underway s₀ depth text s) (hnested : nested ts depth = true)
    (hunended : Unended env.style.maxDepth ts depth) :
    ∃ s', xmlDeliver env ts s = some s' ∧ Left s₀ ts depth s' := by
  induction ts generalizing depth text s with
  | nil =>
    refine ⟨s, rfl, ⟨text, h.buf⟩, h.kafkaMsgs, fun _ ↦ ⟨depth, rfl⟩, fun hstop ↦ ?_, ?_⟩
    · exact absurd (h.stands.running.symm.trans hstop) (by decide)
    · simp [h.stands.response]
  | cons t ts ih =>
    obtain ⟨hallowed, hnested'⟩ := allowed_of_nested hnested
    have hmoved := h.moved t.start
    cases hroom : roomForEvent env.style.maxDepth depth t.event with
    | true =>
      obtain ⟨hroot, hunended'⟩ := hunended.tail hallowed hroom
      obtain ⟨s₁, text', hs₁, hunderway⟩ := hmoved.step halloc t.event hallowed hroom hroot
      obtain ⟨s', hs', hleft⟩ := ih hunderway hnested' hunended'
      refine ⟨s', ?_, hleft.buf, hleft.kafkaMsgs, ?_, hleft.stopped, hleft.short⟩
      · rw [(deliveries_run 0 _ rfl hs₁ hunderway.stands.running).2, hs']
      · rw [reach_cons _ hallowed hroot]
        exact hleft.running
    | false =>
      obtain ⟨s', text', hs', hshort, hrefusing, -, hbuf, hmsgs⟩ :=
        hmoved.tooDeep halloc t.event hallowed hroom
      refine ⟨_, (deliveries_stopped 0 _ rfl hs' hrefusing.stopped).2, ⟨text', hbuf⟩, hmsgs, fun hrun ↦ ?_,
        fun _ ↦ hrefusing.response, hshort⟩
      exact absurd (hrun.symm.trans hrefusing.stopped) (by decide)

theorem xmlLoopOver_of_response {parse : Bytes → Parsing → Option (XmlStatus × Parsing)} (fuel : ℕ)
    (buffer : Bytes) (h : s.httpResponse ≠ []) : xmlLoopOver env parse fuel buffer s = some s := by
  have hlen : s.httpResponse.length ≠ 0 := by simpa using h
  cases fuel with
  | zero => rfl
  | succ fuel => rw [xmlLoopOver, if_neg fun hboth ↦ hlen hboth.2]

theorem Fresh.underway (h : Fresh texts s) : Underway s 0 [] s := by
  have helements : Elements s.stackBooleanInfo 0 s.yajlGen := by
    rw [h.idle.gen_eq]
    exact .nothing
  refine ⟨⟨h.idle.stackPos, helements, h.idle.response, h.idle.running, h.rc⟩, ?_,
    (List.append_nil _).symm, rfl, fun _ ↦ rfl, fun hpos ↦ absurd hpos (lt_irrefl 0)⟩
  rw [h.parser]
  rfl

theorem Fresh.turn (halloc : ∀ k, env.alloc k) (hexpat : ReportsNesting env.expat)
    (h : Fresh texts s) {rest : Bytes} (hne : rest ≠ []) (hrest : Remainder env endings rest)
    (fuel : ℕ) : ∃ s' extra,
      xmlLoopOver env (xmlParseEnding env endings) (fuel + 1) rest s = some s' ∧
        Gathered texts extra s' := by
  obtain ⟨s', hs', hleft⟩ :=
    deliver_unended halloc _ h.underway (hexpat.nested [] rest) (hrest.unended hne)
  obtain ⟨text, hbuf⟩ := hleft.buf
  have hgathered : s'.yajlGenBuf = texts.flatten ++ text ∧ s'.kafkaMsgs = ⟨adjacent 0 texts, none⟩ := by
    rw [hbuf, hleft.kafkaMsgs, h.buf, h.kafkaMsgs, List.append_nil]
    exact ⟨rfl, rfl⟩
  -- an error of the call is printed behind the one of a handler, at most
  have hanswered (s : Parsing) (hshort : s.httpResponse.length ≤ 1024) :
      (queueXmlError env (ascii "Error parsing XML") .ok s).printed =
        some (queueXmlError env (ascii "Error parsing XML") .ok s) := by
    have htext : (ascii "Error parsing XML").length ≤ 128 := by decide
    have hlength := length_queueXmlError_le env htext .ok s
    exact printed_of_short (by omega)
  rw [xmlLoopOver, if_pos ⟨List.length_pos_iff.mpr hne, by rw [h.idle.response]; rfl⟩]
  cases hstopped : s'.expatHandler.stopped with
  | false =>
    obtain ⟨depth, hreach⟩ := hleft.running hstopped
    have hstatus := hexpat.status [] rest
    rw [xmlParseEnding_running h.parser hs' hstopped, Option.bind_some]
    dsimp only
    by_cases herror : (env.expat.parse [] rest).error = .none
    · rw [if_pos herror] at hstatus
      rw [if_pos hstatus]
      exact ⟨_, text, rfl, hgathered.1, hgathered.2⟩
    · have hjunk : (env.expat.parse [] rest).error ≠ .junkAfterDocElement := by
        intro hjunk
        obtain ⟨byte, hended⟩ := hexpat.junk [] rest hjunk
        cases hreach.symm.trans hended
      rw [if_neg herror] at hstatus
      rw [hstatus, if_neg (by simp), if_pos]
      · exact ⟨_, text, hanswered _ hleft.short, hgathered.1, hgathered.2⟩
      · simp [trueError, hjunk, hexpat.aborted [] rest]
  | true =>
    have hresponse := hleft.stopped hstopped
    have hlen : s'.httpResponse.length ≠ 0 := by simpa using hresponse
    obtain ⟨t, ht, hpos, -⟩ := XmlOffsets.xmlDeliver_stopped hs' h.idle.running hstopped
    rw [xmlParseEnding_stopped h.parser hs' hstopped, Option.bind_some, hpos]
    dsimp only
    by_cases hok : (endings [] rest t.stop).status = .ok
    · rw [if_pos hok]
      exact ⟨_, text, rfl, hgathered.1, hgathered.2⟩
    rw [if_neg hok]
    split
    · exact ⟨_, text, hanswered _ hleft.short, hgathered.1, hgathered.2⟩
    · rw [if_neg fun hboth ↦ hlen hboth.2, if_pos (hrest.within t ht), xmlLoopOver_of_response]
      · exact ⟨_, text, rfl, hgathered.1, hgathered.2⟩
      · exact hresponse

theorem Fresh.remainder (halloc : ∀ k, env.alloc k) (hexpat : ReportsNesting env.expat)
    (h : Fresh texts s) {rest : Bytes} (hrest : Remainder env endings rest) (fuel : ℕ) :
    ∃ s' extra, xmlLoopOver env (xmlParseEnding env endings) fuel rest s = some s' ∧
      Gathered texts extra s' := by
  cases fuel with
  | zero => exact ⟨s, [], rfl, h.toGathered⟩
  | succ fuel =>
    by_cases hne : rest = []
    · rw [xmlLoopOver, hne, if_neg (by simp)]
      exact ⟨s, [], rfl, h.toGathered⟩
    · exact h.turn halloc hexpat hne hrest fuel

theorem Fresh.loop (halloc : ∀ k, env.alloc k) (hexpat : ReportsNesting env.expat)
    (ps : List (Segment env)) (h : Fresh texts s) {rest : Bytes}
    (hstops : StopsAtRoots endings ps rest) (hrest : Remainder env endings rest) (fuel : ℕ)
    (hfuel : ps.length ≤ fuel) :
    ∃ s' extra, xmlLoopOver env (xmlParseEnding env endings) fuel (chunkText ps rest) s = some s' ∧
      Gathered (texts ++ ps.map fun p ↦ p.message) extra s' := by
  induction ps generalizing texts s fuel with
  | nil =>
    rw [List.map_nil, List.append_nil]
    exact h.remainder halloc hexpat hrest fuel
  | cons p ps ih =>
    obtain ⟨fuel, rfl⟩ := Nat.exists_eq_add_of_le' hfuel
    rw [List.length_cons, ← Nat.add_assoc, chunkText, List.map_cons, List.append_cons]
    obtain ⟨s', ⟨hs', hnothing, hgathered⟩ | ⟨hs', hfresh⟩⟩ :=
      h.segment halloc p hstops.1 (fuel + ps.length)
    · have hps : ps = [] := by
        cases ps with
        | nil => rfl
        | cons q ps => exact absurd (List.append_eq_nil_iff.mp hnothing).1 q.reads.ne_nil
      rw [hps] at hs' ⊢
      rw [List.map_nil, List.append_nil]
      exact ⟨s', [], hs', hgathered⟩
    · rw [hs']
      exact ih hfresh hstops.2 _ (Nat.le_add_left _ _)

theorem length_le_chunkText (ps : List (Segment env)) (rest : Bytes) :
    ps.length ≤ (chunkText ps rest).length := by
  induction ps with
  | nil => exact Nat.zero_le _
  | cons p ps ih =>
    have hne := List.length_pos_iff.mpr p.reads.ne_nil
    simp only [chunkText, List.length_append, List.length_cons]
    omega

/-- The documents of a chunk become adjacent slices of its output, from the first byte on; what is
printed of the remainder belongs to none of them. -/
theorem documents_partition_output (env : Env) (endings : Endings) (halloc : ∀ k, env.alloc k)
    (hexpat : ReportsNesting env.expat) {session : ZzSession ZzXmlSession} (h : Between session)
    (hrc : session.parser.rc = .ok) (ps : List (Segment env)) (rest : Bytes)
    (hstops : StopsAtRoots endings ps rest) (hrest : Remainder env endings rest) :
    ∃ processed, processXmlBufferEnding env endings (chunkText ps rest) session = some processed ∧
      Partitions processed.session.kafkaMsgs (ps.map fun p ↦ p.message) := by
  have hready := h.ready env
  have hfresh : Fresh [] (enterXmlChunk env session) :=
    ⟨⟨h.buf, h.kafkaMsgs⟩, hready.idle, hready.parser, hrc⟩
  obtain ⟨s', extra, hs', hgathered⟩ := hfresh.loop halloc hexpat ps hstops hrest _
    (length_le_chunkText ps rest)
  refine ⟨finishXmlChunk session s', ?_, hgathered.partitions session⟩
  rw [processXmlBufferEnding, hs', Option.map_some]

end Documents

def balanced : List Token → ℕ → List Token
  | [], _ => []
  | t :: ts, depth =>
    match t.event with
    | .startElement _ _ => t :: balanced ts (depth + 1)
    | .endElement _ => if 0 < depth then t :: balanced ts (depth - 1) else []
    | .characterData _ => if 0 < depth then t :: balanced ts depth else []

def plainEvents (text : Bytes) : List Token := (Reading.run (.text 0) 0 text).2

/-- Expat on documents without attributes, prolog and references: it reports the events before the
first misplaced tag. -/
def steadyExpat : Library where
  parse fed chunk :=
    let text := fed.flatten ++ chunk
    let error : XmlError := if nested (plainEvents text) 0 then .none else .syntaxError
    ⟨(balanced (plainEvents text) 0).drop (balanced (plainEvents fed.flatten) 0).length,
      if error = .none then .ok else .error, error, ⟨1, text.length, text.length⟩⟩
  errorString _ := []
  errorString_short := noString_short

theorem nested_balanced (ts : List Token) (depth : ℕ) : nested (balanced ts depth) depth = true := by
  induction ts generalizing depth with
  | nil => rfl
  | cons t ts ih =>
    cases he : t.event with
    | startElement el attr => simp [balanced, nested, he, ih]
    | endElement el =>
      by_cases hdepth : 0 < depth
      · simp [balanced, nested, he, hdepth, ih]
      · simp [balanced, nested, he, hdepth]
    | characterData text =>
      by_cases hdepth : 0 < depth
      · simp [balanced, nested, he, hdepth, ih]
      · simp [balanced, nested, he, hdepth]

theorem balanced_prefix (ts us : List Token) (depth : ℕ) :
    balanced ts depth <+: balanced (ts ++ us) depth := by
  induction ts generalizing depth with
  | nil => exact List.nil_prefix
  | cons t ts ih =>
    cases he : t.event with
    | startElement el attr => simp [balanced, he, ih]
    | endElement el =>
      by_cases hdepth : 0 < depth
      · simp [balanced, he, hdepth, ih]
      · simp [balanced, he, hdepth]
    | characterData text =>
      by_cases hdepth : 0 < depth
      · simp [balanced, he, hdepth, ih]
      · simp [balanced, he, hdepth]

theorem balanced_eq {ts : List Token} {depth : ℕ} (h : nested ts depth = true) :
    balanced ts depth = ts := by
  induction ts generalizing depth with
  | nil => rfl
  | cons t ts ih =>
    cases he : t.event with
    | startElement el attr =>
      simp only [nested, he] at h
      simp [balanced, he, ih h]
    | endElement el =>
      simp only [nested, he, Bool.and_eq_true, decide_eq_true_eq] at h
      simp [balanced, he, h.1, ih h.2]
    | characterData text =>
      simp only [nested, he, Bool.and_eq_true, decide_eq_true_eq] at h
      simp [balanced, he, h.1, ih h.2]

theorem balanced_plainEvents_prefix (s t : Bytes) :
    balanced (plainEvents s) 0 <+: balanced (plainEvents (s ++ t)) 0 := by
  rw [plainEvents, plainEvents, Reading.run_append]
  exact balanced_prefix _ _ 0

theorem history_steady (fed : List Bytes) :
    history steadyExpat [] fed = balanced (plainEvents fed.flatten) 0 := by
  induction fed using List.reverseRecOn with
  | nil => rfl
  | append_singleton fed chunk ih =>
    obtain ⟨more, hmore⟩ := balanced_plainEvents_prefix fed.flatten chunk
    rw [history_concat, ih, List.nil_append, List.flatten_concat, ← hmore]
    simp [steadyExpat, ← hmore]

theorem reportsNesting_steady : ReportsNesting steadyExpat := by
  have herror (fed : List Bytes) (chunk : Bytes) : (steadyExpat.parse fed chunk).error = .none ∨
      (steadyExpat.parse fed chunk).error = .syntaxError := by
    simp only [steadyExpat]
    split
    · exact .inl rfl
    · exact .inr rfl
  refine ⟨fun fed chunk ↦ ?_, fun _ _ ↦ rfl, fun fed chunk haborted ↦ ?_, fun fed chunk hjunk ↦ ?_⟩
  · have hall := history_steady (fed ++ [chunk])
    rw [history_concat, List.nil_append] at hall
    rw [hall]
    exact nested_balanced _ 0
  · have h := herror fed chunk
    rw [haborted] at h
    simp at h
  · have h := herror fed chunk
    rw [hjunk] at h
    simp at h

theorem reads_steady {bytes : Bytes} {d : Document 128}
    (hnested : nested (plainEvents bytes) 0 = true)
    (hreads : (plainEvents bytes).map Token.event = d.events)
    (hstop : ((plainEvents bytes).getLast?.map fun t ↦ t.stop.byte) = some (bytes.length : ℤ)) :
    Reads steadyExpat bytes d := by
  obtain ⟨ts, us, hrun, hts, hus⟩ := List.map_eq_append_iff.mp hreads
  obtain ⟨last, rfl, hlast⟩ := List.map_eq_singleton_iff.mp hus
  have hbyte := hstop
  rw [hrun, List.getLast?_concat, Option.map_some, Option.some_inj] at hbyte
  refine ⟨?_, ts, last, hts, hlast, hbyte, fun more ↦ ?_⟩
  · rintro rfl
    simp [plainEvents, Reading.run] at hrun
  · have hprefix := balanced_plainEvents_prefix bytes more
    rw [balanced_eq hnested, hrun] at hprefix
    exact hprefix

def steadyEnv : Env := ⟨steadyExpat, Yajl.yajlStyle, fun _ ↦ true, false⟩

def isBlank (c : UInt8) : Bool := c = 32 ∨ c = 9 ∨ c = 13 ∨ c = 10

/-- Expat behind a root: it goes over white space, which aborts the call, or finds junk. -/
def epilog : Endings := fun fed chunk stop ↦
  let behind := chunk.drop (stop.byte - fed.flatten.length).toNat
  let blank := behind.takeWhile isBlank
  if blank = behind then ⟨.ok, .none, stop⟩
  else if blank = [] then ⟨.error, .junkAfterDocElement, stop⟩
  else ⟨.error, .aborted, { stop with byte := stop.byte + blank.length }⟩

theorem epilog_stopsBehind (p : Segment env) {rest : Bytes}
    (hblank : (p.behind ++ rest).takeWhile isBlank = p.behind) (stop : Position)
    (hstop : stop.byte = p.bytes.length) :
    StopsBehind p rest (epilog [] (p.bytes ++ (p.behind ++ rest)) stop) := by
  have hdrop : (p.bytes ++ (p.behind ++ rest)).drop
      (stop.byte - ([] : List Bytes).flatten.length).toNat = p.behind ++ rest := by
    have hstart : (stop.byte - ([] : List Bytes).flatten.length).toNat = p.bytes.length := by
      rw [hstop, List.flatten_nil, List.length_nil]
      omega
    rw [hstart, List.drop_left]
  simp only [epilog, hdrop, hblank]
  by_cases hrest : rest = []
  · rw [if_pos (by simp [hrest])]
    exact .nothing rfl hrest
  rw [if_neg (by simp [hrest])]
  by_cases hbehind : p.behind = []
  · rw [if_pos hbehind]
    refine .index rfl (.inr rfl) ?_
    rw [hbehind, hstop]
    simp
  · rw [if_neg hbehind]
    refine .index rfl (.inl rfl) ?_
    rw [hstop]

def first : Segment steadyEnv where
  bytes := ascii "<a>x</a>"
  document := ⟨lit "a", [], ⟨[ascii "x"], by decide⟩, .nil, by decide⟩
  reads := reads_steady (by decide) (by decide) (by decide)
  behind := ascii "\n"

def second : Segment steadyEnv where
  bytes := ascii "<b></b>"
  document := ⟨lit "b", [], ⟨[], no_empty_fragment⟩, .nil, by decide⟩
  reads := reads_steady (by decide) (by decide) (by decide)
  behind := []

/-- Two documents, and one that is not finished. -/
theorem two_documents_two_messages :
    ∃ processed, processXmlBufferEnding steadyEnv epilog (ascii "<a>x</a>\n<b></b><c>")
        newZzSessionXml = some processed ∧
      Partitions processed.session.kafkaMsgs
        [ascii "\x7b\"tag\":\"a\",\"text\":\"x\"\x7d", ascii "\x7b\"tag\":\"b\"\x7d"] := by
  have hstops : StopsAtRoots epilog [first, second] (ascii "<c>") := by
    exact ⟨epilog_stopsBehind first (by decide), epilog_stopsBehind second (by decide), trivial⟩
  have hrest : Remainder steadyEnv epilog (ascii "<c>") :=
    ⟨fun _ ↦ .inl ⟨1, rfl⟩, by decide⟩
  obtain ⟨processed, hp, hpartitions⟩ := documents_partition_output steadyEnv epilog (fun _ ↦ rfl)
    reportsNesting_steady between_new rfl [first, second] (ascii "<c>") hstops hrest
  exact ⟨processed, hp, hpartitions⟩

end N2Kafka.Decoder.XmlSlices
