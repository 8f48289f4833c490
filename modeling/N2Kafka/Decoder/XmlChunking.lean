import N2Kafka.Decoder.XmlTranslation

namespace N2Kafka.Decoder.XmlChunking

open Lib.CString Lib.JsonGenerator Util.KafkaMessageArray Decoder.DecoderApi Decoder.Expat
open Decoder.ZzDecoder Decoder.ZzParserXml Decoder.XmlDocument Decoder.XmlTranslation

/-- The chunks of one request body: the messages of all of them, and the return code of the last. -/
def feed (env : Env) : List Bytes → ZzSession ZzXmlSession →
    Option (List Bytes × DecoderCallbackErr)
  | [], session => some ([], session.parser.rc)
  | c :: cs, session =>
    (processXmlBuffer env c { session with kafkaMsgs := .initializer }).bind fun processed ↦
      (feed env cs processed.session).map fun last ↦
        (processed.session.kafkaMsgs.payloads ++ last.1, last.2)

def Blank (s : Bytes) : Prop := ∀ c ∈ s, c ∈ [32, 9, 10, 13]

/-- White space outside of any element is no event. -/
def SkipsBlank (expat : Library) : Prop :=
  ∀ fed chunk, (∀ w ∈ fed, Blank w) → Blank chunk →
    (expat.parse fed chunk).tokens = [] ∧ (expat.parse fed chunk).status = .ok ∧
      (expat.parse fed chunk).error = .none

structure Waiting (parser : XmlParser) : Prop where
  stopped : parser.stopped = false
  error : parser.error = .none
  fed : ∀ w ∈ parser.fed, Blank w

theorem waiting_fresh : Waiting .fresh := ⟨rfl, rfl, by simp [XmlParser.fresh]⟩

variable {env : Env}

theorem xmlLoop_blank (hskip : SkipsBlank env.expat) (fuel : ℕ) {rest : Bytes} (hrest : Blank rest)
    {s : Parsing} (hresponse : s.httpResponse = []) (hs : Waiting s.expatHandler) :
    ∃ parser, xmlLoop env (fuel + rest.length) rest s = some { s with expatHandler := parser } ∧
      Waiting parser := by
  cases rest with
  | nil => exact ⟨s.expatHandler, xmlLoop_nil .., hs⟩
  | cons c rest =>
    obtain ⟨htokens, hstatus, herror⟩ := hskip s.expatHandler.fed (c :: rest) hs.fed hrest
    refine ⟨⟨s.expatHandler.fed ++ [c :: rest], (env.expat.parse s.expatHandler.fed (c :: rest)).error,
      (env.expat.parse s.expatHandler.fed (c :: rest)).position, false⟩, ?_, rfl, herror, ?_⟩
    · have hparse : xmlParse env (c :: rest) s = some (.ok, { s with
          expatHandler := ⟨s.expatHandler.fed ++ [c :: rest],
            (env.expat.parse s.expatHandler.fed (c :: rest)).error,
            (env.expat.parse s.expatHandler.fed (c :: rest)).position, false⟩ }) := by
        simp [xmlParse, hs.stopped, hs.error, htokens, hstatus, xmlDeliver]
      rw [List.length_cons, ← Nat.add_assoc, xmlLoop,
        if_pos ⟨by simp, by simp [hresponse]⟩, hparse, Option.bind_some]
      rfl
    · intro w hw
      obtain hw | hw := List.mem_append.mp hw
      · exact hs.fed w hw
      · rw [List.mem_singleton.mp hw]
        exact hrest

structure Ended (session : ZzSession ZzXmlSession) : Prop where
  response : session.httpResponse = []
  waiting : Waiting session.parser.expatHandler

theorem processXmlBuffer_last (halloc : ∀ k, env.alloc k) (hskip : SkipsBlank env.expat)
    {session : ZzSession ZzXmlSession} (h : Between session) (ps : List (Piece env)) {rest : Bytes}
    (hrest : Blank rest) :
    ∃ processed, processXmlBuffer env (ps.flatMap Piece.bytes ++ rest) session = some processed ∧
      processed.session.kafkaMsgs.payloads = ps.map Piece.message ∧
      processed.session.parser.rc = session.parser.rc ∧ Ended processed.session := by
  obtain ⟨fuel, s, hs, hready⟩ := h.loop halloc ps rest
  have hfresh : Waiting s.expatHandler := by
    rw [hready.parser]
    exact waiting_fresh
  obtain ⟨parser, hloop, hwaiting⟩ := xmlLoop_blank hskip fuel hrest hready.idle.response hfresh
  refine ⟨finishXmlChunk session { s with expatHandler := parser }, ?_, ?_, hready.rc_eq,
    ⟨hready.idle.response, hwaiting⟩⟩
  · rw [processXmlBuffer, hs, hloop, Option.map_some]
  · exact finishXmlChunk_payloads session ⟨hready.slices.eq, hready.slices.inside⟩

theorem feed_blank (hskip : SkipsBlank env.expat) (chunks : List Bytes)
    (hblank : ∀ c ∈ chunks, Blank c) {session : ZzSession ZzXmlSession} (h : Ended session) :
    feed env chunks session = some ([], session.parser.rc) := by
  induction chunks generalizing session with
  | nil => rfl
  | cons c cs ih =>
    obtain ⟨parser, hloop, hwaiting⟩ := xmlLoop_blank hskip 0 (hblank c (.head _))
      (s := enterXmlChunk env { session with kafkaMsgs := .initializer }) h.response h.waiting
    rw [Nat.zero_add] at hloop
    have hended : Ended (finishXmlChunk { session with kafkaMsgs := .initializer }
        { enterXmlChunk env { session with kafkaMsgs := .initializer } with
          expatHandler := parser }).session := ⟨h.response, hwaiting⟩
    rw [feed, processXmlBuffer, hloop, Option.map_some, Option.bind_some,
      ih (fun c' hc' ↦ hblank c' (.tail _ hc')) hended]
    rfl

/-- Every cut of the body lies just behind a document, or behind the last one. -/
def CutsBetween (ps : List (Piece env)) (chunks : List Bytes) : Prop :=
  ∀ front back, chunks = front ++ back →
    (∃ qs, qs <+: ps ∧ front.flatten = qs.flatMap Piece.bytes) ∨
      ps.flatMap Piece.bytes <+: front.flatten

theorem Piece.flatMap_eq_nil {ps : List (Piece env)} (h : ps.flatMap Piece.bytes = []) : ps = [] := by
  cases ps with
  | nil => rfl
  | cons p ps =>
    rw [List.flatMap_cons] at h
    exact absurd (List.append_eq_nil_iff.mp h).1 p.reads.ne_nil

theorem CutsBetween.tail {qs ps : List (Piece env)} {chunks : List Bytes}
    (h : CutsBetween (qs ++ ps) (qs.flatMap Piece.bytes :: chunks)) : CutsBetween ps chunks := by
  intro front back heq
  obtain ⟨rs, hrs, hflat⟩ | hpre := h (qs.flatMap Piece.bytes :: front) back (by rw [heq]; rfl)
  · rw [List.flatten_cons] at hflat
    left
    obtain ⟨ts, rfl⟩ | ⟨ts, rfl⟩ := List.prefix_or_prefix_of_prefix hrs (List.prefix_append qs ps)
    · rw [List.flatMap_append, List.append_assoc] at hflat
      have hnil := List.append_eq_nil_iff.mp (List.append_right_eq_self.mp hflat)
      exact ⟨[], List.nil_prefix, by simpa using hnil.2⟩
    · rw [List.flatMap_append, List.append_cancel_left_eq] at hflat
      exact ⟨ts, (List.prefix_append_right_inj qs).mp hrs, hflat⟩
  · right
    rw [List.flatMap_append, List.flatten_cons] at hpre
    exact (List.prefix_append_right_inj _).mp hpre

theorem feed_documents (halloc : ∀ k, env.alloc k) (hskip : SkipsBlank env.expat) {blank : Bytes}
    (hblank : Blank blank) (chunks : List Bytes) {ps : List (Piece env)}
    (hbody : chunks.flatten = ps.flatMap Piece.bytes ++ blank) (hcuts : CutsBetween ps chunks)
    (session : ZzSession ZzXmlSession) (h : Between { session with kafkaMsgs := .initializer }) :
    feed env chunks session = some (ps.map Piece.message, session.parser.rc) := by
  induction chunks generalizing ps session with
  | nil =>
    have hnil := (List.append_eq_nil_iff.mp hbody.symm).1
    rw [Piece.flatMap_eq_nil hnil]
    rfl
  | cons c cs ih =>
    rw [List.flatten_cons] at hbody
    obtain ⟨qs, ⟨rs, rfl⟩, hc⟩ | ⟨w, hw⟩ := hcuts [c] cs rfl
    · obtain rfl : c = qs.flatMap Piece.bytes := by simpa using hc
      rw [List.flatMap_append, List.append_assoc, List.append_cancel_left_eq] at hbody
      obtain ⟨processed, hp, hpayloads, -, hrc, hbetween⟩ := processXmlBuffer_pieces halloc h qs
      rw [feed, hp, Option.bind_some, ih hbody hcuts.tail _ hbetween, hpayloads, hrc]
      simp
    · rw [List.flatten_singleton] at hw
      rw [← hw, List.append_assoc, List.append_cancel_left_eq] at hbody
      have hsub : ∀ b, b ∈ w ∨ b ∈ cs.flatten → b ∈ [32, 9, 10, 13] := by
        intro b hb
        refine hblank b ?_
        rw [← hbody]
        exact List.mem_append.mpr hb
      have hrest : Blank w := fun b hb ↦ hsub b (.inl hb)
      obtain ⟨processed, hp, hpayloads, hrc, hended⟩ :=
        processXmlBuffer_last halloc hskip h ps hrest
      rw [feed, ← hw, hp, Option.bind_some, feed_blank hskip cs
        (fun c' hc' b hb ↦ hsub b (.inr (List.mem_flatten.mpr ⟨c', hc', hb⟩))) hended, hpayloads, hrc]
      simp

/-- Cut between its documents only, a body is decoded as if it came in one chunk. -/
theorem feed_eq_feed_whole (env : Env) (halloc : ∀ k, env.alloc k) (hskip : SkipsBlank env.expat)
    (ps : List (Piece env)) (blank : Bytes) (hblank : Blank blank) (chunks : List Bytes)
    (hbody : chunks.flatten = ps.flatMap Piece.bytes ++ blank) (hcuts : CutsBetween ps chunks) :
    feed env chunks newZzSessionXml = feed env [chunks.flatten] newZzSessionXml ∧
      feed env chunks newZzSessionXml = some (ps.map Piece.message, .ok) := by
  have hwhole : CutsBetween ps [chunks.flatten] := by
    intro front back heq
    cases front with
    | nil => exact .inl ⟨[], List.nil_prefix, rfl⟩
    | cons c front =>
      obtain ⟨rfl, htail⟩ := List.cons.inj heq
      right
      rw [List.flatten_cons, hbody, List.append_assoc]
      exact List.prefix_append ..
  rw [feed_documents halloc hskip hblank chunks hbody hcuts newZzSessionXml between_new,
    feed_documents halloc hskip hblank [chunks.flatten] (by simpa using hbody) hwhole
      newZzSessionXml between_new]
  exact ⟨rfl, rfl⟩

theorem run_blank {s : Bytes} (h : Blank s) (i : ℕ) :
    Reading.run (.text 0) i s = (.text 0, []) := by
  induction s generalizing i with
  | nil => rfl
  | cons c s ih =>
    have hc : c ≠ 60 := by
      rintro rfl
      exact absurd (h 60 (.head _)) (by decide)
    have hnext : (Reading.text 0).next c = (.text 0, []) := by simp [Reading.next, hc]
    rw [Reading.run, hnext, ih (fun b hb ↦ h b (.tail _ hb))]
    rfl

theorem skipsBlank_plain : SkipsBlank plainExpat := by
  intro fed chunk hfed hchunk
  have hflat : Blank fed.flatten := by
    intro c hc
    obtain ⟨w, hw, hcw⟩ := List.mem_flatten.mp hc
    exact hfed w hw c hcw
  simp [plainExpat, run_blank hflat, run_blank hchunk]

def emptyElement (name : String) : Document 128 :=
  ⟨lit name, [], ⟨[], no_empty_fragment⟩, .nil, by decide⟩

def pieceA : Piece plainEnv := ⟨ascii "<a></a>", emptyElement "a", reads_plain (by decide) (by decide)⟩

def pieceB : Piece plainEnv :=
  ⟨ascii "   <b></b>", emptyElement "b", reads_plain (by decide) (by decide)⟩

theorem cutsBetween_two :
    CutsBetween [pieceA, pieceB] [ascii "<a></a>", ascii "   <b></b>\n"] := by
  intro front back heq
  match front, heq with
  | [], _ => exact .inl ⟨[], List.nil_prefix, rfl⟩
  | [c], heq =>
    obtain ⟨rfl, -⟩ := List.cons.inj heq
    exact .inl ⟨[pieceA], ⟨[pieceB], rfl⟩, rfl⟩
  | c :: c' :: front, heq =>
    obtain ⟨rfl, htail⟩ := List.cons.inj heq
    obtain ⟨rfl, -⟩ := List.cons.inj htail
    exact .inr ⟨ascii "\n" ++ front.flatten, rfl⟩

theorem feed_cut_between :
    feed plainEnv [ascii "<a></a>", ascii "   <b></b>\n"] newZzSessionXml =
        feed plainEnv [[ascii "<a></a>", ascii "   <b></b>\n"].flatten] newZzSessionXml ∧
      feed plainEnv [ascii "<a></a>", ascii "   <b></b>\n"] newZzSessionXml =
        some ([pieceA, pieceB].map Piece.message, .ok) :=
  feed_eq_feed_whole plainEnv (fun _ ↦ rfl) skipsBlank_plain [pieceA, pieceB] (ascii "\n")
    (by simp [Blank, ascii]) [ascii "<a></a>", ascii "   <b></b>\n"] (by decide) cutsBetween_two

/-- A cut inside an element loses what was printed before it. -/
theorem feed_cut_inside :
    [ascii "<a>", ascii "</a>   <b></b>"].flatten = [pieceA, pieceB].flatMap Piece.bytes ∧
      feed plainEnv [ascii "<a>", ascii "</a>   <b></b>"] newZzSessionXml =
        some ([ascii "\x7d", ascii "\x7b\"tag\":\"b\"\x7d"], .ok) ∧
      feed plainEnv [ascii "<a>", ascii "</a>   <b></b>"] newZzSessionXml ≠
        feed plainEnv [[ascii "<a>", ascii "</a>   <b></b>"].flatten] newZzSessionXml := by
  decide

end N2Kafka.Decoder.XmlChunking
