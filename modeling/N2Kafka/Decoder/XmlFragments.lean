import N2Kafka.Decoder.XmlAllocations

namespace N2Kafka.Decoder.XmlFragments

open Lib.CString Lib.JsonGenerator Util.KafkaMessageArray Decoder.DecoderApi Decoder.Expat
open Decoder.ZzDecoder Decoder.ZzParserXml Decoder.XmlDocument Decoder.XmlTranslation
open Decoder.XmlNesting Decoder.XmlAllocations

/-- The sessions in which a handler can be called, with the elements that are open: after any nested
events, chunks and documents, and whatever memory they got. -/
inductive Reachable : ℕ → Parsing → Prop
  | entered (env : Env) : Reachable 0 (enterXmlChunk env newZzSessionXml)
  | moved {depth : ℕ} {s : Parsing} (h : Reachable depth s) (fed : List Bytes) (position : Position) :
      Reachable depth { s with expatHandler := { s.expatHandler with fed, position } }
  | event {depth : ℕ} {s s' : Parsing} (h : Reachable depth s) (env : Env) (e : XmlEvent)
      (hallowed : Allowed depth e) (hs' : xmlHandler env s e = some s')
      (hrun : s'.expatHandler.stopped = false) : Reachable (depthAfter depth e) s'
  | root {s s' : Parsing} (h : Reachable 1 s) (env : Env) (el : CStr)
      (hs' : xmlHandler env s (.endElement el) = some s') (hresponse : s'.httpResponse = []) :
      Reachable 0 (zzResetXmlHandler s')
  | chunk {depth : ℕ} {s : Parsing} (h : Reachable depth s) (env : Env)
      (session : ZzSession ZzXmlSession) : Reachable depth
        (enterXmlChunk env { (finishXmlChunk session s).session with kafkaMsgs := .initializer })

def callbacks (env : Env) : List Bytes → Parsing → Option Parsing
  | [], s => some s
  | f :: fs, s => (zzParseXmlCharacterData env f s).bind (callbacks env fs)

/-- The translator's part of a session: all but the allocations and the thread's own generator. -/
structure View where
  session : ZzXmlSession
  httpResponse : Bytes
  kafkaMsgs : MessageArray

def view (s : Parsing) : View := ⟨s.toZzXmlSession, s.httpResponse, s.kafkaMsgs⟩

/-- The pieces leave the translator as the whole text does. -/
def Invisible (env : Env) (s : Parsing) (fragments : List Bytes) : Prop :=
  (callbacks env fragments s).map view =
    (zzParseXmlCharacterData env fragments.flatten s).map view

theorem Reachable.stands {depth : ℕ} {s : Parsing} (h : Reachable depth s) :
    At depth s ∧ s.expatHandler.error = .none := by
  induction h with
  | entered env => exact ⟨⟨rfl, .nothing, rfl, rfl, rfl⟩, rfl⟩
  | moved h fed position ih =>
    obtain ⟨hat, herror⟩ := ih
    exact ⟨⟨hat.stackPos, hat.elements, hat.response, hat.running, hat.rc⟩, herror⟩
  | @event depth s s' h env e hallowed hs' hrun ih =>
    obtain ⟨hat, herror⟩ := ih
    have hbehind := (handled env hat herror e hallowed).behind s' (xmlHandler0_of_some hs').1
    have hnone : queued env s e = 0 := by
      by_contra hne
      exact absurd (hrun.symm.trans (hbehind.stopped hne)) (by decide)
    cases hbehind.next hnone with
    | inside hroot hat' herror' => exact ⟨hat', herror'⟩
    | ended hroot hended => exact absurd (hrun.symm.trans hended.stopped) (by decide)
  | root h env el hs' hresponse ih =>
    obtain ⟨hat, herror⟩ := ih
    have hbehind := (handled env hat herror (.endElement el) Nat.one_pos).behind _
      (xmlHandler0_of_some hs').1
    have hnone := (answer_eq_nil_iff _ _ _).mp (hbehind.response.symm.trans hresponse)
    cases hbehind.next hnone with
    | inside hroot => exact absurd ⟨rfl, el, rfl⟩ hroot
    | ended hroot hended =>
      have htracks : Tracks env.expat ⟨[], 0⟩ (zzResetXmlHandler _) := tracks_reset hended
      exact ⟨htracks.stands, rfl⟩
  | chunk h env session ih =>
    obtain ⟨hat, herror⟩ := ih
    exact ⟨⟨hat.stackPos, hat.elements, hat.response, hat.running, hat.rc⟩, herror⟩

section Text

variable {env : Env} {depth : ℕ} {s : Parsing}

theorem callbacks_printed (key : Bytes) (fragments : List Bytes) (halloc : ∀ k ≥ s.allocs, env.alloc k)
    (htext : s.textPrinted = true) (hbuf : s.yajlGenBuf ≠ []) :
    ∃ allocs tempYajl, callbacks env fragments s = some { s with
      yajlGenBuf := runBuf env.style key true fragments s.yajlGenBuf
      allocs
      tempYajl } := by
  induction fragments generalizing s with
  | nil => exact ⟨s.allocs, s.tempYajl, rfl⟩
  | cons f fragments ih =>
    have hle : s.allocs ≤ spliceRequest s := by
      rw [spliceRequest]
      split <;> omega
    have hspliced : zzParseXmlCharacterData env f s = some (spliced env f s) := by
      rw [zzParseXmlCharacterData, htext, Bool.not_true, if_neg (by decide), spliceText_eq,
        if_pos (.inr (halloc _ le_rfl)), if_neg hbuf]
    have hsplice : (spliced env f s).yajlGenBuf = splice env.style s.yajlGenBuf f := by
      rw [spliced, halloc _ hle]
      rfl
    obtain ⟨allocs, tempYajl, hrest⟩ := ih (s := spliced env f s)
      (fun k hk ↦ halloc k (hle.trans ((Nat.le_succ _).trans hk))) htext
      (by rw [hsplice]; exact splice_ne_nil _ _)
    refine ⟨allocs, tempYajl, ?_⟩
    rw [callbacks, hspliced, Option.bind_some, hrest, hsplice]
    rfl

theorem callback_first (halloc : ∀ k ≥ s.allocs, env.alloc k) (h : At depth s)
    (herror : s.expatHandler.error = .none) (hdepth : 0 < depth) (htext : s.textPrinted = false)
    (text : Bytes) :
    ∃ allocs ≥ s.allocs, zzParseXmlCharacterData env text s = some (({ s with
      yajlGenBuf := s.yajlGenBuf ++ (ascii "," ++ member
        (env.style.quote (contentKey s.childrenPrinted)) (env.style.quote text))
      allocs } : Parsing).setTextPrinted true) := by
  obtain ⟨printed, opened, fs, a, ls, -, -, -, hin⟩ := h.inside hdepth
  have hgen : ∃ ls', s.yajlGen = ⟨.mapKey, ls'⟩ := by
    rw [hin.gen_eq]
    cases opened with
    | false => exact ⟨ls, rfl⟩
    | true => exact ⟨a :: .mapVal :: ls, rfl⟩
  obtain ⟨ls', hls'⟩ := hgen
  have hgenerate : generate env.style ((handlerOps s (.characterData text)).map (·.1)) s.yajlGen =
      some (ascii "," ++ member (env.style.quote (contentKey s.childrenPrinted))
        (env.style.quote text), s.yajlGen) := by
    rw [handlerOps, htext, if_neg (by decide), keyValue, hls', List.map_cons, List.map_cons,
      generate_string _ _ _ rfl, Level.appended, generate_string _ _ _ rfl, Level.appended]
    simp [generate, Level.sep, member]
  obtain ⟨herr, hsame, hprinted⟩ := chain_of_generate env.style hgenerate
  have hruns := runs_generated env (handlerOps s (.characterData text)) s
  have hfull := genOrGotoErr_chain (granting_alloc env) (handlerOps s (.characterData text)) s
  have hstyle : (granting env).style = env.style := rfl
  rw [hstyle, hprinted, hsame, herr] at hfull
  have hequal : genOrGotoErr env (handlerOps s (.characterData text)) s =
      genOrGotoErr (granting env) (handlerOps s (.characterData text)) s := by
    apply Prod.ext
    · exact (hruns.printed h herror).2.2 (refused_of_granted halloc _)
    · exact hruns.err.trans hruns.full_err.symm
  rw [zzParseXmlCharacterData_eq env htext, hequal, hfull]
  exact ⟨_, Nat.le_add_right _ _, rfl⟩

theorem runBuf_whole (y : Style) (key : Bytes) (f : Bytes) (rest : List Bytes) (buf : Bytes) :
    runBuf y key true (f :: rest) buf = splice y buf (f ++ rest.flatten) := by
  have hf : splice y buf f = (buf.dropLast ++ y.escaped f) ++ ascii "\"" := by simp [splice]
  rw [runBuf, hf, runBuf_printed]
  simp [splice]

theorem runBuf_member (y : Style) (key : Bytes) (f : Bytes) (rest : List Bytes) (buf : Bytes) :
    runBuf y key true rest (buf ++ (ascii "," ++ member (y.quote key) (y.quote f))) =
      buf ++ (ascii "," ++ member (y.quote key) (y.quote (f ++ rest.flatten))) := by
  have hf : buf ++ (ascii "," ++ member (y.quote key) (y.quote f)) =
      (buf ++ (ascii "," ++ member (y.quote key) (ascii "\"" ++ y.escaped f))) ++ ascii "\"" := by
    simp [member, Style.quote]
  rw [hf, runBuf_printed]
  simp [member, Style.quote]

theorem callback_eq (text : Bytes) (s : Parsing) :
    zzParseXmlCharacterData env text s = callbacks env [text] s := by
  rw [callbacks]
  cases zzParseXmlCharacterData env text s <;> rfl

/-- The pieces of a text leave what the whole text leaves, as long as there is memory. -/
theorem fragments_invisible (h : Reachable depth s) (hdepth : 0 < depth)
    (halloc : ∀ k ≥ s.allocs, env.alloc k) (first : Bytes) (rest : List Bytes) :
    Invisible env s (first :: rest) := by
  obtain ⟨hat, herror⟩ := h.stands
  rw [Invisible, List.flatten_cons]
  cases htext : s.textPrinted with
  | true =>
    by_cases hbuf : s.yajlGenBuf = []
    · have hnone (text : Bytes) : zzParseXmlCharacterData env text s = none := by
        rw [zzParseXmlCharacterData, htext, Bool.not_true, if_neg (by decide), spliceText_eq,
          if_pos (.inr (halloc _ le_rfl)), if_pos hbuf]
      rw [callbacks, hnone, hnone]
      rfl
    · obtain ⟨allocs, tempYajl, hpieces⟩ :=
        callbacks_printed [] (first :: rest) halloc htext hbuf
      obtain ⟨allocs', tempYajl', hwhole⟩ :=
        callbacks_printed [] [first ++ rest.flatten] halloc htext hbuf
      rw [callback_eq, hpieces, hwhole, runBuf_whole, runBuf_whole, List.flatten_nil, List.append_nil]
      rfl
  | false =>
    obtain ⟨allocs, hle, hfirst⟩ := callback_first halloc hat herror hdepth htext first
    obtain ⟨allocs', -, hwhole⟩ := callback_first halloc hat herror hdepth htext (first ++ rest.flatten)
    obtain ⟨allocs'', tempYajl, hrest⟩ := callbacks_printed (contentKey s.childrenPrinted) rest
      (s := ({ s with
        yajlGenBuf := s.yajlGenBuf ++ (ascii "," ++ member
          (env.style.quote (contentKey s.childrenPrinted)) (env.style.quote first))
        allocs } : Parsing).setTextPrinted true)
      (fun k hk ↦ halloc k (hle.trans hk)) (Function.update_self ..)
      (List.append_ne_nil_of_right_ne_nil _ (by simp [ascii]))
    have hbuf := runBuf_member env.style (contentKey s.childrenPrinted) first rest s.yajlGenBuf
    rw [callbacks, hfirst, Option.bind_some, hrest, hwhole]
    simp only [Option.map_some, view, Parsing.setTextPrinted, hbuf]

end Text

def insideA : Parsing :=
  zzParseStartXmlElement plainEnv (lit "a") [] (enterXmlChunk plainEnv newZzSessionXml)

theorem reachable_insideA : Reachable 1 insideA := by
  have hrun : insideA.expatHandler.stopped = false := by decide
  exact .event (.entered plainEnv) plainEnv (.startElement (lit "a") []) trivial rfl hrun

theorem two_pieces_invisible : Invisible plainEnv insideA [ascii "x", ascii "y"] :=
  fragments_invisible reachable_insideA Nat.one_pos (fun _ _ ↦ rfl) (ascii "x") [ascii "y"]

/-- All memory but the temporary generator, which the thread has not made yet. -/
def noTempEnv : Env := { plainEnv with alloc := fun k ↦ k ≠ 18 }

/-- The second piece asks for the temporary generator, the whole text does not: an error is queued
for the pieces only. -/
theorem pieces_need_generator : Reachable 1 insideA ∧
    (callbacks noTempEnv [ascii "x", ascii "y"] insideA).map (fun s ↦ decide (s.httpResponse = [])) =
      some false ∧
    (zzParseXmlCharacterData noTempEnv (ascii "xy") insideA).map
      (fun s ↦ decide (s.httpResponse = [])) = some true ∧
    ¬ Invisible noTempEnv insideA [ascii "x", ascii "y"] := by
  have hpieces : (callbacks noTempEnv [ascii "x", ascii "y"] insideA).map
      (fun s ↦ decide (s.httpResponse = [])) = some false := by decide
  have hwhole : (zzParseXmlCharacterData noTempEnv (ascii "xy") insideA).map
      (fun s ↦ decide (s.httpResponse = [])) = some true := by decide
  refine ⟨reachable_insideA, hpieces, hwhole, fun hsame ↦ ?_⟩
  have hresponses := congrArg (Option.map fun v ↦ decide (v.httpResponse = [])) hsame
  rw [Option.map_map, Option.map_map] at hresponses
  cases hpieces.symm.trans (hresponses.trans hwhole)

end N2Kafka.Decoder.XmlFragments
