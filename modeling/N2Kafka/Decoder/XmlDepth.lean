import N2Kafka.Decoder.XmlErrors
import N2Kafka.Decoder.XmlFragments

namespace N2Kafka.Decoder.XmlDepth

open Lib.CString Lib.JsonGenerator Util.KafkaMessageArray Decoder.DecoderApi Decoder.Expat
open Decoder.ZzDecoder Decoder.ZzParserXml Decoder.XmlDocument Decoder.XmlTranslation
open Decoder.XmlNesting Decoder.XmlAllocations Decoder.XmlErrors Decoder.XmlFragments

def statuses (y : Style) : List Op → Gen → List Status
  | [], _ => []
  | op :: ops, g => (emit y g op).status ::
      if (emit y g op).status = .ok then statuses y ops (emit y g op).gen else []

/-- What the calls of `yajl_gen` in a handler return, those of the temporary generator included. -/
def generatorStatuses (y : Style) (s : Parsing) (e : XmlEvent) : List Status :=
  statuses y ((handlerOps s e).map (·.1)) s.yajlGen ++
    match e with
    | .characterData text => if s.textPrinted then statuses y [.string text] .initial else []
    | _ => []

/-- The bits of `stack_boolean_info` a handler may look at or change. -/
def bitPositions (s : Parsing) : XmlEvent → List ℕ
  | .startElement _ _ => [childrenPrintedBitFromFrame s.stackPos,
      textPrintedBitFromFrame (s.stackPos + 1), childrenPrintedBitFromFrame (s.stackPos + 1)]
  | .endElement _ => [childrenPrintedBitFromFrame s.stackPos]
  | .characterData _ => [textPrintedBitFromFrame s.stackPos, childrenPrintedBitFromFrame s.stackPos]

/-- The elements of a document, each with its nesting depth, that of the root being 1. -/
def elements : List Token → ℕ → List (ℕ × List (CStr × CStr))
  | [], _ => []
  | t :: ts, depth =>
    match t.event with
    | .startElement _ attr => (depth + 1, attr) :: elements ts (depth + 1)
    | .endElement _ => elements ts (depth - 1)
    | .characterData _ => elements ts depth

/-- An element at this depth, with these attributes, needs a level the generator does not have. -/
def Deep (maxDepth : ℕ) (x : ℕ × List (CStr × CStr)) : Prop :=
  maxDepth ≤ 2 * x.1 - 1 + (if x.2 = [] then 0 else 1)

instance (maxDepth : ℕ) (x : ℕ × List (CStr × CStr)) : Decidable (Deep maxDepth x) :=
  inferInstanceAs (Decidable (_ ≤ _))

def TooDeep (maxDepth : ℕ) (ts : List Token) (depth : ℕ) : Prop :=
  ∃ x ∈ elements ts depth, Deep maxDepth x

instance (maxDepth : ℕ) (ts : List Token) (depth : ℕ) : Decidable (TooDeep maxDepth ts depth) :=
  inferInstanceAs (Decidable (∃ x ∈ elements ts depth, Deep maxDepth x))

/-- The events of one document: they are nested, and the last one ends the root. -/
structure IsDocument (ts : List Token) : Prop where
  nested : nested ts 0 = true
  ended : ∃ us last el, ts = us ++ [last] ∧ last.event = .endElement el ∧ reach us 0 = .opened 1

def Proper (status : Status) : Prop := status = .ok ∨ status = .maxDepthExceeded

section Statuses

variable {y : Style}

theorem statuses_of_generate {ops : List Op} {g gen : Gen} {text : Bytes}
    (h : generate y ops g = some (text, gen)) (ops' : List Op) :
    (∀ status ∈ statuses y ops g, status = .ok) ∧
      statuses y (ops ++ ops') g = statuses y ops g ++ statuses y ops' gen := by
  induction ops generalizing g text with
  | nil =>
    obtain ⟨-, rfl⟩ := Prod.mk.inj (Option.some.inj h)
    exact ⟨by simp [statuses], rfl⟩
  | cons op ops ih =>
    rw [generate] at h
    split at h
    · rename_i hok
      obtain ⟨⟨text', gen'⟩, hrest, heq⟩ := Option.map_eq_some_iff.mp h
      obtain ⟨-, rfl⟩ := Prod.mk.inj heq
      obtain ⟨hall, happend⟩ := ih hrest
      rw [List.cons_append, statuses, statuses, if_pos hok, if_pos hok, happend]
      exact ⟨List.forall_mem_cons.mpr ⟨hok, hall⟩, rfl⟩
    · cases h

theorem statuses_err {ops : List (Op × Bytes)} {g : Gen} {err : Bytes × Status}
    (h : (chain y ops g).err = some err) : err.2 ∈ statuses y (ops.map (·.1)) g := by
  induction ops generalizing g with
  | nil => cases h
  | cons op ops ih =>
    rw [chain] at h
    rw [List.map_cons, statuses]
    split at h
    · rename_i hok
      rw [if_pos hok]
      exact .tail _ (ih h)
    · obtain rfl := Option.some.inj h
      exact .head _

theorem statuses_ok {ops : List (Op × Bytes)} {g : Gen} (h : (chain y ops g).err = none) :
    ∀ status ∈ statuses y (ops.map (·.1)) g, status = .ok := by
  cases hgenerate : generate y (ops.map (·.1)) g with
  | none =>
    obtain ⟨err, herr, -⟩ := chain_of_generate_none y hgenerate
    cases h.symm.trans herr
  | some last => exact (statuses_of_generate hgenerate []).1

theorem proper_of_generate {ops ops' : List Op} {g gen : Gen} {text : Bytes}
    (h : generate y ops g = some (text, gen))
    (hrest : ∀ status ∈ statuses y ops' gen, Proper status) :
    ∀ status ∈ statuses y (ops ++ ops') g, Proper status := by
  obtain ⟨hok, happend⟩ := statuses_of_generate h ops'
  rw [happend]
  intro status hmem
  obtain hmem | hmem := List.mem_append.mp hmem
  · exact .inl (hok status hmem)
  · exact hrest status hmem

theorem proper_tooDeep {op : Op} {inside : Level} {bracket : Bytes} (ops : List Op) {l : Level}
    (hl : l.Free) (ls : List Level) (hdeep : y.maxDepth ≤ ls.length + 1)
    (hop : emit y ⟨l, ls⟩ op = emitOpen y inside bracket ⟨l, ls⟩) :
    ∀ status ∈ statuses y (op :: ops) ⟨l, ls⟩, Proper status := by
  have hstatus := emitOpen_tooDeep y inside bracket hl ls hdeep
  rw [← hop] at hstatus
  simp [statuses, hstatus, Proper]

theorem proper_element (el : CStr) (attr : List (CStr × CStr)) {l : Level} (hl : l.Free)
    (ls : List Level) :
    ∀ status ∈ statuses y ((elementOps el attr).map (·.1)) ⟨l, ls⟩, Proper status := by
  by_cases hfits : ls.length + 1 + (if attr = [] then 0 else 1) < y.maxDepth
  · have hok := (statuses_of_generate (generate_element y el attr hl ls hfits) []).1
    exact fun status hmem ↦ .inl (hok status hmem)
  by_cases hmap : y.maxDepth ≤ ls.length + 1
  · exact proper_tooDeep _ hl ls hmap rfl
  have hattr : attr ≠ [] := by
    rintro rfl
    simp at hfits
    omega
  obtain ⟨more, hops⟩ : ∃ more, (elementOps el attr).map (·.1) = [.mapOpen, .string (ascii "tag"),
      .string el.1, .string (ascii "attributes")] ++ .mapOpen :: more := by
    rw [elementOps, attributesOps, if_neg hattr]
    exact ⟨_, rfl⟩
  rw [if_neg hattr] at hfits
  have hhead : ∃ text, generate y [.mapOpen, .string (ascii "tag"), .string el.1,
      .string (ascii "attributes")] ⟨l, ls⟩ = some (text, ⟨.mapVal, l :: ls⟩) := by
    rw [generate_mapOpen y _ hl ls (by omega), generate_string y _ _ rfl, Level.appended,
      generate_string y _ _ rfl, Level.appended, generate_string y _ _ rfl, Level.appended]
    exact ⟨_, rfl⟩
  obtain ⟨text, hhead⟩ := hhead
  rw [hops]
  apply proper_of_generate hhead
  exact proper_tooDeep _ ⟨rfl, by simp, by simp⟩ _ (by simpa using hfits) rfl

end Statuses

section Events

variable {env : Env} {depth : ℕ} {s : Parsing}

theorem proper_start (y : Style) (h : At depth s) (el : CStr) (attr : List (CStr × CStr)) :
    ∀ status ∈ statuses y ((handlerOps s (.startElement el attr)).map (·.1)) s.yajlGen,
      Proper status := by
  rw [handlerOps, List.map_append]
  obtain rfl | hdepth := Nat.eq_zero_or_pos depth
  · rw [openOps, if_pos h.stackPos, h.idle.gen_eq]
    exact proper_element el attr ⟨rfl, by simp, by simp⟩ []
  obtain ⟨text, opened, fs, a, ls, -, ha, -, hin⟩ := h.inside hdepth
  rw [openOps, if_neg (by rw [h.stackPos]; omega), hin.childrenPrinted, hin.gen_eq]
  cases opened with
  | true =>
    have hgen : generate y (closeSiblingOps.map (·.1)) ⟨.mapKey, a :: .mapVal :: ls⟩ =
        some (ascii "\x7d", ⟨.inArray, .mapVal :: ls⟩) := by
      rw [closeSiblingOps, List.map_cons, generate_mapClose _ _ rfl, ha.appended]
      simp [generate]
    exact proper_of_generate hgen (proper_element el attr ⟨rfl, by simp, by simp⟩ _)
  | false =>
    have hkey : ∃ text, generate y [.string (ascii "children")] ⟨.mapKey, ls⟩ =
        some (text, ⟨.mapVal, ls⟩) := by
      rw [generate_string _ _ _ rfl, Level.appended]
      exact ⟨_, rfl⟩
    obtain ⟨text, hkey⟩ := hkey
    have hfree : Level.mapVal.Free := ⟨rfl, by simp, by simp⟩
    change ∀ status ∈ statuses y ([.string (ascii "children")] ++
      ([.arrayOpen] ++ (elementOps el attr).map (·.1))) ⟨.mapKey, ls⟩, Proper status
    by_cases hdeep : y.maxDepth ≤ ls.length + 1
    · exact proper_of_generate hkey (proper_tooDeep _ hfree ls hdeep rfl)
    · have harray : ∃ text, generate y [.arrayOpen] ⟨.mapVal, ls⟩ =
          some (text, ⟨.arrayStart, .mapVal :: ls⟩) := by
        rw [generate_arrayOpen y _ hfree ls (by omega)]
        exact ⟨_, rfl⟩
      obtain ⟨text, harray⟩ := harray
      apply proper_of_generate hkey
      exact proper_of_generate harray (proper_element el attr ⟨rfl, by simp, by simp⟩ _)

theorem generatorStatuses_spec (env : Env) (h : At depth s) (e : XmlEvent)
    (hallowed : Allowed depth e) :
    (∀ status ∈ generatorStatuses env.style s e, Proper status) ∧
      (.maxDepthExceeded ∈ generatorStatuses env.style s e ↔
        roomForEvent env.style.maxDepth depth e = false) := by
  have hroom := chain_err_none_iff env h e hallowed
  have htemp (text : Bytes) : statuses env.style [.string text] .initial = [.ok] := rfl
  cases herr : (chain env.style (handlerOps s e) s.yajlGen).err with
  | none =>
    have hok : ∀ status ∈ generatorStatuses env.style s e, status = .ok := by
      intro status hmem
      obtain hmem | hmem := List.mem_append.mp hmem
      · exact statuses_ok herr status hmem
      · cases e with
        | startElement el attr => cases hmem
        | endElement el => cases hmem
        | characterData text =>
          dsimp only at hmem
          split at hmem
          · rw [htemp] at hmem
            exact List.mem_singleton.mp hmem
          · cases hmem
    refine ⟨fun status hmem ↦ .inl (hok status hmem), iff_of_false ?_ ?_⟩
    · intro hmem
      cases hok _ hmem
    · simp [hroom.mp herr]
  | some err =>
    have hdeep : roomForEvent env.style.maxDepth depth e = false := by
      rw [herr] at hroom
      simpa using hroom
    cases e with
    | endElement el => cases hdeep
    | characterData text => cases hdeep
    | startElement el attr =>
      have hproper := proper_start env.style h el attr
      have hsame : generatorStatuses env.style s (.startElement el attr) = statuses env.style
          ((handlerOps s (.startElement el attr)).map (·.1)) s.yajlGen := List.append_nil _
      rw [hsame]
      refine ⟨hproper, iff_of_true ?_ hdeep⟩
      have hmem := statuses_err herr
      obtain hok | hexceeded := hproper _ hmem
      · exact absurd hok (chain_err_ne herr)
      · rwa [hexceeded] at hmem

end Events

/-- The session inside a document that has begun at `s₀` and has printed `text` so far. -/
structure Underway (s₀ : Parsing) (depth : ℕ) (text : Bytes) (s : Parsing) : Prop where
  stands : At depth s
  error : s.expatHandler.error = .none
  buf : s.yajlGenBuf = s₀.yajlGenBuf ++ text
  kafkaMsgs : s.kafkaMsgs = s₀.kafkaMsgs
  outside : depth = 0 → text = []
  inside : 0 < depth → text ≠ [] ∧ s.lastOpenMap = some s₀.yajlGenBuf.length

section Document

variable {env : Env} {depth : ℕ} {s₀ s : Parsing} {text : Bytes}

theorem granting_eq (halloc : ∀ k, env.alloc k) : granting env = env := by
  have hall : env.alloc = fun _ ↦ true := funext halloc
  rw [granting, ← hall]

theorem Underway.moved (h : Underway s₀ depth text s) (position : Position) :
    Underway s₀ depth text
      { s with expatHandler := { s.expatHandler with position := position } } :=
  ⟨h.stands.moved position, h.error, h.buf, h.kafkaMsgs, h.outside, h.inside⟩

theorem next_of_room (halloc : ∀ k, env.alloc k) (h : Underway s₀ depth text s) {e : XmlEvent}
    (hallowed : Allowed depth e) (hroom : roomForEvent env.style.maxDepth depth e = true)
    {s' : Parsing} (hs' : xmlHandler0 env s e = some s') : Next depth e s' :=
  ((handled env h.stands h.error e hallowed).behind s' hs').next
    (queued_of_granted halloc h.stands e hallowed hroom)

structure Printed (s₀ : Parsing) (text : Bytes) (s : Parsing) : Prop where
  buf : s.yajlGenBuf = s₀.yajlGenBuf ++ text
  text_ne : text ≠ []
  kafkaMsgs : s.kafkaMsgs = s₀.kafkaMsgs
  lastOpenMap : s.lastOpenMap = some s₀.yajlGenBuf.length

theorem Underway.appended (h : Underway s₀ depth text s) (hdepth : 0 < depth) {extra : Bytes}
    {fs : List (Bool × Bool)} {gen : Gen} {s' : Parsing}
    (hin : Within s (s.yajlGenBuf ++ extra) fs gen s') : Printed s₀ (text ++ extra) s' := by
  obtain ⟨hne, hlast⟩ := h.inside hdepth
  refine ⟨?_, List.append_ne_nil_of_left_ne_nil hne extra, hin.kept.kafkaMsgs.trans h.kafkaMsgs,
    hin.kept.lastOpenMap.trans hlast⟩
  rw [hin.buf_eq, h.buf, List.append_assoc]

theorem Underway.printed (halloc : ∀ k, env.alloc k) (h : Underway s₀ depth text s) (e : XmlEvent)
    (hallowed : Allowed depth e) (hroom : roomForEvent env.style.maxDepth depth e = true)
    (hroot : ¬ EndsRoot depth e) :
    ∃ s' text', xmlHandler0 env s e = some s' ∧ Printed s₀ text' s' := by
  cases e with
  | startElement el attr =>
    rw [roomForEvent, roomFor, decide_eq_true_eq] at hroom
    obtain rfl | hdepth := Nat.eq_zero_or_pos depth
    · have hin := h.stands.idle.start halloc el attr (by omega)
      have hbuf := h.buf
      rw [h.outside rfl, List.append_nil] at hbuf
      refine ⟨_, headText env.style el attr, rfl, ?_, headText_ne_nil el attr,
        hin.kept.kafkaMsgs.trans h.kafkaMsgs, ?_⟩
      · rw [hin.buf_eq, hbuf]
      · rw [hin.kept.lastOpenMap, hbuf]
    · obtain ⟨printed, opened, fs, a, ls, rfl, ha, hstacked, hin⟩ := h.stands.inside hdepth
      have hlen := hstacked.length_eq
      rw [List.length_cons] at hlen
      obtain ⟨a', -, hin'⟩ := hin.start halloc ha el attr (by omega)
      exact ⟨_, _, rfl, h.appended hdepth hin'⟩
  | endElement el =>
    obtain ⟨printed, opened, fs, a, ls, rfl, ha, hstacked, hin⟩ := h.stands.inside hallowed
    cases hstacked with
    | root => exact absurd ⟨rfl, el, rfl⟩ hroot
    | child _ ha' hstacked =>
      obtain ⟨s₁, hs₁, hin₁⟩ := hin.finish halloc ha
      exact ⟨s₁, _, hs₁, h.appended hallowed hin₁⟩
  | characterData data =>
    obtain ⟨printed, opened, fs, a, ls, rfl, ha, hstacked, hin⟩ := h.stands.inside hallowed
    cases printed with
    | false =>
      obtain ⟨ls', hls'⟩ : ∃ ls', contentGen opened a ls = ⟨.mapKey, ls'⟩ := by
        cases opened with
        | false => exact ⟨ls, rfl⟩
        | true => exact ⟨a :: .mapVal :: ls, rfl⟩
      rw [hls'] at hin
      obtain ⟨s₁, hs₁, hin₁⟩ := hin.firstText halloc data
      exact ⟨s₁, _, hs₁, h.appended hallowed hin₁⟩
    | true =>
      obtain ⟨hne, hlast⟩ := h.inside hallowed
      obtain ⟨s₁, hs₁, hin₁⟩ := hin.moreText halloc data (by simp [h.buf, hne])
      refine ⟨s₁, splice env.style text data, hs₁, ?_, splice_ne_nil _ _,
        hin₁.kept.kafkaMsgs.trans h.kafkaMsgs, hin₁.kept.lastOpenMap.trans hlast⟩
      rw [hin₁.buf_eq, h.buf, splice_append _ hne]

theorem Underway.step (halloc : ∀ k, env.alloc k) (h : Underway s₀ depth text s) (e : XmlEvent)
    (hallowed : Allowed depth e) (hroom : roomForEvent env.style.maxDepth depth e = true)
    (hroot : ¬ EndsRoot depth e) :
    ∃ s' text', xmlHandler env s e = some s' ∧
      Underway s₀ (depthAfter depth e) text' s' := by
  obtain ⟨s', text', hs', hprinted⟩ := h.printed halloc e hallowed hroom hroot
  cases next_of_room halloc h hallowed hroom hs' with
  | ended hroot' => exact absurd hroot' hroot
  | inside _ hat herror =>
    refine ⟨s', text', xmlHandler_of_quiet hs' hat.response, hat, herror, hprinted.buf,
      hprinted.kafkaMsgs, ?_, fun _ ↦ ⟨hprinted.text_ne, hprinted.lastOpenMap⟩⟩
    intro hzero
    cases e with
    | startElement el attr => cases hzero
    | endElement el =>
      have hdepth : 0 < depth := hallowed
      exact absurd ⟨by rw [depthAfter] at hzero; omega, el, rfl⟩ hroot
    | characterData data => exact absurd hzero (Nat.pos_iff_ne_zero.mp hallowed)

theorem Underway.root (halloc : ∀ k, env.alloc k) (h : Underway s₀ 1 text s) (el : CStr) :
    ∃ s' text', xmlHandler env s (.endElement el) = some s' ∧ Ended s' ∧
      s'.yajlGenBuf = s₀.yajlGenBuf ++ text' ∧
      s'.kafkaMsgs = { s₀.kafkaMsgs with
        msgs := s₀.kafkaMsgs.msgs ++ [⟨some s₀.yajlGenBuf.length, text'.length⟩] } := by
  obtain ⟨printed, opened, fs, a, ls, hfs, ha, hstacked, hin⟩ := h.stands.inside Nat.one_pos
  obtain ⟨hne, hlast⟩ := h.inside Nat.one_pos
  cases hstacked with
  | child => simp at hfs
  | root =>
    have hroot : Within { s with yajlGenBuf := s₀.yajlGenBuf } s.yajlGenBuf [(printed, opened)]
        (contentGen opened a [.start]) s :=
      ⟨rfl, hin.stackPos, hin.frames, hin.gen_eq, hin.response, hin.running, ⟨rfl, rfl, rfl⟩⟩
    obtain ⟨s', hs', -, htranslated⟩ := hroot.finishRoot halloc ha hlast
      (List.append_ne_nil_of_left_ne_nil hne (closeText opened ++ ascii "\x7d"))
      (by rw [h.buf, List.append_assoc])
    have hended := h.stands.endRoot halloc hs'
    refine ⟨s', _, xmlHandler_of_quiet (e := .endElement el) hs' hended.response, hended,
      htranslated.buf, ?_⟩
    rw [htranslated.kafkaMsgs, h.kafkaMsgs]

theorem Underway.tooDeep (halloc : ∀ k, env.alloc k) (h : Underway s₀ depth text s) (e : XmlEvent)
    (hallowed : Allowed depth e) (hroom : roomForEvent env.style.maxDepth depth e = false) :
    ∃ s' text', xmlHandler env s e = some s' ∧ s'.httpResponse.length ≤ 1024 ∧ Refusing s' ∧
      s'.rc = .invalidRequest ∧ s'.yajlGenBuf = s₀.yajlGenBuf ++ text' ∧ s'.kafkaMsgs = s₀.kafkaMsgs := by
  cases e with
  | endElement el => cases hroom
  | characterData data => cases hroom
  | startElement el attr =>
    have hruns := runs_start env s el attr
    rw [granting_eq halloc] at hruns
    have heq := zzParseStart_eq env h.stands.response el attr
    rw [finished, hruns.err] at heq
    cases herr : (chain env.style (handlerOps s (.startElement el attr)) s.yajlGen).err with
    | none =>
      have hfits := (chain_start_err env h.stands el attr).mp herr
      exact absurd (hroom.symm.trans hfits) (by decide)
    | some err =>
      rw [herr] at heq
      have hexceeded : err.2 = .maxDepthExceeded :=
        (proper_start env.style h.stands el attr _ (statuses_err herr)).resolve_left
          (chain_err_ne herr)
      have hbuf := hruns.chained.buf
      rw [h.buf, List.append_assoc] at hbuf
      have hlength := length_generatorErr_le herr (hruns.chained.response.trans h.stands.response)
      have hhandler : xmlHandler env s (.startElement el attr) = _ :=
        (congrArg (fun s ↦ (some s).bind Parsing.printed) heq).trans
          (printed_of_short (hlength.trans (by decide)))
      refine ⟨_, _, hhandler, hlength, refusing_generatorErr env (chain_err_ne herr) _, ?_, hbuf,
        hruns.chained.kafkaMsgs.trans h.kafkaMsgs⟩
      simp [generatorErr, queueXmlError, queueXmlError0, xmlStopParser, xmlParserErr,
        hexceeded, yajlGenErr2codestr]

structure Consistent (y : Style) (d : Delivery) : Prop where
  statuses : ∀ status ∈ generatorStatuses y d.before d.token.event,
    status = .ok ∨ status = .maxDepthExceeded
  bits : ∀ bit ∈ bitPositions d.before d.token.event, bit < 256

def Exceeds (y : Style) (d : Delivery) : Prop :=
  .maxDepthExceeded ∈ generatorStatuses y d.before d.token.event

structure Settled (env : Env) (left : ℕ) (ts : List Token) (depth : ℕ) (s₀ s : Parsing) : Prop where
  consistent : ∀ d ∈ deliveries env left ts s, Consistent env.style d
  exceeds : (∃ d ∈ deliveries env left ts s, Exceeds env.style d) ↔
    TooDeep env.style.maxDepth ts depth
  outcome : ∃ s', xmlDeliver env ts s = some s' ∧
    (TooDeep env.style.maxDepth ts depth ∧ s'.rc = .invalidRequest ∧ s'.kafkaMsgs = s₀.kafkaMsgs ∨
      ¬ TooDeep env.style.maxDepth ts depth ∧ s'.rc = .ok ∧ s'.stackPos = 0 ∧
        ∃ len, s'.kafkaMsgs = { s₀.kafkaMsgs with
          msgs := s₀.kafkaMsgs.msgs ++ [⟨some s₀.yajlGenBuf.length, len⟩] })

theorem roomForEvent_deep {maxDepth : ℕ} {t : Token} {ts : List Token} :
    TooDeep maxDepth (t :: ts) depth ↔ roomForEvent maxDepth depth t.event = false ∨
      TooDeep maxDepth ts (depthAfter depth t.event) := by
  have hdeep (attr : List (CStr × CStr)) :
      Deep maxDepth (depth + 1, attr) ↔ roomFor maxDepth depth attr = false := by
    rw [Deep, roomFor, decide_eq_false_iff_not, not_lt]
    dsimp only
    omega
  cases he : t.event with
  | startElement el attr =>
    simp only [TooDeep, elements, he, List.exists_mem_cons_iff, hdeep, roomForEvent, depthAfter]
  | endElement el => simp [TooDeep, elements, he, roomForEvent, depthAfter]
  | characterData text => simp [TooDeep, elements, he, roomForEvent, depthAfter]

theorem consistent_of_underway (env : Env) (h : Underway s₀ depth text s) (hbound : depth ≤ 64) (left : ℕ)
    (t : Token) (hallowed : Allowed depth t.event) :
    Consistent env.style ⟨left, s, t⟩ ∧
      (Exceeds env.style ⟨left, s, t⟩ ↔
        roomForEvent env.style.maxDepth depth t.event = false) := by
  obtain ⟨hproper, hexceeds⟩ := generatorStatuses_spec env h.stands t.event hallowed
  refine ⟨⟨hproper, ?_⟩, hexceeds⟩
  intro bit hbit
  cases he : t.event with
  | startElement el attr =>
    simp only [he, bitPositions, h.stands.stackPos, childrenPrintedBitFromFrame,
      textPrintedBitFromFrame, List.mem_cons, List.not_mem_nil, or_false] at hbit
    omega
  | endElement el =>
    simp only [he, bitPositions, h.stands.stackPos, childrenPrintedBitFromFrame,
      List.mem_singleton] at hbit
    omega
  | characterData data =>
    simp only [he, bitPositions, h.stands.stackPos, childrenPrintedBitFromFrame,
      textPrintedBitFromFrame, List.mem_cons, List.not_mem_nil, or_false] at hbit
    omega

theorem depthAfter_le {e : XmlEvent} (hbound : depth ≤ 64)
    (hroom : roomForEvent 128 depth e = true) : depthAfter depth e ≤ 64 := by
  cases e with
  | startElement el attr =>
    rw [roomForEvent, roomFor, decide_eq_true_eq] at hroom
    rw [depthAfter]
    omega
  | endElement el => exact (Nat.sub_le _ _).trans hbound
  | characterData data => exact hbound

theorem Settled.cons {left : ℕ} {t : Token} {ts : List Token} {before s₁ : Parsing}
    (hbefore : before = { s with expatHandler := { s.expatHandler with position := t.start } })
    (hs₁ : xmlHandler env before t.event = some s₁) (hrun : s₁.expatHandler.stopped = false)
    (hconsistent : Consistent env.style ⟨left, before, t⟩)
    (hexceeds : ¬ Exceeds env.style ⟨left, before, t⟩)
    (hroom : roomForEvent env.style.maxDepth depth t.event = true)
    (h : Settled env left ts (depthAfter depth t.event) s₀ s₁) :
    Settled env left (t :: ts) depth s₀ s := by
  obtain ⟨hds, hdeliver⟩ := deliveries_run left ts hbefore hs₁ hrun
  have hdeep : TooDeep env.style.maxDepth (t :: ts) depth ↔
      TooDeep env.style.maxDepth ts (depthAfter depth t.event) := by
    rw [roomForEvent_deep, hroom]
    simp
  refine ⟨?_, ?_, ?_⟩
  · rw [hds]
    exact List.forall_mem_cons.mpr ⟨hconsistent, h.consistent⟩
  · rw [hds, List.exists_mem_cons_iff, hdeep, ← h.exceeds]
    exact or_iff_right hexceeds
  · rw [hdeep, hdeliver]
    exact h.outcome

theorem Underway.settle (halloc : ∀ k, env.alloc k) (hmax : env.style.maxDepth = 128) (left : ℕ)
    (us : List Token) {last : Token} {el : CStr} (hlast : last.event = .endElement el)
    (h : Underway s₀ depth text s) (hbound : depth ≤ 64)
    (hnested : nested (us ++ [last]) depth = true) (hreach : reach us depth = .opened 1) :
    Settled env left (us ++ [last]) depth s₀ s := by
  induction us generalizing depth text s with
  | nil =>
    obtain rfl : depth = 1 := Reach.opened.inj hreach
    have hmoved := h.moved last.start
    obtain ⟨before, hbefore⟩ : ∃ before : Parsing,
      before = { s with expatHandler := { s.expatHandler with position := last.start } } := ⟨_, rfl⟩
    rw [← hbefore] at hmoved
    have hallowed : Allowed 1 last.event := by
      rw [hlast]
      exact Nat.one_pos
    obtain ⟨hconsistent, hexceeds⟩ := consistent_of_underway env hmoved hbound left last hallowed
    obtain ⟨s', text', hs', hended, -, hmsgs⟩ := hmoved.root halloc el
    rw [← hlast] at hs'
    obtain ⟨hds, hdeliver⟩ :=
      deliveries_stopped left [] hbefore hs' hended.stopped
    have hfits : ¬ TooDeep env.style.maxDepth [last] 1 := by
      simp [TooDeep, elements, hlast]
    rw [List.nil_append]
    refine ⟨?_, ?_, ?_⟩
    · rw [hds, List.forall_mem_singleton]
      exact hconsistent
    · rw [hds]
      refine iff_of_false ?_ hfits
      rintro ⟨d, hd, hd'⟩
      obtain rfl := List.mem_singleton.mp hd
      rw [hexceeds, hlast] at hd'
      cases hd'
    · exact ⟨_, hdeliver, .inr ⟨hfits, hended.rc, hended.stackPos, _, hmsgs⟩⟩
  | cons t us ih =>
    have hmoved := h.moved t.start
    obtain ⟨before, hbefore⟩ : ∃ before : Parsing,
      before = { s with expatHandler := { s.expatHandler with position := t.start } } := ⟨_, rfl⟩
    rw [← hbefore] at hmoved
    rw [List.cons_append] at hnested ⊢
    obtain ⟨hallowed, hnested'⟩ := allowed_of_nested hnested
    have hroot : ¬ EndsRoot depth t.event := by
      rintro ⟨rfl, el', he⟩
      simp [reach, he] at hreach
    obtain ⟨hconsistent, hexceeds⟩ := consistent_of_underway env hmoved hbound left t hallowed
    cases hroom : roomForEvent env.style.maxDepth depth t.event with
    | true =>
      obtain ⟨s₁, text', hs₁, hunderway⟩ := hmoved.step halloc t.event hallowed hroom hroot
      rw [reach_cons _ hallowed hroot] at hreach
      refine .cons hbefore hs₁ hunderway.stands.running hconsistent ?_ hroom
        (ih hunderway (depthAfter_le hbound (hmax ▸ hroom)) hnested' hreach)
      rw [hexceeds, hroom]
      decide
    | false =>
      obtain ⟨s', text', hs', -, hrefusing, hrc, -, hmsgs⟩ :=
        hmoved.tooDeep halloc t.event hallowed hroom
      obtain ⟨hds, hdeliver⟩ := deliveries_stopped left (us ++ [last]) hbefore hs'
        hrefusing.stopped
      have hdeep : TooDeep env.style.maxDepth (t :: (us ++ [last])) depth :=
        roomForEvent_deep.mpr (.inl hroom)
      refine ⟨?_, ?_, ?_⟩
      · rw [hds, List.forall_mem_singleton]
        exact hconsistent
      · refine iff_of_true ⟨_, ?_, hexceeds.mpr hroom⟩ hdeep
        rw [hds]
        exact .head _
      · exact ⟨_, hdeliver, .inl ⟨hdeep, hrc, hmsgs⟩⟩

/-- The translator keeps in order over every document, and the limit of the depth is exact. -/
theorem depth_limit_exact (env : Env) (halloc : ∀ k, env.alloc k)
    (hmax : env.style.maxDepth = 128) (h : XmlFragments.Reachable 0 s) {ts : List Token}
    (hts : IsDocument ts) (left : ℕ) :
    (∀ d ∈ deliveries env left ts s, Consistent env.style d) ∧
      ((∃ d ∈ deliveries env left ts s, Exceeds env.style d) ↔ TooDeep 128 ts 0) ∧
      ∃ s', xmlDeliver env ts s = some s' ∧
        (TooDeep 128 ts 0 → s'.rc = .invalidRequest ∧ s'.kafkaMsgs = s.kafkaMsgs) ∧
        (¬ TooDeep 128 ts 0 → s'.stackPos = 0 ∧ ∃ m, s'.kafkaMsgs =
          { s.kafkaMsgs with msgs := s.kafkaMsgs.msgs ++ [m] }) := by
  obtain ⟨hat, herror⟩ := h.stands
  obtain ⟨us, last, el, rfl, hlast, hreach⟩ := hts.ended
  have hunderway : Underway s 0 [] s :=
    ⟨hat, herror, (List.append_nil _).symm, rfl, fun _ ↦ rfl, fun hpos ↦ absurd hpos (lt_irrefl 0)⟩
  obtain ⟨hconsistent, hexceeds, s', hs', houtcome⟩ :=
    hunderway.settle halloc hmax left us hlast (Nat.zero_le _) hts.nested hreach
  rw [hmax] at hexceeds houtcome
  refine ⟨hconsistent, hexceeds, s', hs', ?_, ?_⟩
  · intro hdeep
    obtain ⟨-, hrc, hmsgs⟩ | ⟨hfits, -⟩ := houtcome
    · exact ⟨hrc, hmsgs⟩
    · exact absurd hdeep hfits
  · intro hfits
    obtain ⟨hdeep, -⟩ | ⟨-, -, hpos, len, hmsgs⟩ := houtcome
    · exact absurd hdeep hfits
    · exact ⟨hpos, _, hmsgs⟩

end Document

def shallow : List Token := (Reading.run (.text 0) 0 (ascii "<a><b>x</b>y</a>")).2

theorem shallow_one_message :
    ∃ s', xmlDeliver plainEnv shallow (enterXmlChunk plainEnv newZzSessionXml) = some s' ∧
      s'.stackPos = 0 ∧ ∃ m, s'.kafkaMsgs = ⟨[m], none⟩ := by
  have hdocument : IsDocument shallow :=
    ⟨by decide, shallow.dropLast, shallow.getLast (by decide), lit "a", by decide, by decide, rfl⟩
  have hfits : ¬ TooDeep 128 shallow 0 := by decide
  obtain ⟨-, -, s', hs', -, hmessage⟩ := depth_limit_exact plainEnv (fun _ ↦ rfl) rfl
    (.entered plainEnv) hdocument 0
  exact ⟨s', hs', hmessage hfits⟩

end N2Kafka.Decoder.XmlDepth
