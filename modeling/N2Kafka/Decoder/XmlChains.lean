import N2Kafka.Decoder.XmlNesting

namespace N2Kafka.Decoder.XmlAllocations

open Lib.CString Lib.JsonGenerator Util.KafkaMessageArray Decoder.DecoderApi Decoder.Expat
open Decoder.ZzDecoder Decoder.ZzParserXml Decoder.XmlDocument Decoder.XmlTranslation
open Decoder.XmlNesting

/-- What a chain of generator calls prints up to the first one that fails, and what it leaves. -/
structure Chain where
  printed : List Bytes
  gen : Gen
  err : Option (Bytes × Status)

def chain (y : Style) : List (Op × Bytes) → Gen → Chain
  | [], g => ⟨[], g, none⟩
  | (op, errStr) :: ops, g =>
    if (emit y g op).status = .ok then
      let last := chain y ops (emit y g op).gen
      { last with printed := (emit y g op).printed ++ last.printed }
    else ⟨(emit y g op).printed, (emit y g op).gen, some (errStr, (emit y g op).status)⟩

theorem chain_of_generate (y : Style) {ops : List (Op × Bytes)} {g gen : Gen} {text : Bytes}
    (h : generate y (ops.map (·.1)) g = some (text, gen)) :
    (chain y ops g).err = none ∧ (chain y ops g).gen = gen ∧
      (chain y ops g).printed.flatten = text := by
  induction ops generalizing g text with
  | nil =>
    obtain ⟨rfl, rfl⟩ := Prod.mk.inj (Option.some.inj h)
    exact ⟨rfl, rfl, rfl⟩
  | cons op ops ih =>
    rw [List.map_cons, generate] at h
    split at h
    · rename_i hok
      obtain ⟨⟨text', gen'⟩, hrest, heq⟩ := Option.map_eq_some_iff.mp h
      obtain ⟨rfl, rfl⟩ := Prod.mk.inj heq
      obtain ⟨herr, hgen, htext⟩ := ih hrest
      rw [chain, if_pos hok]
      exact ⟨herr, hgen, by simp [htext]⟩
    · cases h

theorem chain_of_generate_none (y : Style) {ops : List (Op × Bytes)} {g : Gen}
    (h : generate y (ops.map (·.1)) g = none) : ∃ err, (chain y ops g).err = some err ∧ err.2 ≠ .ok := by
  induction ops generalizing g with
  | nil => cases h
  | cons op ops ih =>
    rw [List.map_cons, generate] at h
    rw [chain]
    split at h
    · rename_i hok
      rw [if_pos hok]
      exact ih (Option.map_eq_none_iff.mp h)
    · rename_i hok
      rw [if_neg hok]
      exact ⟨_, rfl, hok⟩

theorem chain_append (y : Style) (ops ops' : List (Op × Bytes)) (g : Gen) :
    chain y (ops ++ ops') g =
      if (chain y ops g).err = none then
        { chain y ops' (chain y ops g).gen with
          printed := (chain y ops g).printed ++ (chain y ops' (chain y ops g).gen).printed }
      else chain y ops g := by
  induction ops generalizing g with
  | nil => rfl
  | cons op ops ih =>
    rw [List.cons_append, chain, chain]
    by_cases hok : (emit y g op.1).status = .ok
    · simp only [hok, if_true]
      rw [ih]
      by_cases herr : (chain y ops (emit y g op.1).gen).err = none
      · simp [herr]
      · simp [herr]
    · simp [hok]

theorem genOrGotoErr_chain {env : Env} (halloc : ∀ k, env.alloc k) (ops : List (Op × Bytes))
    (s : Parsing) : genOrGotoErr env ops s =
      ({ s with
          yajlGenBuf := s.yajlGenBuf ++ (chain env.style ops s.yajlGen).printed.flatten
          yajlGen := (chain env.style ops s.yajlGen).gen
          allocs := s.allocs + (chain env.style ops s.yajlGen).printed.length },
        (chain env.style ops s.yajlGen).err) := by
  induction ops generalizing s with
  | nil => simp [genOrGotoErr, chain]
  | cons op ops ih =>
    rw [genOrGotoErr, chain, foldl_yajlPrintCallback halloc]
    dsimp only
    split
    · rw [ih]
      simp [Nat.add_assoc]
    · rfl

/-! ## A parser that is refused memory -/

def granting (env : Env) : Env := { env with alloc := fun _ ↦ true }

theorem granting_alloc (env : Env) (k : ℕ) : (granting env).alloc k := rfl

def Granted (env : Env) (first last : ℕ) : Prop := ∀ k, first ≤ k → k < last → env.alloc k

/-- The part of a session that printing and queueing errors change. -/
structure Mark where
  buf : Bytes
  response : Bytes
  rc : DecoderCallbackErr
  parser : XmlParser

def mark (s : Parsing) : Mark := ⟨s.yajlGenBuf, s.httpResponse, s.rc, s.expatHandler⟩

def marked (s : Parsing) (m : Mark) : Parsing :=
  { s with yajlGenBuf := m.buf, httpResponse := m.response, rc := m.rc, expatHandler := m.parser }

def Mark.queue (env : Env) (err : Bytes × Status) (m : Mark) : Mark where
  buf := m.buf
  response := m.response ++ errorAnswer (xmlParserErr env err.1 err.2 m.parser.error) m.parser.position
  rc := (xmlParserErr env err.1 err.2 m.parser.error).returnCode
  parser := m.parser.stop

def refusal : Bytes × Status := (ascii "Unable to append JSON text (OOM?)", .ok)

/-- Parts printed one after the other, from the request `first` on. -/
def Mark.print (env : Env) : ℕ → List Bytes → Mark → Mark
  | _, [], m => m
  | first, t :: ts, m =>
    print env (first + 1) ts
      (if env.alloc first then { m with buf := m.buf ++ t } else m.queue env refusal)

def granted (env : Env) : ℕ → List Bytes → Bytes
  | _, [] => []
  | first, t :: ts => (if env.alloc first then t else []) ++ granted env (first + 1) ts

def refusals (env : Env) (first n : ℕ) : ℕ := (List.range' first n).countP fun k ↦ !env.alloc k

/-- What expat says behind `n` errors: the second stop of a parser is an error of its own. -/
def errorAfter (n : ℕ) : XmlError := if n < 2 then .none else .finished

def answerAfter (env : Env) (position : Position) (n : ℕ) (err : Bytes × Status) : Bytes :=
  errorAnswer (xmlParserErr env err.1 err.2 (errorAfter n)) position

def refusalAnswers (env : Env) (position : Position) (n : ℕ) : Bytes :=
  (List.range n).flatMap fun i ↦ answerAfter env position i refusal

structure Mark.Refused (env : Env) (position : Position) (n : ℕ) (m : Mark) : Prop where
  response : m.response = refusalAnswers env position n
  rc : m.rc = .ok ↔ n < 3
  stopped : m.parser.stopped = decide (0 < n)
  error : m.parser.error = errorAfter n
  position : m.parser.position = position

section Marks

variable {env : Env} {first : ℕ} {s : Parsing} {m : Mark}

theorem marked_mark (s : Parsing) : marked s (mark s) = s := rfl

theorem Mark.print_append (first : ℕ) (ts us : List Bytes) (m : Mark) :
    m.print env first (ts ++ us) = (m.print env first ts).print env (first + ts.length) us := by
  induction ts generalizing first m with
  | nil => rfl
  | cons t ts ih =>
    rw [List.cons_append, print, ih, print, List.length_cons, Nat.add_assoc, Nat.add_comm 1]

theorem foldl_marked (texts : List Bytes) (s : Parsing) (m : Mark) :
    texts.foldl (yajlPrintCallback env) (marked s m) =
      marked { s with allocs := s.allocs + texts.length } (m.print env s.allocs texts) := by
  induction texts generalizing s m with
  | nil => rfl
  | cons t ts ih =>
    have hprinted : yajlPrintCallback env (marked s m) t =
        marked { s with allocs := s.allocs + 1 }
          (if env.alloc s.allocs then { m with buf := m.buf ++ t } else m.queue env refusal) := by
      have hallocs : (marked s m).allocs = s.allocs := rfl
      by_cases halloc : env.alloc s.allocs
      · simp only [yajlPrintCallback, hallocs, halloc, if_true]
        rfl
      · simp only [yajlPrintCallback, hallocs, halloc, Bool.false_eq_true, if_false]
        rfl
    rw [List.foldl_cons, hprinted, ih, Mark.print, List.length_cons, Nat.add_assoc, Nat.add_comm 1]

theorem genOrGotoErr_marked (env : Env) (ops : List (Op × Bytes)) (s : Parsing) (m : Mark) :
    genOrGotoErr env ops (marked s m) =
      (marked { s with
          yajlGen := (chain env.style ops s.yajlGen).gen
          allocs := s.allocs + (chain env.style ops s.yajlGen).printed.length }
        (m.print env s.allocs (chain env.style ops s.yajlGen).printed),
        (chain env.style ops s.yajlGen).err) := by
  induction ops generalizing s m with
  | nil => rfl
  | cons op ops ih =>
    have hprinted : (emit env.style s.yajlGen op.1).printed.foldl (yajlPrintCallback env)
        { marked s m with yajlGen := (emit env.style s.yajlGen op.1).gen } = _ :=
      foldl_marked _ { s with yajlGen := (emit env.style s.yajlGen op.1).gen } m
    have hgen : (marked s m).yajlGen = s.yajlGen := rfl
    simp only [genOrGotoErr, chain, hgen, hprinted]
    by_cases hok : (emit env.style s.yajlGen op.1).status = .ok
    · simp only [hok, if_true, ih, Mark.print_append, List.length_append, Nat.add_assoc]
    · simp only [hok, if_false]

theorem refusals_eq_zero_iff {n : ℕ} :
    refusals env first n = 0 ↔ Granted env first (first + n) := by
  simp [refusals, Granted, List.mem_range'_1]

theorem refusals_succ (first n : ℕ) : refusals env first (n + 1) =
    (if env.alloc first then 0 else 1) + refusals env (first + 1) n := by
  rw [refusals, List.range'_succ, List.countP_cons, refusals, Nat.add_comm]
  cases env.alloc first <;> rfl

theorem returnCode_ok_iff (env : Env) (err : Bytes × Status) (n : ℕ) :
    (xmlParserErr env err.1 err.2 (errorAfter n)).returnCode = .ok ↔ err.2 = .ok ∧ n < 2 := by
  by_cases hstatus : err.2 = .ok
  · rw [errorAfter]
    split
    · simp [*, xmlParserErr, yajlGenErr2codestr, expatErr2codestr]
    · simp [*, xmlParserErr, yajlGenErr2codestr, expatErr2codestr]
  · have hcode := yajlGenErr2codestr_errCode hstatus
    simp [xmlParserErr, hcode, hstatus]

theorem Mark.Refused.queue {position : Position} {n : ℕ} (h : m.Refused env position n) :
    (m.queue env refusal).Refused env position (n + 1) := by
  refine ⟨?_, ?_, ?_, ?_, ?_⟩
  · simp only [Mark.queue, h.response, h.error, h.position, refusalAnswers, List.range_succ,
      List.flatMap_append, List.flatMap_singleton, answerAfter]
  · have hcode := returnCode_ok_iff env refusal n
    rw [← h.error] at hcode
    refine hcode.trans ?_
    simp only [refusal, true_and]
    omega
  · simp [Mark.queue]
  · rw [Mark.queue, XmlParser.stop, h.stopped]
    cases n with
    | zero => exact h.error
    | succ n => simp [errorAfter]
  · exact (XmlParser.stop_position _).trans h.position

theorem Mark.Refused.print {position : Position} {n : ℕ} (h : m.Refused env position n) (first : ℕ)
    (ts : List Bytes) :
    (m.print env first ts).Refused env position (n + refusals env first ts.length) ∧
      (m.print env first ts).buf = m.buf ++ granted env first ts := by
  induction ts generalizing first n m with
  | nil => exact ⟨h, (List.append_nil _).symm⟩
  | cons t ts ih =>
    rw [Mark.print, granted, List.length_cons, refusals_succ]
    by_cases halloc : env.alloc first
    · rw [if_pos halloc, if_pos halloc, if_pos halloc, Nat.zero_add, ← List.append_assoc]
      exact ih (m := { m with buf := m.buf ++ t })
        ⟨h.response, h.rc, h.stopped, h.error, h.position⟩ _
    · rw [if_neg halloc, if_neg halloc, if_neg halloc, ← Nat.add_assoc, List.nil_append]
      exact ih h.queue _

theorem Mark.print_of_refusals {ts : List Bytes} (h : refusals env first ts.length = 0) (m : Mark) :
    m.print env first ts = { m with buf := m.buf ++ ts.flatten } := by
  induction ts generalizing first m with
  | nil => simp [print]
  | cons t ts ih =>
    rw [List.length_cons, refusals_succ, Nat.add_eq_zero_iff] at h
    have halloc : env.alloc first := by
      by_contra halloc
      simp [halloc] at h
    rw [print, if_pos halloc, ih h.2]
    simp

end Marks

/-! ## What the handlers ask for -/

def openOps (s : Parsing) : List (Op × Bytes) :=
  if s.stackPos = 0 then [] else if s.childrenPrinted then closeSiblingOps else openChildrenOps

def closeOps (s : Parsing) : List (Op × Bytes) := if s.childrenPrinted then closeChildrenOps else []

/-- The calls of the session's generator in a handler, up to the first one that fails. -/
def handlerOps (s : Parsing) : XmlEvent → List (Op × Bytes)
  | .startElement el attr => openOps s ++ elementOps el attr
  | .endElement _ => closeOps s ++ if s.stackPos ≤ 1 then closeRootOps else []
  | .characterData text =>
    if s.textPrinted then []
    else keyValue (contentKey s.childrenPrinted) text
      (ascii "Can't gen JSON attribute key + val in XML tag text")

def parts (y : Style) (s : Parsing) (e : XmlEvent) : List Bytes :=
  (chain y (handlerOps s e) s.yajlGen).printed

def refused (env : Env) (s : Parsing) (e : XmlEvent) : ℕ :=
  refusals env s.allocs (parts env.style s e).length

def temporary (env : Env) (s : Parsing) : Bool := s.tempYajl || env.alloc s.allocs

/-- The assertions of a handler: the ones before the message of a root, and the one of
`string_pop_back`. -/
def asserts (env : Env) (s : Parsing) (e : XmlEvent) : Bool :=
  match e with
  | .startElement _ _ => true
  | .endElement _ => 1 < s.stackPos || s.lastOpenMap.any fun start ↦
      start < (s.yajlGenBuf ++ granted env s.allocs (parts env.style s e)).length
  | .characterData _ => !(s.textPrinted && temporary env s) || s.yajlGenBuf ≠ []

/-- The error of a handler behind those for its parts: the generator fails, or memory for the message
of a root or for the temporary generator is refused. -/
def lastError (env : Env) (s : Parsing) (e : XmlEvent) : Option (Bytes × Status) :=
  match (chain env.style (handlerOps s e) s.yajlGen).err with
  | some err => some err
  | none =>
    match e with
    | .startElement _ _ => none
    | .endElement _ =>
      if s.stackPos ≤ 1 ∧ asserts env s e ∧ !env.alloc (s.allocs + (parts env.style s e).length) then
        some (ascii "Couldn't add kafka message (OOM?)", .ok)
      else none
    | .characterData _ =>
      if s.textPrinted ∧ !temporary env s then
        some (ascii "Can't allocate temporary JSON generator (OOM?)", .ok)
      else none

def queued (env : Env) (s : Parsing) (e : XmlEvent) : ℕ :=
  refused env s e + (lastError env s e).toList.length

def answer (env : Env) (s : Parsing) (e : XmlEvent) : Bytes :=
  refusalAnswers env s.expatHandler.position (refused env s e) ++
    (lastError env s e).toList.flatMap
      (answerAfter env s.expatHandler.position (refused env s e))

abbrev Result := Parsing × Option (Bytes × Status)

/-- `goto err` leaves out the calls behind one that fails. -/
def andThen (r : Result) (next : Parsing → Result) : Result :=
  match r.2 with
  | some err => (r.1, some err)
  | none => next r.1

def popFrame (s : Parsing) : Parsing := { s with stackPos := s.stackPos - 1 }

def startResult (env : Env) (el : CStr) (attr : List (CStr × CStr)) (s : Parsing) : Result :=
  andThen (openChild env s) fun s ↦ genOrGotoErr env (elementOps el attr) (pushFrame s)

/-- A root element prints its end, other elements leave that to those behind them. -/
def endResult (env : Env) (s : Parsing) : Result :=
  andThen (closeChildren env s) fun s' ↦
    genOrGotoErr env (if s.stackPos ≤ 1 then closeRootOps else []) (popFrame s')

/-- The session behind a handler, or at the assertion that fails in it. -/
def reached (env : Env) (s : Parsing) (e : XmlEvent) : Parsing :=
  (xmlHandler0 env s e).getD
    (match e with
    | .endElement _ => (endResult env s).1
    | _ => s)

section Chains

variable {env : Env} {s : Parsing}

theorem chain_err_ne {y : Style} {ops : List (Op × Bytes)} {g : Gen} {err : Bytes × Status}
    (h : (chain y ops g).err = some err) : err.2 ≠ .ok := by
  cases hgenerate : generate y (ops.map (·.1)) g with
  | none =>
    obtain ⟨err', herr', hne⟩ := chain_of_generate_none y hgenerate
    obtain rfl := Option.some.inj (h.symm.trans herr')
    exact hne
  | some last =>
    rw [(chain_of_generate y hgenerate).1] at h
    cases h

theorem chain_err_text {y : Style} {ops : List (Op × Bytes)} {g : Gen} {err : Bytes × Status}
    (h : (chain y ops g).err = some err) : ∃ op ∈ ops, op.2 = err.1 := by
  induction ops generalizing g with
  | nil => cases h
  | cons op ops ih =>
    rw [chain] at h
    split at h
    · obtain ⟨op', hop', htext⟩ := ih h
      exact ⟨op', .tail _ hop', htext⟩
    · obtain rfl := Option.some.inj h
      exact ⟨op, .head _, rfl⟩

structure Chained (c : Chain) (s s' : Parsing) : Prop where
  buf : s'.yajlGenBuf = s.yajlGenBuf ++ c.printed.flatten
  allocs : s'.allocs = s.allocs + c.printed.length
  gen_eq : s'.yajlGen = c.gen
  parser : s'.expatHandler = s.expatHandler
  response : s'.httpResponse = s.httpResponse
  rc : s'.rc = s.rc
  kafkaMsgs : s'.kafkaMsgs = s.kafkaMsgs

structure Framing (f : Parsing → Parsing) : Prop where
  chained : ∀ s, Chained ⟨[], s.yajlGen, none⟩ s (f s)
  marked : ∀ m s, f (marked s m) = marked (f s) m

theorem framing_push : Framing pushFrame :=
  ⟨fun _ ↦ ⟨(List.append_nil _).symm, rfl, rfl, rfl, rfl, rfl, rfl⟩, fun _ _ ↦ rfl⟩

theorem framing_pop : Framing popFrame :=
  ⟨fun _ ↦ ⟨(List.append_nil _).symm, rfl, rfl, rfl, rfl, rfl, rfl⟩, fun _ _ ↦ rfl⟩

theorem framing_children : Framing (Parsing.setChildrenPrinted true) :=
  ⟨fun _ ↦ ⟨(List.append_nil _).symm, rfl, rfl, rfl, rfl, rfl, rfl⟩, fun _ _ ↦ rfl⟩

theorem framing_text : Framing (Parsing.setTextPrinted true) :=
  ⟨fun _ ↦ ⟨(List.append_nil _).symm, rfl, rfl, rfl, rfl, rfl, rfl⟩, fun _ _ ↦ rfl⟩

/-- A chain of calls beside the one with all memory: the two differ in what is refused. -/
structure Runs (env : Env) (ops : List (Op × Bytes)) (s : Parsing) (full r : Result) : Prop where
  follows : r.1 = marked full.1 ((mark s).print env s.allocs (chain env.style ops s.yajlGen).printed)
  err : r.2 = (chain env.style ops s.yajlGen).err
  full_err : full.2 = (chain env.style ops s.yajlGen).err
  chained : Chained (chain env.style ops s.yajlGen) s full.1

theorem runs_generated (env : Env) (ops : List (Op × Bytes)) (s : Parsing) :
    Runs env ops s (genOrGotoErr (granting env) ops s) (genOrGotoErr env ops s) := by
  have hr := genOrGotoErr_marked env ops s (mark s)
  rw [marked_mark] at hr
  rw [genOrGotoErr_chain (granting_alloc env), hr]
  exact ⟨rfl, rfl, rfl, ⟨rfl, rfl, rfl, rfl, rfl, rfl, rfl⟩⟩

theorem Runs.frame {ops : List (Op × Bytes)} {full r : Result} (h : Runs env ops s full r)
    {f : Parsing → Parsing} (hf : Framing f) :
    Runs env ops s (f full.1, full.2) (f r.1, r.2) := by
  have hkept := hf.chained full.1
  refine ⟨?_, h.err, h.full_err, ⟨?_, ?_, ?_, ?_, ?_, ?_, ?_⟩⟩
  · rw [h.follows, hf.marked]
  · rw [hkept.buf, List.flatten_nil, List.append_nil]
    exact h.chained.buf
  · exact hkept.allocs.trans h.chained.allocs
  · exact hkept.gen_eq.trans h.chained.gen_eq
  · exact hkept.parser.trans h.chained.parser
  · exact hkept.response.trans h.chained.response
  · exact hkept.rc.trans h.chained.rc
  · exact hkept.kafkaMsgs.trans h.chained.kafkaMsgs

theorem Runs.andThen {ops : List (Op × Bytes)} {full r : Result} (h : Runs env ops s full r)
    {f : Parsing → Parsing} (hf : Framing f) (ops' : List (Op × Bytes)) :
    Runs env (ops ++ ops') s
      (XmlAllocations.andThen full fun s ↦ genOrGotoErr (granting env) ops' (f s))
      (XmlAllocations.andThen r fun s ↦ genOrGotoErr env ops' (f s)) := by
  have hframed := h.frame hf
  obtain ⟨full₁, fullErr⟩ := full
  obtain ⟨r₁, err⟩ := r
  obtain rfl : fullErr = _ := h.full_err
  obtain rfl : err = _ := h.err
  rw [XmlAllocations.andThen, XmlAllocations.andThen]
  cases herr : (chain env.style ops s.yajlGen).err with
  | some err =>
    have hchain : chain env.style (ops ++ ops') s.yajlGen = chain env.style ops s.yajlGen := by
      rw [chain_append, if_neg (by simp [herr])]
    exact ⟨hchain ▸ h.follows, by rw [hchain, herr], by rw [hchain, herr], hchain ▸ h.chained⟩
  | none =>
    have hkept := hframed.chained
    have hfollows : f r₁ = marked (f full₁) _ := hframed.follows
    have hr := genOrGotoErr_marked env ops' (f full₁)
      ((mark s).print env s.allocs (chain env.style ops s.yajlGen).printed)
    have hfull := genOrGotoErr_chain (granting_alloc env) ops' (f full₁)
    have hstyle : (granting env).style = env.style := rfl
    rw [hstyle, hkept.gen_eq] at hfull
    rw [← hfollows, hkept.gen_eq] at hr
    have hchain := chain_append env.style ops ops' s.yajlGen
    rw [if_pos herr] at hchain
    dsimp only
    rw [hr, hfull]
    refine ⟨?_, by rw [hchain], by rw [hchain], ⟨?_, ?_, by rw [hchain], hkept.parser,
      hkept.response, hkept.rc, hkept.kafkaMsgs⟩⟩
    · rw [hchain]
      dsimp only
      rw [Mark.print_append, hkept.allocs]
      rfl
    · rw [hchain]
      dsimp only
      rw [hkept.buf, List.flatten_append, List.append_assoc]
    · rw [hchain]
      dsimp only
      rw [hkept.allocs, List.length_append, Nat.add_assoc]

theorem runs_openChild (env : Env) (s : Parsing) :
    Runs env (openOps s) s (openChild (granting env) s) (openChild env s) := by
  by_cases hpos : s.stackPos = 0
  · rw [openChild, openChild, openOps, if_pos hpos, if_pos hpos, if_pos hpos]
    exact ⟨rfl, rfl, rfl, ⟨(List.append_nil _).symm, rfl, rfl, rfl, rfl, rfl, rfl⟩⟩
  rw [openChild, openChild, openOps, if_neg hpos, if_neg hpos, if_neg hpos]
  cases s.childrenPrinted with
  | true => exact runs_generated env closeSiblingOps s
  | false =>
    have hruns := runs_generated env openChildrenOps s
    have hframed := hruns.frame framing_children
    simp only [Bool.not_false, if_true, Bool.false_eq_true, if_false]
    generalize genOrGotoErr (granting env) openChildrenOps s = full at hruns hframed ⊢
    generalize genOrGotoErr env openChildrenOps s = r at hruns hframed ⊢
    obtain ⟨full₁, fullErr⟩ := full
    obtain ⟨r₁, err⟩ := r
    obtain rfl : fullErr = err := hruns.full_err.trans hruns.err.symm
    cases fullErr with
    | some err => exact hruns
    | none => exact hframed

theorem runs_start (env : Env) (s : Parsing) (el : CStr) (attr : List (CStr × CStr)) : Runs env (handlerOps s (.startElement el attr)) s
      (startResult (granting env) el attr s) (startResult env el attr s) :=
  (runs_openChild env s).andThen framing_push (elementOps el attr)

theorem runs_end (env : Env) (s : Parsing) (el : CStr) :
    Runs env (handlerOps s (.endElement el)) s (endResult (granting env) s) (endResult env s) := by
  have hclose : Runs env (closeOps s) s (closeChildren (granting env) s) (closeChildren env s) := by
    rw [closeChildren, closeChildren, closeOps]
    cases s.childrenPrinted with
    | true => exact runs_generated env closeChildrenOps s
    | false => exact runs_generated env [] s
  exact hclose.andThen framing_pop _

end Chains

end N2Kafka.Decoder.XmlAllocations
