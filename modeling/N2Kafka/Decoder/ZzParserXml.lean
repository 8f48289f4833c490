import N2Kafka.Decoder.Expat
import N2Kafka.Decoder.ZzDecoder
import N2Kafka.Lib.JsonGenerator
import N2Kafka.Util.StringPrintf

namespace N2Kafka.Decoder.ZzParserXml

open Lib.CString Lib.JsonGenerator Util.KafkaMessageArray Decoder.DecoderApi Decoder.Expat
open Decoder.ZzDecoder
open Util.GrowableString (stringMinSize Appends Printed ReachableStr appends_iff_short)

/-- `last_open_map` is an offset into `yajl_gen_buf`, `none` for `NO_JSON_LAST_OPEN_MAP`. -/
structure ZzXmlSession where
  yajlGenBuf : Bytes
  lastOpenMap : Option ℕ
  stackPos : ℕ
  stackBooleanInfo : ℕ → Bool
  expatHandler : XmlParser
  yajlGen : Gen
  rc : DecoderCallbackErr

structure Env where
  expat : Library
  style : Style
  alloc : ℕ → Bool
  tempYajl : Bool

structure Parsing extends ZzXmlSession where
  httpResponse : Bytes
  kafkaMsgs : MessageArray
  allocs : ℕ
  tempYajl : Bool

structure CodeStr where
  err : Bytes
  errCode : DecoderCallbackErr

def expatErr2codestr (expat : Library) (xmlErr : XmlError) : CodeStr where
  err := expat.errorString xmlErr
  errCode :=
    match xmlErr with
    | .none => .ok
    | .noMemory => .memoryError
    | .suspended | .aborted | .finished | .suspendPe | .invalidArgument | .other _ => .genericError
    | _ => .invalidRequest

def yajlGenErr2codestr : Status → CodeStr
  | .ok => ⟨ascii "No error", .ok⟩
  | .keysMustBeStrings => ⟨ascii "Must generate a string here", .genericError⟩
  | .maxDepthExceeded => ⟨ascii "JSON max depth (%d) exceeded", .invalidRequest⟩
  | .inErrorState => ⟨ascii "Trying to generate in an error state", .genericError⟩
  | .generationComplete =>
    ⟨ascii "Trying to generate over a complete JSON document", .genericError⟩
  | .invalidNumber => ⟨ascii "Invalid double on yajl_gen", .genericError⟩
  | .noBuf => ⟨ascii "Trying to generate with no buffer", .genericError⟩
  | .invalidString => ⟨ascii "Trying to generate an invalid utf-8 string", .invalidRequest⟩

def textPrintedBitFromFrame (stackPosition : ℕ) : ℕ := stackPosition * 2

def childrenPrintedBitFromFrame (stackPosition : ℕ) : ℕ := stackPosition * 2 + 1

def Parsing.textPrinted (s : Parsing) : Bool :=
  s.stackBooleanInfo (textPrintedBitFromFrame s.stackPos)

def Parsing.childrenPrinted (s : Parsing) : Bool :=
  s.stackBooleanInfo (childrenPrintedBitFromFrame s.stackPos)

def Parsing.setTextPrinted (v : Bool) (s : Parsing) : Parsing :=
  { s with stackBooleanInfo :=
      Function.update s.stackBooleanInfo (textPrintedBitFromFrame s.stackPos) v }

def Parsing.setChildrenPrinted (v : Bool) (s : Parsing) : Parsing :=
  { s with stackBooleanInfo :=
      Function.update s.stackBooleanInfo (childrenPrintedBitFromFrame s.stackPos) v }

def xmlStopParser (s : Parsing) : Parsing := { s with expatHandler := s.expatHandler.stop }

structure XmlParserErr where
  errorText : Bytes
  xmlErrorText : Bytes
  jsonText : Bytes
  returnCode : DecoderCallbackErr

/-- The error answer. The slip in the closing `detail` tag is the source's. -/
def errorAnswer (errors : XmlParserErr) (position : Position) : Bytes :=
  ascii "<errors><error><what>" ++ errors.errorText ++ ascii "</what><json><detail>" ++
    errors.jsonText ++ ascii "</<detail></json><input_parser><detail>" ++ errors.xmlErrorText ++
    ascii "</detail><line>" ++ ascii (toString (position.line % 2 ^ 64)) ++
    ascii "</line><column>" ++ ascii (toString (position.column % 2 ^ 64)) ++
    ascii "</column><byte>" ++ ascii (toString (position.byte.bmod (2 ^ 64))) ++
    ascii "</byte></input_parser></error></errors>"

/-- `string_printf` finds a byte to spare in the block of `http_response`, or it is never left again:
the block keeps its least size as long as its text fits. -/
def Parsing.printed (s : Parsing) : Option Parsing :=
  if s.httpResponse.length + 1 < stringMinSize then some s else none

/-- Whether `string_printf` comes back is looked at by `Parsing.printed`, once the handler or the
loop is through: what is printed in between only makes the text longer. -/
def queueXmlError0 (errors : XmlParserErr) (s : Parsing) : Parsing :=
  xmlStopParser { s with
    rc := errors.returnCode
    httpResponse := s.httpResponse ++ errorAnswer errors s.expatHandler.position }

variable (env : Env)

def xmlParserErr (text : Bytes) (yajlGenStatus : Status) (xmlErr : XmlError) : XmlParserErr :=
  let yajlRc := yajlGenErr2codestr yajlGenStatus
  let xmlRc := expatErr2codestr env.expat xmlErr
  { errorText := text
    xmlErrorText := xmlRc.err
    jsonText := yajlRc.err
    returnCode := if yajlRc.errCode ≠ .ok then yajlRc.errCode else xmlRc.errCode }

def queueXmlError (text : Bytes) (yajlGenStatus : Status) (s : Parsing) : Parsing :=
  queueXmlError0 (xmlParserErr env text yajlGenStatus s.expatHandler.error) s

def yajlPrintCallback (s : Parsing) (str : Bytes) : Parsing :=
  let appended := env.alloc s.allocs
  let s := { s with allocs := s.allocs + 1 }
  if appended then { s with yajlGenBuf := s.yajlGenBuf ++ str }
  else queueXmlError env (ascii "Unable to append JSON text (OOM?)") .ok s

/-- A chain of `GEN_OR_GOTO_ERR`: calls of the generator, each with its error text, up to the first
one that fails. -/
def genOrGotoErr : List (Op × Bytes) → Parsing → Parsing × Option (Bytes × Status)
  | [], s => (s, none)
  | (op, errStr) :: ops, s =>
    let emitted := emit env.style s.yajlGen op
    let s := emitted.printed.foldl (yajlPrintCallback env) { s with yajlGen := emitted.gen }
    if emitted.status = .ok then genOrGotoErr ops s else (s, some (errStr, emitted.status))

def keyValue (key value errStr : Bytes) : List (Op × Bytes) :=
  [(.string key, errStr), (.string value, errStr)]

def generatorErr (err : Bytes × Status) (s : Parsing) : Parsing :=
  { queueXmlError env err.1 err.2 s with lastOpenMap := none }

def openChildrenOps : List (Op × Bytes) :=
  [(.string (ascii "children"), ascii "Can't gen JSON children key"),
    (.arrayOpen, ascii "Can't gen JSON child array open bracket")]

def closeSiblingOps : List (Op × Bytes) :=
  [(.mapClose, ascii "Can't gen JSON child array close brace")]

def closeChildrenOps : List (Op × Bytes) :=
  [(.mapClose, ascii "Can't gen child JSON close key"),
    (.arrayClose, ascii "Can't gen JSON child array close bracket")]

def closeRootOps : List (Op × Bytes) := [(.mapClose, ascii "Can't gen child JSON close key")]

/-- What a start tag prints before its own object: the root notes where it begins, the first child
opens the array, and any other child closes the one before it. -/
def openChild (s : Parsing) : Parsing × Option (Bytes × Status) :=
  if s.stackPos = 0 then ({ s with lastOpenMap := some s.yajlGenBuf.length }, none)
  else if !s.childrenPrinted then
    match genOrGotoErr env openChildrenOps s with
    | (s, some err) => (s, some err)
    | (s, none) => (s.setChildrenPrinted true, none)
  else genOrGotoErr env closeSiblingOps s

def pushFrame (s : Parsing) : Parsing :=
  (({ s with stackPos := s.stackPos + 1 } : Parsing).setTextPrinted false).setChildrenPrinted false

def attributesOps (attr : List (CStr × CStr)) : List (Op × Bytes) :=
  if attr = [] then []
  else
    (.string (ascii "attributes"), ascii "Can't gen JSON attributes key") ::
      (.mapOpen, ascii "Can't gen JSON attributes open brace") ::
      ((attr.flatMap fun a ↦ keyValue a.1.1 a.2.1 (ascii "Can't gen JSON attribute key + val")) ++
        [(.mapClose, ascii "Can't gen JSON close brace")])

def elementOps (el : CStr) (attr : List (CStr × CStr)) : List (Op × Bytes) :=
  (.mapOpen, ascii "Can't gen JSON object open brace") ::
    (keyValue (ascii "tag") el.1 (ascii "Can't gen JSON text") ++ attributesOps attr)

def zzParseStartXmlElement (el : CStr) (attr : List (CStr × CStr)) (s : Parsing) : Parsing :=
  if s.httpResponse.length > 0 then s
  else
    match openChild env s with
    | (s, some err) => generatorErr env err s
    | (s, none) =>
      match genOrGotoErr env (elementOps el attr) (pushFrame s) with
      | (s, some err) => generatorErr env err s
      | (s, none) => s

/-- The end of a root element; `none` is a failed assertion. -/
def closeRoot (s : Parsing) : Option Parsing :=
  match s.lastOpenMap with
  | none => none
  | some start =>
    if s.yajlGenBuf.length > start then
      let added := env.alloc s.allocs
      let s := { s with
        kafkaMsgs := kafkaMsgArrayAdd added s.kafkaMsgs
          ⟨some start, s.yajlGenBuf.length - start⟩
        lastOpenMap := none
        yajlGen := .initial
        allocs := s.allocs + 1 }
      let s := if added then s
        else queueXmlError env (ascii "Couldn't add kafka message (OOM?)") .ok s
      some (xmlStopParser s)
    else none

def closeChildren (s : Parsing) : Parsing × Option (Bytes × Status) :=
  if s.childrenPrinted then genOrGotoErr env closeChildrenOps s else (s, none)

def zzParseEndXmlElement (s : Parsing) : Option Parsing :=
  if s.httpResponse.length > 0 then some s
  else
    match closeChildren env s with
    | (s, some err) => some (generatorErr env err s)
    | (s, none) =>
      let s := { s with stackPos := s.stackPos - 1 }
      if s.stackPos > 0 then some s
      else
        match genOrGotoErr env closeRootOps s with
        | (s, some err) => some (generatorErr env err s)
        | (s, none) => closeRoot env s

/-- Text behind text: it is put before the last byte printed, taken for a closing quote. `none` is
the failed assertion of `string_pop_back`; nobody looks whether `string_append` succeeds. -/
def spliceText (text : Bytes) (s : Parsing) : Option Parsing :=
  let allocated := s.tempYajl || env.alloc s.allocs
  let s := { s with
    allocs := if s.tempYajl then s.allocs else s.allocs + 1
    tempYajl := allocated }
  if !allocated then
    some (queueXmlError env (ascii "Can't allocate temporary JSON generator (OOM?)") .ok s)
  else
    let emitted := emit env.style .initial (.string text)
    if emitted.status ≠ .ok then
      some (queueXmlError env (ascii "Can't generate XML text in JSON string") .ok s)
    else if s.yajlGenBuf = [] then none
    else
      let tail := if env.alloc s.allocs then emitted.printed.flatten.drop 1 else []
      some { s with yajlGenBuf := s.yajlGenBuf.dropLast ++ tail, allocs := s.allocs + 1 }

def zzParseXmlCharacterData (text : Bytes) (s : Parsing) : Option Parsing :=
  if !s.textPrinted then
    let key := if s.childrenPrinted then ascii "tail" else ascii "text"
    match genOrGotoErr env
      (keyValue key text (ascii "Can't gen JSON attribute key + val in XML tag text")) s with
    | (s, some err) => some (queueXmlError env err.1 .ok s)
    | (s, none) => some (s.setTextPrinted true)
  else spliceText env text s

def xmlHandler0 (s : Parsing) : XmlEvent → Option Parsing
  | .startElement el attr => some (zzParseStartXmlElement env el attr s)
  | .endElement _ => zzParseEndXmlElement env s
  | .characterData text => zzParseXmlCharacterData env text s

def xmlHandler (s : Parsing) (e : XmlEvent) : Option Parsing :=
  (xmlHandler0 env s e).bind Parsing.printed

/-- The handlers are called until one of them stops the parser. -/
def xmlDeliver : List Token → Parsing → Option Parsing
  | [], s => some s
  | t :: ts, s =>
    (xmlHandler env { s with expatHandler := { s.expatHandler with position := t.start } }
      t.event).bind fun s ↦
      if s.expatHandler.stopped then
        some { s with expatHandler := { s.expatHandler with error := .aborted, position := t.stop } }
      else xmlDeliver ts s

def xmlParse (buffer : Bytes) (s : Parsing) : Option (XmlStatus × Parsing) :=
  let parser := s.expatHandler
  if parser.stopped then
    some (.error, { s with expatHandler := { parser with error := .finished } })
  else if parser.error ≠ .none then some (.error, s)
  else
    let outcome := env.expat.parse parser.fed buffer
    (xmlDeliver env outcome.tokens s).map fun s ↦
      if s.expatHandler.stopped then (.error, s)
      else (outcome.status, { s with
        expatHandler := ⟨parser.fed ++ [buffer], outcome.error, outcome.position, false⟩ })

def trueError (stat : XmlStatus) (s : Parsing) : Bool :=
  match stat with
  | .suspended => s.httpResponse ≠ []
  | .ok => false
  | .error => s.expatHandler.error ≠ .junkAfterDocElement ∧ s.expatHandler.error ≠ .aborted

def zzResetXmlHandler (s : Parsing) : Parsing := { s with expatHandler := .fresh }

/-- The loop over the documents of a chunk; `none` is a failed assertion, or a text that is printed
for good. Every round takes at least
one byte off the buffer, so its length is enough fuel. -/
def xmlLoop : ℕ → Bytes → Parsing → Option Parsing
  | 0, _, s => some s
  | fuel + 1, buffer, s =>
    if buffer.length > 0 ∧ s.httpResponse.length = 0 then
      (xmlParse env buffer s).bind fun (stat, s) ↦
        if stat = .ok then some s
        else if trueError stat s then
          (queueXmlError env (ascii "Error parsing XML") .ok s).printed
        else
          let offset := s.expatHandler.position.byte
          if offset ≤ 0 ∧ s.httpResponse.length = 0 then
            (queueXmlError env (ascii "Can't get parse offset") .ok s).printed
          else if 0 ≤ offset ∧ offset ≤ buffer.length then
            xmlLoop fuel (buffer.drop offset.toNat) (zzResetXmlHandler s)
          else none
    else some s

def finishXmlChunk (session : ZzSession ZzXmlSession) (s : Parsing) : Processed ZzXmlSession where
  session := { session with
    parser := { s.toZzXmlSession with yajlGenBuf := [] }
    httpResponse := s.httpResponse
    kafkaMsgs :=
      if kafkaMessageArraySize s.kafkaMsgs ≠ 0 then
        kafkaMessageArraySetPayloadBuffer s.kafkaMsgs s.yajlGenBuf
      else s.kafkaMsgs }
  rc := s.rc
  handed := []

def enterXmlChunk (session : ZzSession ZzXmlSession) : Parsing :=
  { session.parser with
    httpResponse := session.httpResponse
    kafkaMsgs := session.kafkaMsgs
    allocs := 0
    tempYajl := env.tempYajl }

def processXmlBuffer (buffer : Bytes) (session : ZzSession ZzXmlSession) :
    Option (Processed ZzXmlSession) :=
  (xmlLoop env buffer.length buffer (enterXmlChunk env session)).map (finishXmlChunk session)

def xmlErrorMessage (errorStr : Bytes) (decoderRc : DecoderCallbackErr) (messagesQueued : ℕ) :
    Bytes :=
  ascii "<result><messages_queued>" ++ ascii (toString messagesQueued) ++
    ascii "</messages_queued>" ++ (if decoderRc = .ok then [] else errorStr) ++ ascii "</result>"

def newZzSessionXml : ZzSession ZzXmlSession where
  parser := ⟨[], none, 0, fun _ ↦ false, .fresh, .initial, .ok⟩
  kafkaMsgs := .initializer
  lastWarning := fun _ ↦ 0
  httpResponse := []
  errorMessage := xmlErrorMessage

section Printing

variable {env : Env} {s s' : Parsing}

theorem errorAnswer_ne_nil (errors : XmlParserErr) (position : Position) :
    errorAnswer errors position ≠ [] := by
  simp [errorAnswer, ascii]

theorem length_ascii (text : String) : (ascii text).length = text.length :=
  List.length_map _

theorem length_decimal {n k : ℕ} (hk : 0 < k) (h : n < 10 ^ k) :
    (ascii (toString n)).length ≤ k := by
  have hdigits := (Nat.length_toDigits_le_iff (b := 10) (by omega) hk).mpr h
  simpa [ascii] using hdigits

theorem length_byteIndex (byte : ℤ) : (ascii (toString (byte.bmod (2 ^ 64)))).length ≤ 20 := by
  have hle := Int.le_bmod (x := byte) (m := 2 ^ 64) (by omega)
  have hlt := Int.bmod_lt (x := byte) (m := 2 ^ 64) (by omega)
  generalize byte.bmod (2 ^ 64) = index at hle hlt
  cases index with
  | ofNat n =>
    have hn : n < 2 ^ 63 := Int.ofNat_lt.mp hlt
    exact length_decimal (n := n) (by omega) (hn.trans (by decide))
  | negSucc n =>
    have hdecimal := length_decimal (n := n + 1) (k := 19) (by omega) (by omega)
    have hsign : toString (Int.negSucc n) = "-" ++ toString (n + 1) := rfl
    rw [length_ascii] at hdecimal ⊢
    rw [hsign, String.length_append]
    have hminus : "-".length = 1 := by decide
    omega

theorem length_errorAnswer_le (errors : XmlParserErr) (position : Position)
    (htext : errors.errorText.length ≤ 128) (hxml : errors.xmlErrorText.length ≤ 128)
    (hjson : errors.jsonText.length ≤ 128) :
    (errorAnswer errors position).length ≤ 1024 := by
  have hline := length_decimal (n := position.line % 2 ^ 64) (k := 20) (by omega) (by omega)
  have hcolumn := length_decimal (n := position.column % 2 ^ 64) (k := 20) (by omega) (by omega)
  have hbyte := length_byteIndex position.byte
  simp only [errorAnswer, List.length_append] at hline hcolumn hbyte ⊢
  simp only [length_ascii] at hline hcolumn hbyte ⊢
  have htags : "<errors><error><what>".length + "</what><json><detail>".length +
      "</<detail></json><input_parser><detail>".length + "</detail><line>".length +
      "</line><column>".length + "</column><byte>".length +
      "</byte></input_parser></error></errors>".length = 165 := by decide
  omega

theorem yajlGenErr2codestr_short (status : Status) :
    (yajlGenErr2codestr status).err.length ≤ 128 := by
  cases status <;> decide

theorem length_queueXmlError_le (env : Env) {text : Bytes} (htext : text.length ≤ 128) (status : Status)
    (s : Parsing) :
    (queueXmlError env text status s).httpResponse.length ≤ s.httpResponse.length + 1024 := by
  have hanswer := length_errorAnswer_le (xmlParserErr env text status s.expatHandler.error)
    s.expatHandler.position htext
    (env.expat.errorString_short _) (yajlGenErr2codestr_short status)
  simpa only [queueXmlError, queueXmlError0, xmlStopParser, List.length_append,
    Nat.add_le_add_iff_left] using hanswer

theorem printed_of_short (h : s.httpResponse.length ≤ 2048) : s.printed = some s := by
  rw [Parsing.printed, if_pos]
  exact Nat.lt_of_le_of_lt (Nat.succ_le_succ h) (by decide)

/-- As long as `http_response` is short, and gets its first block, `string_printf` appends an error to
it exactly if it is still short behind it. -/
theorem appends_iff_printed {response : ReachableStr} (hresponse : response.1.contents = s.httpResponse)
    (hshort : response.1.size < stringMinSize) (errors : XmlParserErr) {t : Printed}
    (ht : t.1 = errorAnswer errors s.expatHandler.position) {served : ℕ → Bool}
    (hserved : response.1.buf = none → served 0 = true) :
    Appends served response.1 t ↔ (queueXmlError0 errors s).printed = some (queueXmlError0 errors s) := by
  obtain ⟨a, hvalid⟩ := response.2.valid
  have hlength : (queueXmlError0 errors s).httpResponse.length =
      response.1.size + t.1.length := by
    rw [← hvalid.contents_length, hresponse, ht, ← List.length_append]
    rfl
  rw [appends_iff_short response hshort t served hserved, Parsing.printed, hlength]
  split
  · rename_i hlt
    exact iff_of_true hlt rfl
  · rename_i hlt
    exact iff_of_false hlt (by simp)

theorem queueXmlError_response (text : Bytes) (status : Status) (s : Parsing) :
    (queueXmlError env text status s).httpResponse ≠ [] := by
  exact List.append_ne_nil_of_right_ne_nil _ (errorAnswer_ne_nil _ _)

theorem printed_eq_some_iff :
    s.printed = some s' ↔ s = s' ∧ s.httpResponse.length + 1 < stringMinSize := by
  unfold Parsing.printed
  split
  · rename_i hshort
    simp [hshort]
  · rename_i hlong
    simp [hlong]

theorem printed_of_nil (h : s.httpResponse = []) : s.printed = some s := by
  rw [printed_eq_some_iff, h]
  exact ⟨rfl, by decide⟩

theorem xmlHandler_of_quiet {e : XmlEvent} (h : xmlHandler0 env s e = some s')
    (hquiet : s'.httpResponse = []) : xmlHandler env s e = some s' := by
  rw [xmlHandler, h, Option.bind_some, printed_of_nil hquiet]

theorem xmlHandler0_of_some {e : XmlEvent} (h : xmlHandler env s e = some s') :
    xmlHandler0 env s e = some s' ∧ s'.httpResponse.length + 1 < stringMinSize := by
  obtain ⟨s₁, hs₁, hprinted⟩ := Option.bind_eq_some_iff.mp h
  obtain ⟨rfl, hshort⟩ := printed_eq_some_iff.mp hprinted
  exact ⟨hs₁, hshort⟩

end Printing

end N2Kafka.Decoder.ZzParserXml
