import N2Kafka.Lib.CString

namespace N2Kafka.Decoder.Expat

open Lib.CString

/-- `other` stands for the codes of later releases. -/
inductive XmlError
  | none | noMemory | syntaxError | noElements | invalidToken | unclosedToken | partialChar
  | tagMismatch | duplicateAttribute | junkAfterDocElement | paramEntityRef | undefinedEntity
  | recursiveEntityRef | asyncEntity | badCharRef | binaryEntityRef | attributeExternalEntityRef
  | misplacedXmlPi | unknownEncoding | incorrectEncoding | unclosedCdataSection
  | externalEntityHandling | notStandalone | unexpectedState | entityDeclaredInPe
  | featureRequiresXmlDtd | cantChangeFeatureOnceParsing | unboundPrefix | undeclaringPrefix
  | incompletePe | xmlDecl | textDecl | publicid | suspended | notSuspended | aborted | finished
  | suspendPe | reservedPrefixXml | reservedPrefixXmlns | reservedNamespaceUri | invalidArgument
  | other (code : ℕ)
  deriving DecidableEq

inductive XmlStatus
  | error | ok | suspended
  deriving DecidableEq

/-- The answers of `XML_GetCurrentLineNumber`, `XML_GetCurrentColumnNumber` and
`XML_GetCurrentByteIndex`. -/
structure Position where
  line : ℕ
  column : ℕ
  byte : ℤ
  deriving DecidableEq

inductive XmlEvent
  | startElement (el : CStr) (attr : List (CStr × CStr))
  | endElement (el : CStr)
  | characterData (text : Bytes)
  deriving DecidableEq

/-- An event with the position inside its handler, and the one behind what has caused it. -/
structure Token where
  event : XmlEvent
  start : Position
  stop : Position
  deriving DecidableEq

/-- What a call of `XML_Parse` comes to if no handler stops it. -/
structure Outcome where
  tokens : List Token
  status : XmlStatus
  error : XmlError
  position : Position

/-- The outcome of a chunk, given the chunks since the last reset, and the table of short texts behind
`XML_ErrorString`. -/
structure Library where
  parse : List Bytes → Bytes → Outcome
  errorString : XmlError → Bytes
  errorString_short : ∀ error, (errorString error).length ≤ 128

structure XmlParser where
  fed : List Bytes
  error : XmlError
  position : Position
  stopped : Bool
  deriving DecidableEq

def XmlParser.fresh : XmlParser := ⟨[], .none, ⟨1, 0, -1⟩, false⟩

/-- `XML_StopParser`. A parser that has been stopped before gets an error instead. -/
def XmlParser.stop (p : XmlParser) : XmlParser :=
  if p.stopped then { p with error := .finished } else { p with stopped := true }

@[simp]
theorem XmlParser.stop_stopped (p : XmlParser) : p.stop.stopped = true := by
  unfold stop
  split
  · assumption
  · rfl

@[simp]
theorem XmlParser.stop_position (p : XmlParser) : p.stop.position = p.position := by
  unfold stop
  split <;> rfl

end N2Kafka.Decoder.Expat
