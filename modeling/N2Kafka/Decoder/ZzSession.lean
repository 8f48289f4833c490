import N2Kafka.Decoder.ZzParser

namespace N2Kafka.Decoder.ZzSession

open Lib.CString Util.Pairs Decoder.ZzParser

inductive Resource
  | topic
  | inflate
  | expat
  | yajlGen
  | yajlParser
  deriving DecidableEq

inductive Act
  | acquire (k : Resource)
  | release (k : Resource)
  deriving DecidableEq

structure Allocs where
  getTopic : Bytes → Bool
  xmlParserCreate : Bool
  yajlGenAlloc : Bool
  yajlAlloc : Bool

/-- A return code with the resources that were taken and given back on the way to it. -/
structure Made where
  rc : ℤ
  acts : List Act

def isXmlContentType (contentType : Option CStr) : Bool :=
  match contentType with
  | none => false
  | some ct =>
    if ct.1.length < 3 then false
    else strcasecmp ⟨ct.1.drop (ct.1.length - 3), fun h ↦ ct.2 (List.mem_of_mem_drop h)⟩
      (lit "xml") = 0

/-- The way out behind a failed `yajl_gen_alloc` frees the parser itself and then runs into
`yajl_gen_err`, which frees it once more. -/
def newZzSessionXml (allocs : Allocs) : Made :=
  if !allocs.xmlParserCreate then ⟨-1, []⟩
  else if !allocs.yajlGenAlloc then ⟨-1, [.acquire .expat, .release .expat, .release .expat]⟩
  else ⟨0, [.acquire .expat, .acquire .yajlGen]⟩

def newZzSessionJson (allocs : Allocs) : Made :=
  if allocs.yajlAlloc then ⟨0, [.acquire .yajlParser]⟩ else ⟨-1, []⟩

def uuidTopic (msgVars : KeyvalList) (topic : Bytes) : Bytes :=
  match valueof msgVars (lit "X-Consumer-ID") strcasecmp with
  | some uuid => uuid.1 ++ ascii "_" ++ topic
  | none => topic

def contentTypeXml (msgVars : KeyvalList) : Bool :=
  isXmlContentType (valueof msgVars (lit "Content-type") strcasecmp)

def newZzSession (allocs : Allocs) (msgVars : KeyvalList) : Made :=
  match sessionUrlTopic msgVars with
  | none => ⟨-1, []⟩
  | some topic =>
    if !allocs.getTopic (uuidTopic msgVars topic) then ⟨-1, []⟩
    else
      let handler := if contentTypeXml msgVars then newZzSessionXml allocs
        else newZzSessionJson allocs
      if handler.rc ≠ 0 then ⟨-1, .acquire .topic :: handler.acts ++ [.release .topic]⟩
      else ⟨0, .acquire .topic :: handler.acts⟩

/-- The session remembers in `free_session` which parser it was made with. -/
def freeZzSession (msgVars : KeyvalList) : List Act :=
  (if contentTypeXml msgVars then [.release .yajlGen, .release .expat]
    else [.release .yajlParser]) ++ [.release .topic]

/-- The decoders with sessions. A meraki listener has the topic of its configuration. -/
inductive SessionDecoder
  | zz
  | meraki (topic : CStr)

def merakiUri (topic : CStr) : CStr :=
  ⟨(lit "/v1/data/").1 ++ topic.1, by
    intro h
    cases List.mem_append.mp h with
    | inl h => exact (lit "/v1/data/").2 h
    | inr h => exact topic.2 h⟩

def sessionVars : SessionDecoder → KeyvalList → KeyvalList
  | .zz, msgVars => msgVars
  | .meraki topic, msgVars =>
    [⟨lit "D-HTTP-URI", some (merakiUri topic)⟩,
      ⟨lit "D-Client-IP", valueof msgVars (lit "D-Client-IP") strcmp⟩]

def newSession (d : SessionDecoder) (allocs : Allocs) (msgVars : KeyvalList) : Made :=
  newZzSession allocs (sessionVars d msgVars)

def deleteSession (d : SessionDecoder) (msgVars : KeyvalList) : List Act :=
  freeZzSession (sessionVars d msgVars)

/-- Everything taken is given back, and nothing more. -/
def Balanced (acts : List Act) : Prop :=
  ∀ k, acts.count (.release k) = acts.count (.acquire k)

/-- A topic is found, the request asks for XML and has its parser, but no generator. -/
def GeneratorFails (allocs : Allocs) (msgVars : KeyvalList) : Prop :=
  (∃ topic, sessionUrlTopic msgVars = some topic ∧ allocs.getTopic (uuidTopic msgVars topic)) ∧
    contentTypeXml msgVars ∧ allocs.xmlParserCreate ∧ ¬ allocs.yajlGenAlloc

/-- The URL names no topic or the database has none for it, or the parser or the generator that the
content type asks for is not created. -/
def SessionFails (allocs : Allocs) (msgVars : KeyvalList) : Prop :=
  (∀ topic, sessionUrlTopic msgVars = some topic →
      allocs.getTopic (uuidTopic msgVars topic) = false) ∨
    if contentTypeXml msgVars then allocs.xmlParserCreate = false ∨ allocs.yajlGenAlloc = false
    else allocs.yajlAlloc = false

theorem newZzSession_fails_iff (allocs : Allocs) (msgVars : KeyvalList) :
    (newZzSession allocs msgVars).rc ≠ 0 ↔ SessionFails allocs msgVars := by
  unfold newZzSession SessionFails
  cases sessionUrlTopic msgVars with
  | none => simp
  | some topic =>
    cases hg : allocs.getTopic (uuidTopic msgVars topic) with
    | false => simp [hg]
    | true =>
      cases contentTypeXml msgVars with
      | false => cases hy : allocs.yajlAlloc <;> simp [newZzSessionJson, hg, hy]
      | true =>
        cases he : allocs.xmlParserCreate <;> cases hy : allocs.yajlGenAlloc <;>
          simp [newZzSessionXml, hg, he, hy]

inductive Session (allocs : Allocs) (msgVars : KeyvalList) : Made → Prop
  | noTopic (hg : ¬ GeneratorFails allocs msgVars) : Session allocs msgVars ⟨-1, []⟩
  | noParser (hg : ¬ GeneratorFails allocs msgVars) :
      Session allocs msgVars ⟨-1, [.acquire .topic, .release .topic]⟩
  | noGenerator (hg : GeneratorFails allocs msgVars) : Session allocs msgVars
      ⟨-1, [.acquire .topic, .acquire .expat, .release .expat, .release .expat, .release .topic]⟩
  | xml (hg : ¬ GeneratorFails allocs msgVars) (hx : contentTypeXml msgVars = true) :
      Session allocs msgVars ⟨0, [.acquire .topic, .acquire .expat, .acquire .yajlGen]⟩
  | json (hg : ¬ GeneratorFails allocs msgVars) (hx : contentTypeXml msgVars = false) :
      Session allocs msgVars ⟨0, [.acquire .topic, .acquire .yajlParser]⟩

theorem newZzSession_session (allocs : Allocs) (msgVars : KeyvalList) :
    Session allocs msgVars (newZzSession allocs msgVars) := by
  unfold newZzSession
  cases ht : sessionUrlTopic msgVars with
  | none => exact .noTopic (by simp [GeneratorFails, ht])
  | some topic =>
    cases hg : allocs.getTopic (uuidTopic msgVars topic) with
    | false =>
      simp only [hg]
      exact .noTopic (by simp [GeneratorFails, ht, hg])
    | true =>
      simp only [hg]
      cases hx : contentTypeXml msgVars with
      | false =>
        have hnot : ¬ GeneratorFails allocs msgVars := by simp [GeneratorFails, hx]
        cases hy : allocs.yajlAlloc with
        | false => simpa [newZzSessionJson, hy] using Session.noParser hnot
        | true => simpa [newZzSessionJson, hy] using Session.json hnot hx
      | true =>
        cases he : allocs.xmlParserCreate with
        | false =>
          have hnot : ¬ GeneratorFails allocs msgVars := by simp [GeneratorFails, he]
          simpa [newZzSessionXml, he] using Session.noParser hnot
        | true =>
          cases hy : allocs.yajlGenAlloc with
          | false =>
            have hfails : GeneratorFails allocs msgVars :=
              ⟨⟨topic, ht, hg⟩, hx, he, by simp [hy]⟩
            simpa [newZzSessionXml, he, hy] using Session.noGenerator hfails
          | true =>
            have hnot : ¬ GeneratorFails allocs msgVars := by simp [GeneratorFails, hy]
            simpa [newZzSessionXml, he, hy] using Session.xml hnot hx

theorem Session.inflate_not_mem {allocs : Allocs} {msgVars : KeyvalList} {m : Made}
    (h : Session allocs msgVars m) : .acquire .inflate ∉ m.acts ∧ .release .inflate ∉ m.acts := by
  cases h <;> simp

theorem Session.made {allocs : Allocs} {msgVars : KeyvalList} {m : Made}
    (h : Session allocs msgVars m) (hrc : m.rc = 0) :
    Balanced (m.acts ++ freeZzSession msgVars) ∧ ¬ GeneratorFails allocs msgVars := by
  cases h with
  | noTopic | noParser | noGenerator => cases hrc
  | xml hg hx =>
    refine ⟨fun k ↦ ?_, hg⟩
    simp only [freeZzSession, hx, if_true]
    cases k <;> rfl
  | json hg hx =>
    refine ⟨fun k ↦ ?_, hg⟩
    simp only [freeZzSession, hx, Bool.false_eq_true, if_false]
    cases k <;> rfl

/-- A session that could not be made has given back what it has taken, except for the parser of
the lost generator, which is given back twice. -/
theorem Session.failed {allocs : Allocs} {msgVars : KeyvalList} {m : Made}
    (h : Session allocs msgVars m) (hrc : m.rc ≠ 0) :
    Balanced m.acts ↔ ¬ GeneratorFails allocs msgVars := by
  cases h with
  | noTopic hg => exact iff_of_true (fun k ↦ rfl) hg
  | noParser hg =>
    refine iff_of_true (fun k ↦ ?_) hg
    cases k <;> rfl
  | noGenerator hg =>
    refine iff_of_false (fun hb ↦ ?_) (not_not.mpr hg)
    exact absurd (hb .expat) (by decide)
  | xml | json => exact absurd rfl hrc

end N2Kafka.Decoder.ZzSession
