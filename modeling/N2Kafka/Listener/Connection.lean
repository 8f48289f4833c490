import Mathlib.Data.List.ReduceOption
import N2Kafka.Decoder.ZzParser

namespace N2Kafka.Listener.Connection

open Lib.CString Util.Pairs Decoder.ZzParser

inductive MhdValueKind
  | header | cookie | postdata | getArgument | footer
  deriving DecidableEq

structure MhdValue where
  kind : MhdValueKind
  key : CStr
  value : Option CStr
  deriving DecidableEq

/-- The iterator is called on the values of one kind, in the order they arrived. -/
def mhdGetConnectionValues {α : Type} (values : List MhdValue) (kind : MhdValueKind)
    (iterator : α → MhdValue → α) (cls : α) : ℕ × α :=
  let selected := values.filter (·.kind = kind)
  (selected.length, selected.foldl iterator cls)

structure HttpError where
  code : ℕ
  str : Option Bytes
  strSize : ℕ
  deriving DecidableEq

/-- `decoderOpts` holds the first `decoder_opts_size` slots of the memory pool; a slot that was
counted but never written is `none`. -/
structure ConnInfo where
  str : Bytes
  decoderParams : KeyvalList
  zlibEnable : Bool
  decoderSess : Bool
  httpError : HttpError
  decoderOpts : List (Option Pair)
  deriving DecidableEq

def zeroed : ConnInfo := ⟨[], [], false, false, ⟨0, none, 0⟩, []⟩

def isCompressed (key : CStr) (value : Option CStr) : Bool :=
  match value with
  | none => false
  | some v => strcasecmp (lit "Content-Encoding") key = 0 ∧
      (strcasecmp (lit "deflate") v = 0 ∨ strcasecmp (lit "gzip") v = 0)

def connectionArgsIterator (ci : ConnInfo) (v : MhdValue) : ConnInfo :=
  if v.kind ≠ .header then { ci with decoderOpts := ci.decoderOpts ++ [none] }
  else
    { ci with
      zlibEnable := ci.zlibEnable || isCompressed v.key v.value
      decoderOpts := ci.decoderOpts ++ [some ⟨v.key, v.value⟩] }

def listenerOptions (httpMethod uri : CStr) (client : Option CStr) : List Pair :=
  [⟨lit "D-HTTP-method", some httpMethod⟩, ⟨lit "D-HTTP-URI", some uri⟩,
    ⟨lit "D-Client-IP", client⟩]

/-- `client` is what the pointer leads to when the attributes are read. -/
def decoderOpts (values : List MhdValue) (httpMethod uri : CStr) (client : Option CStr)
    (ci : ConnInfo) : ConnInfo :=
  let ci := (mhdGetConnectionValues values .header connectionArgsIterator ci).2
  let opts := ci.decoderOpts ++ (listenerOptions httpMethod uri client).map some
  { ci with decoderOpts := opts, decoderParams := opts.reduceOption.foldl addKeyValuePair [] }

def headers (values : List MhdValue) : List MhdValue := values.filter (·.kind = .header)

theorem foldl_connectionArgsIterator (vs : List MhdValue) (h : ∀ v ∈ vs, v.kind = .header)
    (ci : ConnInfo) :
    (vs.foldl connectionArgsIterator ci).decoderOpts =
      ci.decoderOpts ++ vs.map fun v ↦ some ⟨v.key, v.value⟩ := by
  induction vs generalizing ci with
  | nil => simp
  | cons v vs ih =>
    have hv := h v (by simp)
    rw [List.foldl_cons, ih (fun w hw ↦ h w (by simp [hw]))]
    simp [connectionArgsIterator, hv]

/-- Client headers come first, in arrival order, and the listener's own attributes last. -/
theorem decoderParams_decoderOpts (values : List MhdValue) (m u : CStr) (c : Option CStr) :
    (decoderOpts values m u c zeroed).decoderParams =
      (headers values).map (fun v ↦ ⟨v.key, v.value⟩) ++ listenerOptions m u c := by
  have h : ∀ v ∈ headers values, v.kind = .header := by
    intro v hv
    simpa using List.of_mem_filter hv
  have hf := foldl_connectionArgsIterator (headers values) h zeroed
  simp only [decoderOpts, mhdGetConnectionValues, foldl_addKeyValuePair, List.nil_append]
  rw [show values.filter (·.kind = .header) = headers values from rfl, hf]
  simp [zeroed, List.reduceOption, List.filterMap_append, List.filterMap_map]

def firstHeader (values : List MhdValue) (key : CStr) : Option MhdValue :=
  (headers values).find? (·.key = key)

def decoderReads (values : List MhdValue) (m u : CStr) (c : Option CStr) (key : CStr) : Option CStr :=
  valueof (decoderOpts values m u c zeroed).decoderParams key strcmp

theorem decoderReads_eq (values : List MhdValue) (m u : CStr) (c : Option CStr) (key : CStr) :
    decoderReads values m u c key =
      match firstHeader values key with
      | some v => v.value
      | none => valueof (listenerOptions m u c) key strcmp := by
  unfold decoderReads firstHeader
  rw [decoderParams_decoderOpts, valueof_append, List.find?_map]
  simp only [Function.comp_def, strcmp_eq_zero_iff, eq_comm (a := key)]
  cases (headers values).find? (fun v ↦ v.key = key) <;> rfl

theorem valueof_listenerOptions (m u : CStr) (c : Option CStr) (p : Pair)
    (hp : p ∈ listenerOptions m u c) : valueof (listenerOptions m u c) p.key strcmp = p.value := by
  have huri : lit "D-HTTP-URI" ≠ lit "D-HTTP-method" := by decide
  have hip : lit "D-Client-IP" ≠ lit "D-HTTP-method" := by decide
  have hip' : lit "D-Client-IP" ≠ lit "D-HTTP-URI" := by decide
  simp only [listenerOptions, List.mem_cons, List.not_mem_nil, or_false] at hp
  rcases hp with rfl | rfl | rfl <;> simp [listenerOptions, valueof, huri, hip, hip']

/-- No header named like a listener attribute says anything else than the listener itself. -/
def Unforged (values : List MhdValue) (m u : CStr) (c : Option CStr) : Prop :=
  ∀ p ∈ listenerOptions m u c, ∀ v, firstHeader values p.key = some v → v.value = p.value

theorem decoderReads_own_iff (values : List MhdValue) (m u : CStr) (c : Option CStr) :
    (∀ p ∈ listenerOptions m u c, decoderReads values m u c p.key = p.value) ↔
      Unforged values m u c := by
  constructor
  · intro h p hp v hv
    have hp' := h p hp
    rwa [decoderReads_eq, hv] at hp'
  · intro h p hp
    rw [decoderReads_eq]
    cases hv : firstHeader values p.key with
    | none => exact valueof_listenerOptions m u c p hp
    | some v => exact h p hp v hv

/-- The callbacks in which a decoder reads the attributes of a request: `new_session` in the first
one of a POST, `listener_decode` in the later ones and in that of a GET. -/
inductive Callback
  | postInit
  | postLater
  | get
  deriving DecidableEq

/-- The address is text in the `client_buf` of the function that makes the attributes. The later
callbacks of a POST find there what the stack holds by then. -/
def clientAt (callback : Callback) (client : Option CStr) (stack : CStr) : Option CStr :=
  match callback with
  | .postLater => client.map fun _ ↦ stack
  | .postInit | .get => client

def Lasting (callback : Callback) (values : List MhdValue) (client : Option CStr) : Prop :=
  callback = .postLater → client ≠ none → firstHeader values (lit "D-Client-IP") ≠ none

theorem exists_ne (s : CStr) : ∃ t, t ≠ s := by
  by_cases h : s = lit ""
  · exact ⟨lit "a", h ▸ by decide⟩
  · exact ⟨lit "", Ne.symm h⟩

theorem decoderReads_congr {values : List MhdValue} {key : CStr} (m u : CStr) (c c' : Option CStr)
    (h : firstHeader values key ≠ none ∨ key ≠ lit "D-Client-IP") :
    decoderReads values m u c key = decoderReads values m u c' key := by
  rw [decoderReads_eq, decoderReads_eq]
  cases hf : firstHeader values key with
  | some v => rfl
  | none =>
    have hne : key ≠ lit "D-Client-IP" := h.resolve_left (not_not_intro hf)
    simp [listenerOptions, valueof, hne]

theorem decoderReads_clientAt {callback : Callback} {values : List MhdValue} {c : Option CStr}
    (h : Lasting callback values c) (m u : CStr) (stack key : CStr) :
    decoderReads values m u (clientAt callback c stack) key = decoderReads values m u c key := by
  by_cases hlater : callback = .postLater ∧ c ≠ none ∧ key = lit "D-Client-IP"
  · obtain ⟨hcallback, hc, rfl⟩ := hlater
    exact decoderReads_congr m u _ _ (.inl (h hcallback hc))
  · cases callback with
    | postInit | get => rfl
    | postLater =>
      cases c with
      | none => rfl
      | some client =>
        refine decoderReads_congr m u _ _ (.inr fun hk ↦ ?_)
        exact hlater ⟨rfl, Option.some_ne_none client, hk⟩

theorem decoderReads_at_iff (callback : Callback) (values : List MhdValue) (m u : CStr)
    (c : Option CStr) :
    (∀ stack, ∀ p ∈ listenerOptions m u c,
        decoderReads values m u (clientAt callback c stack) p.key = p.value) ↔
      Unforged values m u c ∧ Lasting callback values c := by
  rw [← decoderReads_own_iff]
  constructor
  · intro h
    have hlasting : Lasting callback values c := by
      intro hlater hc hnone
      obtain ⟨client, rfl⟩ := Option.ne_none_iff_exists'.mp hc
      obtain ⟨stack, hstack⟩ := exists_ne client
      have hread := h stack ⟨lit "D-Client-IP", some client⟩ (by simp [listenerOptions])
      have hown := valueof_listenerOptions m u (some stack) ⟨lit "D-Client-IP", some stack⟩
        (by simp [listenerOptions])
      rw [decoderReads_eq, hnone, hlater] at hread
      exact hstack (Option.some.inj (hown.symm.trans hread))
    refine ⟨fun p hp ↦ ?_, hlasting⟩
    rw [← decoderReads_clientAt hlasting m u (lit "") p.key]
    exact h (lit "") p hp
  · intro h stack p hp
    rw [decoderReads_clientAt h.2]
    exact h.1 p hp

/-- Two requests that differ in their client headers only look the same to a decoder, whatever the
stack holds: it reads the listener's own method, URI and address in both, and so takes the same topic
and method check. -/
def SameAttributes (callback : Callback) (v₁ v₂ : List MhdValue) (m u : CStr) (c : Option CStr) :
    Prop :=
  ∀ stack₁ stack₂ : CStr,
    (∀ p ∈ listenerOptions m u c,
      decoderReads v₁ m u (clientAt callback c stack₁) p.key =
        decoderReads v₂ m u (clientAt callback c stack₂) p.key ∧
      decoderReads v₁ m u (clientAt callback c stack₁) p.key = p.value) ∧
    sessionUrlTopic (decoderOpts v₁ m u (clientAt callback c stack₁) zeroed).decoderParams =
      sessionUrlTopic (decoderOpts v₂ m u (clientAt callback c stack₂) zeroed).decoderParams ∧
    methodAllowed (decoderOpts v₁ m u (clientAt callback c stack₁) zeroed).decoderParams =
      methodAllowed (decoderOpts v₂ m u (clientAt callback c stack₂) zeroed).decoderParams

theorem sameAttributes_iff_unforged (callback : Callback) (v₁ v₂ : List MhdValue) (m u : CStr)
    (c : Option CStr) :
    SameAttributes callback v₁ v₂ m u c ↔
      (Unforged v₁ m u c ∧ Lasting callback v₁ c) ∧ (Unforged v₂ m u c ∧ Lasting callback v₂ c) := by
  rw [← decoderReads_at_iff, ← decoderReads_at_iff]
  constructor
  · intro h
    refine ⟨fun stack p hp ↦ ((h stack stack).1 p hp).2, fun stack p hp ↦ ?_⟩
    rw [← ((h stack stack).1 p hp).1, ((h stack stack).1 p hp).2]
  · intro ⟨h₁, h₂⟩ stack₁ stack₂
    have hs : ∀ p ∈ listenerOptions m u c,
        decoderReads v₁ m u (clientAt callback c stack₁) p.key =
          decoderReads v₂ m u (clientAt callback c stack₂) p.key :=
      fun p hp ↦ (h₁ stack₁ p hp).trans (h₂ stack₂ p hp).symm
    have huri := hs ⟨lit "D-HTTP-URI", some u⟩ (by simp [listenerOptions])
    have hmethod := hs ⟨lit "D-HTTP-method", some m⟩ (by simp [listenerOptions])
    refine ⟨fun p hp ↦ ⟨hs p hp, h₁ stack₁ p hp⟩, ?_, ?_⟩
    · exact congrArg (·.bind extractUrlTopic) huri
    · unfold decoderReads at hmethod
      simp only [methodAllowed, hmethod]

theorem forged_uri_changes_topic :
    ¬ SameAttributes .postInit [] [⟨.header, lit "D-HTTP-URI", some (lit "/v1/data/other")⟩]
      (lit "POST") (lit "/v1/data/topic1") (some (lit "10.0.0.1")) := by
  intro h
  obtain ⟨-, h, -⟩ := h (lit "") (lit "")
  revert h
  decide

end N2Kafka.Listener.Connection
