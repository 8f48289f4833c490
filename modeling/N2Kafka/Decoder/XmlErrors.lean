import N2Kafka.Decoder.XmlAllocations

namespace N2Kafka.Decoder.XmlErrors

open Lib.CString Lib.JsonGenerator Util.KafkaMessageArray Decoder.DecoderApi Decoder.Expat
open Decoder.ZzDecoder Decoder.ZzParserXml Decoder.XmlTranslation Decoder.XmlOffsets
open Decoder.XmlNesting Decoder.XmlAllocations
open Util.GrowableString (stringMinSize)

/-- A call of a handler: the session before it, and the bytes left to the loop. -/
structure Delivery where
  left : ℕ
  before : Parsing
  token : Token

variable (env : Env)

def deliveries (left : ℕ) : List Token → Parsing → List Delivery
  | [], _ => []
  | t :: ts, s =>
    let before := { s with expatHandler := { s.expatHandler with position := t.start } }
    ⟨left, before, t⟩ ::
      match xmlHandler env before t.event with
      | none => []
      | some s => if s.expatHandler.stopped then [] else deliveries left ts s

def Delivery.Queues (d : Delivery) : Prop :=
  (reached env d.before d.token.event).httpResponse ≠ []

def Delivery.queued (d : Delivery) : ℕ := XmlAllocations.queued env d.before d.token.event

/-- The assertions of the handler hold, and `string_printf` has room for its answer. -/
structure Delivery.Returns (d : Delivery) : Prop where
  asserts : asserts env d.before d.token.event = true
  short : (answer env d.before d.token.event).length + 1 < stringMinSize

/-- The handler comes back to a loop that can skip to the end of what it got, and its code tells of an
error: an element is too deep, or memory is refused often enough for expat to complain. -/
structure Delivery.Shows (d : Delivery) : Prop extends Delivery.Returns env d where
  code : roomForEvent env.style.maxDepth d.before.stackPos d.token.event = false ∨ 3 ≤ d.queued env
  inside : 0 ≤ d.token.stop.byte ∧ d.token.stop.byte ≤ d.left

def Delivery.Met (d : Delivery) : Prop := d.queued env = 0 ∨ d.Shows env

instance (d : Delivery) : Decidable (d.Met env) :=
  decidable_of_iff (d.queued env = 0 ∨
    (asserts env d.before d.token.event = true ∧
      (answer env d.before d.token.event).length + 1 < stringMinSize) ∧
    (roomForEvent env.style.maxDepth d.before.stackPos d.token.event = false ∨ 3 ≤ d.queued env) ∧
    0 ≤ d.token.stop.byte ∧ d.token.stop.byte ≤ d.left) <| by
    apply or_congr_right
    constructor
    · rintro ⟨⟨hasserts, hshort⟩, hcode, hinside⟩
      exact ⟨⟨hasserts, hshort⟩, hcode, hinside⟩
    · rintro ⟨⟨hasserts, hshort⟩, hcode, hinside⟩
      exact ⟨⟨hasserts, hshort⟩, hcode, hinside⟩

def turnDeliveries (buffer : Bytes) (s : Parsing) : List Delivery :=
  if s.expatHandler.stopped ∨ s.expatHandler.error ≠ .none then []
  else deliveries env buffer.length (env.expat.parse s.expatHandler.fed buffer).tokens s

def runDeliveries : ℕ → Bytes → Parsing → List Delivery
  | 0, _, _ => []
  | fuel + 1, buffer, s =>
    if buffer.length > 0 ∧ s.httpResponse.length = 0 then
      turnDeliveries env buffer s ++
        match turn env buffer s with
        | .aborted | .left _ => []
        | .restart offset s =>
          if 0 ≤ offset ∧ offset ≤ buffer.length then
            runDeliveries fuel (buffer.drop offset.toNat) (zzResetXmlHandler s)
          else []
    else []

variable {env}

def Delivery.Stands (d : Delivery) : Prop :=
  ∃ depth, At depth d.before ∧ d.before.expatHandler.error = .none ∧ Allowed depth d.token.event

def Quiet (env : Env) (ds : List Delivery) : Prop := ∀ d ∈ ds, d.Stands ∧ d.queued env = 0

structure Delivery.Runs (env : Env) (d : Delivery) : Prop where
  stands : d.Stands
  quiet : d.queued env = 0
  running : ∃ s', xmlHandler env d.before d.token.event = some s' ∧ s'.expatHandler.stopped = false

structure Delivery.Last (env : Env) (left : ℕ) (ts : List Token) (d : Delivery) : Prop where
  left_eq : d.left = left
  mem : d.token ∈ ts
  stands : d.Stands
  stops : ∀ s', xmlHandler env d.before d.token.event = some s' → s'.expatHandler.stopped = true

def Delivery.result (env : Env) (d : Delivery) : Option Parsing :=
  (xmlHandler env d.before d.token.event).map fun s ↦
    { s with expatHandler := { s.expatHandler with error := .aborted, position := d.token.stop } }

/-- What comes of events in a session with `depth` open elements, whatever memory there is. -/
inductive Walked (env : Env) (left : ℕ) (ts : List Token) (depth : ℕ) (s : Parsing) :
    Option Parsing → Prop
  | opened (depth' : ℕ) {s' : Parsing} (hruns : ∀ d ∈ deliveries env left ts s, d.Runs env)
      (hreach : reach ts depth = .opened depth') (h : At depth' s')
      (herror : s'.expatHandler.error = .none) : Walked env left ts depth s (some s')
  | last (front : List Delivery) (d : Delivery) (hds : deliveries env left ts s = front ++ [d])
      (hfront : ∀ d ∈ front, d.Runs env) (h : d.Last env left ts) :
      Walked env left ts depth s (d.result env)

section Deliveries

variable {left depth : ℕ} {s s₁ : Parsing} {t : Token} {ts : List Token} {d : Delivery}

theorem Delivery.Stands.queues_iff (h : d.Stands) (env : Env) : d.Queues env ↔ d.queued env ≠ 0 := by
  obtain ⟨depth, hat, herror, hallowed⟩ := h
  rw [Queues, (handled env hat herror _ hallowed).reached, Ne, answer_eq_nil_iff]
  rfl

theorem Delivery.Stands.returns_iff (h : d.Stands) (env : Env) :
    (∃ s', xmlHandler env d.before d.token.event = some s') ↔ d.Returns env := by
  obtain ⟨depth, hat, herror, hallowed⟩ := h
  have hhandled := handled env hat herror _ hallowed
  constructor
  · rintro ⟨s', hs'⟩
    obtain ⟨hs', hshort⟩ := xmlHandler0_of_some hs'
    refine ⟨by rw [← hhandled.returns, hs']; rfl, ?_⟩
    rwa [← (hhandled.behind s' hs').response]
  · intro hreturns
    obtain ⟨s', hs'⟩ := Option.isSome_iff_exists.mp (hhandled.returns.trans hreturns.asserts)
    refine ⟨s', ?_⟩
    rw [xmlHandler, hs', Option.bind_some, printed_eq_some_iff]
    refine ⟨rfl, ?_⟩
    rw [(hhandled.behind s' hs').response]
    exact hreturns.short

theorem Delivery.Stands.runs {depth : ℕ} (hat : At depth d.before)
    (herror : d.before.expatHandler.error = .none) (hallowed : Allowed depth d.token.event)
    (hs₁ : xmlHandler env d.before d.token.event = some s₁) (hrun : s₁.expatHandler.stopped = false) :
    d.queued env = 0 ∧ ¬ EndsRoot depth d.token.event ∧ At (depthAfter depth d.token.event) s₁ ∧
      s₁.expatHandler.error = .none := by
  have hbehind := (handled env hat herror _ hallowed).behind s₁ (xmlHandler0_of_some hs₁).1
  have hquiet : d.queued env = 0 := by
    by_contra hne
    exact absurd (hrun.symm.trans (hbehind.stopped hne)) (by decide)
  cases hbehind.next hquiet with
  | inside hroot hnext herror₁ => exact ⟨hquiet, hroot, hnext, herror₁⟩
  | ended hroot hended => exact absurd (hrun.symm.trans hended.stopped) (by decide)

theorem deliveries_stop (left : ℕ) (ts : List Token) {before : Parsing}
    (hbefore : before = { s with expatHandler := { s.expatHandler with position := t.start } })
    (h : ∀ s', xmlHandler env before t.event = some s' → s'.expatHandler.stopped = true) :
    deliveries env left (t :: ts) s = [⟨left, before, t⟩] ∧
      xmlDeliver env (t :: ts) s = Delivery.result env ⟨left, before, t⟩ := by
  rw [deliveries, xmlDeliver, Delivery.result, ← hbefore]
  cases hs' : xmlHandler env before t.event with
  | none => exact ⟨rfl, rfl⟩
  | some s' => simp [h s' hs']

theorem deliveries_stopped (left : ℕ) (ts : List Token) {before : Parsing}
    (hbefore : before = { s with expatHandler := { s.expatHandler with position := t.start } })
    (hs₁ : xmlHandler env before t.event = some s₁) (hstop : s₁.expatHandler.stopped = true) :
    deliveries env left (t :: ts) s = [⟨left, before, t⟩] ∧
      xmlDeliver env (t :: ts) s = some { s₁ with expatHandler :=
        { s₁.expatHandler with error := .aborted, position := t.stop } } := by
  obtain ⟨hds, hdeliver⟩ := deliveries_stop left ts hbefore fun s' hs' ↦ by
    obtain rfl := Option.some.inj (hs₁.symm.trans hs')
    exact hstop
  rw [Delivery.result, hs₁, Option.map_some] at hdeliver
  exact ⟨hds, hdeliver⟩

theorem deliveries_run (left : ℕ) (ts : List Token) {before : Parsing}
    (hbefore : before = { s with expatHandler := { s.expatHandler with position := t.start } })
    (hs₁ : xmlHandler env before t.event = some s₁) (hrun : s₁.expatHandler.stopped = false) :
    deliveries env left (t :: ts) s = ⟨left, before, t⟩ :: deliveries env left ts s₁ ∧
      xmlDeliver env (t :: ts) s = xmlDeliver env ts s₁ := by
  rw [deliveries, xmlDeliver, ← hbefore, hs₁]
  simp [hrun]

theorem not_le_one_of_not_endsRoot {el : CStr} (hallowed : Allowed depth (.endElement el))
    (hroot : ¬ EndsRoot depth (.endElement el)) : ¬ depth ≤ 1 := by
  intro hle
  exact hroot ⟨le_antisymm hle hallowed, el, rfl⟩

theorem reach_cons (ts : List Token) (hallowed : Allowed depth t.event) (hroot : ¬ EndsRoot depth t.event) :
    reach (t :: ts) depth = reach ts (depthAfter depth t.event) := by
  cases he : t.event with
  | startElement el attr => simp [reach, he, depthAfter]
  | endElement el =>
    rw [he] at hallowed hroot
    simp [reach, he, depthAfter, not_le_one_of_not_endsRoot hallowed hroot]
  | characterData text => simp [reach, he, depthAfter]

theorem allowed_of_nested (h : nested (t :: ts) depth = true) :
    Allowed depth t.event ∧ nested ts (depthAfter depth t.event) = true := by
  cases he : t.event with
  | startElement el attr =>
    simp only [nested, he] at h
    exact ⟨trivial, h⟩
  | endElement el =>
    simp only [nested, he, Bool.and_eq_true, decide_eq_true_eq] at h
    exact h
  | characterData text =>
    simp only [nested, he, Bool.and_eq_true, decide_eq_true_eq] at h
    exact h

theorem walked (env : Env) (left : ℕ) (ts : List Token) (h : At depth s)
    (herror : s.expatHandler.error = .none) (hnested : nested ts depth = true) :
    Walked env left ts depth s (xmlDeliver env ts s) := by
  induction ts generalizing depth s with
  | nil => exact .opened depth (by simp [deliveries]) rfl h herror
  | cons t ts ih =>
    obtain ⟨hallowed, hnested'⟩ := allowed_of_nested hnested
    have hmoved := h.moved t.start
    obtain ⟨before, hbefore⟩ : ∃ before : Parsing,
      before = { s with expatHandler := { s.expatHandler with position := t.start } } := ⟨_, rfl⟩
    rw [← hbefore] at hmoved
    have herror' : before.expatHandler.error = .none := by rwa [hbefore]
    by_cases hstop : ∀ s', xmlHandler env before t.event = some s' → s'.expatHandler.stopped = true
    · obtain ⟨hds, hdeliver⟩ := deliveries_stop left ts hbefore hstop
      rw [hdeliver]
      exact .last [] _ hds (by simp) ⟨rfl, .head _, ⟨depth, hmoved, herror', hallowed⟩, hstop⟩
    · obtain ⟨s₁, hs₁, hrun⟩ : ∃ s₁, xmlHandler env before t.event = some s₁ ∧
          s₁.expatHandler.stopped = false := by simpa using hstop
      obtain ⟨hds, hdeliver⟩ := deliveries_run left ts hbefore hs₁ hrun
      obtain ⟨hquiet, hroot, hnext, herror₁⟩ :=
        Delivery.Stands.runs (d := ⟨left, before, t⟩) hmoved herror' hallowed hs₁ hrun
      have hruns : Delivery.Runs env ⟨left, before, t⟩ :=
        ⟨⟨depth, hmoved, herror', hallowed⟩, hquiet, s₁, hs₁, hrun⟩
      have hreach := reach_cons ts hallowed hroot
      have hrest := ih hnext herror₁ hnested'
      rw [hdeliver]
      generalize xmlDeliver env ts s₁ = r at hrest ⊢
      -- the handler that goes on is put before the others
      cases hrest with
      | opened depth' hrest hreach' hat herror₂ =>
        refine .opened depth' ?_ (hreach.trans hreach') hat herror₂
        rw [hds]
        exact List.forall_mem_cons.mpr ⟨hruns, hrest⟩
      | last front d hrest hfront hlast =>
        refine .last (⟨left, before, t⟩ :: front) d (by rw [hds, hrest]; rfl)
          (List.forall_mem_cons.mpr ⟨hruns, hfront⟩) ?_
        exact ⟨hlast.left_eq, .tail _ hlast.mem, hlast.stands, hlast.stops⟩

end Deliveries

/-- How a turn of the loop ends, and behind which calls of handlers, whatever memory there is. -/
inductive Ends (env : Env) (r : Reader) (buffer : Bytes) (s : Parsing) : Turn → Prop
  | accepted (hruns : ∀ d ∈ turnDeliveries env buffer s, d.Runs env)
      (herror : (env.expat.parse s.expatHandler.fed buffer).error = .none) {depth : ℕ} {s' : Parsing}
      (h : Tracks env.expat ⟨r.fed ++ [buffer], depth⟩ s') : Ends env r buffer s (.left s')
  | wrong (hruns : ∀ d ∈ turnDeliveries env buffer s, d.Runs env)
      (herror : (env.expat.parse s.expatHandler.fed buffer).error ≠ .none) {s' : Parsing}
      (hresponse : s'.httpResponse ≠ []) (hrc : s'.rc ≠ .ok) : Ends env r buffer s (.left s')
  | stuck (front : List Delivery) (d : Delivery) (hds : turnDeliveries env buffer s = front ++ [d])
      (hfront : ∀ d ∈ front, d.Runs env)
      (hlast : d.Last env buffer.length (env.expat.parse s.expatHandler.fed buffer).tokens)
      (hnone : xmlHandler env d.before d.token.event = none)
      (hdeliver : xmlDeliver env (env.expat.parse s.expatHandler.fed buffer).tokens s = none) :
      Ends env r buffer s .aborted
  | root (front : List Delivery) (d : Delivery) (hds : turnDeliveries env buffer s = front ++ [d])
      (hfront : ∀ d ∈ front, d.Runs env)
      (hlast : d.Last env buffer.length (env.expat.parse s.expatHandler.fed buffer).tokens)
      (hreturns : d.Returns env) (hroot : EndsRoot d.before.stackPos d.token.event)
      (hquiet : d.queued env = 0) {next : Turn}
      (hlost : d.token.stop.byte ≤ 0 → ∃ s', next = .left s' ∧ s'.httpResponse ≠ [] ∧ s'.rc ≠ .ok)
      (hended : ¬ d.token.stop.byte ≤ 0 → ∃ s', next = .restart d.token.stop.byte s' ∧
        Tracks env.expat ⟨[], 0⟩ (zzResetXmlHandler s')) : Ends env r buffer s next
  | queued (front : List Delivery) (d : Delivery) (hds : turnDeliveries env buffer s = front ++ [d])
      (hfront : ∀ d ∈ front, d.Runs env)
      (hlast : d.Last env buffer.length (env.expat.parse s.expatHandler.fed buffer).tokens)
      (hreturns : d.Returns env) (hqueued : d.queued env ≠ 0) {s' : Parsing}
      (hresponse : s'.httpResponse ≠ [])
      (hrc : s'.rc = .ok ↔ roomForEvent env.style.maxDepth d.before.stackPos d.token.event = true ∧
        d.queued env < 3) : Ends env r buffer s (.restart d.token.stop.byte s')

section Turns

variable {r : Reader} {s : Parsing} {buffer : Bytes}

theorem ends_last {front : List Delivery} {d : Delivery} {s' : Parsing} {next : Turn}
    (hds : turnDeliveries env buffer s = front ++ [d]) (hfront : ∀ d ∈ front, d.Runs env)
    (hlast : d.Last env buffer.length (env.expat.parse s.expatHandler.fed buffer).tokens)
    (hs' : d.result env = some s')
    (hnext : next = if s'.expatHandler.position.byte ≤ 0 ∧ s'.httpResponse.length = 0 then
        .answered (queueXmlError env (ascii "Can't get parse offset") .ok s')
      else .restart s'.expatHandler.position.byte s') : Ends env r buffer s next := by
  obtain ⟨s₁, hs₁, heq⟩ := Option.map_eq_some_iff.mp hs'
  have hposition : s'.expatHandler.position = d.token.stop := by rw [← heq]
  have hsame : s'.httpResponse = s₁.httpResponse := by rw [← heq]
  rw [hposition] at hnext
  have hreturns := (hlast.stands.returns_iff env).mp ⟨s₁, hs₁⟩
  obtain ⟨depth, hat, herror, hallowed⟩ := hlast.stands
  have hbehind := (handled env hat herror _ hallowed).behind s₁ (xmlHandler0_of_some hs₁).1
  rw [← hat.stackPos] at hbehind
  by_cases hzero : d.queued env = 0
  · cases hbehind.next hzero with
    | inside _ hin _ => exact absurd (hin.running.symm.trans (hlast.stops s₁ hs₁)) (by decide)
    | ended hroot hended =>
      have hended' : Ended s' := by
        rw [← heq]
        exact ⟨hended.stackPos, hended.gen_eq, hended.response, hended.stopped, hended.rc⟩
      refine .root front d hds hfront hlast hreturns hroot hzero ?_ ?_
      · intro hbyte
        rw [if_pos ⟨hbyte, by simp [hended'.response]⟩,
          answered_queueXmlError (by decide) hended'.response] at hnext
        exact ⟨_, hnext, queueXmlError_response _ _ _, queueXmlError_rc _ (by simp [← heq])⟩
      · intro hbyte
        rw [if_neg fun hboth ↦ hbyte hboth.1] at hnext
        exact ⟨s', hnext, tracks_reset hended'⟩
  · have hresponse : s'.httpResponse ≠ [] := by
      rw [hsame, hbehind.response, Ne, answer_eq_nil_iff]
      exact hzero
    rw [if_neg fun hboth ↦ hresponse (List.length_eq_zero_iff.mp hboth.2)] at hnext
    rw [hnext]
    refine .queued front d hds hfront hlast hreturns hzero hresponse ?_
    rw [← heq]
    exact hbehind.rc

theorem ends (hexpat : ReportsNesting env.expat) (h : Tracks env.expat r s) (buffer : Bytes) :
    Ends env r buffer s (turn env buffer s) := by
  have hnested := nested_append (hexpat.nested r.fed buffer) h.reached
  have hds : turnDeliveries env buffer s =
      deliveries env buffer.length (env.expat.parse r.fed buffer).tokens s := by
    rw [turnDeliveries, if_neg (by simp [h.stands.running, h.error]), h.fed]
  have hwalked := walked env buffer.length _ h.stands h.error hnested
  generalize hr : xmlDeliver env (env.expat.parse r.fed buffer).tokens s = result at hwalked
  cases hwalked with
  | opened depth hruns hreach hat =>
    rw [← hds] at hruns
    obtain ⟨s₁, hturn, ⟨herror, htracks⟩ | ⟨herror, hresponse, hrc⟩⟩ := h.turn_opened hexpat hr hreach hat
    · rw [hturn]
      exact .accepted hruns (h.fed.symm ▸ herror) htracks
    · rw [hturn]
      exact .wrong hruns (h.fed.symm ▸ herror) hresponse hrc
  | last front d hlists hfront hlast =>
    rw [← hds] at hlists
    rw [← h.fed] at hlast hr
    cases hresult : d.result env with
    | none =>
      rw [hresult] at hr
      have hturn : turn env buffer s = .aborted := by
        unfold turn xmlParse
        simp only [h.stands.running, h.error, ne_eq, not_true_eq_false, Bool.false_eq_true,
          if_false, hr, Option.map_none]
      rw [hturn]
      exact .stuck front d hlists hfront hlast (Option.map_eq_none_iff.mp hresult) hr
    | some s' =>
      rw [hresult] at hr
      obtain ⟨s₁, hs₁, rfl⟩ := Option.map_eq_some_iff.mp hresult
      exact ends_last hlists hfront hlast hresult
        (turn_stopped h.stands.running h.error hr (hlast.stops s₁ hs₁) rfl)

end Turns

inductive Taken (env : Env) (buffer : Bytes) (s : Parsing) : Turn → Prop
  | asserted (hquiet : Quiet env (turnDeliveries env buffer s)) : Taken env buffer s .aborted
  | opened (r : Reader) {s' : Parsing} (hquiet : Quiet env (turnDeliveries env buffer s))
      (h : Tracks env.expat r s') : Taken env buffer s (.left s')
  | failed {s' : Parsing} (hquiet : Quiet env (turnDeliveries env buffer s))
      (hresponse : s'.httpResponse ≠ []) (hrc : s'.rc ≠ .ok) : Taken env buffer s (.left s')
  | ended (offset : ℤ) {s' : Parsing} (hquiet : Quiet env (turnDeliveries env buffer s))
      (h : Tracks env.expat ⟨[], 0⟩ (zzResetXmlHandler s')) :
      Taken env buffer s (.restart offset s')
  | stuck (hqueues : ∃ d ∈ turnDeliveries env buffer s, d.Queues env)
      (hmet : ¬ ∀ d ∈ turnDeliveries env buffer s, d.Met env) : Taken env buffer s .aborted
  | queued (offset : ℤ) {s' : Parsing} (hqueues : ∃ d ∈ turnDeliveries env buffer s, d.Queues env)
      (hmet : (∀ d ∈ turnDeliveries env buffer s, d.Met env) ↔
        s'.rc ≠ .ok ∧ 0 ≤ offset ∧ offset ≤ buffer.length)
      (hresponse : s'.httpResponse ≠ []) : Taken env buffer s (.restart offset s')

section Loop

variable {r : Reader} {s s' : Parsing} {buffer : Bytes}

theorem taken (hexpat : ReportsNesting env.expat) (h : Tracks env.expat r s) (buffer : Bytes) :
    Taken env buffer s (turn env buffer s) := by
  have hends := ends hexpat h buffer
  generalize turn env buffer s = next at hends ⊢
  have hquiet {ds : List Delivery} (hruns : ∀ d ∈ ds, d.Runs env) : Quiet env ds :=
    fun d hd ↦ ⟨(hruns d hd).stands, (hruns d hd).quiet⟩
  -- only the last call can queue anything
  have hall {front : List Delivery} {d : Delivery} (hds : turnDeliveries env buffer s = front ++ [d])
      (hfront : ∀ d ∈ front, d.Runs env) (hstands : d.Stands) (hzero : d.queued env = 0) :
      Quiet env (turnDeliveries env buffer s) := by
    rw [hds, Quiet, List.forall_mem_append, List.forall_mem_singleton]
    exact ⟨hquiet hfront, hstands, hzero⟩
  have hmet {front : List Delivery} {d : Delivery} (hds : turnDeliveries env buffer s = front ++ [d])
      (hfront : ∀ d ∈ front, d.Runs env) (hqueued : d.queued env ≠ 0) :
      (∀ d ∈ turnDeliveries env buffer s, d.Met env) ↔ d.Shows env := by
    rw [hds, List.forall_mem_append, List.forall_mem_singleton]
    exact (and_iff_right fun d hd ↦ .inl (hfront d hd).quiet).trans (or_iff_right hqueued)
  cases hends with
  | accepted hruns herror htracks => exact .opened _ (hquiet hruns) htracks
  | wrong hruns herror hresponse hrc => exact .failed (hquiet hruns) hresponse hrc
  | stuck front d hds hfront hlast hnone =>
    by_cases hzero : d.queued env = 0
    · exact .asserted (hall hds hfront hlast.stands hzero)
    · refine .stuck ⟨d, by simp [hds], (hlast.stands.queues_iff env).mpr hzero⟩ fun hmet' ↦ ?_
      obtain ⟨s', hs'⟩ := (hlast.stands.returns_iff env).mpr ((hmet hds hfront hzero).mp hmet').toReturns
      cases hnone.symm.trans hs'
  | root front d hds hfront hlast hreturns hroot hzero hlost hended =>
    have hquiet' := hall hds hfront hlast.stands hzero
    by_cases hbyte : d.token.stop.byte ≤ 0
    · obtain ⟨s', rfl, hresponse, hrc⟩ := hlost hbyte
      exact .failed hquiet' hresponse hrc
    · obtain ⟨s', rfl, htracks⟩ := hended hbyte
      exact .ended _ hquiet' htracks
  | queued front d hds hfront hlast hreturns hqueued hresponse hrc =>
    refine .queued _ ⟨d, by simp [hds], (hlast.stands.queues_iff env).mpr hqueued⟩
      ((hmet hds hfront hqueued).trans ?_) hresponse
    rw [Ne, hrc, not_and_or, Bool.not_eq_true, not_lt, ← hlast.left_eq]
    constructor
    · exact fun hshows ↦ ⟨hshows.code, hshows.inside⟩
    · exact fun hboth ↦ ⟨hreturns, hboth.1, hboth.2⟩

variable (env) in
/-- `queue_xml_error` is called in the loop: by a handler, or by the loop itself. -/
def LoopQueues (fuel : ℕ) (buffer : Bytes) (s : Parsing) : Prop :=
  (∃ d ∈ runDeliveries env fuel buffer s, d.Queues env) ∨
    ∃ s', xmlLoop env fuel buffer s = some s' ∧ s'.httpResponse ≠ []

theorem runDeliveries_of_response (fuel : ℕ) (buffer : Bytes) (h : s.httpResponse ≠ []) :
    runDeliveries env fuel buffer s = [] := by
  have hlen : s.httpResponse.length ≠ 0 := by simpa using h
  cases fuel with
  | zero => rfl
  | succ fuel => rw [runDeliveries, if_neg fun hboth ↦ hlen hboth.2]

theorem surfaces_quiet {ds : List Delivery} {result : Option Parsing} (hquiet : Quiet env ds)
    (hresult : ∀ s', result = some s' → s'.httpResponse ≠ [] → s'.rc ≠ .ok) :
    ((∃ d ∈ ds, d.Queues env) ∨ (∃ s', result = some s' ∧ s'.httpResponse ≠ []) →
      ∃ s', result = some s' ∧ s'.rc ≠ .ok) ↔ ∀ d ∈ ds, d.Met env := by
  refine iff_of_true (fun hqueues ↦ ?_) fun d hd ↦ .inl (hquiet d hd).2
  obtain ⟨d, hd, hqueues⟩ | ⟨s', hs', hresponse⟩ := hqueues
  · exact absurd (hquiet d hd).2 (((hquiet d hd).1.queues_iff env).mp hqueues)
  · exact ⟨s', hs', hresult s' hs' hresponse⟩

theorem surfaces_queued {ds : List Delivery} {result : Option Parsing}
    (hqueues : ∃ d ∈ ds, d.Queues env)
    (hresult : (∀ d ∈ ds, d.Met env) ↔ ∃ s', result = some s' ∧ s'.rc ≠ .ok) :
    ((∃ d ∈ ds, d.Queues env) ∨ (∃ s', result = some s' ∧ s'.httpResponse ≠ []) →
      ∃ s', result = some s' ∧ s'.rc ≠ .ok) ↔ ∀ d ∈ ds, d.Met env := by
  rw [hresult]
  exact ⟨fun h ↦ h (.inl hqueues), fun h _ ↦ h⟩

theorem loopQueues_iff_met (hexpat : ReportsNesting env.expat) (fuel : ℕ)
    (h : Tracks env.expat r s) :
    (LoopQueues env fuel buffer s → ∃ s', xmlLoop env fuel buffer s = some s' ∧ s'.rc ≠ .ok) ↔
      ∀ d ∈ runDeliveries env fuel buffer s, d.Met env := by
  induction fuel generalizing r s buffer with
  | zero =>
    refine surfaces_quiet (show Quiet env [] by simp [Quiet]) ?_
    rintro s' ⟨⟩ hresponse
    exact absurd h.stands.response hresponse
  | succ fuel ih =>
    rw [LoopQueues, xmlLoop_succ, runDeliveries]
    by_cases hrun : buffer.length > 0 ∧ s.httpResponse.length = 0
    · rw [if_pos hrun, if_pos hrun]
      have htaken := taken hexpat h buffer
      generalize turn env buffer s = next at htaken ⊢
      cases htaken with
      | asserted hquiet =>
        dsimp only
        rw [List.append_nil]
        apply surfaces_quiet hquiet
        simp
      | opened r' hquiet htracks =>
        dsimp only
        rw [List.append_nil]
        apply surfaces_quiet hquiet
        rintro s' ⟨⟩ hresponse
        exact absurd htracks.stands.response hresponse
      | failed hquiet hresponse hrc =>
        dsimp only
        rw [List.append_nil]
        apply surfaces_quiet hquiet
        rintro s' ⟨⟩ -
        exact hrc
      | ended offset hquiet htracks =>
        dsimp only
        have hmet : ∀ d ∈ turnDeliveries env buffer s, d.Met env := fun d hd ↦ .inl (hquiet d hd).2
        by_cases hinside : 0 ≤ offset ∧ offset ≤ buffer.length
        · rw [if_pos hinside, if_pos hinside, List.forall_mem_append, and_iff_right hmet,
            ← ih htracks, LoopQueues]
          have hsilent : ¬ ∃ d ∈ turnDeliveries env buffer s, d.Queues env := by
            rintro ⟨d, hd, hqueues⟩
            exact ((hquiet d hd).1.queues_iff env).mp hqueues (hquiet d hd).2
          simp only [List.mem_append, or_and_right, exists_or, hsilent, false_or]
        · rw [if_neg hinside, if_neg hinside, List.append_nil]
          apply surfaces_quiet hquiet
          simp
      | stuck hqueues hmet =>
        dsimp only
        rw [List.append_nil]
        apply surfaces_queued hqueues
        exact iff_of_false hmet (by simp)
      | queued offset hqueues hmet hresponse =>
        dsimp only
        by_cases hinside : 0 ≤ offset ∧ offset ≤ buffer.length
        · have hreset : (zzResetXmlHandler _).httpResponse ≠ [] := hresponse
          rw [if_pos hinside, if_pos hinside, runDeliveries_of_response _ _ hreset,
            List.append_nil, xmlLoop_of_response _ _ hreset]
          apply surfaces_queued hqueues
          rw [hmet]
          constructor
          · exact fun hshows ↦ ⟨_, rfl, hshows.1⟩
          · rintro ⟨s₁, ⟨⟩, hrc⟩
            exact ⟨hrc, hinside⟩
        · rw [if_neg hinside, if_neg hinside, List.append_nil]
          apply surfaces_queued hqueues
          exact iff_of_false (fun hall ↦ hinside (hmet.mp hall).2) (by simp)
    · rw [if_neg hrun, if_neg hrun]
      refine surfaces_quiet (show Quiet env [] by simp [Quiet]) ?_
      rintro s' ⟨⟩ hresponse
      exact absurd h.stands.response hresponse

/-- As long as no error is queued, the session stands where the documents do. -/
theorem loop_tracks (hexpat : ReportsNesting env.expat) (fuel : ℕ) (h : Tracks env.expat r s)
    (hs' : xmlLoop env fuel buffer s = some s') (hresponse : s'.httpResponse = []) :
    ∃ r', Tracks env.expat r' s' := by
  induction fuel generalizing r s buffer with
  | zero =>
    obtain rfl := Option.some.inj hs'
    exact ⟨r, h⟩
  | succ fuel ih =>
    rw [xmlLoop_succ] at hs'
    split at hs'
    · have htaken := taken hexpat h buffer
      generalize turn env buffer s = next at htaken hs'
      -- behind an answer the loop ends at once
      have hanswered {offset : ℤ} {s₁ : Parsing} (hne : s₁.httpResponse ≠ [])
          (hs₁ : (if 0 ≤ offset ∧ offset ≤ buffer.length then
            xmlLoop env fuel (buffer.drop offset.toNat) (zzResetXmlHandler s₁) else none) = some s') :
          ∃ r', Tracks env.expat r' s' := by
        split at hs₁
        · have hreset : (zzResetXmlHandler s₁).httpResponse ≠ [] := hne
          rw [xmlLoop_of_response _ _ hreset] at hs₁
          obtain rfl := Option.some.inj hs₁
          exact absurd hresponse hne
        · cases hs₁
      cases htaken with
      | asserted hquiet => cases hs'
      | opened r' hquiet htracks =>
        obtain rfl := Option.some.inj hs'
        exact ⟨r', htracks⟩
      | failed hquiet hne hrc =>
        obtain rfl := Option.some.inj hs'
        exact absurd hresponse hne
      | ended offset hquiet htracks =>
        dsimp only at hs'
        split at hs'
        · exact ih htracks hs'
        · cases hs'
      | stuck hqueues hmet => cases hs'
      | queued offset hqueues hmet hne => exact hanswered hne hs'
    · obtain rfl := Option.some.inj hs'
      exact ⟨r, h⟩

end Loop

/-- The sessions that chunks lead to, under any memory, the messages of each being handed over
before the next. -/
inductive Reachable (expat : Library) : ZzSession ZzXmlSession → Prop
  | new : Reachable expat newZzSessionXml
  | chunk {session : ZzSession ZzXmlSession} {processed : Processed ZzXmlSession}
      (h : Reachable expat session) (env : Env) (henv : env.expat = expat) (buffer : Bytes)
      (hp : processXmlBuffer env buffer session = some processed) :
      Reachable expat { processed.session with kafkaMsgs := .initializer }

theorem Reachable.tracks {expat : Library} (hexpat : ReportsNesting expat)
    {session : ZzSession ZzXmlSession} (h : Reachable expat session)
    (hresponse : session.httpResponse = []) (env : Env) :
    ∃ r, Tracks expat r (enterXmlChunk env session) := by
  induction h generalizing env with
  | new => exact ⟨⟨[], 0⟩, rfl, rfl, rfl, ⟨rfl, .nothing, rfl, rfl, rfl⟩⟩
  | @chunk session processed hsession env' henv buffer hp ih =>
    obtain ⟨s, hs, rfl⟩ := Option.map_eq_some_iff.mp hp
    have hs_response : s.httpResponse = [] := hresponse
    obtain rfl := henv
    by_cases hbefore : session.httpResponse = []
    · obtain ⟨r, htracks⟩ := ih hbefore env'
      obtain ⟨r', hfed, herror, hreached, hat⟩ := loop_tracks hexpat _ htracks hs hs_response
      exact ⟨r', hfed, herror, hreached,
        ⟨hat.stackPos, hat.elements, hat.response, hat.running, hat.rc⟩⟩
    · have hentered : (enterXmlChunk env' session).httpResponse ≠ [] := hbefore
      rw [xmlLoop_of_response _ _ hentered] at hs
      obtain rfl := Option.some.inj hs
      exact absurd hs_response hentered

def chunkDeliveries (env : Env) (buffer : Bytes) (session : ZzSession ZzXmlSession) :
    List Delivery :=
  runDeliveries env buffer.length buffer (enterXmlChunk env session)

/-- `queue_xml_error` is called while a chunk is processed: by a handler, or by the loop, which then
returns with a longer answer. -/
def QueuesError (env : Env) (buffer : Bytes) (session : ZzSession ZzXmlSession) : Prop :=
  (∃ d ∈ chunkDeliveries env buffer session, d.Queues env) ∨
    ∃ processed, processXmlBuffer env buffer session = some processed ∧
      processed.session.httpResponse ≠ session.httpResponse

/-- An error that is queued shows in the code that is returned. -/
def Surfaces (env : Env) (buffer : Bytes) (session : ZzSession ZzXmlSession) : Prop :=
  QueuesError env buffer session →
    ∃ processed, processXmlBuffer env buffer session = some processed ∧ processed.rc ≠ .ok

def scarceEnv (n : ℕ) : Env := ⟨strictExpat, Yajl.yajlStyle, fun k ↦ k < n, false⟩

end N2Kafka.Decoder.XmlErrors
