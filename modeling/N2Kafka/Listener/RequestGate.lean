import Mathlib.Data.List.Induction
import N2Kafka.Listener.PostConnection

namespace N2Kafka.Listener.RequestGate

open Lib.CString Decoder.DecoderApi Listener.Connection Listener.HttpAuth Listener.Http

variable (l : HttpListener)

/-- The checks that the configuration of a listener asks for have all been passed. -/
def Passed (tr : List Event) : Prop :=
  (l.htpasswd.isSome → .authenticate true ∈ tr) ∧
    (l.clientTlsCert → .validClientCertificate true ∈ tr)

/-- Every decoder call of a trace comes after the configured checks. -/
def Gated (tr : List Event) : Prop :=
  ∀ i buffer response session, tr[i]? = some (.decode buffer response session) →
    Passed l (tr.take i)

/-- Events that neither touch the cell nor a session nor reach the decoder. -/
def Quiet : Event → Prop
  | .decode .. | .use .. | .deleteSession _ | .newSession _ true => False
  | _ => True

variable {l}

theorem Passed.mono {s t : List Event} (h : Passed l s) (hst : s ⊆ t) : Passed l t :=
  ⟨fun ha ↦ hst (h.1 ha), fun hc ↦ hst (h.2 hc)⟩

theorem Gated.append {s t : List Event} (h : Gated l s)
    (ht : ∀ buffer response session, .decode buffer response session ∈ t → Passed l s) :
    Gated l (s ++ t) := by
  intro i buffer response session hi
  by_cases hlt : i < s.length
  · rw [List.getElem?_append_left hlt] at hi
    rw [List.take_append_of_le_length hlt.le]
    exact h i buffer response session hi
  · rw [List.getElem?_append_right (by omega)] at hi
    refine (ht buffer response session (List.mem_of_getElem? hi)).mono ?_
    rw [List.take_append, List.take_of_length_le (by omega)]
    exact List.subset_append_left _ _

variable (l)

/-- What a callback on an empty cell leads to: the cell stays empty, or the callback never comes
back, or all checks were passed and a connection was opened. -/
inductive Init (r : Request) : Request → Prop
  | refused (es : List Event) (n : ℕ) (hq : ∀ e ∈ es, Quiet e) (hn : r.next ≤ n) :
      Init r { r with trace := r.trace ++ es, next := n }
  | stuck (es : List Event) (hq : ∀ e ∈ es, Quiet e) :
      Init r { r with trace := r.trace ++ es, stuck := true }
  | opened (es : List Event) (b : Block) (hq : ∀ e ∈ es, Quiet e) (hp : Passed l es)
      (hb : b.session = l.decoder.newSession) :
      Init r { r with
        trace := r.trace ++ es ++ if l.decoder.newSession then [.newSession r.next true] else []
        cell := .info r.next
        heap := Function.update r.heap r.next (some b)
        next := r.next + 1 }

theorem passed_checkEvents : Passed l (PostConnection.checkEvents l) := by
  unfold PostConnection.checkEvents PostConnection.certificateEvents PostConnection.passwordEvents
  constructor
  · intro hauth
    simp [hauth]
  · intro hcert
    simp [hcert]

theorem quiet_of_check {e : Event} (h : PostConnection.Check e) : Quiet e := by
  cases e <;> trivial

theorem quiet_made (e : Env) (ci : ConnInfo) (id : ℕ) :
    ∀ ev ∈ PostConnection.checkEvents l ++ PostConnection.inflateEvents e ci id, Quiet ev := by
  intro ev hev
  obtain hev | hev := List.mem_append.mp hev
  · exact quiet_of_check (PostConnection.check_checkEvents l ev hev)
  · unfold PostConnection.inflateEvents at hev
    split at hev <;> simp at hev
    simp [hev, Quiet]

theorem handleHttpPostInit_init (e : Env) (url method : CStr) (r : Request)
    (hcell : r.cell = .null) : Init l r (handleHttpPostInit l e url method r).1 := by
  have hinit := @PostConnection.handleHttpPostInit_init l r e url method hcell
  generalize (handleHttpPostInit l e url method r).1 = r' at hinit ⊢
  cases hinit with
  | refused es hes =>
    exact .refused es r.next (fun ev hev ↦ quiet_of_check (hes ev hev)) le_rfl
  | stuck es hes => exact .stuck es fun ev hev ↦ quiet_of_check (hes ev hev)
  | rejected ha hs =>
    have hrc : l.decoder.newSession = true ∧ e.newSessionRc ≠ 0 := by
      simpa [PostConnection.Accepted] using hs
    refine .refused _ (r.next + 1) ?_ (Nat.le_succ _)
    intro ev hev
    obtain hev | hev := List.mem_append.mp hev
    · exact quiet_made l e _ _ ev hev
    · simp only [PostConnection.sessionEvents, hrc, if_true, List.mem_singleton] at hev
      simp [hev, Quiet]
  | opened ha hs =>
    have hp := (passed_checkEvents l).mono
      (List.subset_append_left _ (PostConnection.inflateEvents e
        (PostConnection.connInfo l e url method) r.next))
    have h := Init.opened (r := r) _ ⟨PostConnection.connInfo l e url method, l.decoder.newSession⟩
      (quiet_made l e _ _) hp rfl
    have hsession : PostConnection.sessionEvents l e r.next =
        if l.decoder.newSession then [.newSession r.next true] else [] := by
      unfold PostConnection.sessionEvents
      split
      · rename_i hn
        simp [hs hn]
      · rfl
    simpa [hsession, Request.log] using h

structure Served (r : Request) (id : ℕ) (b : Block) (r' : Request) : Prop where
  cell : r'.cell = r.cell
  stuck : r'.stuck = r.stuck
  block : ∃ b', r'.heap id = some b' ∧ b'.session = b.session
  tr : ∃ fn es, r'.trace = r.trace ++ .use fn (r.cellGood l) :: es ∧
    ∀ e ∈ es, (∃ buffer response session, e = .decode buffer response session) ∨
      ∃ code body, e = .respond code body

variable {l}

theorem cellGood_info {r : Request} {id : ℕ} {b : Block} (hcell : r.cell = .info id)
    (hb : r.heap id = some b) (hs : b.session = l.decoder.newSession) : r.cellGood l = true := by
  simp only [Request.cellGood, Request.block, hcell, hb, hs]
  cases l.decoder.newSession <;> rfl

theorem served_of_postConnection {r r' : Request} {id : ℕ} {b : Block}
    (h : PostConnection.Served l r id b r') : Served l r id b r' := by
  obtain ⟨ci, -, hheap⟩ := h.heap
  obtain ⟨fn, es, htrace, hes⟩ := h.trace
  refine ⟨h.cell, h.stuck, ⟨⟨ci, b.session⟩, ?_, rfl⟩, fn, es, htrace, ?_⟩
  · rw [hheap, Function.update_self]
  · intro ev hev
    have hserving := hes ev hev
    cases ev with
    | decode buffer response session => exact .inl ⟨_, _, _, rfl⟩
    | respond code body => exact .inr ⟨_, _, rfl⟩
    | _ => cases hserving

variable (l)

structure PostInv (r : Request) : Prop where
  cell : r.cell = .null ∨ ∃ id b, r.cell = .info id ∧ r.heap id = some b ∧
    b.session = l.decoder.newSession
  gated : Gated l r.trace
  passed : r.cell ≠ .null → Passed l r.trace
  uses : ∀ fn good, .use fn good ∈ r.trace → good = true
  sessions : ∀ id, r.trace.count (.newSession id true) =
    if r.cell = .info id ∧ l.decoder.newSession then 1 else 0
  undeleted : ∀ id, .deleteSession id ∉ r.trace
  stuck : r.stuck → r.cell = .null

theorem postInv_fresh : PostInv l .fresh where
  cell := .inl rfl
  gated := by intro i buffer response session h; simp [Request.fresh] at h
  passed := fun h ↦ absurd rfl h
  uses := by simp [Request.fresh]
  sessions := by simp [Request.fresh]
  undeleted := by simp [Request.fresh]
  stuck := by simp [Request.fresh]

variable {l}

theorem Quiet.not_mem {es : List Event} (hq : ∀ e ∈ es, Quiet e) {e : Event} (he : ¬ Quiet e) :
    e ∉ es := fun h ↦ he (hq e h)

theorem PostInv.quiet {r : Request} (h : PostInv l r) (hcell : r.cell = .null) {es : List Event}
    (hq : ∀ e ∈ es, Quiet e) :
    Gated l (r.trace ++ es) ∧ (∀ fn good, .use fn good ∈ r.trace ++ es → good = true) ∧
      (∀ id, (r.trace ++ es).count (.newSession id true) = 0) ∧
      ∀ id, .deleteSession id ∉ r.trace ++ es := by
  have hnone : ∀ id, r.trace.count (.newSession id true) = 0 := by
    intro id
    simpa [hcell] using h.sessions id
  refine ⟨h.gated.append ?_, ?_, ?_, ?_⟩
  · intro buffer response session hm
    exact absurd hm (Quiet.not_mem hq (by simp [Quiet]))
  · intro fn good hm
    rcases List.mem_append.mp hm with hm | hm
    · exact h.uses fn good hm
    · exact absurd hm (Quiet.not_mem hq (by simp [Quiet]))
  · intro id
    rw [List.count_append, hnone,
      List.count_eq_zero.mpr (Quiet.not_mem hq (by simp [Quiet]))]
  · intro id hm
    rcases List.mem_append.mp hm with hm | hm
    · exact h.undeleted id hm
    · exact Quiet.not_mem hq (by simp [Quiet]) hm

theorem PostInv.init {r r' : Request} (h : PostInv l r) (hcell : r.cell = .null)
    (hrun : r.stuck = false) (hi : Init l r r') : PostInv l r' := by
  cases hi with
  | refused es n hq hn =>
    obtain ⟨hg, hu, hs, hd⟩ := h.quiet hcell hq
    exact ⟨h.cell, hg, fun hc ↦ absurd hcell hc, hu, by simpa [hcell] using hs, hd,
      fun _ ↦ hcell⟩
  | stuck es hq =>
    obtain ⟨hg, hu, hs, hd⟩ := h.quiet hcell hq
    exact ⟨h.cell, hg, fun hc ↦ absurd hcell hc, hu, by simpa [hcell] using hs, hd,
      fun _ ↦ hcell⟩
  | opened es b hq hp hb =>
    obtain ⟨hg, hu, hs, hd⟩ := h.quiet hcell hq
    refine ⟨.inr ⟨r.next, b, rfl, by simp, hb⟩, ?_, ?_, ?_, ?_, ?_, ?_⟩
    · refine hg.append ?_
      intro buffer response session hm
      split at hm <;> simp at hm
    · intro _
      refine hp.mono ?_
      simp
    · intro fn good hm
      rcases List.mem_append.mp hm with hm | hm
      · exact hu fn good hm
      · split at hm <;> simp at hm
    · intro id
      rw [List.count_append, hs, Nat.zero_add]
      by_cases hd : l.decoder.newSession
      · by_cases hid : r.next = id
        · simp [hd, hid]
        · simp [hd, hid]
      · simp [hd]
    · intro id hm
      rcases List.mem_append.mp hm with hm | hm
      · exact hd id hm
      · split at hm <;> simp at hm
    · intro hstuck
      exact absurd hstuck (by simp [hrun])

theorem PostInv.served {r r' : Request} (h : PostInv l r) {id : ℕ} {b : Block}
    (hcell : r.cell = .info id) (hb : r.heap id = some b)
    (hs : b.session = l.decoder.newSession) (hrun : r.stuck = false) (hr : Served l r id b r') :
    PostInv l r' := by
  obtain ⟨fn, es, htr, hes⟩ := hr.tr
  obtain ⟨b', hb', hs'⟩ := hr.block
  have hgood := cellGood_info hcell hb hs
  have hpassed := h.passed (by simp [hcell])
  have hnot {e : Event} (hd : ∀ buffer response session, e ≠ .decode buffer response session)
      (hresp : ∀ code body, e ≠ .respond code body) : e ∉ es := by
    intro hm
    rcases hes e hm with ⟨buffer, response, session, he⟩ | ⟨code, body, he⟩
    · exact hd _ _ _ he
    · exact hresp _ _ he
  refine ⟨.inr ⟨id, b', hr.cell.trans hcell, hb', hs'.trans hs⟩, ?_, ?_, ?_, ?_, ?_, ?_⟩
  · rw [htr]
    exact h.gated.append fun _ _ _ _ ↦ hpassed
  · intro _
    rw [htr]
    exact hpassed.mono (List.subset_append_left _ _)
  · intro fn' good hm
    rw [htr, hgood] at hm
    rcases List.mem_append.mp hm with hm | hm
    · exact h.uses fn' good hm
    · rcases List.mem_cons.mp hm with hm | hm
      · exact (Event.use.inj hm).2
      · exact absurd hm (hnot (by simp) (by simp))
  · intro id'
    have hzero : es.count (.newSession id' true) = 0 :=
      List.count_eq_zero.mpr (hnot (by simp) (by simp))
    rw [htr, List.count_append, List.count_cons_of_ne (by simp), hzero, h.sessions id', hr.cell,
      Nat.add_zero]
  · intro id' hm
    rw [htr] at hm
    rcases List.mem_append.mp hm with hm | hm
    · exact h.undeleted id' hm
    · rcases List.mem_cons.mp hm with hm | hm
      · cases hm
      · exact hnot (by simp) (by simp) hm
  · intro hstuck
    rw [hr.stuck, hrun] at hstuck
    cases hstuck

theorem PostInv.step {r : Request} (h : PostInv l r) (hrun : r.stuck = false) (e : Env)
    (url method : CStr) (upload : Bytes) : PostInv l (handlePost l e url method upload r).1 := by
  unfold handlePost
  rcases h.cell with hcell | ⟨id, b, hcell, hb, hs⟩
  · rw [if_pos hcell]
    exact h.init hcell hrun (handleHttpPostInit_init l e url method r hcell)
  · rw [if_neg (by simp [hcell])]
    split
    · exact h.served hcell hb hs hrun (served_of_postConnection
        (PostConnection.handleHttpPostChunk_served l e upload hcell hb))
    · exact h.served hcell hb hs hrun (served_of_postConnection
        (PostConnection.handlePostEnd_served l e hcell hb))

def isPost (method : CStr) : Prop := method = lit "POST"

def isGet (method : CStr) : Prop := method = lit "GET"

theorem handleRequest_post {method : CStr} (hm : isPost method) (e : Env) (url : CStr)
    (upload : Bytes) (r : Request) :
    handleRequest l e url method upload r = handlePost l e url method upload r := by
  rw [handleRequest, if_pos ((strcmp_eq_zero_iff _ _).mpr hm)]

theorem handleRequest_get {method : CStr} (hm : isGet method) (e : Env) (url : CStr)
    (upload : Bytes) (r : Request) :
    handleRequest l e url method upload r = handleGet e upload r := by
  have hp : ¬ strcmp method (lit "POST") = 0 := by
    rw [strcmp_eq_zero_iff, show method = lit "GET" from hm]
    decide
  rw [handleRequest, if_neg hp, if_pos ((strcmp_eq_zero_iff _ _).mpr hm)]

theorem handleRequest_other {method : CStr} (hp : ¬ isPost method) (hg : ¬ isGet method) (e : Env)
    (url : CStr) (upload : Bytes) (r : Request) :
    handleRequest l e url method upload r =
      (r.log [.respond mhdHttpMethodNotAllowed none], e.queued) := by
  rw [handleRequest, if_neg (mt (strcmp_eq_zero_iff _ _).mp hp),
    if_neg (mt (strcmp_eq_zero_iff _ _).mp hg)]

theorem calls_concat (url method : CStr) (cs : List Call) (c : Call) (r : Request) :
    calls l url method (cs ++ [c]) r =
      if (calls l url method cs r).stuck then calls l url method cs r
      else (handleRequest l c.env url method c.upload (calls l url method cs r)).1 := by
  rw [calls, List.foldl_append]
  rfl

theorem calls_post {method : CStr} (hm : isPost method) (url : CStr) (cs : List Call) :
    PostInv l (calls l url method cs .fresh) := by
  induction cs using List.reverseRecOn with
  | nil => exact postInv_fresh l
  | append_singleton cs c ih =>
    rw [calls_concat]
    split
    · exact ih
    · rename_i hrun
      rw [handleRequest_post hm]
      exact ih.step (by simpa using hrun) c.env url method c.upload

/-- Holds between the callbacks of a GET request: the cell alternates between empty and the marker
value, and the decoder is reached from the second call on. -/
structure GetInv (n : ℕ) (r : Request) : Prop where
  running : r.stuck = false
  cell : r.cell = if n % 2 = 0 then .null else .marker
  events : ∀ e ∈ r.trace, (∃ buffer, e = .decode buffer true false) ∨
    ∃ code body, e = .respond code body
  silent : n < 2 → r.trace = []
  decoded : 2 ≤ n → ∃ buffer rest, r.trace = .decode buffer true false :: rest

theorem calls_get {method : CStr} (hm : isGet method) (url : CStr) (cs : List Call) :
    GetInv cs.length (calls l url method cs .fresh) := by
  induction cs using List.reverseRecOn with
  | nil => exact ⟨rfl, rfl, by simp [calls, Request.fresh], fun _ ↦ rfl, by simp⟩
  | append_singleton cs c ih =>
    rw [calls_concat, if_neg (by simp [ih.running]), handleRequest_get hm, List.length_append,
      List.length_singleton]
    by_cases hn : cs.length % 2 = 0
    · have hcell : (calls l url method cs .fresh).cell = .null := by rw [ih.cell, if_pos hn]
      have hn' : ¬ (cs.length + 1) % 2 = 0 := by omega
      simp only [handleGet, hcell, if_true]
      refine ⟨ih.running, by rw [if_neg hn'], ih.events, fun h ↦ ih.silent (by omega), fun h ↦ ?_⟩
      exact ih.decoded (by omega)
    · have hcell : (calls l url method cs .fresh).cell = .marker := by rw [ih.cell, if_neg hn]
      have hn' : (cs.length + 1) % 2 = 0 := by omega
      have hfirst {es : List Event} : ∃ buffer rest, (calls l url method cs .fresh).trace ++
          (.decode c.upload true false :: es) = .decode buffer true false :: rest := by
        by_cases h2 : 2 ≤ cs.length
        · obtain ⟨buffer, rest, h⟩ := ih.decoded h2
          exact ⟨buffer, _, by rw [h, List.cons_append]⟩
        · exact ⟨c.upload, es, by rw [ih.silent (by omega), List.nil_append]⟩
      have hevents {code : ℕ} {body : Option Bytes} : ∀ e ∈ (calls l url method cs .fresh).trace ++
          [.decode c.upload true false, .respond code body],
          (∃ buffer, e = .decode buffer true false) ∨ ∃ code body, e = .respond code body := by
        intro e he
        rcases List.mem_append.mp he with he | he
        · exact ih.events e he
        · rcases List.mem_cons.mp he with rfl | he
          · exact .inl ⟨_, rfl⟩
          · exact .inr ⟨code, body, List.mem_singleton.mp he⟩
      simp only [handleGet, hcell, reduceCtorEq, if_false]
      split <;>
      · refine ⟨ih.running, by rw [if_pos hn']; rfl, ?_, by omega, fun _ ↦ ?_⟩
        · simpa [Request.log] using hevents
        · simpa [Request.log] using hfirst

theorem calls_other {method : CStr} (hp : ¬ isPost method) (hg : ¬ isGet method) (url : CStr)
    (cs : List Call) :
    (calls l url method cs .fresh).stuck = false ∧ (calls l url method cs .fresh).cell = .null ∧
      ∀ e ∈ (calls l url method cs .fresh).trace, ∃ code body, e = .respond code body := by
  induction cs using List.reverseRecOn with
  | nil => exact ⟨rfl, rfl, by simp [calls, Request.fresh]⟩
  | append_singleton cs c ih =>
    obtain ⟨hstuck, hcell, hev⟩ := ih
    rw [calls_concat, if_neg (by simp [hstuck]), handleRequest_other hp hg]
    refine ⟨hstuck, hcell, fun e he ↦ ?_⟩
    rcases List.mem_append.mp he with he | he
    · exact hev e he
    · exact ⟨_, _, List.mem_singleton.mp he⟩

theorem requestCompleted_null {r : Request} (h : r.cell = .null) : requestCompleted l r = r := by
  simp [requestCompleted, h]

theorem requestCompleted_marker {r : Request} (h : r.cell = .marker) :
    (requestCompleted l r).trace = r.trace ++ [.use .requestCompleted false] := by
  simp [requestCompleted, Request.cellGood, Request.block, Request.log, h]

theorem requestCompleted_info {r : Request} {id : ℕ} {b : Block} (hcell : r.cell = .info id)
    (hb : r.heap id = some b) (hs : b.session = l.decoder.newSession) :
    (requestCompleted l r).trace = r.trace ++ (.use .requestCompleted true ::
      (if l.decoder.newSession then [.deleteSession id] else []) ++
      if b.info.zlibEnable then [.inflateEnd id] else []) := by
  have hgood := cellGood_info hcell hb hs
  have hp := l.decoder.paired
  simp only [requestCompleted, hcell, hgood]
  cases hz : b.info.zlibEnable <;> cases hn : l.decoder.newSession <;>
    simp [Request.log, hb, hz, hn, ← hp]

theorem request_get_even {method : CStr} (hm : isGet method) (url : CStr) {cs : List Call}
    (hn : cs.length % 2 = 0) :
    (request l url method cs).trace = (calls l url method cs .fresh).trace := by
  have inv := calls_get (l := l) hm url cs
  rw [request, if_neg (by simp [inv.running]),
    requestCompleted_null (by rw [inv.cell, if_pos hn])]

theorem request_get_odd {method : CStr} (hm : isGet method) (url : CStr) {cs : List Call}
    (hn : ¬ cs.length % 2 = 0) :
    (request l url method cs).trace =
      (calls l url method cs .fresh).trace ++ [.use .requestCompleted false] := by
  have inv := calls_get (l := l) hm url cs
  rw [request, if_neg (by simp [inv.running]),
    requestCompleted_marker (by rw [inv.cell, if_neg hn])]

theorem request_get {method : CStr} (hm : isGet method) (url : CStr) (cs : List Call) :
    ∃ es, (request l url method cs).trace = (calls l url method cs .fresh).trace ++ es ∧
      ∀ buffer response session, .decode buffer response session ∉ es := by
  by_cases hn : cs.length % 2 = 0
  · exact ⟨[], by rw [request_get_even hm url hn, List.append_nil], by simp⟩
  · exact ⟨_, request_get_odd hm url hn, by simp⟩

theorem request_other {method : CStr} (hp : ¬ isPost method) (hg : ¬ isGet method) (url : CStr)
    (cs : List Call) :
    ∀ e ∈ (request l url method cs).trace, ∃ code body, e = .respond code body := by
  obtain ⟨hstuck, hcell, hev⟩ := calls_other (l := l) hp hg url cs
  rwa [request, if_neg (by simp [hstuck]), requestCompleted_null hcell]

theorem request_post {method : CStr} (hm : isPost method) (url : CStr) (cs : List Call) :
    (request l url method cs).trace = (calls l url method cs .fresh).trace ∧
        (calls l url method cs .fresh).cell = .null ∨
      ∃ id, ∃ b : Bool, (calls l url method cs .fresh).cell = .info id ∧
        (request l url method cs).trace = (calls l url method cs .fresh).trace ++
          (.use .requestCompleted true :: (if l.decoder.newSession then [.deleteSession id] else []) ++
            if b then [.inflateEnd id] else []) := by
  have inv := calls_post (l := l) hm url cs
  rcases inv.cell with hcell | ⟨id, b, hcell, hb, hs⟩
  · refine .inl ⟨?_, hcell⟩
    rw [request]
    split
    · rfl
    · rw [requestCompleted_null hcell]
  · have hrun : ¬ (calls l url method cs .fresh).stuck := by
      intro h
      rw [inv.stuck h] at hcell
      cases hcell
    refine .inr ⟨id, b.info.zlibEnable, hcell, ?_⟩
    rw [request, if_neg hrun, requestCompleted_info hcell hb hs]

theorem gated_of_no_decode {tr : List Event}
    (h : ∀ buffer response session, .decode buffer response session ∉ tr) : Gated l tr :=
  fun _ _ _ _ hi ↦ absurd (List.mem_of_getElem? hi) (h _ _ _)

theorem request_post_gated {method : CStr} (hm : isPost method) (url : CStr) (cs : List Call) :
    Gated l (request l url method cs).trace := by
  have inv := calls_post (l := l) hm url cs
  rcases request_post (l := l) hm url cs with ⟨htr, -⟩ | ⟨id, b, -, htr⟩
  · rw [htr]
    exact inv.gated
  · rw [htr]
    refine inv.gated.append ?_
    intro buffer response session hmem
    cases b <;> cases l.decoder.newSession <;> simp at hmem

theorem request_get_gated {method : CStr} (hm : isGet method) (url : CStr) (cs : List Call) :
    Gated l (request l url method cs).trace ↔
      ¬ (2 ≤ cs.length ∧ (l.htpasswd.isSome ∨ l.clientTlsCert)) := by
  have inv := calls_get (l := l) hm url cs
  obtain ⟨es, htr, hes⟩ := request_get (l := l) hm url cs
  by_cases h2 : 2 ≤ cs.length
  · obtain ⟨buffer, tail, hfirst⟩ := inv.decoded h2
    constructor
    · rintro h ⟨-, hconf⟩
      -- the first event of the request is the decoder call, so nothing was checked before it
      have hp := h 0 buffer true false (by rw [htr, hfirst]; rfl)
      rw [List.take_zero] at hp
      rcases hconf with hauth | hcert
      · exact List.not_mem_nil (hp.1 hauth)
      · exact List.not_mem_nil (hp.2 hcert)
    · intro h i _ _ _ _
      exact ⟨fun hauth ↦ absurd ⟨h2, .inl hauth⟩ h, fun hcert ↦ absurd ⟨h2, .inr hcert⟩ h⟩
  · refine iff_of_true ?_ (fun h ↦ h2 h.1)
    rw [htr, inv.silent (by omega), List.nil_append]
    exact gated_of_no_decode hes

def anonymousEnv : Env where
  clientAddr := some (lit "10.0.0.1")
  certificate := false
  basicAuth := none
  authTurns := 0
  values := []
  allocated := true
  inflateInit := true
  newSessionRc := 0
  appended := true
  inflates := []
  decode := fun _ ↦ ⟨.ok, none, 0⟩
  queued := .yes

def protectedListener : HttpListener where
  decoder := dumbDecoder
  htpasswd := some (ascii "user1:\x7bPLAIN\x7dpassword1\n")
  clientTlsCert := false

theorem gated_iff (l : HttpListener) (url method : CStr) (cs : List Call) :
    Gated l (request l url method cs).trace ↔
      ¬ (isGet method ∧ 2 ≤ cs.length ∧ (l.htpasswd.isSome ∨ l.clientTlsCert)) := by
  by_cases hg : isGet method
  · rw [request_get_gated hg, and_iff_right hg]
  · refine iff_of_true ?_ (fun h ↦ hg h.1)
    by_cases hp : isPost method
    · exact request_post_gated hp url cs
    · refine gated_of_no_decode fun buffer response session hmem ↦ ?_
      obtain ⟨code, body, he⟩ := request_other hp hg url cs _ hmem
      cases he

theorem get_decoded_without_credentials :
    ¬ Gated protectedListener (request protectedListener (lit "/v1/data/topic1") (lit "GET")
      [⟨anonymousEnv, []⟩, ⟨anonymousEnv, []⟩]).trace := by
  intro h
  have hp := h 0 [] true false rfl
  exact List.not_mem_nil (hp.1 rfl)

/-- The cell is used only while it holds a live connection with an open session, and sessions are
opened at most once under one name and closed as often as they were opened. -/
structure CellSafe (tr : List Event) : Prop where
  uses : ∀ fn good, .use fn good ∈ tr → good = true
  once : ∀ id, tr.count (.newSession id true) ≤ 1
  deleted : ∀ id, tr.count (.deleteSession id) = tr.count (.newSession id true)

theorem cellSafe_of_decode_respond {tr : List Event}
    (h : ∀ e ∈ tr, (∃ buffer, e = .decode buffer true false) ∨ ∃ code body, e = .respond code body) :
    CellSafe tr := by
  have hnot {e : Event} (hd : ∀ buffer, e ≠ .decode buffer true false)
      (hr : ∀ code body, e ≠ .respond code body) : e ∉ tr := by
    intro hm
    rcases h e hm with ⟨buffer, he⟩ | ⟨code, body, he⟩
    · exact hd _ he
    · exact hr _ _ he
  refine ⟨fun fn good hm ↦ absurd hm (hnot (by simp) (by simp)), fun id ↦ ?_, fun id ↦ ?_⟩
  · rw [List.count_eq_zero.mpr (hnot (by simp) (by simp))]
    exact Nat.zero_le 1
  · rw [List.count_eq_zero.mpr (hnot (by simp) (by simp)),
      List.count_eq_zero.mpr (hnot (by simp) (by simp))]

theorem request_post_cellSafe {method : CStr} (hm : isPost method) (url : CStr) (cs : List Call) :
    CellSafe (request l url method cs).trace := by
  have inv := calls_post (l := l) hm url cs
  have hdel (id : ℕ) := List.count_eq_zero.mpr (inv.undeleted id)
  rcases request_post (l := l) hm url cs with ⟨htr, hcell⟩ | ⟨id, b, hcell, htr⟩
  · rw [htr]
    have hnew (id : ℕ) : (calls l url method cs .fresh).trace.count (.newSession id true) = 0 := by
      rw [inv.sessions, hcell]
      simp
    exact ⟨inv.uses, fun id ↦ by simp [hnew], fun id ↦ by rw [hdel, hnew]⟩
  · rw [htr]
    have hnew (id' : ℕ) : (calls l url method cs .fresh).trace.count (.newSession id' true) =
        if id = id' ∧ l.decoder.newSession then 1 else 0 := by
      rw [inv.sessions, hcell]
      simp
    refine ⟨fun fn good hm ↦ ?_, fun id' ↦ ?_, fun id' ↦ ?_⟩
    · rcases List.mem_append.mp hm with hm | hm
      · exact inv.uses fn good hm
      · cases b <;> cases l.decoder.newSession <;> simp_all
    · rw [List.count_append, hnew]
      cases b <;> cases l.decoder.newSession <;> by_cases hid : id = id' <;> simp [hid]
    · simp only [List.count_append, hdel, hnew]
      cases b <;> cases l.decoder.newSession <;> by_cases hid : id = id' <;> simp [hid]

theorem request_get_cellSafe {method : CStr} (hm : isGet method) (url : CStr) (cs : List Call) :
    CellSafe (request l url method cs).trace ↔ cs.length % 2 = 0 := by
  by_cases hn : cs.length % 2 = 0
  · refine iff_of_true ?_ hn
    rw [request_get_even hm url hn]
    exact cellSafe_of_decode_respond (calls_get hm url cs).events
  · refine iff_of_false (fun h ↦ ?_) hn
    have hmem : .use .requestCompleted false ∈ (request l url method cs).trace := by
      rw [request_get_odd hm url hn]
      exact List.mem_append_right _ (List.mem_singleton_self _)
    cases h.uses _ _ hmem

theorem cellSafe_iff (l : HttpListener) (url method : CStr) (cs : List Call) :
    CellSafe (request l url method cs).trace ↔ ¬ (isGet method ∧ cs.length % 2 = 1) := by
  by_cases hg : isGet method
  · rw [request_get_cellSafe hg, and_iff_right hg]
    omega
  · refine iff_of_true ?_ (fun h ↦ hg h.1)
    by_cases hp : isPost method
    · exact request_post_cellSafe hp url cs
    · exact cellSafe_of_decode_respond fun e he ↦ .inr (request_other hp hg url cs e he)

theorem aborted_get_uses_marker :
    ¬ CellSafe (request protectedListener (lit "/v1/data/topic1") (lit "GET")
      [⟨anonymousEnv, []⟩]).trace := by
  intro h
  have hused := h.uses .requestCompleted false (List.mem_singleton.mpr rfl)
  cases hused

end N2Kafka.Listener.RequestGate
