import N2Kafka.Listener.Http

namespace N2Kafka.Listener.PostConnection

open Lib.CString Util.Pairs Decoder.DecoderApi Listener.Connection Listener.HttpAuth Listener.Http

variable {l : HttpListener} {e : Env} {url method : CStr} {r : Request} {ci : ConnInfo}

/-- Nothing keeps the listener from making a connection of the request: the checks are passed and
there is memory. -/
structure Admitted (l : HttpListener) (e : Env) : Prop where
  client : e.clientAddr.isSome
  certificate : l.clientTlsCert → e.certificate
  password : ∀ htpasswd, l.htpasswd = some htpasswd → ∃ user password,
    e.basicAuth = some (user, password) ∧
      httpAuthenticate e.authTurns user password htpasswd = some (.returned true)
  allocated : e.allocated

def Check : Event → Prop
  | .validClientCertificate _ | .authenticate _ | .respond .. => True
  | _ => False

def certificateEvents (l : HttpListener) : List Event :=
  if l.clientTlsCert then [.validClientCertificate true] else []

def passwordEvents (l : HttpListener) : List Event :=
  if l.htpasswd.isSome then [.authenticate true] else []

def checkEvents (l : HttpListener) : List Event := certificateEvents l ++ passwordEvents l

def connInfo (l : HttpListener) (e : Env) (url method : CStr) : ConnInfo :=
  decoderOpts e.values method url e.clientAddr
    { zeroed with decoderSess := l.decoder.sessionSize.getD 0 ≠ 0 }

theorem connInfo_kept (l : HttpListener) (e : Env) (url method : CStr) :
    (connInfo l e url method).decoderSess = decide (l.decoder.sessionSize.getD 0 ≠ 0) ∧
      (connInfo l e url method).httpError = ⟨0, none, 0⟩ := by
  have hfold (vs : List MhdValue) (ci : ConnInfo) :
      (vs.foldl connectionArgsIterator ci).decoderSess = ci.decoderSess ∧
        (vs.foldl connectionArgsIterator ci).httpError = ci.httpError := by
    induction vs generalizing ci with
    | nil => exact ⟨rfl, rfl⟩
    | cons v vs ih =>
      rw [List.foldl_cons, (ih _).1, (ih _).2, connectionArgsIterator]
      split <;> exact ⟨rfl, rfl⟩
  exact hfold _ _

def inflateEvents (e : Env) (ci : ConnInfo) (id : ℕ) : List Event :=
  if ci.zlibEnable then [.inflateInit id e.inflateInit] else []

def sessionEvents (l : HttpListener) (e : Env) (id : ℕ) : List Event :=
  if l.decoder.newSession then [.newSession id (e.newSessionRc = 0)] else []

/-- The decoder has no sessions, or opened one. -/
def Accepted (l : HttpListener) (e : Env) : Prop := l.decoder.newSession → e.newSessionRc = 0

inductive Init (l : HttpListener) (e : Env) (url method : CStr) (r : Request) : Request → Prop
  | refused (es : List Event) (hes : ∀ ev ∈ es, Check ev) (ha : ¬ Admitted l e) :
      Init l e url method r (r.log es)
  | stuck (es : List Event) (hes : ∀ ev ∈ es, Check ev) (ha : ¬ Admitted l e) :
      Init l e url method r { r.log es with stuck := true }
  | rejected (ha : Admitted l e) (hs : ¬ Accepted l e) :
      Init l e url method r
        { r.log (checkEvents l ++ inflateEvents e (connInfo l e url method) r.next ++
            sessionEvents l e r.next) with next := r.next + 1 }
  | opened (ha : Admitted l e) (hs : Accepted l e) :
      Init l e url method r
        { r.log (checkEvents l ++ inflateEvents e (connInfo l e url method) r.next ++
            sessionEvents l e r.next) with
          cell := .info r.next
          heap := Function.update r.heap r.next
            (some ⟨connInfo l e url method, l.decoder.newSession⟩)
          next := r.next + 1 }

theorem check_certificateEvents (l : HttpListener) : ∀ ev ∈ certificateEvents l, Check ev := by
  unfold certificateEvents
  split <;> simp [Check]

theorem check_checkEvents (l : HttpListener) : ∀ ev ∈ checkEvents l, Check ev := by
  intro ev hev
  obtain hev | hev := List.mem_append.mp hev
  · exact check_certificateEvents l ev hev
  · unfold passwordEvents at hev
    split at hev <;> simp at hev
    simp [hev, Check]

theorem openConnection_init {client : CStr} (hclient : e.clientAddr = some client)
    (hcell : r.cell = .null) (ha : e.allocated → Admitted l e) :
    Init l e url method r
      (openConnection l e method url client (r.log (checkEvents l))).1 := by
  unfold openConnection createConnectionInfo
  cases halloc : e.allocated with
  | false =>
    have h := @Init.refused l e url method r
      (checkEvents l ++ [.respond mhdHttpInternalServerError
        (some (ascii "Can't allocate conection context (out of memory?)"))])
      (by simpa [or_imp, forall_and, Check] using check_checkEvents l)
      (fun h ↦ by simpa [halloc] using h.allocated)
    simpa [Request.log] using h
  | true =>
    have hci : decoderOpts e.values method url (some client)
        { zeroed with decoderSess := l.decoder.sessionSize.getD 0 ≠ 0 } =
          connInfo l e url method := by
      rw [connInfo, hclient]
    have hlog : (if (connInfo l e url method).zlibEnable then
        (r.log (checkEvents l)).log [.inflateInit (r.log (checkEvents l)).next e.inflateInit]
          else r.log (checkEvents l)) =
          r.log (checkEvents l ++ inflateEvents e (connInfo l e url method) r.next) := by
      unfold inflateEvents
      split <;> simp [Request.log]
    simp only [if_true, hci, hlog]
    cases hs : l.decoder.newSession with
    | false =>
      have h := @Init.opened l e url method r (ha halloc) (by simp [Accepted, hs])
      simpa [sessionEvents, hs, Request.log] using h
    | true =>
      rcases eq_or_ne e.newSessionRc 0 with hrc | hrc
      · have h := @Init.opened l e url method r (ha halloc) (fun _ ↦ hrc)
        simpa [sessionEvents, hs, hrc, Request.log] using h
      · have h := @Init.rejected l e url method r (ha halloc) (fun h ↦ hrc (h hs))
        simpa [sessionEvents, hs, hrc, Request.log, hcell] using h

theorem checkBasicAuth_init {client : CStr} (hclient : e.clientAddr = some client)
    (hcell : r.cell = .null) (hcert : l.clientTlsCert → e.certificate) :
    Init l e url method r (checkBasicAuth l e (r.log (certificateEvents l))
      fun r ↦ openConnection l e method url client r).1 := by
  unfold checkBasicAuth
  cases hh : l.htpasswd with
  | none =>
    have hlog : r.log (certificateEvents l) = r.log (checkEvents l) := by
      simp [checkEvents, passwordEvents, hh]
    rw [hlog]
    apply openConnection_init hclient hcell
    exact fun halloc ↦ ⟨by simp [hclient], hcert, by simp [hh], halloc⟩
  | some db =>
    cases hba : e.basicAuth with
    | none =>
      have h := @Init.refused l e url method r (certificateEvents l ++ [.respond mhdHttpUnauthorized none])
        (by simpa [or_imp, forall_and, Check] using check_certificateEvents l)
        (fun h ↦ by simpa [hba] using h.password db hh)
      simpa [Request.log] using h
    | some credentials =>
      obtain ⟨user, password⟩ := credentials
      have hnot : httpAuthenticate e.authTurns user password db ≠ some (.returned true) →
          ¬ Admitted l e := by
        intro hne h
        obtain ⟨u, p, hup, hok⟩ := h.password db hh
        rw [hba, Option.some.injEq, Prod.mk.injEq] at hup
        exact hne (hup.1 ▸ hup.2 ▸ hok)
      simp only
      cases hauth : httpAuthenticate e.authTurns user password db with
      | none => exact .stuck _ (check_certificateEvents l) (hnot (by simp [hauth]))
      | some outcome =>
        cases outcome with
        | returned allowed =>
          cases allowed with
          | true =>
            have hlog : (r.log (certificateEvents l)).log [.authenticate true] =
                r.log (checkEvents l) := by
              simp [checkEvents, passwordEvents, hh, Request.log]
            simp only [hlog]
            apply openConnection_init hclient hcell
            intro halloc
            refine ⟨by simp [hclient], hcert, ?_, halloc⟩
            intro db' hdb
            rw [hh, Option.some.injEq] at hdb
            exact ⟨user, password, hba, hdb ▸ hauth⟩
          | false =>
            have h := @Init.refused l e url method r
              (certificateEvents l ++ [.authenticate false, .respond mhdHttpUnauthorized none])
              (by simpa [or_imp, forall_and, Check] using check_certificateEvents l)
              (hnot (by simp [hauth]))
            simpa [Request.log] using h
        | assertFailed | outOfBounds | nullCall =>
          exact .stuck _ (check_certificateEvents l) (hnot (by simp [hauth]))

theorem handleHttpPostInit_init (e : Env) (url method : CStr) (hcell : r.cell = .null) :
    Init l e url method r (handleHttpPostInit l e url method r).1 := by
  unfold handleHttpPostInit
  cases hclient : e.clientAddr with
  | none =>
    have h := @Init.refused l e url method r [] (by simp) (fun h ↦ by simpa [hclient] using h.client)
    simpa [Request.log] using h
  | some client =>
    rcases Classical.em (l.clientTlsCert ∧ ¬ e.certificate) with hcert | hcert
    · have h := @Init.refused l e url method r
        [.validClientCertificate false, .respond mhdHttpForbidden none] (by simp [Check])
        (fun h ↦ hcert.2 (h.certificate hcert.1))
      simpa [hcert] using h
    · have hlog : (if l.clientTlsCert then r.log [.validClientCertificate true] else r) =
          r.log (certificateEvents l) := by
        unfold certificateEvents
        split <;> simp [Request.log]
      simp only [if_neg hcert, hlog]
      apply checkBasicAuth_init hclient hcell
      exact fun h ↦ not_not.mp fun h' ↦ hcert ⟨h, h'⟩

structure SameConnection (ci ci' : ConnInfo) : Prop where
  decoderParams : ci'.decoderParams = ci.decoderParams
  zlibEnable : ci'.zlibEnable = ci.zlibEnable
  decoderSess : ci'.decoderSess = ci.decoderSess

/-- Events of a callback that uses a live connection. The decoder is called with the session and with
room for its answer if it has sessions, otherwise with neither. -/
def Serving (l : HttpListener) (b : Block) : Event → Prop
  | .respond _ _ => True
  | .decode _ response session =>
    response = l.decoder.newSession ∧ session = (l.decoder.newSession && b.info.decoderSess)
  | _ => False

structure Served (l : HttpListener) (r : Request) (id : ℕ) (b : Block) (r' : Request) : Prop where
  cell : r'.cell = r.cell
  stuck : r'.stuck = r.stuck
  next : r'.next = r.next
  heap : ∃ ci, SameConnection b.info ci ∧
    r'.heap = Function.update r.heap id (some ⟨ci, b.session⟩)
  trace : ∃ fn es, r'.trace = r.trace ++ .use fn (r.cellGood l) :: es ∧ ∀ ev ∈ es, Serving l b ev

theorem postChunk_served (l : HttpListener) (e : Env) (upload : Bytes) (b : Block) :
    SameConnection b.info (postChunk l e upload b).1 ∧
      ∀ ev ∈ (postChunk l e upload b).2.1, Serving l b ev := by
  unfold postChunk
  cases hs : l.decoder.newSession with
  | false => exact ⟨⟨rfl, rfl, rfl⟩, by simp⟩
  | true =>
    cases hz : b.info.zlibEnable with
    | false => exact ⟨⟨rfl, rfl, rfl⟩, by simp [Serving, hs]⟩
    | true => exact ⟨⟨rfl, rfl, rfl⟩, by simp [Serving, hs]⟩

theorem handleHttpPostChunk_served (l : HttpListener) (e : Env) (upload : Bytes) {id : ℕ} {b : Block}
    (hcell : r.cell = .info id) (hb : r.heap id = some b) :
    Served l r id b (handleHttpPostChunk l e upload r).1 := by
  have hheap : r.heap = Function.update r.heap id (some ⟨b.info, b.session⟩) := by
    rw [← hb, Function.update_eq_self]
  unfold handleHttpPostChunk
  simp only [Request.block_log hcell hb]
  cases hq : connInfoHasQueueResponse b.info with
  | true =>
    exact ⟨rfl, rfl, rfl, ⟨b.info, ⟨rfl, rfl, rfl⟩, hheap⟩, .handleHttpPostChunk, [], rfl, by simp⟩
  | false =>
    obtain ⟨hsame, hevents⟩ := postChunk_served l e upload b
    simp only [Bool.false_eq_true, if_false]
    have hinfo (ci : ConnInfo) (es es' : List Event) : (((r.log es).log es').setInfo ci).heap =
        Function.update r.heap id (some ⟨ci, b.session⟩) := by
      simp [Request.setInfo, Request.log, hcell, hb]
    refine ⟨?_, ?_, ?_, ?_, .handleHttpPostChunk, (postChunk l e upload b).2.1, ?_, hevents⟩
    · simp [Request.setInfo, Request.log, hcell]
    · simp [Request.setInfo, Request.log, hcell]
    · simp [Request.setInfo, Request.log, hcell]
    · refine ⟨_, ?_, hinfo _ _ _⟩
      split
      · exact ⟨hsame.decoderParams, hsame.zlibEnable, hsame.decoderSess⟩
      · exact hsame
    · simp [Request.setInfo, Request.log, hcell]

theorem handlePostEnd_served (l : HttpListener) (e : Env) {id : ℕ} {b : Block}
    (hcell : r.cell = .info id) (hb : r.heap id = some b) :
    Served l r id b (handlePostEnd l e r).1 := by
  have hheap : ∃ ci, SameConnection b.info ci ∧
      r.heap = Function.update r.heap id (some ⟨ci, b.session⟩) := by
    refine ⟨b.info, ⟨rfl, rfl, rfl⟩, ?_⟩
    rw [← hb, Function.update_eq_self]
  unfold handlePostEnd
  simp only [Request.block_log hcell hb]
  rcases eq_or_ne b.info.httpError.code 0 with hq | hq
  · simp only [hq, ne_eq, not_true_eq_false, if_false]
    cases hs : l.decoder.newSession with
    | true =>
      exact ⟨rfl, rfl, rfl, hheap, .handlePostEnd, [.respond mhdHttpOk none], by simp [Request.log],
        by simp [Serving]⟩
    | false =>
      exact ⟨rfl, rfl, rfl, hheap, .handlePostEnd,
        [.decode b.info.str false false, .respond mhdHttpOk none], by simp [Request.log],
        by simp [Serving, hs]⟩
  · simp only [hq, ne_eq, not_false_eq_true, if_true]
    exact ⟨rfl, rfl, rfl, hheap, .handlePostEnd,
      [.respond b.info.httpError.code b.info.httpError.str], by simp [Request.log], by simp [Serving]⟩

theorem handlePost_cases (l : HttpListener) (e : Env) (url method : CStr) (upload : Bytes)
    (hcell : r.cell = .null ∨ ∃ id b, r.cell = .info id ∧ r.heap id = some b) :
    (r.cell = .null ∧ Init l e url method r (handlePost l e url method upload r).1) ∨
      ∃ id b, r.cell = .info id ∧ r.heap id = some b ∧
        Served l r id b (handlePost l e url method upload r).1 := by
  unfold handlePost
  cases hcell with
  | inl hcell =>
    rw [if_pos hcell]
    exact .inl ⟨hcell, handleHttpPostInit_init e url method hcell⟩
  | inr h =>
    obtain ⟨id, b, hcell, hb⟩ := h
    rw [if_neg (by simp [hcell])]
    refine .inr ⟨id, b, hcell, hb, ?_⟩
    split
    · exact handleHttpPostChunk_served l e upload hcell hb
    · exact handlePostEnd_served l e hcell hb

end N2Kafka.Listener.PostConnection
