import Mathlib.Data.List.Induction
import N2Kafka.Decoder.ZzSession
import N2Kafka.Lib.Transition
import N2Kafka.Listener.PostConnection
import N2Kafka.Listener.RequestGate

namespace N2Kafka.Listener.RequestResources

open Lib.CString Lib.Transition Util.Pairs Decoder.DecoderApi Decoder.ZzSession Listener.Connection
  Listener.Http Listener.PostConnection

/-- A handler call together with what a session made in it would find. -/
structure Attempt where
  call : Call
  allocs : Allocs

structure SessionListener where
  listener : HttpListener
  decoder : SessionDecoder
  newSession : listener.decoder.newSession = true

variable (l : SessionListener) (url : CStr)

def msgVars (e : Env) : KeyvalList := (connInfo l.listener e url (lit "POST")).decoderParams

def made (a : Attempt) : Made := newSession l.decoder a.allocs (msgVars l url a.call.env)

/-- The libraries of the listener, with the decoder answering for itself. -/
def env (a : Attempt) : Env := { a.call.env with newSessionRc := (made l url a).rc }

/-- The resources of all connections, by the connection they were taken for. -/
abbrev Ledger := List (ℕ × Act)

/-- What an event of the listener means for the resources, when `new_session` is through with
`acts`. `inflateEnd` on a stream that was never set up gives nothing back. -/
def eventActs (acts : List Act) (r : Request) (ledger : Ledger) : Event → Ledger
  | .inflateInit id true => [(id, .acquire .inflate)]
  | .inflateEnd id => if (id, .acquire .inflate) ∈ ledger then [(id, .release .inflate)] else []
  | .newSession id _ => acts.map (id, ·)
  | .deleteSession id =>
    match r.heap id with
    | some b => (deleteSession l.decoder b.info.decoderParams).map (id, ·)
    | none => []
  | _ => []

structure Run where
  req : Request
  ledger : Ledger

def Run.fresh : Run := ⟨.fresh, []⟩

def Run.enter (run : Run) (acts : List Act) (req : Request) : Run :=
  ⟨req, run.ledger ++ (req.trace.drop run.req.trace.length).flatMap
    (eventActs l acts run.req run.ledger)⟩

def handle (run : Run) (a : Attempt) : Run :=
  if run.req.stuck then run
  else run.enter l (made l url a).acts
    (handleRequest l.listener (env l url a) url (lit "POST") a.call.upload run.req).1

def handled (as : List Attempt) : Run := as.foldl (handle l url) .fresh

def completed (run : Run) : Run :=
  if run.req.stuck then run else run.enter l [] (requestCompleted l.listener run.req)

theorem handled_req (as : List Attempt) :
    (handled l url as).req =
      calls l.listener url (lit "POST") (as.map fun a ↦ ⟨env l url a, a.call.upload⟩) .fresh := by
  have h (run : Run) : (as.foldl (handle l url) run).req = calls l.listener url (lit "POST")
      (as.map fun a ↦ ⟨env l url a, a.call.upload⟩) run.req := by
    induction as generalizing run with
    | nil => rfl
    | cons a as ih =>
      rw [List.foldl_cons, ih, List.map_cons, calls, calls, List.foldl_cons, handle]
      congr 1
      split <;> rfl
  exact h .fresh

def held (ledger : Ledger) (id : ℕ) : List Act := (ledger.filter fun p ↦ p.1 = id).map (·.2)

/-- Every resource that was taken for some connection has been given back exactly once. -/
def ExactlyOnce (ledger : Ledger) : Prop := ∀ id, Balanced (held ledger id)

/-- The call makes a connection whose session fails behind an initialised stream, or at the
generator of an XML session. -/
def Faulty (r : Request) (a : Attempt) : Prop :=
  r.stuck = false ∧ r.cell = .null ∧ Admitted l.listener a.call.env ∧
    ((connInfo l.listener a.call.env url (lit "POST")).zlibEnable ∧ a.call.env.inflateInit ∧
        SessionFails a.allocs (sessionVars l.decoder (msgVars l url a.call.env)) ∨
      GeneratorFails a.allocs (sessionVars l.decoder (msgVars l url a.call.env)))

variable {l url} {run : Run}

theorem made_fails_iff {a : Attempt} : (made l url a).rc ≠ 0 ↔
    SessionFails a.allocs (sessionVars l.decoder (msgVars l url a.call.env)) :=
  newZzSession_fails_iff _ _

@[simp]
theorem held_append (ledger ledger' : Ledger) (id : ℕ) :
    held (ledger ++ ledger') id = held ledger id ++ held ledger' id := by
  simp [held]

theorem held_map (acts : List Act) (id id' : ℕ) :
    held (acts.map (id, ·)) id' = if id = id' then acts else [] := by
  unfold held
  split
  · rename_i h
    simp [List.filter_map, Function.comp_def, h]
  · rename_i h
    simp [List.filter_map, Function.comp_def, h]

theorem mem_ledger_iff {ledger : Ledger} {id : ℕ} {act : Act} :
    (id, act) ∈ ledger ↔ act ∈ held ledger id := by
  simp [held]

def streamActs (zlibEnable inflateInit : Bool) : List Act :=
  if zlibEnable && inflateInit then [.acquire .inflate] else []

structure Live (l : SessionListener) (run : Run) (id : ℕ) (b : Block) : Prop where
  cell : run.req.cell = .info id
  heap : run.req.heap id = some b
  session : b.session = l.listener.decoder.newSession
  lt : id < run.req.next
  taken : ∃ ok allocs m, Session allocs (sessionVars l.decoder b.info.decoderParams) m ∧ m.rc = 0 ∧
    held run.ledger id = streamActs b.info.zlibEnable ok ++ m.acts

structure Inv (l : SessionListener) (run : Run) : Prop where
  cell : run.req.cell = .null ∨ ∃ id b, Live l run id b
  fresh : ∀ id, run.req.next ≤ id → held run.ledger id = []
  stuck : run.req.stuck = true → run.req.cell = .null

def Settled (run : Run) : Prop := ∀ id, run.req.cell ≠ .info id → Balanced (held run.ledger id)

theorem Run.enter_log (acts : List Act) {req : Request} {es : List Event}
    (h : req.trace = run.req.trace ++ es) :
    run.enter l acts req = ⟨req, run.ledger ++ es.flatMap (eventActs l acts run.req run.ledger)⟩ := by
  rw [Run.enter, h, List.drop_left]

theorem eventActs_check {acts : List Act} {r : Request} {ledger : Ledger} {es : List Event}
    (h : ∀ ev ∈ es, Check ev) : es.flatMap (eventActs l acts r ledger) = [] := by
  rw [List.flatMap_eq_nil_iff]
  intro ev hev
  have hc := h ev hev
  cases ev <;> first | rfl | cases hc

theorem eventActs_serving {acts : List Act} {r : Request} {ledger : Ledger} {es : List Event}
    {b : Block} (h : ∀ ev ∈ es, Serving l.listener b ev) :
    es.flatMap (eventActs l acts r ledger) = [] := by
  rw [List.flatMap_eq_nil_iff]
  intro ev hev
  have hc := h ev hev
  cases ev <;> first | rfl | cases hc

theorem eventActs_made {e : Env} {acts : List Act} {r : Request} {ledger : Ledger} {ci : ConnInfo}
    {id : ℕ} : (inflateEvents e ci id ++ sessionEvents l.listener e id).flatMap
      (eventActs l acts r ledger) =
        (streamActs ci.zlibEnable e.inflateInit ++ acts).map (id, ·) := by
  unfold inflateEvents sessionEvents streamActs
  cases ci.zlibEnable <;> cases e.inflateInit <;> simp [eventActs, l.newSession]

theorem admitted_env {a : Attempt} :
    Admitted l.listener (env l url a) ↔ Admitted l.listener a.call.env :=
  ⟨fun h ↦ ⟨h.client, h.certificate, h.password, h.allocated⟩,
    fun h ↦ ⟨h.client, h.certificate, h.password, h.allocated⟩⟩

theorem balanced_rejected {allocs : Allocs} {vars : KeyvalList} {m : Made}
    (h : Session allocs vars m) (hrc : m.rc ≠ 0) (zlibEnable inflateInit : Bool) :
    Balanced (streamActs zlibEnable inflateInit ++ m.acts) ↔
      ¬ (zlibEnable = true ∧ inflateInit = true ∧ m.rc ≠ 0 ∨ GeneratorFails allocs vars) := by
  have hstream : Balanced (.acquire .inflate :: m.acts) ↔ False := by
    refine iff_false_intro fun hb ↦ ?_
    have hc := hb .inflate
    rw [List.count_cons_of_ne (by simp), List.count_cons_self,
      List.count_eq_zero.mpr h.inflate_not_mem.2] at hc
    cases hc
  unfold streamActs
  cases zlibEnable <;> cases inflateInit <;> simp [hstream, hrc, h.failed hrc]

theorem Live.congr {run' : Run} {id : ℕ} {b : Block} {ci : ConnInfo} (h : Live l run id b)
    (hcell : run'.req.cell = run.req.cell) (hnext : run'.req.next = run.req.next)
    (hheap : run'.req.heap id = some ⟨ci, b.session⟩) (hsame : SameConnection b.info ci)
    (hledger : run'.ledger = run.ledger) : Live l run' id ⟨ci, b.session⟩ where
  cell := hcell.trans h.cell
  heap := hheap
  session := h.session
  lt := hnext ▸ h.lt
  taken := by
    rw [hledger, hsame.decoderParams, hsame.zlibEnable]
    exact h.taken

theorem Inv.unchanged (h : Inv l run) (hcell : run.req.cell = .null) (req : Request)
    (hcell' : req.cell = .null) (hnext : req.next = run.req.next) :
    Inv l ⟨req, run.ledger⟩ ∧ (Settled ⟨req, run.ledger⟩ ↔ Settled run) := by
  refine ⟨⟨.inl hcell', fun id hid ↦ h.fresh id (hnext ▸ hid), fun _ ↦ hcell'⟩, ?_⟩
  simp [Settled, hcell, hcell']

theorem balanced_nil : Balanced [] := fun _ ↦ rfl

theorem Inv.held_made (h : Inv l run) (acts : List Act) (id : ℕ) :
    held (run.ledger ++ acts.map (run.req.next, ·)) id =
      if id = run.req.next then acts else held run.ledger id := by
  rw [held_append, held_map]
  split
  · rename_i hid
    rw [if_pos hid.symm, h.fresh id (hid ▸ le_rfl), List.nil_append]
  · rename_i hid
    rw [if_neg (Ne.symm hid), List.append_nil]

theorem Inv.fresh_made (h : Inv l run) (acts : List Act) {id : ℕ} (hid : run.req.next + 1 ≤ id) :
    held (run.ledger ++ acts.map (run.req.next, ·)) id = [] := by
  rw [h.held_made, if_neg (Nat.ne_of_gt hid)]
  exact h.fresh id (Nat.le_of_succ_le hid)

theorem Inv.settled_rejected (h : Inv l run) (hcell : run.req.cell = .null) (acts : List Act)
    {req : Request} (hcell' : req.cell = .null) :
    Settled ⟨req, run.ledger ++ acts.map (run.req.next, ·)⟩ ↔ Settled run ∧ Balanced acts := by
  simp only [Settled, h.held_made, hcell, hcell']
  constructor
  · intro hb
    have hnext := hb run.req.next nofun
    rw [if_pos rfl] at hnext
    refine ⟨fun id _ ↦ ?_, hnext⟩
    rcases eq_or_ne id run.req.next with rfl | hne
    · rw [h.fresh _ le_rfl]
      exact balanced_nil
    · have hother := hb id nofun
      rwa [if_neg hne] at hother
  · intro ⟨hb, hnext⟩ id hid
    split
    · exact hnext
    · exact hb id hid

theorem Inv.settled_opened (h : Inv l run) (hcell : run.req.cell = .null) (acts : List Act)
    {req : Request} (hcell' : req.cell = .info run.req.next) :
    Settled ⟨req, run.ledger ++ acts.map (run.req.next, ·)⟩ ↔ Settled run := by
  simp only [Settled, h.held_made, hcell, hcell']
  constructor
  · intro hb id _
    rcases eq_or_ne id run.req.next with rfl | hne
    · rw [h.fresh _ le_rfl]
      exact balanced_nil
    · have hother := hb id (by simpa using hne.symm)
      rwa [if_neg hne] at hother
  · intro hb id hid
    have hne : id ≠ run.req.next := by
      intro he
      exact hid (he ▸ rfl)
    rw [if_neg hne]
    exact hb id nofun

theorem Inv.init {a : Attempt} {req : Request} (h : Inv l run) (hrun : run.req.stuck = false)
    (hcell : run.req.cell = .null)
    (hi : Init l.listener (env l url a) url (lit "POST") run.req req) :
    Inv l (run.enter l (made l url a).acts req) ∧
      (Settled (run.enter l (made l url a).acts req) ↔
        Settled run ∧ ¬ Faulty l url run.req a) := by
  have hsession : Session a.allocs (sessionVars l.decoder (msgVars l url a.call.env))
      (made l url a) := newZzSession_session _ _
  cases hi with
  | refused es hes ha =>
    have hnot : ¬ Faulty l url run.req a := fun hf ↦ ha (admitted_env.mpr hf.2.2.1)
    rw [Run.enter_log _ rfl, eventActs_check hes, List.append_nil]
    obtain ⟨hinv, hsettled⟩ := h.unchanged hcell (run.req.log es) hcell rfl
    exact ⟨hinv, by simp [hsettled, hnot]⟩
  | stuck es hes ha =>
    have hnot : ¬ Faulty l url run.req a := fun hf ↦ ha (admitted_env.mpr hf.2.2.1)
    rw [Run.enter_log _ rfl, eventActs_check hes, List.append_nil]
    obtain ⟨hinv, hsettled⟩ :=
      h.unchanged hcell { run.req.log es with stuck := true } hcell rfl
    exact ⟨hinv, by simp [hsettled, hnot]⟩
  | rejected ha hs =>
    have hrc : (made l url a).rc ≠ 0 := fun hrc ↦ hs fun _ ↦ hrc
    have hbalanced := balanced_rejected hsession hrc
      (connInfo l.listener a.call.env url (lit "POST")).zlibEnable a.call.env.inflateInit
    have hfaulty : Faulty l url run.req a ↔ ¬ Balanced (streamActs
        (connInfo l.listener a.call.env url (lit "POST")).zlibEnable a.call.env.inflateInit ++
          (made l url a).acts) := by
      rw [hbalanced, not_not, Faulty, made_fails_iff]
      simp [hrun, hcell, admitted_env.mp ha]
    rw [Run.enter_log _ rfl, List.append_assoc, List.flatMap_append,
      eventActs_check (check_checkEvents _), eventActs_made, List.nil_append, hfaulty, not_not]
    exact ⟨⟨.inl hcell, fun id hid ↦ h.fresh_made _ hid, fun _ ↦ hcell⟩,
      h.settled_rejected hcell _ hcell⟩
  | opened ha hs =>
    have hrc : (made l url a).rc = 0 := hs l.newSession
    have hnot : ¬ Faulty l url run.req a := by
      intro ⟨_, _, _, hf⟩
      cases hf with
      | inl hf => exact made_fails_iff.mpr hf.2.2 hrc
      | inr hf => exact (hsession.made hrc).2 hf
    rw [Run.enter_log _ rfl, List.append_assoc, List.flatMap_append,
      eventActs_check (check_checkEvents _), eventActs_made, List.nil_append, and_iff_left hnot]
    refine ⟨⟨.inr ⟨run.req.next, _, rfl, Function.update_self .., rfl, Nat.lt_succ_self _, ?_⟩,
      fun id hid ↦ h.fresh_made _ hid, ?_⟩, h.settled_opened hcell _ rfl⟩
    · refine ⟨a.call.env.inflateInit, a.allocs, made l url a, hsession, hrc, ?_⟩
      rw [h.held_made, if_pos rfl]
      rfl
    · intro hstuck
      rw [show run.req.stuck = true from hstuck] at hrun
      cases hrun

theorem Inv.served {a : Attempt} {req : Request} {id : ℕ} {b : Block} (h : Inv l run)
    (hrun : run.req.stuck = false) (hl : Live l run id b)
    (hs : Served l.listener run.req id b req) :
    Inv l (run.enter l (made l url a).acts req) ∧
      (Settled (run.enter l (made l url a).acts req) ↔
        Settled run ∧ ¬ Faulty l url run.req a) := by
  have hnot : ¬ Faulty l url run.req a := by
    intro ⟨_, hcell, _⟩
    rw [hl.cell] at hcell
    cases hcell
  obtain ⟨fn, es, htrace, hes⟩ := hs.trace
  obtain ⟨ci, hsame, hheap⟩ := hs.heap
  have huse (good : Bool) : eventActs l (made l url a).acts run.req run.ledger (.use fn good) = [] :=
    rfl
  rw [Run.enter_log _ htrace, List.flatMap_cons, eventActs_serving hes, huse, List.append_nil,
    List.append_nil, and_iff_left hnot]
  constructor
  · refine ⟨.inr ⟨id, _, hl.congr hs.cell hs.next ?_ hsame rfl⟩, ?_, ?_⟩
    · exact hheap ▸ Function.update_self ..
    · intro id' hid
      exact h.fresh id' (hs.next ▸ hid)
    · intro hstuck
      rw [hs.stuck, hrun] at hstuck
      cases hstuck
  · simp only [Settled, hs.cell]

/-- One callback keeps the accounts, and adds to the debts exactly if it is faulty. -/
theorem Inv.handle (h : Inv l run) (url : CStr) (a : Attempt) :
    Inv l (handle l url run a) ∧
      (Settled (handle l url run a) ↔ Settled run ∧ ¬ Faulty l url run.req a) := by
  unfold RequestResources.handle
  cases hrun : run.req.stuck with
  | true =>
    have hnot : ¬ Faulty l url run.req a := by simp [Faulty, hrun]
    exact ⟨h, by simp [hnot]⟩
  | false =>
    have hcell : run.req.cell = .null ∨ ∃ id b, run.req.cell = .info id ∧
        run.req.heap id = some b := by
      cases h.cell with
      | inl hc => exact .inl hc
      | inr hl =>
        obtain ⟨id, b, hl⟩ := hl
        exact .inr ⟨id, b, hl.cell, hl.heap⟩
    rw [RequestGate.handleRequest_post rfl]
    obtain ⟨hc, hi⟩ | ⟨id, b, hc, hb, hs⟩ :=
      handlePost_cases l.listener (env l url a) url (lit "POST") a.call.upload hcell
    · exact h.init hrun hc hi
    · cases h.cell with
      | inl hn =>
        rw [hn] at hc
        cases hc
      | inr hl =>
        obtain ⟨id', b', hl⟩ := hl
        rw [hl.cell] at hc
        cases hc
        rw [hl.heap, Option.some.injEq] at hb
        exact h.served hrun hl (hb ▸ hs)

theorem inv_fresh (l : SessionListener) : Inv l .fresh :=
  ⟨.inl rfl, fun _ _ ↦ rfl, nofun⟩

theorem handled_concat (as : List Attempt) (a : Attempt) :
    handled l url (as ++ [a]) = handle l url (handled l url as) a := by
  simp [handled]

theorem handled_inv (l : SessionListener) (url : CStr) (as : List Attempt) :
    Inv l (handled l url as) ∧ (Settled (handled l url as) ↔
      ∀ before a, before ++ [a] <+: as → ¬ Faulty l url (handled l url before).req a) := by
  induction as using List.reverseRecOn with
  | nil =>
    refine ⟨inv_fresh l, iff_of_true (fun _ _ ↦ balanced_nil) ?_⟩
    intro before a hp
    simp at hp
  | append_singleton as a ih =>
    obtain ⟨hinv, hsettled⟩ := ih
    obtain ⟨hinv', hsettled'⟩ := hinv.handle url a
    rw [handled_concat, forall_concat_prefix, ← hsettled]
    exact ⟨hinv', hsettled'⟩

theorem Live.completed {id : ℕ} {b : Block} (hl : Live l run id b) (hrun : run.req.stuck = false) :
    ∃ acts, Balanced (held run.ledger id ++ acts) ∧
      (completed l run).ledger = run.ledger ++ acts.map (id, ·) := by
  obtain ⟨ok, allocs, m, hm, hrc, htaken⟩ := hl.taken
  have hstream : (id, .acquire .inflate) ∈ run.ledger ↔ (b.info.zlibEnable && ok) = true := by
    rw [mem_ledger_iff, htaken, List.mem_append, or_iff_left hm.inflate_not_mem.1, streamActs]
    split
    · rename_i h
      simp [h]
    · rename_i h
      simp [h]
  have hend : Balanced (streamActs b.info.zlibEnable ok ++
      if (b.info.zlibEnable && ok) = true then [.release .inflate] else []) := by
    intro k
    unfold streamActs
    split
    · cases k <;> rfl
    · rfl
  refine ⟨deleteSession l.decoder b.info.decoderParams ++
    (if (b.info.zlibEnable && ok) = true then [.release .inflate] else []), ?_, ?_⟩
  · intro k
    have hsession := (hm.made hrc).1 k
    have hinflate := hend k
    rw [htaken]
    simp only [List.count_append, deleteSession] at hsession hinflate ⊢
    omega
  · have htrace := RequestGate.requestCompleted_info hl.cell hl.heap hl.session
    rw [RequestResources.completed, if_neg (by simp [hrun]), Run.enter_log _ htrace]
    cases hz : b.info.zlibEnable <;> cases ok <;>
      simp_all [eventActs, l.newSession, hl.heap]

theorem Inv.completed (h : Inv l run) :
    ExactlyOnce (completed l run).ledger ↔ Settled run := by
  have hnull (hcell : run.req.cell = .null) : (ExactlyOnce run.ledger ↔ Settled run) := by
    simp [ExactlyOnce, Settled, hcell]
  cases hrun : run.req.stuck with
  | true =>
    rw [RequestResources.completed, if_pos hrun]
    exact hnull (h.stuck hrun)
  | false =>
    cases h.cell with
    | inl hcell =>
      rw [RequestResources.completed, if_neg (by simp [hrun]),
        RequestGate.requestCompleted_null hcell, Run.enter_log [] (List.append_nil _).symm,
        List.flatMap_nil, List.append_nil]
      exact hnull hcell
    | inr hl =>
      obtain ⟨id, b, hl⟩ := hl
      obtain ⟨acts, hbalanced, hledger⟩ := hl.completed hrun
      rw [hledger]
      simp only [ExactlyOnce, Settled, held_append, held_map, hl.cell]
      constructor
      · intro hb id' hne
        have hid : id ≠ id' := by
          intro he
          exact hne (he ▸ rfl)
        simpa [hid] using hb id'
      · intro hb id'
        split
        · rename_i hid
          exact hid ▸ hbalanced
        · rename_i hid
          rw [List.append_nil]
          exact hb id' fun he ↦ hid (ConCls.info.inj he)

/-- However a POST request to a decoder with sessions goes and whenever its client leaves, each
resource taken for it has been given back exactly once at the end exactly if no callback made a
connection whose session failed behind an initialised stream or at the generator of an XML session. -/
theorem exactly_once_iff (l : SessionListener) (url : CStr) (as : List Attempt) :
    ExactlyOnce (completed l (handled l url as)).ledger ↔
      ∀ before a, before ++ [a] <+: as → ¬ Faulty l url (handled l url before).req a := by
  obtain ⟨hinv, hsettled⟩ := handled_inv l url as
  rw [hinv.completed, hsettled]

def zzListener : SessionListener where
  listener := ⟨zzDecoder 16, none, false⟩
  decoder := .zz
  newSession := rfl

def compressedPost : Attempt where
  call :=
    { env := { RequestGate.anonymousEnv with
        values := [⟨.header, lit "Content-Encoding", some (lit "gzip")⟩] }
      upload := [] }
  allocs := ⟨fun _ ↦ true, true, true, true⟩

theorem stream_of_refused_session_leaks :
    ¬ ∀ (l : SessionListener) (url : CStr) (as : List Attempt),
      ExactlyOnce (completed l (handled l url as)).ledger := by
  intro h
  have hinflate := h zzListener (lit "/v2/data/topic") [compressedPost] 0 .inflate
  revert hinflate
  decide

end N2Kafka.Listener.RequestResources
