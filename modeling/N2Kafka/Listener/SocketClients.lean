import N2Kafka.Engine.Startup
import N2Kafka.Listener.Socket

namespace N2Kafka.Listener.SocketClients

open Function Lib.CString Lib.Transition Engine.Startup
open Listener.Socket (ThreadMode Loop Stopping configThreads)
open Listener.Socket.SocketListener (asyncCbLoop)

/-- A watcher with its `connection_private`. `id` counts the connections accepted before it. -/
structure Client where
  id : ℕ
  addr : InAddr
  client : CStr
  firstResponseSent : Bool

/-- A worker thread. While it is in `async_cb`, `asyncCb` tells whether the loop ends behind it;
`started` are the connections it ever began to watch. -/
structure Worker where
  eventLoop : Loop
  eventAsync : Bool
  asyncCb : Option Bool
  watchersQueue : List Client
  watching : List Client
  started : List ℕ

/-- A tcp listener, with `do_shutdown` and what has become of the connections. `sending` is the
worker that `accept_cb` still has to wake up. -/
structure Server where
  threads : ℕ
  threadMode : ThreadMode
  eventLoop : Loop
  wAsync : Bool
  workers : ℕ → Worker
  acceptCurrentWorkerIdx : ℕ
  sending : Option ℕ
  stopping : Stopping
  doShutdown : Bool
  accepted : ℕ
  handed : List ℕ
  closed : List ℕ
  lost : List ℕ
  decoded : List (InAddr × CStr × Bytes)
  responses : List (ℕ × ℤ)
  writtenFreed : List ℕ

def newWorker : Worker where
  eventLoop := .notStarted
  eventAsync := false
  asyncCb := none
  watchersQueue := []
  watching := []
  started := []

def createSocketListener (numThreads : Option ℕ) (mode : Option ThreadMode) : Server where
  threads := configThreads numThreads
  threadMode := mode.getD .epoll
  eventLoop := .notStarted
  wAsync := false
  workers _ := newWorker
  acceptCurrentWorkerIdx := 0
  sending := none
  stopping := .send 0
  doShutdown := false
  accepted := 0
  handed := []
  closed := []
  lost := []
  decoded := []
  responses := []
  writtenFreed := []

inductive Recv
  | data (buffer : Bytes)
  | again
  | failed
  | closed

/-- One step of one thread: of the accept loop, of the worker `i`, or of the thread that stops them.
`read` is about the connection at the index `k` of those that the worker watches. -/
inductive Event
  | mainTcpLoop
  | accept (addr : InAddr) (clientAddr : Option CStr) (calloc : Bool)
  | asyncSend
  | wakeAccept
  | wakeWorker (i : ℕ)
  | pop (i : ℕ)
  | popped (i : ℕ)
  | read (i k : ℕ) (recv : Recv) (sendRet : ℤ)
  | joinOther
  | join
  | sendWorker
  | joinWorker

namespace Server

def setWorker (s : Server) (i : ℕ) (w : Worker) : Server :=
  { s with workers := update s.workers i w }

def mainTcpLoop (s : Server) : Server :=
  { s with
    eventLoop := .running
    workers := fun i ↦ if i < s.threads then { newWorker with eventLoop := .running } else s.workers i }

/-- The end of `accept_cb` but for its `ev_async_send`. -/
def fifoqAdd (s : Server) (c : Client) : Server :=
  let curIdx := s.acceptCurrentWorkerIdx
  let idx := if curIdx + 1 ≥ s.threads then 0 else curIdx + 1
  let w := s.workers curIdx
  { s.setWorker curIdx { w with watchersQueue := w.watchersQueue ++ [c] } with
    acceptCurrentWorkerIdx := idx
    sending := some curIdx
    handed := s.handed ++ [c.id] }

/-- `accept_cb` from its `accept` on. There is no result when the process exits. -/
def acceptCb (g : Settings) (addr : InAddr) (clientAddr : Option CStr) (calloc : Bool) (s : Server) :
    Option Server :=
  let clientSd := s.accepted
  let s := { s with accepted := s.accepted + 1 }
  match clientAddr with
  | none => some { s with lost := s.lost ++ [clientSd] }
  | some client =>
    if inAddrListContains g.blacklist addr then some { s with closed := s.closed ++ [clientSd] }
    else if s.threadMode = .threadPerConnection then none
    else if calloc then some (s.fifoqAdd ⟨clientSd, addr, client, false⟩)
    else some { s with lost := s.lost ++ [clientSd] }

def asyncSend (s : Server) (i : ℕ) : Server :=
  { s.setWorker i { s.workers i with eventAsync := true } with sending := none }

def closeSocketAndStopWatcher (s : Server) (i k : ℕ) (c : Client) : Server :=
  let w := s.workers i
  { s.setWorker i { w with watching := w.watching.eraseIdx k } with closed := s.closed ++ [c.id] }

def setFirstResponseSent (s : Server) (i k : ℕ) (c : Client) : Server :=
  let w := s.workers i
  s.setWorker i { w with watching := w.watching.set k { c with firstResponseSent := true } }

/-- The end of `read_cb`. It goes on to `first_response_sent` behind the connection that it closed.
-/
def firstResponse (g : Settings) (i k : ℕ) (c : Client) (sendRet : ℤ) (s : Server) : Server :=
  match g.response with
  | none => s
  | some response =>
    if c.firstResponseSent then s
    else if response.length = 0 then s.setFirstResponseSent i k c
    else
      let s := { s with responses := s.responses ++ [(c.id, sendRet)] }
      if sendRet ≤ 0 then
        { s.closeSocketAndStopWatcher i k c with writtenFreed := s.writtenFreed ++ [c.id] }
      else s.setFirstResponseSent i k c

def readCb (g : Settings) (i k : ℕ) (c : Client) (recv : Recv) (sendRet : ℤ) (s : Server) : Server :=
  match recv with
  | .again => s
  | .failed => s.closeSocketAndStopWatcher i k c
  | .closed => s.closeSocketAndStopWatcher i k c
  | .data buffer =>
    firstResponse g i k c sendRet { s with decoded := s.decoded ++ [(c.addr, c.client, buffer)] }

def idle (w : Worker) : Prop := w.eventLoop = .running ∧ w.asyncCb = none

instance (w : Worker) : Decidable (idle w) :=
  inferInstanceAs (Decidable (w.eventLoop = .running ∧ w.asyncCb = none))

def step (g : Settings) : Event → Server → Option Server
  | .mainTcpLoop, s => if s.eventLoop = .notStarted then some s.mainTcpLoop else none
  | .accept addr clientAddr calloc, s =>
    if s.eventLoop = .running ∧ s.sending = none then s.acceptCb g addr clientAddr calloc else none
  | .asyncSend, s => s.sending.map s.asyncSend
  | .wakeAccept, s =>
    if s.eventLoop = .running ∧ s.sending = none ∧ s.wAsync = true then
      some { s with eventLoop := asyncCbLoop s.doShutdown s.eventLoop, wAsync := false }
    else none
  | .wakeWorker i, s =>
    let w := s.workers i
    if idle w ∧ w.eventAsync = true then
      some (s.setWorker i { w with eventAsync := false, asyncCb := some s.doShutdown })
    else none
  | .pop i, s =>
    let w := s.workers i
    match w.asyncCb, w.watchersQueue with
    | some _, c :: rest =>
      some (s.setWorker i { w with
        watchersQueue := rest
        watching := w.watching ++ [c]
        started := w.started ++ [c.id] })
    | _, _ => none
  | .popped i, s =>
    let w := s.workers i
    match w.asyncCb, w.watchersQueue with
    | some ends, [] =>
      some (s.setWorker i { w with asyncCb := none, eventLoop := asyncCbLoop ends w.eventLoop })
    | _, _ => none
  | .read i k recv sendRet, s =>
    let w := s.workers i
    match w.watching[k]? with
    | some c => if idle w then some (s.readCb g i k c recv sendRet) else none
    | none => none
  | .joinOther, s => some { s with doShutdown := true }
  | .join, s =>
    if s.eventLoop = .notStarted then none else some { s with doShutdown := true, wAsync := true }
  | .sendWorker, s =>
    match s.stopping with
    | .send i =>
      if s.eventLoop = .left ∧ i < s.threads then
        some { s.setWorker i { s.workers i with eventAsync := true } with stopping := .join i }
      else none
    | .join _ => none
  | .joinWorker, s =>
    match s.stopping with
    | .send _ => none
    | .join i =>
      if (s.workers i).eventLoop = .left then some { s with stopping := .send (i + 1) } else none

variable {g : Settings} {s s' : Server} {e : Event}

def decode (s : Server) (c : Client) (buffer : Bytes) : Server :=
  { s with decoded := s.decoded ++ [(c.addr, c.client, buffer)] }

def respond (s : Server) (c : Client) (sendRet : ℤ) : Server :=
  { s with responses := s.responses ++ [(c.id, sendRet)] }

def next (s : Server) : Server := { s with accepted := s.accepted + 1 }

def Ready (s : Server) (i k : ℕ) (c : Client) : Prop :=
  idle (s.workers i) ∧ (s.workers i).watching[k]? = some c

inductive Stepped (g : Settings) (s : Server) : Server → Prop
  | mainTcpLoop (hl : s.eventLoop = .notStarted) : Stepped g s s.mainTcpLoop
  | dropped (hl : s.eventLoop = .running) :
      Stepped g s { s.next with lost := s.lost ++ [s.accepted] }
  | rejected (hl : s.eventLoop = .running) :
      Stepped g s { s.next with closed := s.closed ++ [s.accepted] }
  | handed {addr : InAddr} {client : CStr} (hl : s.eventLoop = .running) (hs : s.sending = none)
      (hb : inAddrListContains g.blacklist addr = false) :
      Stepped g s (s.next.fifoqAdd ⟨s.accepted, addr, client, false⟩)
  | asyncSend {i : ℕ} (hs : s.sending = some i) : Stepped g s (s.asyncSend i)
  | wakeAccept (hl : s.eventLoop = .running) :
      Stepped g s { s with eventLoop := asyncCbLoop s.doShutdown s.eventLoop, wAsync := false }
  | wakeWorker {i : ℕ} (hi : idle (s.workers i)) :
      Stepped g s
        (s.setWorker i { s.workers i with eventAsync := false, asyncCb := some s.doShutdown })
  | pop {i : ℕ} {ends : Bool} {c : Client} {rest : List Client}
      (hcb : (s.workers i).asyncCb = some ends) (hq : (s.workers i).watchersQueue = c :: rest) :
      Stepped g s (s.setWorker i { s.workers i with
        watchersQueue := rest
        watching := (s.workers i).watching ++ [c]
        started := (s.workers i).started ++ [c.id] })
  | popped {i : ℕ} {ends : Bool} (hcb : (s.workers i).asyncCb = some ends)
      (hq : (s.workers i).watchersQueue = []) :
      Stepped g s (s.setWorker i { s.workers i with
        asyncCb := none
        eventLoop := asyncCbLoop ends (s.workers i).eventLoop })
  | readAgain : Stepped g s s
  | readClosed {i k : ℕ} {c : Client} (hr : s.Ready i k c) :
      Stepped g s (s.closeSocketAndStopWatcher i k c)
  | read {i k : ℕ} {c : Client} (buffer : Bytes) (hr : s.Ready i k c) :
      Stepped g s (s.decode c buffer)
  | noResponse {i k : ℕ} {c : Client} (buffer : Bytes) (hr : s.Ready i k c)
      (hc : c.firstResponseSent = false) :
      Stepped g s ((s.decode c buffer).setFirstResponseSent i k c)
  | responded {i k : ℕ} {c : Client} {sendRet : ℤ} (buffer : Bytes) (hr : s.Ready i k c)
      (hc : c.firstResponseSent = false) (hret : 0 < sendRet) :
      Stepped g s (((s.decode c buffer).respond c sendRet).setFirstResponseSent i k c)
  | failed {i k : ℕ} {c : Client} {sendRet : ℤ} (buffer : Bytes) (hr : s.Ready i k c)
      (hc : c.firstResponseSent = false) (hret : sendRet ≤ 0) :
      Stepped g s { ((s.decode c buffer).respond c sendRet).closeSocketAndStopWatcher i k c with
        writtenFreed := s.writtenFreed ++ [c.id] }
  | joinOther : Stepped g s { s with doShutdown := true }
  | join (hl : s.eventLoop ≠ .notStarted) :
      Stepped g s { s with doShutdown := true, wAsync := true }
  | sendWorker {i : ℕ} (hl : s.eventLoop = .left) (hi : i < s.threads) :
      Stepped g s
        { s.setWorker i { s.workers i with eventAsync := true } with stopping := .join i }
  | joinWorker {i : ℕ} (hl : (s.workers i).eventLoop = .left) :
      Stepped g s { s with stopping := .send (i + 1) }

theorem stepped_of_accept {addr : InAddr} {clientAddr : Option CStr} {calloc : Bool}
    (hl : s.eventLoop = .running) (hs : s.sending = none)
    (h : s.acceptCb g addr clientAddr calloc = some s') : Stepped g s s' := by
  unfold acceptCb at h
  cases clientAddr with
  | none =>
    obtain rfl := by simpa using h
    exact .dropped hl
  | some client =>
    by_cases hb : inAddrListContains g.blacklist addr = true
    · obtain rfl := by simpa [hb] using h
      exact .rejected hl
    · by_cases hm : s.threadMode = .threadPerConnection
      · simp [hb, hm] at h
      · cases calloc with
        | true =>
          obtain rfl := by simpa [hb, hm] using h
          exact .handed hl hs (Bool.eq_false_iff.mpr hb)
        | false =>
          obtain rfl := by simpa [hb, hm] using h
          exact .dropped hl

theorem stepped_of_read {i k : ℕ} {c : Client} (hr : s.Ready i k c) (recv : Recv) (sendRet : ℤ) :
    Stepped g s (s.readCb g i k c recv sendRet) := by
  cases recv with
  | again => exact .readAgain
  | failed => exact .readClosed hr
  | closed => exact .readClosed hr
  | data buffer =>
    unfold readCb firstResponse
    cases g.response with
    | none => exact .read buffer hr
    | some response =>
      cases hc : c.firstResponseSent with
      | true =>
        simp only [if_true]
        exact .read buffer hr
      | false =>
        by_cases hlen : response.length = 0
        · simp only [hlen, if_true, Bool.false_eq_true, if_false]
          exact .noResponse buffer hr hc
        · by_cases hret : sendRet ≤ 0
          · simp only [hlen, hret, if_true, Bool.false_eq_true, if_false]
            exact .failed buffer hr hc hret
          · simp only [hlen, hret, Bool.false_eq_true, if_false]
            exact .responded buffer hr hc (by omega)

theorem stepped_of_step (h : step g e s = some s') : Stepped g s s' := by
  unfold step at h
  cases e with
  | mainTcpLoop =>
    obtain ⟨hl, rfl⟩ := by simpa using h
    exact .mainTcpLoop hl
  | accept addr clientAddr calloc =>
    obtain ⟨⟨hl, hs⟩, h⟩ := by simpa using h
    exact stepped_of_accept hl hs h
  | asyncSend =>
    obtain ⟨i, hs, rfl⟩ := by simpa using h
    exact .asyncSend hs
  | wakeAccept =>
    obtain ⟨⟨hl, -⟩, rfl⟩ := by simpa using h
    exact .wakeAccept hl
  | wakeWorker i =>
    obtain ⟨⟨hi, -⟩, rfl⟩ := by simpa using h
    exact .wakeWorker hi
  | pop i =>
    cases hcb : (s.workers i).asyncCb with
    | none => simp [hcb] at h
    | some ends =>
      cases hq : (s.workers i).watchersQueue with
      | nil => simp [hcb, hq] at h
      | cons c rest =>
        simp only [hcb, hq, Option.some.injEq] at h
        rw [← h, ← hcb]
        exact .pop hcb hq
  | popped i =>
    cases hcb : (s.workers i).asyncCb with
    | none => simp [hcb] at h
    | some ends =>
      cases hq : (s.workers i).watchersQueue with
      | nil =>
        simp only [hcb, hq, Option.some.injEq] at h
        rw [← h, ← hq]
        exact .popped hcb hq
      | cons c rest => simp [hcb, hq] at h
  | read i k recv sendRet =>
    cases hk : (s.workers i).watching[k]? with
    | none => simp [hk] at h
    | some c =>
      obtain ⟨hi, rfl⟩ := by simpa [hk] using h
      exact stepped_of_read ⟨hi, hk⟩ recv sendRet
  | joinOther =>
    obtain rfl := by simpa using h
    exact .joinOther
  | join =>
    obtain ⟨hl, rfl⟩ := by simpa using h
    exact .join hl
  | sendWorker =>
    cases hst : s.stopping with
    | send i =>
      obtain ⟨⟨hl, hi⟩, rfl⟩ := by simpa [hst] using h
      exact .sendWorker hl hi
    | join i => simp [hst] at h
  | joinWorker =>
    cases hst : s.stopping with
    | send i => simp [hst] at h
    | join i =>
      obtain ⟨hl, rfl⟩ := by simpa [hst] using h
      exact .joinWorker hl

end Server

def plain : Settings := { initGlobalConfig with response := some (lit "ok").1 }

def blocking : Surroundings := { quiet with inetPton := fun _ ↦ some 3232261379 }

def blockedTexts : List Lib.Jansson.Json := [.string (lit "192.168.101.3")]

def blocked : Settings := { plain with blacklist := [3232261379] }

theorem plain_blocked : parseBlacklist blocking plain (.array blockedTexts) = some blocked := rfl

def twoConnections : List Event :=
  [.mainTcpLoop, .accept 1 (some (lit "0.0.0.1")) true, .asyncSend, .wakeWorker 0, .pop 0, .popped 0,
    .read 0 0 (.data [65]) (-1), .accept 2 (some (lit "0.0.0.2")) true]

def listening : Server := createSocketListener (some 2) none

theorem twoConnections_runs : (run (Server.step blocked) twoConnections listening).isSome := rfl

def served : Server := (run (Server.step blocked) twoConnections listening).get twoConnections_runs

theorem served_reachable : Reachable (Server.step blocked) listening served :=
  reachable_of_run .start _ (Option.some_get twoConnections_runs).symm

section Whole

variable {g : Settings} {s : Server} {l : Socket.SocketListener} {e : Socket.Event}

def wholeWorker (w : Worker) : Socket.Worker where
  eventLoop := w.eventLoop
  eventAsync := w.eventAsync
  watchersQueue := w.watchersQueue.map Client.id
  watching := w.watching.map Client.id

def whole (s : Server) : Socket.SocketListener where
  threads := s.threads
  threadMode := s.threadMode
  eventLoop := s.eventLoop
  wAsync := s.wAsync
  workers i := wholeWorker (s.workers i)
  acceptCurrentWorkerIdx := s.acceptCurrentWorkerIdx
  stopping := s.stopping

def Settled (s : Server) : Prop := s.sending = none ∧ ∀ i, (s.workers i).asyncCb = none

theorem whole_setWorker (s : Server) (i : ℕ) (w : Worker) :
    whole (s.setWorker i w) = (whole s).setWorker i (wholeWorker w) := by
  simp only [whole, Server.setWorker, Socket.SocketListener.setWorker,
    Socket.SocketListener.mk.injEq, true_and, and_true]
  funext j
  simp only [update_apply]
  split <;> rfl

theorem run_pop {i : ℕ} (ends : Bool) (queue : List Client) (s : Server)
    (hcb : (s.workers i).asyncCb = some ends) (hq : (s.workers i).watchersQueue = queue) :
    run (Server.step g) (List.replicate queue.length (.pop i)) s =
      some (s.setWorker i { s.workers i with
        watchersQueue := []
        watching := (s.workers i).watching ++ queue
        started := (s.workers i).started ++ queue.map Client.id }) := by
  induction queue generalizing s with
  | nil =>
    have hworker : ({ s.workers i with watchersQueue := [] } : Worker) = s.workers i := by
      rw [← hq]
    simp [run, Server.setWorker, hworker]
  | cons c rest ih =>
    have hstep : Server.step g (.pop i) s = some (s.setWorker i { s.workers i with
        watchersQueue := rest
        watching := (s.workers i).watching ++ [c]
        started := (s.workers i).started ++ [c.id] }) := by
      simp [Server.step, hcb, hq]
    rw [List.length_cons, List.replicate_succ, run, hstep, Option.bind_some, ih]
    · simp [Server.setWorker]
    · simp [Server.setWorker, hcb]
    · simp [Server.setWorker]

/-- A run of the threads' steps that leaves the listener as `l`. -/
def Realized (g : Settings) (s : Server) (l : Socket.SocketListener) : Prop :=
  ∃ es s', run (Server.step g) es s = some s' ∧ Settled s' ∧ whole s' = l

theorem mainTcpLoop_realized (hs : Settled s) (hl : s.eventLoop = .notStarted) :
    Realized g s (whole s).mainTcpLoop := by
  obtain ⟨hsending, hcb⟩ := hs
  refine ⟨[.mainTcpLoop], s.mainTcpLoop, by simp [run, Server.step, hl], ⟨hsending, ?_⟩, ?_⟩
  · intro i
    simp only [Server.mainTcpLoop]
    split
    · rfl
    · exact hcb i
  · simp only [whole, Server.mainTcpLoop, Socket.SocketListener.mainTcpLoop,
      Socket.SocketListener.mk.injEq, true_and, and_true]
    funext i
    by_cases hi : i < s.threads
    · rw [if_pos hi]
      exact (if_pos hi).symm
    · rw [if_neg hi]
      exact (if_neg hi).symm

theorem dropped_realized (hs : Settled s) (hl : s.eventLoop = .running) :
    Realized g s (whole s) := by
  obtain ⟨hsending, hcb⟩ := hs
  refine ⟨[.accept 0 none false], { s.next with lost := s.lost ++ [s.accepted] }, ?_,
    ⟨hsending, hcb⟩, rfl⟩
  simp [run, Server.step, hl, hsending, Server.acceptCb, Server.next]

theorem acceptClient_realized (hs : Settled s) (hl : s.eventLoop = .running)
    (hmode : s.threadMode ≠ .threadPerConnection) {addr : BitVec 32}
    (hb : inAddrListContains g.blacklist addr = false) :
    Realized g s ((whole s).acceptClient s.accepted) := by
  obtain ⟨hsending, hcb⟩ := hs
  have haccept : Server.step g (.accept addr (some (lit "")) true) s =
      some (s.next.fifoqAdd ⟨s.accepted, addr, lit "", false⟩) := by
    simp [Server.step, hl, hsending, Server.acceptCb, hb, hmode, Server.next]
  have hsend : Server.step g .asyncSend (s.next.fifoqAdd ⟨s.accepted, addr, lit "", false⟩) =
      some ((s.next.fifoqAdd ⟨s.accepted, addr, lit "", false⟩).asyncSend
        s.acceptCurrentWorkerIdx) := rfl
  refine ⟨[.accept addr (some (lit "")) true, .asyncSend],
    (s.next.fifoqAdd ⟨s.accepted, addr, lit "", false⟩).asyncSend s.acceptCurrentWorkerIdx,
    ?_, ⟨rfl, ?_⟩, ?_⟩
  · simp only [run, haccept, Option.bind_some, hsend]
  · intro j
    simp only [Server.asyncSend, Server.setWorker, Server.fifoqAdd, Server.next, update_apply]
    split
    · split
      · exact hcb _
      · exact hcb _
    · exact hcb j
  · simp only [whole, Server.asyncSend, Server.setWorker, Server.fifoqAdd, Server.next,
      Socket.SocketListener.acceptClient, Socket.SocketListener.setWorker, update_idem,
      update_self, Socket.SocketListener.mk.injEq, true_and, and_true]
    refine ⟨?_, rfl⟩
    funext j
    by_cases hj : j = s.acceptCurrentWorkerIdx
    · subst hj
      simp [wholeWorker]
    · simp only [update_of_ne hj]

theorem wakeAccept_realized (hs : Settled s) (hl : s.eventLoop = .running)
    (hw : s.wAsync = true) :
    Realized g s { whole s with
      eventLoop := asyncCbLoop s.doShutdown s.eventLoop
      wAsync := false } := by
  refine ⟨[.wakeAccept],
    { s with eventLoop := asyncCbLoop s.doShutdown s.eventLoop, wAsync := false }, ?_, hs, rfl⟩
  simp [run, Server.step, hl, hw, hs.1]

theorem wakeWorker_realized (hs : Settled s) {i : ℕ} (hl : (s.workers i).eventLoop = .running)
    (hw : (s.workers i).eventAsync = true) :
    Realized g s ((whole s).setWorker i
      (Socket.SocketListener.asyncCb s.doShutdown (wholeWorker (s.workers i)))) := by
  obtain ⟨hsending, hcb⟩ := hs
  have hwake : Server.step g (.wakeWorker i) s = some (s.setWorker i { s.workers i with
      eventAsync := false
      asyncCb := some s.doShutdown }) := by
    simp [Server.step, Server.idle, hl, hw, hcb i]
  refine ⟨.wakeWorker i :: List.replicate (s.workers i).watchersQueue.length (.pop i) ++
    [.popped i], s.setWorker i
      { eventLoop := asyncCbLoop s.doShutdown (s.workers i).eventLoop
        eventAsync := false
        asyncCb := none
        watchersQueue := []
        watching := (s.workers i).watching ++ (s.workers i).watchersQueue
        started := (s.workers i).started ++ (s.workers i).watchersQueue.map Client.id },
    ?_, ⟨hsending, ?_⟩, ?_⟩
  · rw [List.cons_append, run, hwake, Option.bind_some, run_append,
      run_pop s.doShutdown (s.workers i).watchersQueue]
    · simp [run, Server.step, Server.setWorker]
    · simp [Server.setWorker]
    · simp [Server.setWorker]
  · intro j
    simp only [Server.setWorker, update_apply]
    split
    · rfl
    · exact hcb j
  · rw [whole_setWorker]
    simp [wholeWorker, Socket.SocketListener.asyncCb]

theorem sendWorker_realized (hs : Settled s) {i : ℕ} (hst : s.stopping = .send i)
    (hl : s.eventLoop = .left) (hi : i < s.threads) :
    Realized g s { (whole s).setWorker i { wholeWorker (s.workers i) with eventAsync := true } with
      stopping := .join i } := by
  obtain ⟨hsending, hcb⟩ := hs
  refine ⟨[.sendWorker],
    { s.setWorker i { s.workers i with eventAsync := true } with stopping := .join i }, ?_,
    ⟨hsending, ?_⟩, ?_⟩
  · simp [run, Server.step, hst, hl, hi]
  · intro j
    simp only [Server.setWorker, update_apply]
    split
    · exact hcb i
    · exact hcb j
  · exact congrArg (fun w : Socket.SocketListener ↦ { w with stopping := .join i })
      (whole_setWorker s i { s.workers i with eventAsync := true })

theorem joinWorker_realized (hs : Settled s) {i : ℕ} (hst : s.stopping = .join i)
    (hl : (s.workers i).eventLoop = .left) :
    Realized g s { whole s with stopping := .send (i + 1) } := by
  refine ⟨[.joinWorker], { s with stopping := .send (i + 1) }, ?_, hs, rfl⟩
  simp [run, Server.step, hst, hl]

/-- The whole callbacks of the listener are runs of its threads' steps. -/
theorem handle_realized (hs : Settled s)
    (h : (whole s).handle s.doShutdown e = some l)
    (he : ∀ fd, e = .accept (.client fd) →
      fd = s.accepted ∧ ∃ addr, inAddrListContains g.blacklist addr = false) :
    Realized g s l := by
  cases e with
  | mainTcpLoop =>
    obtain ⟨hl, rfl⟩ := by simpa [Socket.SocketListener.handle] using h
    exact mainTcpLoop_realized hs hl
  | accept outcome =>
    obtain ⟨hl, h⟩ := by simpa [Socket.SocketListener.handle] using h
    cases outcome with
    | rejected =>
      obtain rfl := by simpa [Socket.SocketListener.acceptCb] using h
      exact dropped_realized hs hl
    | noMemory =>
      obtain ⟨-, rfl⟩ := by simpa [Socket.SocketListener.acceptCb] using h
      exact dropped_realized hs hl
    | client fd =>
      obtain ⟨hmode, rfl⟩ := by simpa [Socket.SocketListener.acceptCb] using h
      obtain ⟨rfl, addr, hb⟩ := he fd rfl
      exact acceptClient_realized hs hl hmode hb
  | wakeAccept =>
    obtain ⟨⟨hl, hw⟩, rfl⟩ := by simpa [Socket.SocketListener.handle] using h
    exact wakeAccept_realized hs hl hw
  | wakeWorker i =>
    obtain ⟨⟨hl, hw⟩, rfl⟩ := by simpa [Socket.SocketListener.handle] using h
    exact wakeWorker_realized hs hl hw
  | sendWorker =>
    cases hst : s.stopping with
    | send i =>
      have hst' : (whole s).stopping = .send i := hst
      obtain ⟨⟨hl, hi⟩, rfl⟩ := by simpa [Socket.SocketListener.handle, hst'] using h
      exact sendWorker_realized hs hst hl hi
    | join i =>
      have hst' : (whole s).stopping = .join i := hst
      simp [Socket.SocketListener.handle, hst'] at h
  | joinWorker =>
    cases hst : s.stopping with
    | send i =>
      have hst' : (whole s).stopping = .send i := hst
      simp [Socket.SocketListener.handle, hst'] at h
    | join i =>
      have hst' : (whole s).stopping = .join i := hst
      obtain ⟨hl, rfl⟩ := by simpa [Socket.SocketListener.handle, hst'] using h
      exact joinWorker_realized hs hst hl

end Whole

end N2Kafka.Listener.SocketClients
