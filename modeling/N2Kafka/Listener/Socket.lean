import Mathlib.Data.Nat.Notation
import Mathlib.Logic.Function.Basic
import N2Kafka.Lib.Transition

namespace N2Kafka.Listener.Socket

open Lib.Transition

inductive ThreadMode
  | threadPerConnection
  | select
  | poll
  | epoll
  | invalid
  deriving DecidableEq

def maxNumThreads : ℕ := 256

/-- A libev loop: `ev_run` has not been reached, goes on, or has returned. -/
inductive Loop
  | notStarted
  | running
  | left
  deriving DecidableEq

structure Worker where
  eventLoop : Loop
  eventAsync : Bool
  watchersQueue : List ℕ
  watching : List ℕ

/-- Where the thread of the listener is after its own loop: the workers are woken up and joined one
after another. -/
inductive Stopping
  | send (i : ℕ)
  | join (i : ℕ)

structure SocketListener where
  threads : ℕ
  threadMode : ThreadMode
  eventLoop : Loop
  wAsync : Bool
  workers : ℕ → Worker
  acceptCurrentWorkerIdx : ℕ
  stopping : Stopping

structure State where
  doShutdown : Bool
  listeners : ℕ → Option SocketListener
  next : ℕ
  joining : Option ℕ

def start : State where
  doShutdown := false
  listeners _ := none
  next := 0
  joining := none

def configThreads (numThreads : Option ℕ) : ℕ :=
  let threads := numThreads.getD 1
  let threads := if threads = 0 then 1 else threads
  if threads > maxNumThreads then maxNumThreads else threads

def newWorker : Worker where
  eventLoop := .notStarted
  eventAsync := false
  watchersQueue := []
  watching := []

def createSocketListener (numThreads : Option ℕ) (mode : Option ThreadMode) : SocketListener where
  threads := configThreads numThreads
  threadMode := mode.getD .epoll
  eventLoop := .notStarted
  wAsync := false
  workers _ := newWorker
  acceptCurrentWorkerIdx := 0
  stopping := .send 0

/-- What `accept_cb` finds: no connection or one that the blacklist rejects, no memory for the watcher
of the client, or a client to hand to a worker. -/
inductive Accept
  | rejected
  | noMemory
  | client (fd : ℕ)

/-- Events of one listener. The wake-ups are those that libev delivers after an `ev_async_send`. -/
inductive Event
  | mainTcpLoop
  | accept (outcome : Accept)
  | wakeAccept
  | wakeWorker (i : ℕ)
  | sendWorker
  | joinWorker

namespace SocketListener

def setWorker (l : SocketListener) (i : ℕ) (w : Worker) : SocketListener :=
  { l with workers := Function.update l.workers i w }

/-- `main_tcp_loop` up to its `ev_run`: one loop and one thread for each worker. -/
def mainTcpLoop (l : SocketListener) : SocketListener :=
  { l with
    eventLoop := .running
    workers := fun i ↦ if i < l.threads then { newWorker with eventLoop := .running } else l.workers i }

def acceptClient (l : SocketListener) (fd : ℕ) : SocketListener :=
  let curIdx := l.acceptCurrentWorkerIdx
  let idx := if curIdx + 1 ≥ l.threads then 0 else curIdx + 1
  let w := l.workers curIdx
  { l.setWorker curIdx { w with watchersQueue := w.watchersQueue ++ [fd], eventAsync := true } with
    acceptCurrentWorkerIdx := idx }

/-- `exit(-1)` ends the process and the run with it. -/
def acceptCb (l : SocketListener) : Accept → Option SocketListener
  | .rejected => some l
  | .noMemory => if l.threadMode = .threadPerConnection then none else some l
  | .client fd => if l.threadMode = .threadPerConnection then none else some (l.acceptClient fd)

/-- The loop after `async_cb`: `ev_break` makes it return. -/
def asyncCbLoop (doShutdown : Bool) (loop : Loop) : Loop :=
  if doShutdown then .left else loop

def asyncCb (doShutdown : Bool) (w : Worker) : Worker where
  eventLoop := asyncCbLoop doShutdown w.eventLoop
  eventAsync := false
  watchersQueue := []
  watching := w.watching ++ w.watchersQueue

def handle (doShutdown : Bool) (l : SocketListener) : Event → Option SocketListener
  | .mainTcpLoop => if l.eventLoop = .notStarted then some l.mainTcpLoop else none
  | .accept outcome => if l.eventLoop = .running then l.acceptCb outcome else none
  | .wakeAccept =>
    if l.eventLoop = .running ∧ l.wAsync = true then
      some { l with eventLoop := asyncCbLoop doShutdown l.eventLoop, wAsync := false }
    else none
  | .wakeWorker i =>
    if (l.workers i).eventLoop = .running ∧ (l.workers i).eventAsync = true then
      some (l.setWorker i (asyncCb doShutdown (l.workers i)))
    else none
  | .sendWorker =>
    match l.stopping with
    | .send i =>
      if l.eventLoop = .left ∧ i < l.threads then
        some { l.setWorker i { l.workers i with eventAsync := true } with stopping := .join i }
      else none
    | .join _ => none
  | .joinWorker =>
    match l.stopping with
    | .send _ => none
    | .join i =>
      if (l.workers i).eventLoop = .left then some { l with stopping := .send (i + 1) } else none

def finished (l : SocketListener) : Prop :=
  l.eventLoop = .left ∧ ∃ i, l.stopping = .send i ∧ l.threads ≤ i

instance (l : SocketListener) : Decidable l.finished :=
  match h : l.stopping with
  | .send i =>
    decidable_of_iff (l.eventLoop = .left ∧ l.threads ≤ i) (by simp [finished, h])
  | .join _ => isFalse (by simp [finished, h])

/-- Neither the accept loop nor a worker has left its loop. -/
def Serving (l : SocketListener) : Prop :=
  l.eventLoop ≠ .left ∧ ∀ i, (l.workers i).eventLoop ≠ .left

end SocketListener

inductive Action
  | create (numThreads : Option ℕ) (mode : Option ThreadMode)
  | event (id : ℕ) (e : Event)
  | join (id : ℕ)
  | joined (id : ℕ)

def State.put (s : State) (id : ℕ) (l : Option SocketListener) : State :=
  { s with listeners := Function.update s.listeners id l }

/-- `join_listener_socket` up to `pthread_join`, which returns with `joined`. The reload that calls it
waits for it, so that nothing is created or joined meanwhile. -/
def joinListenerSocket (s : State) (id : ℕ) (l : SocketListener) : State :=
  { s.put id (some { l with wAsync := true }) with doShutdown := true, joining := some id }

def step : Action → State → Option State
  | .create numThreads mode, s =>
    if s.joining = none then
      some { s.put s.next (some (createSocketListener numThreads mode)) with next := s.next + 1 }
    else none
  | .event id e, s =>
    (s.listeners id).bind fun l ↦ (l.handle s.doShutdown e).map fun l' ↦ s.put id (some l')
  | .join id, s =>
    (s.listeners id).bind fun l ↦
      if s.joining = none ∧ l.eventLoop ≠ .notStarted then some (joinListenerSocket s id l) else none
  | .joined id, s =>
    (s.listeners id).bind fun l ↦
      if s.joining = some id ∧ l.finished then some { s.put id none with joining := none } else none

/-- The listeners that nobody joins keep all of their loops. -/
def Unaffected (s : State) : Prop :=
  ∀ id l, s.listeners id = some l → s.joining ≠ some id → l.Serving

/-- A worker may be woken up as long as no listener has been joined, or after its own has been. -/
def Allowed (before : List Action) (a : Action) : Prop :=
  ∀ id i, a = .event id (.wakeWorker i) → (∃ j, .join j ∈ before) → .join id ∈ before

namespace SocketListener

variable {l l' : SocketListener} {doShutdown : Bool} {e : Event}

theorem serving_create (numThreads : Option ℕ) (mode : Option ThreadMode) :
    (createSocketListener numThreads mode).Serving :=
  ⟨nofun, fun _ ↦ nofun⟩

@[simp]
theorem setWorker_workers (l : SocketListener) (i : ℕ) (w : Worker) :
    (l.setWorker i w).workers = Function.update l.workers i w :=
  rfl

theorem Serving.setWorker (h : l.Serving) (i : ℕ) (w : Worker) :
    (l.setWorker i w).Serving ↔ w.eventLoop ≠ .left := by
  constructor
  · intro hs
    have hw := hs.2 i
    rwa [setWorker_workers, Function.update_self] at hw
  · intro hw
    refine ⟨h.1, fun j ↦ ?_⟩
    rw [setWorker_workers, Function.update_apply]
    split
    · exact hw
    · exact h.2 j

theorem Serving.mainTcpLoop (h : l.Serving) : l.mainTcpLoop.Serving := by
  refine ⟨nofun, fun i ↦ ?_⟩
  simp only [SocketListener.mainTcpLoop]
  split
  · nofun
  · exact h.2 i

inductive Handled (doShutdown : Bool) (l : SocketListener) : Event → SocketListener → Prop
  | mainTcpLoop : Handled doShutdown l .mainTcpLoop l.mainTcpLoop
  | dropped (outcome : Accept) : Handled doShutdown l (.accept outcome) l
  | accepted (fd : ℕ) : Handled doShutdown l (.accept (.client fd)) (l.acceptClient fd)
  | wakeAccept (hw : l.wAsync = true) : Handled doShutdown l .wakeAccept
      { l with eventLoop := asyncCbLoop doShutdown l.eventLoop, wAsync := false }
  | wakeWorker (i : ℕ) : Handled doShutdown l (.wakeWorker i)
      (l.setWorker i (asyncCb doShutdown (l.workers i)))
  | sendWorker (i : ℕ) (hl : l.eventLoop = .left) : Handled doShutdown l .sendWorker
      { l.setWorker i { l.workers i with eventAsync := true } with stopping := .join i }
  | joinWorker (i : ℕ) (hl : (l.workers i).eventLoop = .left) :
      Handled doShutdown l .joinWorker { l with stopping := .send (i + 1) }

theorem handled_of_handle (h : l.handle doShutdown e = some l') : Handled doShutdown l e l' := by
  cases e with
  | mainTcpLoop =>
    obtain ⟨-, rfl⟩ := by simpa [handle] using h
    exact .mainTcpLoop
  | accept outcome =>
    obtain ⟨-, h⟩ := by simpa [handle] using h
    cases outcome with
    | rejected =>
      obtain rfl := by simpa [acceptCb] using h
      exact .dropped _
    | noMemory =>
      obtain ⟨-, rfl⟩ := by simpa [acceptCb] using h
      exact .dropped _
    | client fd =>
      obtain ⟨-, rfl⟩ := by simpa [acceptCb] using h
      exact .accepted fd
  | wakeAccept =>
    obtain ⟨⟨-, hw⟩, rfl⟩ := by simpa [handle] using h
    exact .wakeAccept hw
  | wakeWorker i =>
    obtain ⟨-, rfl⟩ := by simpa [handle] using h
    exact .wakeWorker i
  | sendWorker =>
    cases hst : l.stopping with
    | send i =>
      obtain ⟨⟨hl, -⟩, rfl⟩ := by simpa [handle, hst] using h
      exact .sendWorker i hl
    | join i => simp [handle, hst] at h
  | joinWorker =>
    cases hst : l.stopping with
    | send i => simp [handle, hst] at h
    | join i =>
      obtain ⟨hl, rfl⟩ := by simpa [handle, hst] using h
      exact .joinWorker i hl

theorem Handled.wAsync (h : Handled doShutdown l e l') (hl : l.wAsync = false) :
    l'.wAsync = false := by
  cases h with
  | wakeAccept => rfl
  | _ => exact hl

/-- A listener that is not asked to stop loses a loop only to a worker that finds `do_shutdown`. -/
theorem Handled.serving_iff (h : Handled doShutdown l e l') (hl : l.Serving)
    (hw : l.wAsync = false) : l'.Serving ↔ ∀ i, e = .wakeWorker i → doShutdown = false := by
  cases h with
  | mainTcpLoop => simp [hl.mainTcpLoop]
  | dropped => simp [hl]
  | accepted fd =>
    have ha : (l.acceptClient fd).Serving := (hl.setWorker _ _).mpr (hl.2 _)
    simp [ha]
  | wakeAccept hw' => simp [hw] at hw'
  | wakeWorker i =>
    rw [hl.setWorker]
    cases doShutdown with
    | false => simpa [asyncCb, asyncCbLoop] using hl.2 i
    | true => simp [asyncCb, asyncCbLoop]
  | sendWorker i hleft => exact absurd hleft hl.1
  | joinWorker i hleft => exact absurd hleft (hl.2 i)

end SocketListener

structure History (as : List Action) (s : State) : Prop where
  shutdown : s.doShutdown = true ↔ ∃ id, .join id ∈ as
  fresh : ∀ id, .join id ∈ as → id < s.next
  listed : ∀ id l, s.listeners id = some l → id < s.next
  gone : ∀ id, .join id ∈ as → s.listeners id = none ∨ s.joining = some id
  waited : ∀ id, s.joining = some id → .join id ∈ as
  asleep : ∀ id l, s.listeners id = some l → .join id ∉ as → l.wAsync = false

variable {as : List Action} {a : Action} {s s' : State}

theorem history_start : History [] start :=
  ⟨by simp [start], nofun, nofun, nofun, nofun, nofun⟩

theorem History.joining_iff (h : History as s) {id : ℕ} {l : SocketListener}
    (hl : s.listeners id = some l) : s.joining = some id ↔ .join id ∈ as := by
  constructor
  · exact h.waited id
  · intro hj
    cases h.gone id hj with
    | inl hn => simp [hl] at hn
    | inr hj => exact hj

@[simp, grind =]
theorem State.put_listeners (s : State) (id : ℕ) (l : Option SocketListener) (j : ℕ) :
    (s.put id l).listeners j = if j = id then l else s.listeners j := by
  simp [State.put, Function.update_apply]

@[simp, grind =]
theorem State.put_doShutdown (s : State) (id : ℕ) (l : Option SocketListener) :
    (s.put id l).doShutdown = s.doShutdown :=
  rfl

@[simp, grind =]
theorem State.put_next (s : State) (id : ℕ) (l : Option SocketListener) :
    (s.put id l).next = s.next :=
  rfl

@[simp, grind =]
theorem State.put_joining (s : State) (id : ℕ) (l : Option SocketListener) :
    (s.put id l).joining = s.joining :=
  rfl

@[simp, grind =]
theorem joinListenerSocket_listeners (s : State) (id : ℕ) (l : SocketListener) (j : ℕ) :
    (joinListenerSocket s id l).listeners j =
      if j = id then some { l with wAsync := true } else s.listeners j :=
  State.put_listeners s id _ j

inductive Stepped (s : State) : Action → State → Prop
  | create (numThreads : Option ℕ) (mode : Option ThreadMode) (hj : s.joining = none) :
      Stepped s (.create numThreads mode)
        { s.put s.next (some (createSocketListener numThreads mode)) with next := s.next + 1 }
  | event {id : ℕ} {e : Event} {l l' : SocketListener} (hl : s.listeners id = some l)
      (h : l.Handled s.doShutdown e l') : Stepped s (.event id e) (s.put id (some l'))
  | join {id : ℕ} {l : SocketListener} (hl : s.listeners id = some l) (hj : s.joining = none) :
      Stepped s (.join id) (joinListenerSocket s id l)
  | joined {id : ℕ} (hj : s.joining = some id) :
      Stepped s (.joined id) { s.put id none with joining := none }

theorem stepped_of_step (h : step a s = some s') : Stepped s a s' := by
  cases a with
  | create numThreads mode =>
    obtain ⟨hj, rfl⟩ := by simpa [step] using h
    exact .create numThreads mode hj
  | event id e =>
    obtain ⟨l, hl, h⟩ := Option.bind_eq_some_iff.mp h
    obtain ⟨l', hl', rfl⟩ := Option.map_eq_some_iff.mp h
    exact .event hl (SocketListener.handled_of_handle hl')
  | join id =>
    obtain ⟨l, hl, h⟩ := Option.bind_eq_some_iff.mp h
    obtain ⟨⟨hj, -⟩, rfl⟩ := by simpa using h
    exact .join hl hj
  | joined id =>
    obtain ⟨l, -, h⟩ := Option.bind_eq_some_iff.mp h
    obtain ⟨⟨hj, -⟩, rfl⟩ := by simpa using h
    exact .joined hj

theorem History.step (h : History as s) (hs : Stepped s a s') : History (as ++ [a]) s' := by
  cases hs with
  | create numThreads mode hj =>
    have hfresh : ∀ id, .join id ∈ as → id ≠ s.next := fun id hid ↦ (h.fresh id hid).ne
    constructor <;> grind [History, createSocketListener]
  | @event id e l l' hl he =>
    have hasleep := he.wAsync
    constructor <;> grind [History]
  | @join id l hl hj =>
    have hnext : (joinListenerSocket s id l).next = s.next := rfl
    have hjoining : (joinListenerSocket s id l).joining = some id := rfl
    have hshutdown : (joinListenerSocket s id l).doShutdown = true := rfl
    constructor <;> grind [History]
  | @joined id hj =>
    constructor <;> grind [History]

theorem unaffected_event_joining {id : ℕ} {e : Event} {l' : SocketListener} (h : History as s)
    (hu : Unaffected s) (hj : s.joining = some id) :
    Unaffected (s.put id (some l')) ∧ Allowed as (.event id e) := by
  constructor
  · intro j k hk hne
    have hji : j ≠ id := by
      intro hji
      exact hne (hji ▸ hj)
    rw [State.put_listeners, if_neg hji] at hk
    exact hu j k hk hne
  · intro j i ha _
    cases ha
    exact h.waited id hj

theorem unaffected_event {id : ℕ} {e : Event} {l l' : SocketListener} (h : History as s)
    (hu : Unaffected s) (hj : s.joining ≠ some id) (hl : s.listeners id = some l)
    (he : l.Handled s.doShutdown e l') :
    Unaffected (s.put id (some l')) ↔ Allowed as (.event id e) := by
  have hnot : .join id ∉ as := fun hm ↦ hj ((h.joining_iff hl).mpr hm)
  have hserving : Unaffected (s.put id (some l')) ↔ l'.Serving := by
    constructor
    · intro hu'
      exact hu' id l' (by simp) hj
    · intro hl' j k hk hne
      rw [State.put_listeners] at hk
      split at hk
      · cases hk
        exact hl'
      · exact hu j k hk hne
  have hshutdown : s.doShutdown = false ↔ ¬ ∃ j, .join j ∈ as := by
    rw [← h.shutdown, Bool.not_eq_true]
  rw [hserving, he.serving_iff (hu id l hl hj) (h.asleep id l hl hnot)]
  constructor
  · intro hd j i ha hex
    cases ha
    exact absurd hex (hshutdown.mp (hd i rfl))
  · intro ha i hi
    refine hshutdown.mpr fun hex ↦ hnot ?_
    exact ha id i (by rw [hi]) hex

theorem unaffected_step (h : History as s) (hu : Unaffected s) (hs : Stepped s a s') :
    Unaffected s' ↔ Allowed as a := by
  cases hs with
  | create numThreads mode hj =>
    refine iff_of_true ?_ nofun
    intro id l hl hn
    rw [State.put_listeners] at hl
    split at hl
    · cases hl
      exact SocketListener.serving_create numThreads mode
    · exact hu id l hl hn
  | @event id e l l' hl he =>
    rcases eq_or_ne s.joining (some id) with hj | hj
    · obtain ⟨hu', ha⟩ := unaffected_event_joining h hu hj
      exact iff_of_true hu' ha
    · exact unaffected_event h hu hj hl he
  | @join id l hl hj =>
    refine iff_of_true ?_ nofun
    intro j k hk hn
    have hji : j ≠ id := by
      intro hji
      exact hn (hji ▸ rfl)
    have hk' : s.listeners j = some k := by simpa [joinListenerSocket, hji] using hk
    exact hu j k hk' (by simp [hj])
  | @joined id hj =>
    refine iff_of_true ?_ nofun
    intro j k hk hn
    rw [State.put_listeners] at hk
    split at hk
    · cases hk
    · rename_i hji
      exact hu j k hk fun hjj ↦ hji (Option.some.inj (hjj.symm.trans hj))

/-- In every run, whatever is joined, created and woken up in whatever order, the listeners that are
not joined keep their accept and worker loops throughout exactly if no worker of such a listener is
woken up after the join of another one. -/
theorem unaffected_throughout_iff (as : List Action) (s : State)
    (hr : run step as start = some s) :
    Throughout step start Unaffected as ↔ ∀ before a, before ++ [a] <+: as → Allowed before a := by
  refine throughout_iff nofun ?_ hr
  intro before a s s' hb hu hs
  have hist : History before s :=
    run_invariant history_start (fun _ _ _ _ h hs ↦ h.step (stepped_of_step hs)) before s hb
  exact unaffected_step hist hu (stepped_of_step hs)

def twoListeners : List Action :=
  [.create none none, .create none none, .event 0 .mainTcpLoop, .event 1 .mainTcpLoop]

def wholeJoin (id : ℕ) : List Action :=
  [.join id, .event id .wakeAccept, .event id .sendWorker, .event id (.wakeWorker 0),
    .event id .joinWorker, .joined id]

def connection (id fd : ℕ) : List Action :=
  [.event id (.accept (.client fd)), .event id (.wakeWorker 0)]

theorem unaffected_by_later_join :
    (∃ s, run step (twoListeners ++ connection 1 7 ++ wholeJoin 0) start = some s) ∧
      Throughout step start Unaffected (twoListeners ++ connection 1 7 ++ wholeJoin 0) := by
  refine ⟨⟨_, rfl⟩, ?_⟩
  refine (unaffected_throughout_iff _ _ rfl).mpr ?_
  intro before a hp id i ha hex
  obtain ⟨hb, hn⟩ := take_of_concat_prefix hp
  rw [ha] at hn
  rw [hb] at hex ⊢
  -- the wake-ups of workers are the one of listener 1, before the join, and the one of listener 0
  match before.length, hn, hex with
  | 5, _, hex => simp [twoListeners, connection] at hex
  | 9, hn, _ =>
    obtain ⟨rfl, -⟩ : id = 0 ∧ i = 0 := by
      simpa [twoListeners, connection, wholeJoin, eq_comm] using hn
    simp [twoListeners, connection, wholeJoin]
  | 0, hn, _ | 1, hn, _ | 2, hn, _ | 3, hn, _ | 4, hn, _ | 6, hn, _ | 7, hn, _ | 8, hn, _
  | 10, hn, _ | 11, hn, _ | n + 12, hn, _ => simp [twoListeners, connection, wholeJoin] at hn

theorem connection_after_join_stops_worker :
    ¬ ∀ as s, run step as start = some s → Throughout step start Unaffected as := by
  intro h
  have hr := h (twoListeners ++ wholeJoin 0 ++ connection 1 7) _ rfl _ _ (List.prefix_rfl) rfl
  have hserving := hr 1 _ rfl nofun
  exact hserving.2 0 rfl

end N2Kafka.Listener.Socket
