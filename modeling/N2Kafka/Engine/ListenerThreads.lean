import Mathlib.Logic.Function.Basic
import N2Kafka.Engine.Reload

namespace N2Kafka.Engine.ListenerThreads

open Lib.CString Lib.Jansson Engine.GlobalConfig Engine.Reload

/-- What the thread of a socket listener gets from its calls: the descriptor of `socket`, whether
`bind` and `listen` succeed, whether there is memory for its event loop, and whether
`pthread_create` works for each worker that has an event loop. -/
structure SocketCalls where
  socket : ℤ
  bind : Bool
  listen : Bool
  evLoopNew : Bool
  workers : Bool

def createListenSocket (calls : SocketCalls) (proto : CStr) (listenPort : BitVec 16) : Option ℤ :=
  if strcmp (lit "udp") proto ≠ 0 ∧ strcmp (lit "tcp") proto ≠ 0 then some 0
  else if calls.socket = -1 then some 0
  else if listenPort = 0 then none
  else if calls.bind = false then some (-1)
  else if strcmp (lit "tcp") proto = 0 ∧ calls.listen = false then some (-1)
  else some calls.socket

/-- How far the thread of a socket listener gets. Without an event loop `event_loop` stays `NULL`. -/
inductive MainLoop
  | aborted
  | noEventLoop
  | noWorker
  | looping
  deriving DecidableEq

def mainTcpLoop (calls : SocketCalls) : MainLoop :=
  if calls.evLoopNew = false then .noEventLoop
  else if calls.workers = false then .noWorker
  else .looping

/-- `main_udp_loop` has no event loop. -/
def mainSocketLoop (calls : SocketCalls) (proto : CStr) (port : BitVec 16) : MainLoop :=
  match createListenSocket calls proto port with
  | none => .aborted
  | some listenfd =>
    if listenfd = -1 then .noEventLoop
    else if strcmp (lit "udp") proto = 0 then .noEventLoop
    else mainTcpLoop calls

def startedThread (world : World) (calls : SocketCalls) (index : ℕ) (config : Json) :
    Option MainLoop :=
  match createListener world index config, config.unpackString (lit "proto") with
  | .ok (some l), some proto =>
    if listenerFor proto = some .http then none else some (mainSocketLoop calls proto l.port)
  | _, _ => none

/-- The listeners, and the thread of each that is a socket listener. -/
structure Process where
  config : Config
  threads : ℕ → Option MainLoop

/-- `join_listener_socket` sends to `event_loop`, and the thread joins its workers. -/
def joinable (threads : ℕ → Option MainLoop) (i : Listener) : Bool :=
  match threads i.id with
  | none => true
  | some thread => thread = .looping

def checkAlreadyPresent (newListeners : List Json) (p : Process) (i : Listener) :
    Except Exit Process :=
  if kept newListeners i = false ∧ i.join = true ∧ joinable p.threads i = false then .error .fault
  else .ok { p with config := GlobalConfig.checkAlreadyPresent newListeners p.config i }

def parseListener (world : World) (calls : SocketCalls) (index : ℕ) (value : Json) (p : Process) :
    Except Exit Process :=
  match GlobalConfig.parseListener world index value p.config with
  | .error e => .error e
  | .ok config =>
    match startedThread world calls index value with
    | none => .ok { p with config := config }
    | some .aborted => .error .abort
    | some thread => .ok ⟨config, Function.update p.threads p.config.next (some thread)⟩

def createNewOnes (world : World) (calls : ℕ → SocketCalls) :
    ℕ → List Json → Process → Except Exit Process
  | _, [], p => .ok p
  | index, value :: rest, p =>
    match servedBy p.config value with
    | some _ => createNewOnes world calls (index + 1) rest p
    | none =>
      match parseListener world (calls index) index value p with
      | .error e => .error e
      | .ok p => createNewOnes world calls (index + 1) rest p

def reloadListeners (world : World) (calls : ℕ → SocketCalls) (newConfig : Option Json)
    (p : Process) : Except Exit Process :=
  match listenersArray newConfig with
  | none => .ok p
  | some entries =>
    match p.config.listeners.foldlM (checkAlreadyPresent entries) p with
    | .error e => .error e
    | .ok p => createNewOnes world calls 0 entries p

def reloadConfig (world : World) (calls : ℕ → SocketCalls) (jsonLoadFile : CStr → Option Json)
    (configPath : Option CStr) (p : Process) : Except Exit Process :=
  match configPath with
  | none => .ok p
  | some path => reloadListeners world calls (jsonLoadFile path) p

variable {world : World} {calls : ℕ → SocketCalls} {entries : List Json} {p p' : Process}
  {value : Json} {index : ℕ}

theorem foldlM_checkAlreadyPresent (entries : List Json) (todo : List Listener) (p p' : Process) :
    todo.foldlM (checkAlreadyPresent entries) p = .ok p' ↔
      (∀ l ∈ todo, kept entries l = false → l.join = true → joinable p.threads l = true) ∧
      p' = { p with config := todo.foldl (GlobalConfig.checkAlreadyPresent entries) p.config } := by
  induction todo generalizing p with
  | nil =>
    change Except.ok p = Except.ok p' ↔ _
    rw [Except.ok.injEq]
    constructor
    · intro h
      exact ⟨fun l hl ↦ absurd hl List.not_mem_nil, h.symm⟩
    · intro h
      exact h.2.symm
  | cons i todo ih =>
    rw [List.foldlM_cons, checkAlreadyPresent, List.forall_mem_cons]
    split
    · rename_i h
      obtain ⟨hk, hj, hn⟩ := h
      refine iff_of_false (fun h ↦ by cases h) ?_
      intro h
      exact Bool.false_ne_true (hn.symm.trans (h.1.1 hk hj))
    · rename_i h
      have hi : kept entries i = false → i.join = true → joinable p.threads i = true := by
        intro hk hj
        by_contra hn
        exact h ⟨hk, hj, Bool.eq_false_iff.mpr hn⟩
      rw [and_iff_right hi]
      exact ih { p with config := GlobalConfig.checkAlreadyPresent entries p.config i }

/-- The entry is a tcp listener on port 0 with a decoder, it is created, and its thread gets a
socket. -/
def Aborts (world : World) (calls : SocketCalls) (index : ℕ) (value : Json) : Prop :=
  value.unpackString (lit "proto") = some (lit "tcp") ∧
    (∃ decodeAs, value.unpackStringOpt (lit "decode_as") (lit "") = some decodeAs ∧
      (locateRegisteredDecoder decodeAs).isSome = true) ∧
    (∃ port, value.unpackInt (lit "port") = some port) ∧ searchedPort value = 0 ∧
    world.socketStarts index = true ∧ calls.socket ≠ -1

theorem mainSocketLoop_aborted_iff (calls : SocketCalls) (proto : CStr) (port : BitVec 16) :
    mainSocketLoop calls proto port = .aborted ↔
      (proto = lit "udp" ∨ proto = lit "tcp") ∧ calls.socket ≠ -1 ∧ port = 0 := by
  have hloop : mainTcpLoop calls ≠ .aborted := by
    unfold mainTcpLoop
    split
    · exact MainLoop.noConfusion
    · split <;> exact MainLoop.noConfusion
  have hudp := strcmp_eq_zero_iff (lit "udp") proto
  have htcp := strcmp_eq_zero_iff (lit "tcp") proto
  unfold mainSocketLoop createListenSocket
  grind

theorem listenerFor_tcp : listenerFor (lit "tcp") = some .tcp := by decide

theorem listenerFor_udp : listenerFor (lit "udp") = none := by decide

theorem createListener_eq_some_iff {l : NewListener} :
    createListener world index value = .ok (some l) ↔
      ∃ proto decodeAs factory, value.unpackString (lit "proto") = some proto ∧
        value.unpackStringOpt (lit "decode_as") (lit "") = some decodeAs ∧
        listenerFor proto = some factory ∧ (locateRegisteredDecoder decodeAs).isSome = true ∧
        factory.create world index value = some l := by
  unfold createListener
  grind

theorem createSocketListener_eq_some_iff {l : NewListener} :
    createSocketListener world index value = some l ↔
      (∃ proto, value.unpackString (lit "proto") = some proto) ∧ world.socketStarts index = true ∧
        ∃ port, value.unpackInt (lit "port") = some port ∧ listenerInit port = l := by
  unfold createSocketListener
  grind

theorem listenerInit_port {port : ℤ} (h : value.unpackInt (lit "port") = some port) :
    (listenerInit port).port = searchedPort value := by
  simp [listenerInit, searchedPort, entryPort, h]

theorem startedThread_aborted_iff (world : World) (calls : SocketCalls) (index : ℕ) (value : Json) :
    startedThread world calls index value = some .aborted ↔ Aborts world calls index value := by
  unfold startedThread Aborts
  constructor
  · intro h
    split at h
    · rename_i l proto hl hproto
      obtain ⟨_, decodeAs, factory, hproto', hdecode, hfactory, hdecoder, hcreate⟩ :=
        createListener_eq_some_iff.mp hl
      obtain rfl := Option.some.inj (hproto.symm.trans hproto')
      split at h
      · cases h
      · obtain ⟨hp, hs, hzero⟩ := (mainSocketLoop_aborted_iff _ _ _).mp (Option.some.inj h)
        obtain rfl | rfl := hp
        · rw [listenerFor_udp] at hfactory
          cases hfactory
        · rw [listenerFor_tcp] at hfactory
          cases hfactory
          obtain ⟨-, hstarts, port, hport, rfl⟩ := createSocketListener_eq_some_iff.mp hcreate
          rw [listenerInit_port hport] at hzero
          exact ⟨hproto, ⟨decodeAs, hdecode, hdecoder⟩, ⟨port, hport⟩, hzero, hstarts, hs⟩
    · cases h
  · intro h
    obtain ⟨hproto, ⟨decodeAs, hdecode, hdecoder⟩, ⟨port, hport⟩, hzero, hstarts, hs⟩ := h
    have hcreate : createSocketListener world index value = some (listenerInit port) :=
      createSocketListener_eq_some_iff.mpr ⟨⟨_, hproto⟩, hstarts, port, hport, rfl⟩
    have hl : createListener world index value = .ok (some (listenerInit port)) :=
      createListener_eq_some_iff.mpr
        ⟨_, _, .tcp, hproto, hdecode, listenerFor_tcp, hdecoder, hcreate⟩
    have haborted : mainSocketLoop calls (lit "tcp") (listenerInit port).port = .aborted := by
      rw [mainSocketLoop_aborted_iff, listenerInit_port hport]
      exact ⟨.inr rfl, hs, hzero⟩
    simp [hl, hproto, listenerFor_tcp, haborted]

def createNewOne (world : World) (calls : SocketCalls) (index : ℕ) (value : Json) (p : Process) :
    Except Exit Process :=
  match servedBy p.config value with
  | some _ => .ok p
  | none => parseListener world calls index value p

theorem createNewOnes_cons (world : World) (calls : ℕ → SocketCalls) (index : ℕ) (value : Json)
    (rest : List Json) (p : Process) : createNewOnes world calls index (value :: rest) p =
      (createNewOne world (calls index) index value p).bind
        (createNewOnes world calls (index + 1) rest) := by
  rw [createNewOnes, createNewOne]
  cases servedBy p.config value with
  | some i => rfl
  | none => cases parseListener world (calls index) index value p <;> rfl

theorem createNewOne_ok_iff (world : World) (calls : SocketCalls) (index : ℕ) (value : Json)
    (p : Process) (c : Config) :
    (∃ p', createNewOne world calls index value p = .ok p' ∧ p'.config = c) ↔
      Reload.createNewOne world index value p.config = .ok c ∧ ¬ Aborts world calls index value := by
  rw [createNewOne, Reload.createNewOne, ← startedThread_aborted_iff]
  cases hserved : servedBy p.config value with
  | some i =>
    have hno : startedThread world calls index value ≠ some .aborted := by
      intro h
      have hs := servedBy_isSome_iff.mp (Option.isSome_iff_exists.mpr ⟨i, hserved⟩)
      exact hs.1 ((startedThread_aborted_iff _ _ _ _).mp h).2.2.2.1
    simp [hno]
  | none =>
    simp only [parseListener]
    cases hparse : GlobalConfig.parseListener world index value p.config with
    | error e => simp
    | ok config =>
      cases startedThread world calls index value with
      | none => simp
      | some thread => cases thread <;> simp

theorem createNewOnes_ok_iff (world : World) (calls : ℕ → SocketCalls) (index : ℕ)
    (entries : List Json) (p : Process) (c : Config) :
    (∃ p', createNewOnes world calls index entries p = .ok p' ∧ p'.config = c) ↔
      reloadListenersCreateNewOnes world index entries p.config = .ok c ∧
        ∀ j value, entries[j]? = some value →
          ¬ Aborts world (calls (index + j)) (index + j) value := by
  induction entries generalizing index p with
  | nil => simp [createNewOnes, reloadListenersCreateNewOnes]
  | cons v rest ih =>
    rw [createNewOnes_cons, Reload.createNewOnes_cons]
    have hbind : (∃ p', (createNewOne world (calls index) index v p).bind
          (createNewOnes world calls (index + 1) rest) = .ok p' ∧ p'.config = c) ↔
        ∃ c₁, (∃ p₁, createNewOne world (calls index) index v p = .ok p₁ ∧ p₁.config = c₁) ∧
          reloadListenersCreateNewOnes world (index + 1) rest c₁ = .ok c ∧
          ∀ j value, rest[j]? = some value →
            ¬ Aborts world (calls (index + 1 + j)) (index + 1 + j) value := by
      cases hc : createNewOne world (calls index) index v p with
      | error e => simp [Except.bind]
      | ok p₁ => simp [Except.bind, ih]
    have hrest : (∀ j value, (v :: rest)[j]? = some value →
          ¬ Aborts world (calls (index + j)) (index + j) value) ↔
        ¬ Aborts world (calls index) index v ∧ ∀ j value, rest[j]? = some value →
          ¬ Aborts world (calls (index + 1 + j)) (index + 1 + j) value := by
      constructor
      · intro h
        refine ⟨h 0 v rfl, fun j value hv ↦ ?_⟩
        rw [Nat.add_right_comm]
        exact h (j + 1) value hv
      · intro h j value hv
        cases j with
        | zero =>
          cases hv
          exact h.1
        | succ j =>
          rw [← Nat.add_assoc, Nat.add_right_comm]
          exact h.2 j value hv
    rw [hbind, hrest]
    simp only [createNewOne_ok_iff]
    cases Reload.createNewOne world index v p.config with
    | error e => simp [Except.bind]
    | ok c₁ => simp [Except.bind, and_left_comm]

def Joins (entries : List Json) (p : Process) : Prop :=
  ∀ l ∈ p.config.listeners, kept entries l = false → l.join = true → joinable p.threads l = true

/-- The process outlives a reload exactly if `exit` is not called, no listener is joined that cannot
be, and no thread is started that aborts. Its listeners are then those of `reload_listeners`. -/
theorem reloadListeners_ok_iff (world : World) (calls : ℕ → SocketCalls) (file : Option Json)
    (p : Process) (c : Config) :
    (∃ p', reloadListeners world calls file p = .ok p' ∧ p'.config = c) ↔
      GlobalConfig.reloadListeners world file p.config = .ok c ∧
        ∀ entries, listenersArray file = some entries → Joins entries p ∧
          ∀ j value, entries[j]? = some value → ¬ Aborts world (calls j) j value := by
  rw [reloadListeners, GlobalConfig.reloadListeners]
  cases listenersArray file with
  | none => simp
  | some entries =>
    simp only [Option.some.injEq, forall_eq']
    have hpass := foldlM_checkAlreadyPresent entries p.config.listeners p
    cases hc : p.config.listeners.foldlM (checkAlreadyPresent entries) p with
    | error e =>
      have hj : ¬ Joins entries p := by
        intro h
        have := (hpass _).mpr ⟨h, rfl⟩
        rw [hc] at this
        cases this
      simp [hj]
    | ok p₁ =>
      obtain ⟨hj, rfl⟩ := (hpass p₁).mp hc
      have h := createNewOnes_ok_iff world calls 0 entries
        { p with config := reloadListenersCheckAlreadyPresent entries p.config } c
      simp only [Nat.zero_add] at h
      exact h.trans (and_congr_right fun _ ↦ (and_iff_right hj).symm)

theorem reloadConfig_eq (world : World) (calls : ℕ → SocketCalls)
    (jsonLoadFile : CStr → Option Json) (configPath : Option CStr) (p : Process) :
    reloadConfig world calls jsonLoadFile configPath p =
      reloadListeners world calls (configPath.bind jsonLoadFile) p := by
  cases configPath <;> rfl

/-- The process goes on, and the listeners that have to stay are in the list and not joined. -/
def Survives (file : Option Json) (p : Process) (result : Except Exit Process) : Prop :=
  ∃ p', result = .ok p' ∧ ∀ l ∈ p.config.listeners, Stays file l →
    l ∈ p'.config.listeners ∧ (.join l.id ∈ p'.config.calls → .join l.id ∈ p.config.calls)

def Harmless (world : World) (calls : ℕ → SocketCalls) (file : Option Json) (p : Process) : Prop :=
  Spares world file p.config ∧ ∀ entries, listenersArray file = some entries →
    Joins entries p ∧ ∀ j value, entries[j]? = some value → ¬ Aborts world (calls j) j value

def oneListener : Process where
  config :=
    { listeners := [⟨0, 2055, true, true⟩]
      next := 1
      calls := []
      fresh := by decide
      distinct := by decide }
  threads _ := some .looping

def unknownDecoder : Json :=
  .object [(lit "listeners", .array [tcpEntry 2055 [],
    tcpEntry 2056 [(lit "decode_as", .string (lit "unknown"))]])]

/-- A file that cannot be loaded, has no listeners or has a listener that cannot be created. -/
def BadFile (world : World) (file : Option Json) : Prop :=
  ∀ entries, listenersArray file = some entries →
    ∃ j value, entries[j]? = some value ∧ ¬ Creatable world j value

end N2Kafka.Engine.ListenerThreads
