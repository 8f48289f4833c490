import Mathlib.Data.List.Nodup
import N2Kafka.Lib.Jansson

namespace N2Kafka.Engine.GlobalConfig

open Lib.CString Lib.Jansson

inductive Decoder
  | dumb
  | meraki
  | zz
  deriving DecidableEq

def Decoder.name : Decoder → CStr
  | .dumb => lit ""
  | .meraki => lit "meraki"
  | .zz => lit "zz_http2k"

def registeredDecoders : List Decoder := [.dumb, .meraki, .zz]

inductive ListenerFactory
  | http
  | tcp
  | udp
  deriving DecidableEq

def ListenerFactory.name : ListenerFactory → CStr
  | .http => lit "http"
  | .tcp => lit "tcp"
  | .udp => lit "ucp"

def registeredListeners : List ListenerFactory := [.http, .tcp, .udp]

def listenerFor (proto : CStr) : Option ListenerFactory :=
  registeredListeners.find? fun f ↦ strcmp f.name proto = 0

def locateRegisteredDecoder (decodeAs : CStr) : Option Decoder :=
  registeredDecoders.find? fun d ↦ strcmp d.name decodeAs = 0

/-- A `struct listener`. `id` is the object, `reload` and `join` tell whether the callbacks are set. -/
structure Listener where
  id : ℕ
  port : BitVec 16
  reload : Bool
  join : Bool
  deriving DecidableEq

/-- What a factory hands over, not yet in the list. -/
structure NewListener where
  port : BitVec 16
  reload : Bool
  join : Bool

def listenerInit (port : ℤ) : NewListener where
  port := BitVec.ofInt 16 port
  reload := true
  join := true

/-- How `start_http_loop` ends: without a listener, with one that only has its memory (the way out
behind a secret file that could not be read), or with a daemon. -/
inductive HttpStart
  | failed
  | notRead
  | started

/-- What the factories find when the entry at some index of the array is created: files, memory,
threads, sockets and the other options of the entry. -/
structure World where
  startHttpLoop : ℕ → HttpStart
  socketStarts : ℕ → Bool

def createHttpListener (world : World) (index : ℕ) (config : Json) : Option NewListener :=
  match config.unpackInt (lit "port") with
  | none => none
  | some port =>
    match world.startHttpLoop index with
    | .failed => none
    | .notRead => some ⟨0, false, false⟩
    | .started => some (listenerInit port)

def createSocketListener (world : World) (index : ℕ) (config : Json) : Option NewListener :=
  match config.unpackString (lit "proto"), config.unpackInt (lit "port") with
  | some _, some port => if world.socketStarts index then some (listenerInit port) else none
  | _, _ => none

def ListenerFactory.create (world : World) (index : ℕ) (config : Json) :
    ListenerFactory → Option NewListener
  | .http => createHttpListener world index config
  | .tcp => createSocketListener world index config
  | .udp => createSocketListener world index config

inductive Call
  | reload (id : ℕ) (newConfig : Json)
  | join (id : ℕ)

def Call.target : Call → ℕ
  | .reload id _ => id
  | .join id => id

/-- The listeners of `global_config`, with the calls that were made of their callbacks. Listeners are
objects: no two of them have one identity, and a new one has an identity of its own. -/
structure Config where
  listeners : List Listener
  next : ℕ
  calls : List Call
  fresh : ∀ l ∈ listeners, l.id < next
  distinct : (listeners.map Listener.id).Nodup

namespace Config

def call (c : Config) (k : Call) : Config := { c with calls := c.calls ++ [k] }

def remove (c : Config) (i : Listener) : Config :=
  { c with
    listeners := c.listeners.filter fun l ↦ l.id ≠ i.id
    fresh := fun l hl ↦ c.fresh l (List.mem_of_mem_filter hl)
    distinct := c.distinct.sublist (List.filter_sublist.map _) }

def insertHead (c : Config) (l : NewListener) : Config :=
  { c with
    listeners := ⟨c.next, l.port, l.reload, l.join⟩ :: c.listeners
    next := c.next + 1
    fresh := by
      intro k hk
      cases hk with
      | head => exact Nat.lt_succ_self _
      | tail _ hk => exact Nat.lt_succ_of_lt (c.fresh k hk)
    distinct := by
      refine List.nodup_cons.mpr ⟨?_, c.distinct⟩
      intro hk
      obtain ⟨k, hk, hid⟩ := List.mem_map.mp hk
      exact absurd (c.fresh k hk) (by simp [hid]) }

end Config

/-- The process is gone: through `exit`, a failed assertion or a use of memory it does not have. -/
inductive Exit
  | exit (status : ℤ)
  | abort
  | fault

/-- `parse_listener` up to its `LIST_INSERT_HEAD`. -/
def createListener (world : World) (index : ℕ) (config : Json) : Except Exit (Option NewListener) :=
  match config.unpackString (lit "proto"), config.unpackStringOpt (lit "decode_as") (lit "") with
  | some proto, some decodeAs =>
    match listenerFor proto with
    | none => .ok none
    | some factory =>
      match locateRegisteredDecoder decodeAs with
      | none => .error (.exit (-1))
      | some _ =>
        match factory.create world index config with
        | none => .error (.exit (-1))
        | some l => .ok (some l)
  | _, _ => .ok none

def parseListener (world : World) (index : ℕ) (config : Json) (c : Config) : Except Exit Config :=
  match createListener world index config with
  | .error e => .error e
  | .ok none => .ok c
  | .ok (some l) => .ok (c.insertHead l)

def shutdownListener (c : Config) (i : Listener) : Config :=
  if i.join then c.call (.join i.id) else c

def entryPort (value : Json) : ℤ := (value.unpackInt (lit "port")).getD 0

def foundValue (iPort : BitVec 16) (newListeners : List Json) : Option Json :=
  newListeners.find? fun value ↦ entryPort value > 0 ∧ entryPort value = iPort.toNat

/-- The body of the loop of `reload_listeners_check_already_present`. -/
def checkAlreadyPresent (newListeners : List Json) (c : Config) (i : Listener) : Config :=
  match foundValue i.port newListeners, i.reload with
  | some value, true => c.call (.reload i.id value)
  | _, _ => shutdownListener (c.remove i) i

/-- The loop takes the successor of a listener before its body, which removes no other listener. -/
def reloadListenersCheckAlreadyPresent (newListeners : List Json) (c : Config) : Config :=
  c.listeners.foldl (checkAlreadyPresent newListeners) c

def searchedPort (value : Json) : BitVec 16 := BitVec.ofInt 16 (entryPort value)

def servedBy (c : Config) (value : Json) : Option Listener :=
  c.listeners.find? fun i ↦ i.port > 0 ∧ i.port = searchedPort value

def reloadListenersCreateNewOnes (world : World) : ℕ → List Json → Config → Except Exit Config
  | _, [], c => .ok c
  | index, value :: rest, c =>
    match servedBy c value with
    | some _ => reloadListenersCreateNewOnes world (index + 1) rest c
    | none =>
      match parseListener world index value c with
      | .error e => .error e
      | .ok c => reloadListenersCreateNewOnes world (index + 1) rest c

def listenersArray (newConfig : Option Json) : Option (List Json) :=
  (newConfig.bind (Json.objectGet (lit "listeners"))).map Json.arrayItems

def reloadListeners (world : World) (newConfig : Option Json) (c : Config) : Except Exit Config :=
  match listenersArray newConfig with
  | none => .ok c
  | some entries =>
    reloadListenersCreateNewOnes world 0 entries (reloadListenersCheckAlreadyPresent entries c)

def reloadConfig (world : World) (jsonLoadFile : CStr → Option Json) (configPath : Option CStr)
    (c : Config) : Except Exit Config :=
  match configPath with
  | none => .ok c
  | some path => reloadListeners world (jsonLoadFile path) c

end N2Kafka.Engine.GlobalConfig
