import Mathlib.Data.List.Basic
import N2Kafka.Engine.RdkafkaConfig
import N2Kafka.Engine.Reload

namespace N2Kafka.Engine.Startup

open Lib.CString Lib.Jansson Engine.GlobalConfig Engine.RdkafkaConfig Engine.Reload

abbrev InAddr := BitVec 32

/-- `in_addr_list_t`, with the address added last in front. -/
abbrev InAddrList := List InAddr

def inAddrListNew : InAddrList := []

def inAddrListAdd (list : InAddrList) (addr : InAddr) : InAddrList := addr :: list

def inAddrListContains (list : InAddrList) (addr : InAddr) : Bool := list.any fun n ↦ addr = n

structure Settings where
  configPath : Option CStr
  topic : Option CStr
  blacklist : InAddrList
  response : Option Bytes
  logSeverity : ℤ

def logInfo : ℤ := 6

def initGlobalConfig : Settings where
  configPath := none
  topic := none
  blacklist := inAddrListNew
  response := none
  logSeverity := logInfo

def noListeners : Config where
  listeners := []
  next := 0
  calls := []
  fresh := nofun
  distinct := .nil

/-- What the libraries and the system answer at startup. `inet_pton` writes an address or says that
there is none in the text; `staleAddr` is what is in the address of a turn that it did not write. -/
structure Surroundings where
  libs : Libs
  environ : List EnvVar
  stale : ℕ → ℕ → UInt8
  rdFileRead : CStr → Option Bytes
  inetPton : CStr → Option InAddr
  staleAddr : ℕ → InAddr
  rdKafkaNew : RdkafkaConf → Bool
  world : World

/-- `assert_pton`. Its return code is negative for an unknown family only. -/
def assertPton (sur : Surroundings) (index : ℕ) (src : CStr) : InAddr :=
  (sur.inetPton src).getD (sur.staleAddr index)

/-- The turns of `parse_blacklist`. The process is gone behind a value that is no string. -/
def blacklistValues (sur : Surroundings) : ℕ → List Json → InAddrList → Option InAddrList
  | _, [], list => some list
  | index, .string addrString :: rest, list =>
    blacklistValues sur (index + 1) rest (inAddrListAdd list (assertPton sur index addrString))
  | _, _ :: _, _ => none

def parseBlacklist (sur : Surroundings) (g : Settings) : Json → Option Settings
  | .array items =>
    (blacklistValues sur 0 items g.blacklist).map fun list ↦ { g with blacklist := list }
  | _ => none

def parseResponse (sur : Surroundings) (g : Settings) (filename : CStr) : Option Settings :=
  (sur.rdFileRead filename).map fun response ↦ { g with response := some response }

def topicKey (topic : Option CStr) (m : CStr × Json) : Option CStr :=
  match m.2 with
  | .string s => if strcasecmp m.1 (lit "topic") = 0 then some s else topic
  | _ => topic

/-- What `json_object_foreach` visits: what is not an object has no members. -/
def objectMembers : Json → List (CStr × Json)
  | .object members => members
  | _ => []

structure Unpacked where
  debug : Option ℤ
  response : Option CStr
  blacklist : Option Json
  listeners : Option Json

/-- `json_unpack_ex` with `{s?i,s?s,s?o,s:o}`, which ends at the first value of a wrong type. -/
def unpackGlobal (root : Json) : Unpacked :=
  match root, root.objectGet (lit "debug") with
  | .object _, none => unpackRest none
  | _, some (.integer n) => unpackRest (some (Json.toInt32 n))
  | _, _ => ⟨none, none, none, none⟩
where
  unpackRest (debug : Option ℤ) : Unpacked :=
    match root.objectGet (lit "response") with
    | none => ⟨debug, none, root.objectGet (lit "blacklist"), root.objectGet (lit "listeners")⟩
    | some (.string s) =>
      ⟨debug, some s, root.objectGet (lit "blacklist"), root.objectGet (lit "listeners")⟩
    | some _ => ⟨debug, none, none, none⟩

def parseListeners (world : World) : ℕ → List Json → Config → Except Exit Config
  | _, [], c => .ok c
  | index, value :: rest, c =>
    match parseListener world index value c with
    | .error e => .error e
    | .ok c => parseListeners world (index + 1) rest c

def startupEntries (root : Json) : List Json :=
  ((unpackGlobal root).listeners.map Json.arrayItems).getD []

/-- `parse_config`. The process is gone when there is no result: behind an `exit`, a `fatal` or a
failed assertion. -/
def parseConfig (sur : Surroundings) (configFilePath : CStr) (root : Option Json) (g : Settings)
    (c : Config) : Option (Settings × RdkafkaConf × Config) := do
  let g := { g with configPath := some configFilePath }
  let root ← root
  let conf ← (getRdkafkaConfig sur.libs sur.stale sur.environ (objectMembers root)).toOption
  let g := { g with topic := (objectMembers root).foldl topicKey g.topic }
  let unpacked := unpackGlobal root
  let g := { g with logSeverity := unpacked.debug.getD g.logSeverity }
  let g ← unpacked.response.elim (some g) (parseResponse sur g)
  let g ← unpacked.blacklist.elim (some g) (parseBlacklist sur g)
  if sur.rdKafkaNew conf then
    let c ← (parseListeners sur.world 0 (startupEntries root) c).toOption
    return (g, conf, c)
  else none

variable {sur : Surroundings}

theorem parseResponse_configPath {g g' : Settings} {filename : Option CStr}
    (h : filename.elim (some g) (parseResponse sur g) = some g') : g'.configPath = g.configPath := by
  cases filename with
  | none =>
    cases h
    rfl
  | some filename =>
    obtain ⟨_, -, rfl⟩ := Option.map_eq_some_iff.mp h
    rfl

theorem parseBlacklist_configPath {g g' : Settings} {array : Option Json}
    (h : array.elim (some g) (parseBlacklist sur g) = some g') : g'.configPath = g.configPath := by
  cases array with
  | none =>
    cases h
    rfl
  | some array =>
    cases array with
    | array items =>
      obtain ⟨_, -, rfl⟩ := Option.map_eq_some_iff.mp h
      rfl
    | _ => cases h

theorem parseConfig_eq_some {path : CStr} {root : Option Json} {g g' : Settings}
    {conf : RdkafkaConf} {c c' : Config}
    (h : parseConfig sur path root g c = some (g', conf, c')) :
    ∃ file, root = some file ∧ g'.configPath = some path ∧
      parseListeners sur.world 0 (startupEntries file) c = .ok c' := by
  simp only [parseConfig, Option.bind_eq_bind, Option.bind_eq_some_iff] at h
  obtain ⟨file, hroot, conf', -, g₁, hg₁, g₂, hg₂, h⟩ := h
  split at h
  · obtain ⟨c₁, hc₁, h⟩ := Option.bind_eq_some_iff.mp h
    cases h
    refine ⟨file, hroot, ?_, ?_⟩
    · rw [parseBlacklist_configPath hg₂, parseResponse_configPath hg₁]
    · cases hp : parseListeners sur.world 0 (startupEntries file) c with
      | error e => simp [hp, Except.toOption] at hc₁
      | ok c₂ => simpa [hp, Except.toOption] using hc₁
  · cases h

theorem inAddrListContains_iff {list : InAddrList} {addr : InAddr} :
    inAddrListContains list addr = true ↔ addr ∈ list := by
  simp [inAddrListContains]

theorem mem_blacklistValues {index : ℕ} {items : List Json} {list list' : InAddrList}
    (h : blacklistValues sur index items list = some list') (addr : InAddr) :
    addr ∈ list' ↔ addr ∈ list ∨
      ∃ i text, items[i]? = some (.string text) ∧ assertPton sur (index + i) text = addr := by
  induction items generalizing index list with
  | nil =>
    cases h
    simp
  | cons item rest ih =>
    cases item with
    | string text =>
      rw [blacklistValues] at h
      rw [ih h, inAddrListAdd, List.mem_cons, or_assoc, or_left_comm]
      refine or_congr_right ?_
      constructor
      · intro hor
        rcases hor with rfl | ⟨i, text', hi, ha⟩
        · exact ⟨0, text, rfl, rfl⟩
        · exact ⟨i + 1, text', hi, by rwa [← Nat.add_assoc, Nat.add_right_comm]⟩
      · intro ⟨i, text', hi, ha⟩
        cases i with
        | zero =>
          cases hi
          exact .inl ha.symm
        | succ i =>
          refine .inr ⟨i, text', hi, ?_⟩
          rwa [Nat.add_right_comm, Nat.add_assoc]
    | _ => cases h

theorem parseBlacklist_eq_some {g g' : Settings} {array : Json}
    (h : parseBlacklist sur g array = some g') :
    ∃ items, array = .array items ∧ blacklistValues sur 0 items g.blacklist = some g'.blacklist := by
  cases array with
  | array items =>
    obtain ⟨list, hlist, rfl⟩ := Option.map_eq_some_iff.mp h
    exact ⟨items, rfl, hlist⟩
  | _ => cases h

def quiet : Surroundings where
  libs := obliging
  environ := []
  stale _ _ := 0
  rdFileRead _ := none
  inetPton _ := none
  staleAddr _ := 0
  rdKafkaNew _ := true
  world := allStart

end N2Kafka.Engine.Startup
