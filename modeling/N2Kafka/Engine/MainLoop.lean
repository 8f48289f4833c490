import N2Kafka.Engine.Startup
import N2Kafka.Lib.Transition

namespace N2Kafka.Engine.MainLoop

open Lib.CString Lib.Jansson Lib.Transition Engine.GlobalConfig Engine.RdkafkaConfig
  Engine.Reload Engine.Startup

/-- What the main thread does next: the statements of `main` behind the `sigprocmask` that blocks
the signals, those of `reload_config` and those of `free_global_config`. -/
inductive Pc
  | parsing
  | unblocking
  | testing
  | polling
  | checking
  | loading
  | applying (newConfig : Option Json)
  | clearing
  | joining (rest : List Listener)
  | closing
  | done
  | gone

/-- `file` is what `json_load_file` finds behind the path, `arrays` are the arrays of listeners that
were gone through, with what the factories found in the meantime. -/
structure Process where
  pc : Pc
  file : Option Json
  pendingInt : Bool
  pendingHup : Bool
  doShutdown : Bool
  doReload : Bool
  settings : Settings
  config : Config
  arrays : List (World × List Json)

def init (file : Option Json) : Process where
  pc := .parsing
  file := file
  pendingInt := false
  pendingHup := false
  doShutdown := false
  doReload := false
  settings := initGlobalConfig
  config := noListeners
  arrays := []

def Pc.blocked : Pc → Bool
  | .parsing => true
  | .unblocking => true
  | _ => false

def Pc.ended : Pc → Bool
  | .done => true
  | .gone => true
  | _ => false

inductive Action
  | edit (file : Option Json)
  | sigint
  | sighup
  | turn (sur : Surroundings)

def sigintProc (s : Process) : Process :=
  if s.pc.blocked then { s with pendingInt := true } else { s with doShutdown := true }

def sighupProc (s : Process) : Process :=
  if s.pc.blocked then { s with pendingHup := true } else { s with doReload := true }

/-- The handlers run for the signals that came in meanwhile. -/
def unblock (s : Process) : Process :=
  { s with
    pc := .testing
    pendingInt := false
    pendingHup := false
    doShutdown := s.doShutdown || s.pendingInt
    doReload := s.doReload || s.pendingHup }

def parse (configFilePath : CStr) (sur : Surroundings) (s : Process) : Process :=
  match parseConfig sur configFilePath s.file s.settings s.config with
  | none => { s with pc := .gone }
  | some (settings, _, config) =>
    { s with
      pc := .unblocking
      settings := settings
      config := config
      arrays := s.arrays ++ [(sur.world, (s.file.map startupEntries).getD [])] }

def applied (world : World) (newConfig : Option Json) (arrays : List (World × List Json)) :
    List (World × List Json) :=
  match listenersArray newConfig with
  | none => arrays
  | some entries => arrays ++ [(world, entries)]

def apply (sur : Surroundings) (newConfig : Option Json) (s : Process) : Process :=
  match reloadListeners sur.world newConfig s.config with
  | .error _ => { s with pc := .gone }
  | .ok config =>
    { s with pc := .clearing, config := config, arrays := applied sur.world newConfig s.arrays }

def turn (configFilePath : CStr) (sur : Surroundings) (s : Process) : Option Process :=
  match s.pc with
  | .parsing => some (parse configFilePath sur s)
  | .unblocking => some (unblock s)
  | .testing =>
    some { s with pc := if s.doShutdown then .joining s.config.listeners else .polling }
  | .polling => some { s with pc := .checking }
  | .checking => some { s with pc := if s.doReload then .loading else .testing }
  | .loading =>
    match s.settings.configPath with
    | none => some { s with pc := .clearing }
    | some _ => some { s with pc := .applying s.file }
  | .applying newConfig => some (apply sur newConfig s)
  | .clearing => some { s with pc := .testing, doReload := false }
  | .joining [] => some { s with pc := .closing }
  | .joining (i :: rest) => some { s with pc := .joining rest, config := shutdownListener s.config i }
  | .closing => some { s with pc := .done }
  | .done => none
  | .gone => none

def step (configFilePath : CStr) : Action → Process → Option Process
  | .edit file, s => if s.pc.ended then none else some { s with file := file }
  | .sigint, s => if s.pc.ended then none else some (sigintProc s)
  | .sighup, s => if s.pc.ended then none else some (sighupProc s)
  | .turn sur, s => turn configFilePath sur s

variable {path : CStr} {s s' : Process}

inductive Turned (path : CStr) (s : Process) : Process → Prop
  | parsed {sur : Surroundings} {settings : Settings} {conf : RdkafkaConf} {config : Config}
      (hpc : s.pc = .parsing)
      (hp : parseConfig sur path s.file s.settings s.config = some (settings, conf, config)) :
      Turned path s { s with
        pc := .unblocking
        settings := settings
        config := config
        arrays := s.arrays ++ [(sur.world, (s.file.map startupEntries).getD [])] }
  | exited (hpc : s.pc = .parsing ∨ ∃ newConfig, s.pc = .applying newConfig) :
      Turned path s { s with pc := .gone }
  | unblocked (hpc : s.pc = .unblocking) : Turned path s (unblock s)
  | goesOn (hpc : s.pc = .testing) (hs : s.doShutdown = false) : Turned path s { s with pc := .polling }
  | shutsDown (hpc : s.pc = .testing) (hs : s.doShutdown = true) :
      Turned path s { s with pc := .joining s.config.listeners }
  | polled (hpc : s.pc = .polling) : Turned path s { s with pc := .checking }
  | notAsked (hpc : s.pc = .checking) (hr : s.doReload = false) :
      Turned path s { s with pc := .testing }
  | asked (hpc : s.pc = .checking) (hr : s.doReload = true) : Turned path s { s with pc := .loading }
  | noPath (hpc : s.pc = .loading) (hp : s.settings.configPath = none) :
      Turned path s { s with pc := .clearing }
  | loaded (hpc : s.pc = .loading) : Turned path s { s with pc := .applying s.file }
  | applied {sur : Surroundings} {newConfig : Option Json} {config : Config}
      (hpc : s.pc = .applying newConfig)
      (hr : reloadListeners sur.world newConfig s.config = .ok config) :
      Turned path s { s with
        pc := .clearing
        config := config
        arrays := MainLoop.applied sur.world newConfig s.arrays }
  | cleared (hpc : s.pc = .clearing) : Turned path s { s with pc := .testing, doReload := false }
  | joined {i : Listener} {rest : List Listener} (hpc : s.pc = .joining (i :: rest)) :
      Turned path s { s with pc := .joining rest, config := shutdownListener s.config i }
  | allJoined (hpc : s.pc = .joining []) : Turned path s { s with pc := .closing }
  | closed (hpc : s.pc = .closing) : Turned path s { s with pc := .done }

theorem turned_of_turn {sur : Surroundings} (h : turn path sur s = some s') :
    Turned path s s' := by
  unfold turn at h
  cases hpc : s.pc with
  | parsing =>
    obtain rfl := by simpa [hpc] using h
    unfold parse
    cases hp : parseConfig sur path s.file s.settings s.config with
    | none => exact .exited (.inl hpc)
    | some result => exact .parsed hpc hp
  | unblocking =>
    obtain rfl := by simpa [hpc] using h
    exact .unblocked hpc
  | testing =>
    obtain rfl := by simpa [hpc] using h
    by_cases hs : s.doShutdown = true
    · rw [if_pos hs]
      exact .shutsDown hpc hs
    · rw [if_neg hs]
      exact .goesOn hpc (Bool.eq_false_iff.mpr hs)
  | polling =>
    obtain rfl := by simpa [hpc] using h
    exact .polled hpc
  | checking =>
    obtain rfl := by simpa [hpc] using h
    by_cases hr : s.doReload = true
    · rw [if_pos hr]
      exact .asked hpc hr
    · rw [if_neg hr]
      exact .notAsked hpc (Bool.eq_false_iff.mpr hr)
  | loading =>
    cases hp : s.settings.configPath with
    | none =>
      obtain rfl := by simpa [hpc, hp] using h
      exact .noPath hpc hp
    | some configPath =>
      obtain rfl := by simpa [hpc, hp] using h
      exact .loaded hpc
  | applying newConfig =>
    obtain rfl := by simpa [hpc] using h
    unfold apply
    cases hr : reloadListeners sur.world newConfig s.config with
    | error e => exact .exited (.inr ⟨newConfig, hpc⟩)
    | ok config => exact .applied hpc hr
  | clearing =>
    obtain rfl := by simpa [hpc] using h
    exact .cleared hpc
  | joining rest =>
    cases rest with
    | nil =>
      obtain rfl := by simpa [hpc] using h
      exact .allJoined hpc
    | cons i rest =>
      obtain rfl := by simpa [hpc] using h
      exact .joined hpc
  | closing =>
    obtain rfl := by simpa [hpc] using h
    exact .closed hpc
  | done | gone => simp [hpc] at h

theorem step_frame {act : Action} (hs : step path act s = some s') :
    Turned path s s' ∨
      s'.pc = s.pc ∧ s'.config = s.config ∧ s'.arrays = s.arrays ∧ s'.settings = s.settings := by
  cases act with
  | edit file =>
    obtain ⟨-, rfl⟩ := by simpa [step] using hs
    exact .inr ⟨rfl, rfl, rfl, rfl⟩
  | sigint =>
    obtain ⟨-, rfl⟩ := by simpa [step] using hs
    unfold sigintProc
    split <;> exact .inr ⟨rfl, rfl, rfl, rfl⟩
  | sighup =>
    obtain ⟨-, rfl⟩ := by simpa [step] using hs
    unfold sighupProc
    split <;> exact .inr ⟨rfl, rfl, rfl, rfl⟩
  | turn sur => exact .inl (turned_of_turn hs)

def configFile : CStr := lit "/etc/n2kafka.json"

def tcpFile (ports : List ℤ) : Option Json :=
  some (.object [(lit "listeners", .array (ports.map fun port ↦ tcpEntry port []))])

def quietTurns (n : ℕ) : List Action := List.replicate n (.turn quiet)

theorem startup_runs : (run (step configFile) (quietTurns 2) (init (tcpFile [2055, 2056]))).isSome :=
  rfl

def started : Process := (run (step configFile) (quietTurns 2) (init (tcpFile [2055, 2056]))).get
  startup_runs

theorem started_reachable : Reachable (step configFile) (init (tcpFile [2055, 2056])) started :=
  reachable_of_run .start _ (Option.some_get startup_runs).symm

def replacePort : List Action := .edit (tcpFile [2056, 2057]) :: .sighup :: quietTurns 6

theorem replacePort_runs : (run (step configFile) replacePort started).isSome := rfl

def replaced : Process := (run (step configFile) replacePort started).get replacePort_runs

theorem replaced_reachable : Reachable (step configFile) (init (tcpFile [2055, 2056])) replaced :=
  reachable_of_run started_reachable _ (Option.some_get replacePort_runs).symm

end N2Kafka.Engine.MainLoop
