import N2Kafka.Engine.ListenerLives

namespace N2Kafka.Engine.Signals

open Lib.CString Lib.Jansson Lib.Transition Engine.GlobalConfig Engine.Startup Engine.MainLoop
  Engine.ListenerLives

variable {path : CStr} {s s₁ s' : Process} {a : Action} {as : List Action}

def isTurn : Action → Bool
  | .turn _ => true
  | _ => false

def turns (as : List Action) : ℕ := as.countP isTurn

def readBy (a : Action) (s : Process) : List (Option Json) :=
  match a, s.pc with
  | .turn _, .loading => [s.file]
  | _, _ => []

def reads (path : CStr) : List Action → Process → List (Option Json)
  | [], _ => []
  | a :: as, s => readBy a s ++ ((step path a s).map (reads path as)).getD []

/-- The reload has read the file and not yet cleared the flag. -/
def window : Pc → Bool
  | .applying _ => true
  | .clearing => true
  | _ => false

/-- A reload has been asked for: the flag is set, or the signal is pending. -/
def Asked (s : Process) : Prop := if s.pc.blocked then s.pendingHup = true else s.doReload = true

def Stopping (s : Process) : Prop := if s.pc.blocked then s.pendingInt = true else s.doShutdown = true

structure Flags (s : Process) : Prop where
  path : s.pc ≠ .parsing → s.pc ≠ .gone → s.settings.configPath ≠ none
  unset : s.pc.blocked = true → s.doShutdown = false ∧ s.doReload = false
  joining : ∀ rest, s.pc = .joining rest → s.doShutdown = true
  closing : s.pc = .closing → s.doShutdown = true

theorem Flags.turned (h : Flags s) (ht : Turned path s s') : Flags s' := by
  cases ht with
  | parsed hpc hp =>
    obtain ⟨-, -, hpath, -⟩ := parseConfig_eq_some hp
    refine ⟨fun _ _ ↦ by simp [hpath], fun _ ↦ h.unset (by rw [hpc]; rfl), nofun, nofun⟩
  | exited hpc => exact ⟨fun _ hg ↦ absurd rfl hg, nofun, nofun, nofun⟩
  | unblocked hpc =>
    exact ⟨fun _ _ ↦ h.path (by simp [hpc]) (by simp [hpc]), nofun, nofun, nofun⟩
  | shutsDown hpc hs =>
    exact ⟨fun _ _ ↦ h.path (by simp [hpc]) (by simp [hpc]), nofun, fun _ _ ↦ hs, nofun⟩
  | @joined i rest hpc =>
    exact ⟨fun _ _ ↦ h.path (by simp [hpc]) (by simp [hpc]), nofun, fun _ _ ↦ h.joining _ hpc, nofun⟩
  | allJoined hpc =>
    exact ⟨fun _ _ ↦ h.path (by simp [hpc]) (by simp [hpc]), nofun, nofun, fun _ ↦ h.joining _ hpc⟩
  | goesOn hpc | polled hpc | notAsked hpc | asked hpc | noPath hpc | loaded hpc | applied hpc
    | cleared hpc | closed hpc =>
    exact ⟨fun _ _ ↦ h.path (by simp [hpc]) (by simp [hpc]), nofun, nofun, nofun⟩

theorem Flags.step (h : Flags s) (hs : step path a s = some s') : Flags s' := by
  cases a with
  | edit file =>
    obtain ⟨-, rfl⟩ := by simpa [MainLoop.step] using hs
    exact ⟨h.path, h.unset, h.joining, h.closing⟩
  | sigint =>
    obtain ⟨-, rfl⟩ := by simpa [MainLoop.step] using hs
    unfold sigintProc
    split
    · exact ⟨h.path, h.unset, h.joining, h.closing⟩
    · rename_i hb
      exact ⟨h.path, fun hb' ↦ absurd hb' hb, fun _ _ ↦ rfl, fun _ ↦ rfl⟩
  | sighup =>
    obtain ⟨-, rfl⟩ := by simpa [MainLoop.step] using hs
    unfold sighupProc
    split
    · exact ⟨h.path, h.unset, h.joining, h.closing⟩
    · rename_i hb
      exact ⟨h.path, fun hb' ↦ absurd hb' hb, h.joining, h.closing⟩
  | turn sur => exact h.turned (turned_of_turn hs)

theorem flags_of_reachable {file : Option Json} (h : Reachable (step path) (init file) s) :
    Flags s :=
  h.invariant ⟨fun h ↦ absurd rfl h, fun _ ↦ ⟨rfl, rfl⟩, nofun, nofun⟩ fun _ _ _ h ↦ h.step

/-- How many turns of the main thread it takes to read the file again. -/
def toLoad : Pc → ℕ
  | .parsing => 6
  | .unblocking => 5
  | .testing => 4
  | .polling => 3
  | .checking => 2
  | .loading => 1
  | _ => 0

structure Waiting (s : Process) : Prop where
  flags : Flags s
  way : 0 < toLoad s.pc
  asked : Asked s
  goesOn : ¬ Stopping s

theorem Waiting.turned (h : Waiting s) (ht : Turned path s s') :
    s.pc = .loading ∨ s'.pc = .gone ∨ Waiting s' ∧ toLoad s'.pc < toLoad s.pc := by
  have hflags := h.flags.turned ht
  have hasked := h.asked
  have hgoesOn := h.goesOn
  have hway := h.way
  unfold Asked at hasked
  unfold Stopping at hgoesOn
  cases ht with
  | parsed hpc hp =>
    simp only [hpc, Pc.blocked, if_true] at hasked hgoesOn
    exact .inr (.inr ⟨⟨hflags, Nat.succ_pos _, hasked, hgoesOn⟩, by simp [hpc, toLoad]⟩)
  | exited => exact .inr (.inl rfl)
  | unblocked hpc =>
    obtain ⟨hdown, hreload⟩ := h.flags.unset (by rw [hpc]; rfl)
    simp only [hpc, Pc.blocked, if_true] at hasked hgoesOn
    refine .inr (.inr ⟨⟨hflags, Nat.succ_pos _, ?_, ?_⟩, by simp [hpc, toLoad, unblock]⟩)
    · simp [Asked, unblock, Pc.blocked, hasked]
    · simpa [Stopping, unblock, Pc.blocked, hdown] using hgoesOn
  | goesOn hpc | polled hpc | asked hpc =>
    simp only [hpc, Pc.blocked, Bool.false_eq_true, if_false] at hasked hgoesOn
    exact .inr (.inr ⟨⟨hflags, Nat.succ_pos _, hasked, hgoesOn⟩, by simp [hpc, toLoad]⟩)
  | shutsDown hpc hs => simp [hpc, Pc.blocked, hs] at hgoesOn
  | notAsked hpc hr => simp [hpc, Pc.blocked, hr] at hasked
  | noPath hpc | loaded hpc => exact .inl hpc
  | applied hpc | cleared hpc | joined hpc | allJoined hpc | closed hpc =>
    simp [hpc, toLoad] at hway

theorem Waiting.other (h : Waiting s) (hs : step path a s = some s') (ha : isTurn a = false)
    (hint : a ≠ .sigint) : Waiting s' ∧ s'.pc = s.pc := by
  have hflags := h.flags.step hs
  have hasked := h.asked
  have hgoesOn := h.goesOn
  cases a with
  | edit file =>
    obtain ⟨-, rfl⟩ := by simpa [step] using hs
    exact ⟨⟨hflags, h.way, hasked, hgoesOn⟩, rfl⟩
  | sigint => exact absurd rfl hint
  | sighup =>
    obtain ⟨-, rfl⟩ := by simpa [step] using hs
    cases hb : s.pc.blocked with
    | true =>
      rw [sighupProc, if_pos hb] at hflags ⊢
      exact ⟨⟨hflags, h.way, by simp [Asked, hb], by simpa [Stopping, hb] using hgoesOn⟩, rfl⟩
    | false =>
      rw [sighupProc, if_neg (by simp [hb])] at hflags ⊢
      exact ⟨⟨hflags, h.way, by simp [Asked, hb], by simpa [Stopping, hb] using hgoesOn⟩, rfl⟩
  | turn sur => cases ha

theorem step_of_ended (h : s.pc.ended = true) : step path a s = none := by
  cases a with
  | turn sur =>
    cases hpc : s.pc with
    | done | gone => simp [step, turn, hpc]
    | _ => simp [hpc, Pc.ended] at h
  | _ => simp [step, h]

theorem run_of_ended (h : s.pc.ended = true) (hr : run (step path) as s = some s') : s' = s := by
  cases as with
  | nil => exact (Option.some.inj hr).symm
  | cons a as => simp [run, step_of_ended h] at hr

theorem reads_cons (hs : step path a s = some s₁) :
    reads path (a :: as) s = readBy a s ++ reads path as s₁ := by
  simp [reads, hs]

theorem readBy_of_not_turn (h : isTurn a = false) : readBy a s = [] := by
  cases a with
  | turn sur => cases h
  | _ => rfl

theorem Waiting.reads_ne_nil (h : Waiting s) (hr : run (step path) as s = some s')
    (hint : .sigint ∉ as) (hturns : toLoad s.pc ≤ turns as) :
    reads path as s ≠ [] ∨ s'.pc = .gone := by
  induction as generalizing s with
  | nil => exact absurd h.way (Nat.not_lt.mpr hturns)
  | cons a as ih =>
    obtain ⟨t, ht, hrest⟩ := Option.bind_eq_some_iff.mp hr
    have hint' : .sigint ∉ as := fun hm ↦ hint (.tail _ hm)
    have hlater : reads path as t ≠ [] ∨ s'.pc = .gone →
        reads path (a :: as) s ≠ [] ∨ s'.pc = .gone := by
      rw [reads_cons ht]
      exact Or.imp_left fun hne happ ↦ hne (List.append_eq_nil_iff.mp happ).2
    cases ha : isTurn a with
    | false =>
      obtain ⟨hw, hpc⟩ := h.other ht ha fun he ↦ hint (he ▸ .head _)
      refine hlater (ih hw hrest hint' ?_)
      simpa [turns, ha, hpc] using hturns
    | true =>
      cases a with
      | turn sur =>
        obtain hpc | hgone | ⟨hw, hlt⟩ := h.turned (turned_of_turn ht)
        · refine .inl ?_
          rw [reads_cons ht]
          simp [readBy, hpc]
        · refine .inr ?_
          rw [run_of_ended (by rw [hgone]; rfl) hrest, hgone]
        · refine hlater (ih hw hrest hint' ?_)
          have hturns' : toLoad s.pc ≤ turns as + 1 := by
            rwa [turns, List.countP_cons_of_pos rfl] at hturns
          omega
      | _ => cases ha

/-- No reload has been asked for, except for the one that has read the file already. -/
structure Calm (s : Process) : Prop where
  pending : s.pendingHup = false
  pc : s.pc ≠ .loading
  unset : s.doReload = false ∨ window s.pc = true ∨ s.pc = .gone

theorem Calm.step (h : Calm s) (hs : step path a s = some s') (ha : a ≠ .sighup) : Calm s' := by
  cases a with
  | edit file =>
    obtain ⟨-, rfl⟩ := by simpa [MainLoop.step] using hs
    exact ⟨h.pending, h.pc, h.unset⟩
  | sigint =>
    obtain ⟨-, rfl⟩ := by simpa [MainLoop.step] using hs
    unfold sigintProc
    split
    · exact ⟨h.pending, h.pc, h.unset⟩
    · exact ⟨h.pending, h.pc, h.unset⟩
  | sighup => exact absurd rfl ha
  | turn sur =>
    have hunset := h.unset
    cases turned_of_turn hs with
    | asked hpc hr => simp [hpc, hr, window] at hunset
    | noPath hpc | loaded hpc => exact absurd hpc h.pc
    | applied hpc => exact ⟨h.pending, (by simp), .inr (.inl rfl)⟩
    | cleared hpc => exact ⟨h.pending, (by simp), .inl rfl⟩
    | exited hpc => exact ⟨h.pending, (by simp), .inr (.inr rfl)⟩
    | unblocked hpc =>
      simp only [hpc, window, Bool.false_eq_true, reduceCtorEq, or_false] at hunset
      exact ⟨rfl, (by simp [unblock]), .inl (by simp [unblock, hunset, h.pending])⟩
    | parsed hpc | goesOn hpc | shutsDown hpc | polled hpc | notAsked hpc | joined hpc
      | allJoined hpc | closed hpc =>
      simp only [hpc, window, Bool.false_eq_true, reduceCtorEq, or_false] at hunset
      exact ⟨h.pending, (by simp), .inl hunset⟩

theorem Calm.reads_eq_nil (h : Calm s) (hr : run (MainLoop.step path) as s = some s')
    (hno : .sighup ∉ as) : reads path as s = [] := by
  induction as generalizing s with
  | nil => rfl
  | cons a as ih =>
    obtain ⟨t, ht, hrest⟩ := Option.bind_eq_some_iff.mp hr
    have hread : readBy a s = [] := by
      unfold readBy
      split
      · rename_i hpc
        exact absurd hpc h.pc
      · rfl
    have ha : a ≠ .sighup := fun he ↦ hno (he ▸ .head _)
    rw [reads_cons ht, hread, ih (h.step ht ha) hrest fun hm ↦ hno (.tail _ hm)]
    rfl

theorem pending_of_reachable {file : Option Json} (h : Reachable (step path) (init file) s) :
    s.pc.blocked = false → s.pc ≠ .gone → s.pendingHup = false := by
  refine h.invariant (P := fun s ↦ s.pc.blocked = false → s.pc ≠ .gone → s.pendingHup = false)
    (by simp [init]) ?_
  intro a s s' hpending hs
  cases a with
  | edit file =>
    obtain ⟨-, rfl⟩ := by simpa [step] using hs
    exact hpending
  | sigint =>
    obtain ⟨-, rfl⟩ := by simpa [step] using hs
    unfold sigintProc
    split
    · exact hpending
    · exact hpending
  | sighup =>
    obtain ⟨-, rfl⟩ := by simpa [step] using hs
    unfold sighupProc
    split
    · rename_i hb
      intro hb'
      exact absurd (hb.symm.trans hb') (by simp)
    · exact hpending
  | turn sur =>
    cases turned_of_turn hs with
    | parsed hpc => simp [Pc.blocked]
    | exited => exact fun _ hg ↦ absurd rfl hg
    | unblocked => exact fun _ _ ↦ rfl
    | goesOn hpc | shutsDown hpc | polled hpc | notAsked hpc | asked hpc | noPath hpc | loaded hpc
      | applied hpc | cleared hpc | joined hpc | allJoined hpc | closed hpc =>
      exact fun _ _ ↦ hpending (by rw [hpc]; rfl) (by simp [hpc])

@[simp]
theorem sighupProc_pc (s : Process) : (sighupProc s).pc = s.pc := by
  unfold sighupProc
  split <;> rfl

theorem asked_sighupProc (s : Process) : Asked (sighupProc s) := by
  rw [Asked, sighupProc_pc, sighupProc]
  split <;> rfl

theorem stopping_sighupProc (s : Process) : Stopping (sighupProc s) ↔ Stopping s := by
  rw [Stopping, sighupProc_pc, Stopping, sighupProc]
  split <;> rfl

theorem toLoad_le (pc : Pc) : toLoad pc ≤ 6 := by
  cases pc <;> simp [toLoad]

theorem Flags.toLoad_pos (h : Flags s) (hended : s.pc.ended = false) (hw : window s.pc = false)
    (hstop : ¬ Stopping s) : 0 < toLoad s.pc := by
  unfold Stopping at hstop
  cases hpc : s.pc with
  | joining rest => simp [hpc, Pc.blocked, h.joining rest hpc] at hstop
  | closing => simp [hpc, Pc.blocked, h.closing hpc] at hstop
  | applying newConfig | clearing => simp [hpc, window] at hw
  | done | gone => simp [hpc, Pc.ended] at hended
  | _ => exact Nat.succ_pos _

/-- A reload that a signal asks for reads the file within six turns, unless the process ends or is
told to stop before; but a signal that comes behind the file and before the flag is cleared is lost.
-/
theorem sighup_answered {file : Option Json} (h : Reachable (step path) (init file) s)
    (hs : step path .sighup s = some s₁) (hr : run (step path) as s₁ = some s') :
    (window s.pc = false → ¬ Stopping s → .sigint ∉ as → 6 ≤ turns as →
      reads path as s₁ ≠ [] ∨ s'.pc = .gone) ∧
    (window s.pc = true → .sighup ∉ as → reads path as s₁ = []) := by
  have hflags := flags_of_reachable h
  have hflags' := hflags.step hs
  have hpending := pending_of_reachable h
  obtain ⟨hended, rfl⟩ := by simpa [step] using hs
  constructor
  · intro hw hstop hint hturns
    have hwaiting : Waiting (sighupProc s) := by
      refine ⟨hflags', ?_, asked_sighupProc s, fun hs' ↦ hstop ((stopping_sighupProc s).mp hs')⟩
      rw [sighupProc_pc]
      exact hflags.toLoad_pos hended hw hstop
    exact hwaiting.reads_ne_nil hr hint ((toLoad_le _).trans hturns)
  · intro hw hno
    have hb : s.pc.blocked = false := by
      cases hpc : s.pc with
      | parsing | unblocking => simp [hpc, window] at hw
      | _ => rfl
    have hgone : s.pc ≠ .gone := by
      intro hpc
      simp [hpc, window] at hw
    refine Calm.reads_eq_nil ⟨?_, ?_, ?_⟩ hr hno
    · rw [sighupProc, if_neg (by simp [hb])]
      exact hpending hb hgone
    · rw [sighupProc_pc]
      intro hpc
      simp [hpc, window] at hw
    · rw [sighupProc_pc]
      exact .inr (.inl hw)

theorem answered_runs : (run (step configFile) (quietTurns 6) (sighupProc started)).isSome := rfl

theorem started_answered : reads configFile (quietTurns 6) (sighupProc started) ≠ [] ∨
    ((run (step configFile) (quietTurns 6) (sighupProc started)).get answered_runs).pc = .gone := by
  refine (sighup_answered started_reachable rfl (Option.some_get answered_runs).symm).1 rfl ?_ ?_ ?_
  · exact Bool.false_ne_true
  · intro h
    cases List.eq_of_mem_replicate h
  · exact le_rfl

theorem Stopping.turned (h : Stopping s) (ht : Turned path s s') :
    s'.pc = .gone ∨ Stopping s' := by
  unfold Stopping at h
  cases ht with
  | parsed hpc =>
    simp only [hpc, Pc.blocked, if_true] at h
    exact .inr h
  | exited => exact .inl rfl
  | unblocked hpc =>
    simp only [hpc, Pc.blocked, if_true] at h
    exact .inr (by simp [Stopping, unblock, Pc.blocked, h])
  | goesOn hpc hs => simp [hpc, Pc.blocked, hs] at h
  | shutsDown hpc | polled hpc | notAsked hpc | asked hpc | noPath hpc | loaded hpc | applied hpc
    | cleared hpc | joined hpc | allJoined hpc | closed hpc =>
    simp only [hpc, Pc.blocked, Bool.false_eq_true, if_false] at h
    exact .inr h

theorem Stopping.other (h : Stopping s) (hs : step path a s = some s') (ha : isTurn a = false) :
    Stopping s' ∧ s'.pc = s.pc := by
  cases a with
  | edit file =>
    obtain ⟨-, rfl⟩ := by simpa [step] using hs
    exact ⟨h, rfl⟩
  | sigint =>
    obtain ⟨-, rfl⟩ := by simpa [step] using hs
    unfold sigintProc
    split
    · rename_i hb
      exact ⟨by simp [Stopping, hb], rfl⟩
    · rename_i hb
      exact ⟨by simp [Stopping, hb], rfl⟩
  | sighup =>
    obtain ⟨-, rfl⟩ := by simpa [step] using hs
    exact ⟨(stopping_sighupProc s).mpr h, sighupProc_pc s⟩
  | turn sur => cases ha

/-- The reloads that a process which has been told to stop may still start. -/
def loadsLeft : Pc → ℕ
  | .polling => 1
  | .checking => 1
  | .loading => 1
  | _ => 0

/-- The turns that it still takes, with so many listeners to join at its end. -/
def turnsLeft (joins : ℕ) : Pc → ℕ
  | .polling => joins + 8
  | .checking => joins + 7
  | .loading => joins + 6
  | .applying _ => joins + 5
  | .parsing => joins + 5
  | .clearing => joins + 4
  | .unblocking => joins + 4
  | .testing => joins + 3
  | .joining rest => rest.length + 2
  | .closing => 1
  | .done => 0
  | .gone => 0

def leaving : Pc → Bool
  | .joining _ => true
  | .closing => true
  | .done => true
  | _ => false

theorem leaving_step (hl : leaving s.pc = true) (hs : step path a s = some s') :
    leaving s'.pc = true ∧ s'.config.listeners = s.config.listeners := by
  obtain ht | ⟨hpc, hconfig, -⟩ := step_frame hs
  · cases ht with
    | joined => exact ⟨rfl, shutdownListener_listeners _ _⟩
    | allJoined | closed => exact ⟨rfl, rfl⟩
    | exited hpc =>
      obtain hpc | ⟨newConfig, hpc⟩ := hpc
      · simp [hpc, leaving] at hl
      · simp [hpc, leaving] at hl
    | parsed hpc | unblocked hpc | goesOn hpc | shutsDown hpc | polled hpc | notAsked hpc
      | asked hpc | noPath hpc | loaded hpc | applied hpc | cleared hpc =>
      simp [hpc, leaving] at hl
  · rw [hpc, hconfig]
    exact ⟨hl, rfl⟩

theorem leaving_run (hl : leaving s.pc = true) (hr : run (step path) as s = some s') :
    s'.config.listeners = s.config.listeners := by
  induction as generalizing s with
  | nil =>
    cases hr
    rfl
  | cons a as ih =>
    obtain ⟨t, ht, hrest⟩ := Option.bind_eq_some_iff.mp hr
    obtain ⟨hl', hlisteners⟩ := leaving_step hl ht
    rw [ih hl' hrest, hlisteners]

theorem readBy_turned (sur : Surroundings) (h : Stopping s) (ht : Turned path s s') :
    (readBy (.turn sur) s).length + loadsLeft s'.pc ≤ loadsLeft s.pc := by
  unfold Stopping at h
  cases ht with
  | goesOn hpc hs => simp [hpc, Pc.blocked, hs] at h
  | exited hpc =>
    obtain hpc | ⟨newConfig, hpc⟩ := hpc
    · simp [readBy, loadsLeft, hpc]
    · simp [readBy, loadsLeft, hpc]
  | parsed hpc | unblocked hpc | shutsDown hpc | polled hpc | notAsked hpc | asked hpc | noPath hpc
    | loaded hpc | applied hpc | cleared hpc | joined hpc | allJoined hpc | closed hpc =>
    simp [readBy, loadsLeft, hpc, unblock]

theorem turnsLeft_turned (joins : ℕ) (h : Stopping s) (ht : Turned path s s')
    (hgone : s'.pc ≠ .gone) (hjoins : leaving s'.pc = true → s'.config.listeners.length = joins) :
    turnsLeft joins s'.pc < turnsLeft joins s.pc := by
  unfold Stopping at h
  cases ht with
  | goesOn hpc hs => simp [hpc, Pc.blocked, hs] at h
  | exited => exact absurd rfl hgone
  | shutsDown hpc =>
    have hlen : s.config.listeners.length = joins := hjoins rfl
    simp only [turnsLeft, hpc]
    omega
  | parsed hpc | unblocked hpc | polled hpc | notAsked hpc | asked hpc | noPath hpc
    | loaded hpc | applied hpc | cleared hpc | joined hpc | allJoined hpc | closed hpc =>
    simp [turnsLeft, hpc, unblock]

/-- A process that has been told to stop reads the file once more at most, and ends. -/
theorem Stopping.run_ends (hf : Flags s) (h : Stopping s)
    (hr : run (MainLoop.step path) as s = some s') :
    (reads path as s).length ≤ loadsLeft s.pc ∧
      (s'.pc.ended = true ∨ turns as < turnsLeft s'.config.listeners.length s.pc) := by
  induction as generalizing s with
  | nil =>
    cases hr
    refine ⟨Nat.zero_le _, ?_⟩
    cases hpc : s'.pc with
    | done | gone => exact .inl rfl
    | _ => exact .inr (by simp [turns, turnsLeft])
  | cons a as ih =>
    obtain ⟨t, ht, hrest⟩ := Option.bind_eq_some_iff.mp hr
    rw [reads_cons ht, List.length_append]
    cases ha : isTurn a with
    | false =>
      obtain ⟨hstop, hpc⟩ := h.other ht ha
      have hturns : turns (a :: as) = turns as := by simp [turns, ha]
      rw [readBy_of_not_turn ha, hturns, ← hpc]
      simpa using ih (hf.step ht) hstop hrest
    | true =>
      cases a with
      | turn sur =>
        have hturned := turned_of_turn ht
        have hread := readBy_turned sur h hturned
        have hturns : turns (.turn sur :: as) = turns as + 1 := List.countP_cons_of_pos rfl
        rw [hturns]
        obtain hgone | hstop := h.turned hturned
        · have hended : t.pc.ended = true := by rw [hgone]; rfl
          have hst := run_of_ended hended hrest
          subst hst
          refine ⟨?_, .inl hended⟩
          cases as with
          | nil =>
            simp only [reads, List.length_nil]
            omega
          | cons b bs => simp [run, step_of_ended hended] at hrest
        · obtain ⟨hreads, hends⟩ := ih (hf.step ht) hstop hrest
          refine ⟨by omega, hends.imp_right fun hlt ↦ ?_⟩
          by_cases hgone : t.pc = .gone
          · simp [hgone, turnsLeft] at hlt
          · have hlt' := turnsLeft_turned s'.config.listeners.length h hturned hgone fun hl ↦ by
              rw [leaving_run hl hrest]
            omega
      | _ => cases ha

theorem sigintProc_stopping (s : Process) : Stopping (sigintProc s) := by
  unfold sigintProc
  split
  · rename_i hb
    simp [Stopping, hb]
  · rename_i hb
    simp [Stopping, hb]

def asking : List Action := quietTurns 1 ++ [.sighup]

theorem asking_runs : (run (step configFile) asking replaced).isSome := rfl

def asked : Process := (run (step configFile) asking replaced).get asking_runs

theorem asked_reachable : Reachable (step configFile) (init (tcpFile [2055, 2056])) asked :=
  reachable_of_run replaced_reachable _ (Option.some_get asking_runs).symm

theorem stopped_runs : (run (step configFile) (quietTurns 10) (sigintProc asked)).isSome := rfl

def stopped : Process := (run (step configFile) (quietTurns 10) (sigintProc asked)).get stopped_runs

end N2Kafka.Engine.Signals
