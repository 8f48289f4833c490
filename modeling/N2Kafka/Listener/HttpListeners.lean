import Mathlib.Algebra.BigOperators.Group.List.Basic
import N2Kafka.Lib.Transition
import N2Kafka.Listener.HttpLoopExits

namespace N2Kafka.Listener.HttpListeners

open Lib.CString Lib.Transition Listener.HttpLoop

/-- The exits that lose something are not taken. -/
def Sound (args : HttpLoopArgs) (decoder : Decoder) (env : Env) : Prop :=
  args.Accepted → (∀ f, (args.filename f).isSome → Opens env f) →
    (∃ f, (args.filename f).isSome) → Finishes args decoder env

/-- What no listener that has a daemon holds. -/
structure Lost where
  files : Multiset SecretFile
  listeners : ℕ
  locked : ℕ
  deriving DecidableEq

def Lost.add (a b : Lost) : Lost :=
  ⟨a.files + b.files, a.listeners + b.listeners, a.locked + b.locked⟩

instance (args : HttpLoopArgs) : Decidable args.Accepted :=
  decidable_of_iff ((pollingMode args.mode).isSome = true ∧
      args.httpsKeyFilename.isNone = args.httpsCertFilename.isNone ∧
      ¬ (args.httpsKeyFilename.isNone = true ∧ args.httpsClientsCaFilename.isSome = true))
    ⟨fun h ↦ ⟨h.1, h.2.1, h.2.2⟩, fun h ↦ ⟨h.mode, h.pair, h.clientsCa⟩⟩

instance (env : Env) (f : SecretFile) : Decidable (Opens env f) :=
  decidable_of_iff ((f = .keyFile → env.keyAllowed = true) ∧ env.fopen f = true ∧
      (env.fileSizeCallback f).isSome = true)
    ⟨fun h ↦ ⟨h.1, h.2.1, h.2.2⟩, fun h ↦ ⟨h.allowed, h.opened, h.sized⟩⟩

theorem readsAll_iff (args : HttpLoopArgs) (env : Env) : ReadsAll args env ↔
    ∀ f ∈ args.configured, ∀ n ∈ env.fileSizeCallback f, n ≤ env.fileReadCallback f := by
  simp only [ReadsAll, HttpLoopArgs.mem_configured, Option.mem_def]
  constructor
  · intro h f hf n hn
    exact h f n hf hn
  · intro h f n hf hn
    exact h f hf n hn

instance (args : HttpLoopArgs) (env : Env) : Decidable (ReadsAll args env) :=
  decidable_of_iff _ (readsAll_iff args env).symm

instance (args : HttpLoopArgs) (decoder : Decoder) (env : Env) :
    Decidable (Finishes args decoder env) :=
  decidable_of_iff (env.calloc = true ∧ ReadsAll args env ∧
      (decoder.opaqueCreator = true → env.opaqueCreator = 0) ∧ env.startDaemon = true)
    ⟨fun h ↦ ⟨h.1, h.2.1, h.2.2.1, h.2.2.2⟩, fun h ↦ ⟨h.allocated, h.read, h.initialised, h.started⟩⟩

def keyLocks (args : HttpLoopArgs) (env : Env) : ℕ :=
  if (args.filename .keyFile).isSome ∧ env.mlock = true then 1 else 0

/-- A start that gets past its files leaves their streams open when it fails, except that it closes
them and leaves the block of the listener when one of them could not be read. -/
def leaves (args : HttpLoopArgs) (decoder : Decoder) (env : Env) : Lost :=
  if ¬ (args.Accepted ∧ ∀ f ∈ args.configured, Opens env f) then ⟨0, 0, 0⟩
  else if Finishes args decoder env then ⟨0, 0, 0⟩
  else if env.calloc = true ∧ ¬ ReadsAll args env then ⟨0, 1, keyLocks args env⟩
  else ⟨args.configured, 0, 0⟩

/-- How `start_http_loop` ends, and what the process holds then. -/
inductive Started (decoder : Decoder) (w : World) : Lost → Option HttpListener × World → Prop
  | failed (fs : Multiset SecretFile) :
    Started decoder w ⟨fs, 0, 0⟩ (none, { w with files := fs + w.files })
  | stranded (l : HttpListener) (n : ℕ) (hjoin : l.join = none) :
    Started decoder w ⟨0, 1, n⟩
      (some l, { w with listeners := w.listeners + 1, locked := w.locked + n })
  | served (l : HttpListener) (n : ℕ) (hjoin : l.join = some .breakHttpLoop)
      (htls : 0 < n → 0 < l.tlsDataSize) :
    Started decoder w ⟨0, 0, 0⟩ (some l, { initialisedWorld decoder w with
      listeners := w.listeners + 1
      locked := w.locked + n
      responses := responsesListenerCounterIncref w.responses
      daemons := w.daemons + 1 })

/-- A listener in the list of the process, with its decoder and the ranges locked in its block. -/
structure Running where
  listener : HttpListener
  decoder : Decoder
  locked : ℕ

/-- `munlock` unlocks every range of the secrets. -/
def breakHttpLoop (x : Running) (w : World) : World :=
  let w := { w with daemons := w.daemons - 1 }
  let w := listenerJoin x.decoder w
  let w := if 0 < x.listener.tlsDataSize then { w with locked := w.locked - x.locked } else w
  let w := { w with listeners := w.listeners - 1 }
  { w with responses := responsesListenerCounterDecref w.responses }

structure Process where
  world : World
  listeners : List Running

def nothing : World := ⟨0, 0, 0, 0, 0, ⟨0, false, by simp⟩⟩

def start : Process := ⟨nothing, []⟩

def shutdownListener (x : Running) (w : World) : World :=
  match x.listener.join with
  | none => w
  | some .listenerJoin => listenerJoin x.decoder w
  | some .breakHttpLoop => breakHttpLoop x w

/-- An entry of the configuration creates a listener, or fails to, and a listener of the list is
taken out of it and shut down. -/
inductive Action
  | start (args : HttpLoopArgs) (decoder : Decoder) (env : Env)
  | shutdown (k : ℕ)

def step : Action → Process → Option Process
  | .start args decoder env, s =>
    match startHttpLoop args decoder env s.world with
    | (none, w) => some { s with world := w }
    | (some l, w) => some ⟨w, s.listeners ++ [⟨l, decoder, w.locked - s.world.locked⟩]⟩
  | .shutdown k, s =>
    s.listeners[k]?.map fun x ↦ ⟨shutdownListener x s.world, s.listeners.eraseIdx k⟩

def served (ls : List Running) : List Running :=
  ls.filter fun x ↦ x.listener.join = some .breakHttpLoop

/-- What is held is what these listeners hold, and what is lost. -/
structure Accounted (w : World) (xs : List Running) (lost : Lost) : Prop where
  files : w.files = lost.files
  listeners : w.listeners = xs.length + lost.listeners
  locked : w.locked = (xs.map (·.locked)).sum + lost.locked
  opaques : w.opaques = xs.countP (·.decoder.opaqueCreator)
  daemons : w.daemons = xs.length
  responses : w.responses.listenersCounter = xs.length
  tls : ∀ x ∈ xs, 0 < x.locked → 0 < x.listener.tlsDataSize

def Action.lost : Action → Lost
  | .start args decoder env => leaves args decoder env
  | .shutdown _ => ⟨0, 0, 0⟩

/-- What the failed starts of a run leave. -/
def lost (as : List Action) : Lost := as.foldl (fun l a ↦ l.add a.lost) ⟨0, 0, 0⟩

def Action.Sound : Action → Prop
  | .start args decoder env => HttpListeners.Sound args decoder env
  | .shutdown _ => True

section Start

variable {args : HttpLoopArgs} {decoder : Decoder} {env : Env} {mode : PollingMode} {w : World}

theorem leaves_of_not_finished (h : args.Accepted)
    (hall : ∀ f, (args.filename f).isSome → Opens env f) (hf : ¬ Finishes args decoder env)
    (hread : env.calloc = true → ReadsAll args env) :
    leaves args decoder env = ⟨args.configured, 0, 0⟩ := by
  have hopens : ∀ f ∈ args.configured, Opens env f := fun f hm ↦ hall f (HttpLoopArgs.mem_configured.mp hm)
  rw [leaves, if_neg (not_not_intro ⟨h, hopens⟩), if_neg hf, if_neg fun hc ↦ hc.2 (hread hc.1)]

theorem leaves_of_not_read (h : args.Accepted)
    (hall : ∀ f, (args.filename f).isSome → Opens env f) (hcalloc : env.calloc = true)
    (hread : ¬ ReadsAll args env) : leaves args decoder env = ⟨0, 1, keyLocks args env⟩ := by
  have hopens : ∀ f ∈ args.configured, Opens env f := fun f hm ↦ hall f (HttpLoopArgs.mem_configured.mp hm)
  rw [leaves, if_neg (not_not_intro ⟨h, hopens⟩), if_neg fun hf ↦ hread hf.read,
    if_pos ⟨hcalloc, hread⟩]

theorem leaves_of_finished (h : Finishes args decoder env) :
    leaves args decoder env = ⟨0, 0, 0⟩ := by
  rw [leaves, if_pos h]
  split <;> rfl

theorem leaves_of_not_opened (h : ¬ (args.Accepted ∧ ∀ f, (args.filename f).isSome → Opens env f)) :
    leaves args decoder env = ⟨0, 0, 0⟩ := by
  rw [leaves, if_pos]
  simpa only [HttpLoopArgs.mem_configured] using h

theorem started_nothing : Started decoder w ⟨0, 0, 0⟩ (none, w) := by
  have h : Started decoder w ⟨0, 0, 0⟩ (none, { w with files := 0 + w.files }) := .failed 0
  rwa [zero_add] at h

theorem readSecretFiles_locked : ∀ {fs : List SecretFile}, .keyFile ∉ fs →
    ∀ (cursor : ℕ) (t : Table) (w : World),
      (readSecretFiles args env fs cursor t w).2.1.locked = t.locked
  | [], _, _, _, _ => rfl
  | f :: fs, h, cursor, t, w => by
    obtain ⟨hf, hfs⟩ := not_or.mp fun hor ↦ h (List.mem_cons.mpr hor)
    have hne : ¬ (f = .keyFile ∧ env.mlock = true) := fun hk ↦ hf hk.1.symm
    rw [readSecretFiles]
    cases args.filename f with
    | none => exact readSecretFiles_locked hfs cursor t w
    | some name =>
      simp only [hne, if_false, Nat.add_zero]
      split
      · rfl
      · exact readSecretFiles_locked hfs _ _ _

theorem readSecretFiles_locks (args : HttpLoopArgs) (env : Env) (cursor : ℕ) (t : Table)
    (w : World) :
    (readSecretFiles args env (if args.usesSecrets then secretFiles else []) cursor t w).2.1.locked =
      t.locked + keyLocks args env := by
  have hrest : SecretFile.keyFile ∉ [SecretFile.certFile, .clientCaTrust, .htpasswd] := by decide
  by_cases hs : args.usesSecrets
  · rw [if_pos hs, secretFiles, readSecretFiles, keyLocks]
    cases hkey : args.filename .keyFile with
    | none =>
      rw [readSecretFiles_locked hrest]
      simp
    | some name =>
      dsimp only
      split
      · simp
      · rw [readSecretFiles_locked hrest]
        simp
  · have hkey : args.httpsKeyFilename = none := by
      have htls := (Bool.or_eq_false_iff.mp (Bool.eq_false_iff.mpr hs)).1
      simpa [HttpLoopArgs.tls] using htls
    simp [hs, readSecretFiles, keyLocks, HttpLoopArgs.filename, hkey]

theorem startListener_eq (args : HttpLoopArgs) (mode : PollingMode) (listener : HttpListener)
    (t : Table) (w : World) (hinit : Initialised decoder env) (hd : env.startDaemon = true) :
    ∃ l, l.join = some .breakHttpLoop ∧ l.tlsDataSize = listener.tlsDataSize ∧
      startListener args decoder env mode listener t w =
        (some l, closeFiles t.file { initialisedWorld decoder w with
          responses := responsesListenerCounterIncref w.responses
          daemons := w.daemons + 1 }) := by
  simp only [startListener, listenerInit_of_initialised hinit, hd, ne_eq, not_true_eq_false,
    if_false, Bool.true_eq_false]
  refine ⟨_, ?_, ?_, rfl⟩
  · rfl
  · rfl

theorem startListener_started (h : args.Accepted)
    (hall : ∀ f, (args.filename f).isSome → Opens env f) (hcalloc : env.calloc = true)
    (hread : ReadsAll args env) {t : Table} {n : ℕ} (ho : t.file = args.configured)
    (hn : t.locked = n) (listener : HttpListener) (hsize : 0 < n → 0 < listener.tlsDataSize) :
    Started decoder w (leaves args decoder env) (startListener args decoder env mode listener t
      { w with
        files := args.configured + w.files
        listeners := w.listeners + 1
        locked := w.locked + n }) := by
  by_cases hinit : Initialised decoder env
  · cases hd : env.startDaemon with
    | false =>
      rw [startListener_of_not_started args mode listener t _ hinit hd,
        listenerInitErr_undo _ n t { w with files := args.configured + w.files } hn hsize,
        leaves_of_not_finished h hall (fun hf ↦ by simp [hf.started] at hd) fun _ ↦ hread]
      exact .failed _
    | true =>
      obtain ⟨l, hjoin, htls, hs⟩ := startListener_eq args mode listener t { w with
          files := args.configured + w.files
          listeners := w.listeners + 1
          locked := w.locked + n } hinit hd
      have hclose := closeFiles_opened args.configured { initialisedWorld decoder w with
        listeners := w.listeners + 1
        locked := w.locked + n
        responses := responsesListenerCounterIncref w.responses
        daemons := w.daemons + 1 }
      rw [hs, ho, leaves_of_finished ⟨hcalloc, hread, hinit, hd⟩]
      exact hclose ▸ Started.served l n hjoin (htls ▸ hsize)
  · rw [startListener_of_not_initialised args decoder env mode listener t _ hinit,
      listenerInitErr_undo _ n t { w with files := args.configured + w.files } hn hsize,
      leaves_of_not_finished h hall (fun hf ↦ hinit hf.initialised) fun _ ↦ hread]
    exact .failed _

theorem startWithMode_started (h : args.Accepted)
    (hall : ∀ f, (args.filename f).isSome → Opens env f) :
    Started decoder w (leaves args decoder env) (startWithMode args decoder env mode w) := by
  obtain ⟨t, ho, hr⟩ := openSecretFiles_opened h w hall
  simp only [startWithMode, hr]
  cases hcalloc : env.calloc with
  | false =>
    rw [if_pos rfl, leaves_of_not_finished h hall (fun hf ↦ by simp [hf.allocated] at hcalloc)
      fun hc ↦ by simp [hcalloc] at hc]
    exact .failed _
  | true =>
    rw [if_neg (by simp)]
    have hreading := readSecretFiles_reading args env
      (if args.usesSecrets then secretFiles else []) 0 t
      { w with files := args.configured + w.files, listeners := w.listeners + 1 }
    have hlocks := readSecretFiles_locks args env 0 t
      { w with files := args.configured + w.files, listeners := w.listeners + 1 }
    rcases hr : readSecretFiles args env (if args.usesSecrets then secretFiles else []) 0 t
      { w with files := args.configured + w.files, listeners := w.listeners + 1 } with ⟨b, t', w'⟩
    rw [hr] at hreading hlocks
    have hfile : t'.file = args.configured := hreading.file.trans ho.file
    have hiff := ho.readsAll_iff h
    obtain ⟨n, hn, hw, hkey⟩ := hreading.world
    dsimp only at hn hw hlocks
    rw [ho.locked, Nat.zero_add] at hn hlocks
    obtain rfl : n = keyLocks args env := hn.symm.trans hlocks
    subst hw
    cases b with
    | false =>
      have hclose := closeFiles_opened args.configured
        { w with listeners := w.listeners + 1, locked := w.locked + keyLocks args env }
      have hread : ¬ ReadsAll args env := by
        intro hread
        cases hreading.all_iff.mpr (hiff.mp hread)
      dsimp only
      rw [hfile, leaves_of_not_read h hall hcalloc hread]
      exact hclose ▸ Started.stranded _ _ rfl
    | true =>
      have hread := hiff.mpr (hreading.all_iff.mp rfl)
      exact startListener_started h hall hcalloc hread hfile hn _ fun hpos ↦
        tlsFilesSize_pos t (hkey hpos)

theorem startHttpLoop_started (args : HttpLoopArgs) (decoder : Decoder) (env : Env) (w : World) :
    Started decoder w (leaves args decoder env) (startHttpLoop args decoder env w) := by
  by_cases haccepted : args.Accepted
  · obtain ⟨mode, hm⟩ := startHttpLoop_of_accepted decoder env w haccepted
    rw [hm]
    by_cases hall : ∀ f, (args.filename f).isSome → Opens env f
    · exact startWithMode_started haccepted hall
    · rw [startWithMode_of_not_opened haccepted hall, leaves_of_not_opened fun h ↦ hall h.2]
      exact started_nothing
  · rw [startHttpLoop_of_not_accepted decoder env w haccepted,
      leaves_of_not_opened fun h ↦ haccepted h.1]
    exact started_nothing

theorem leaves_eq_nothing_iff (args : HttpLoopArgs) (decoder : Decoder) (env : Env) :
    leaves args decoder env = ⟨0, 0, 0⟩ ↔ Sound args decoder env := by
  by_cases hopened : args.Accepted ∧ ∀ f, (args.filename f).isSome → Opens env f
  case neg =>
    exact iff_of_true (leaves_of_not_opened hopened) fun h hall ↦ absurd ⟨h, hall⟩ hopened
  obtain ⟨h, hall⟩ := hopened
  by_cases hf : Finishes args decoder env
  · exact iff_of_true (leaves_of_finished hf) fun _ _ _ ↦ hf
  have hsound : Sound args decoder env ↔ ¬ ∃ f, (args.filename f).isSome := by
    constructor
    · intro hs hex
      exact hf (hs h hall hex)
    · intro hno _ _ hex
      exact absurd hex hno
  rw [hsound]
  by_cases hread : env.calloc = true → ReadsAll args env
  · rw [leaves_of_not_finished h hall hf hread]
    simp [List.eq_nil_iff_forall_not_mem, HttpLoopArgs.mem_configured]
  · obtain ⟨hcalloc, hread⟩ := Classical.not_imp.mp hread
    rw [leaves_of_not_read h hall hcalloc hread]
    refine iff_of_false (by simp) fun hno ↦ hread fun f n hf _ ↦ ?_
    exact absurd ⟨f, hf⟩ hno

end Start

section Steps

variable {s s' : Process} {w : World} {xs ys : List Running} {lost : Lost} {x : Running}

theorem accounted_nothing : Accounted nothing [] ⟨0, 0, 0⟩ :=
  ⟨rfl, rfl, rfl, rfl, rfl, rfl, by simp⟩

theorem Accounted.add (h : Accounted w xs lost)
    (htls : 0 < x.locked → 0 < x.listener.tlsDataSize) :
    Accounted { initialisedWorld x.decoder w with
      listeners := w.listeners + 1
      locked := w.locked + x.locked
      responses := responsesListenerCounterIncref w.responses
      daemons := w.daemons + 1 } (xs ++ [x]) lost := by
  constructor
  · exact h.files
  · dsimp only
    rw [h.listeners, List.length_append, List.length_singleton]
    omega
  · dsimp only
    rw [h.locked, List.map_append, List.sum_append, List.map_singleton, List.sum_singleton]
    omega
  · dsimp only [initialisedWorld]
    rw [h.opaques, List.countP_append, List.countP_singleton]
    split <;> rfl
  · dsimp only
    rw [h.daemons, List.length_append, List.length_singleton]
  · dsimp only [responsesListenerCounterIncref]
    rw [h.responses, List.length_append, List.length_singleton]
  · intro y hy
    obtain hy | hy := List.mem_append.mp hy
    · exact h.tls y hy
    · rw [List.mem_singleton.mp hy]
      exact htls

theorem breakHttpLoop_eq (x : Running) (w : World)
    (htls : 0 < x.locked → 0 < x.listener.tlsDataSize) : breakHttpLoop x w =
      { files := w.files
        listeners := w.listeners - 1
        locked := w.locked - x.locked
        opaques := w.opaques - if x.decoder.opaqueCreator then 1 else 0
        daemons := w.daemons - 1
        responses := responsesListenerCounterDecref w.responses } := by
  have hpaired := x.decoder.paired
  by_cases hsize : 0 < x.listener.tlsDataSize
  · cases hcreator : x.decoder.opaqueCreator <;>
      simp [breakHttpLoop, listenerJoin, hsize, hcreator, ← hpaired]
  · have hzero : x.locked = 0 := Nat.eq_zero_of_not_pos fun hpos ↦ hsize (htls hpos)
    cases hcreator : x.decoder.opaqueCreator <;>
      simp [breakHttpLoop, listenerJoin, hsize, hcreator, ← hpaired, hzero]

theorem Accounted.broken (h : Accounted w xs lost) (hperm : xs.Perm (x :: ys)) :
    Accounted (breakHttpLoop x w) ys lost := by
  rw [breakHttpLoop_eq x w (h.tls x (hperm.mem_iff.mpr (.head _)))]
  have hlength := hperm.length_eq
  have hlocked := (hperm.map (·.locked)).sum_eq
  have hopaques := hperm.countP_eq (·.decoder.opaqueCreator)
  rw [List.length_cons] at hlength
  rw [List.map_cons, List.sum_cons] at hlocked
  rw [List.countP_cons] at hopaques
  constructor
  · exact h.files
  · dsimp only
    rw [h.listeners]
    omega
  · dsimp only
    rw [h.locked]
    omega
  · dsimp only
    rw [h.opaques, hopaques]
    exact Nat.add_sub_cancel _ _
  · dsimp only
    rw [h.daemons]
    omega
  · dsimp only [responsesListenerCounterDecref]
    rw [h.responses]
    omega
  · intro y hy
    exact h.tls y (hperm.mem_iff.mpr (.tail _ hy))

theorem Accounted.started (h : Accounted s.world (served s.listeners) lost) {args : HttpLoopArgs}
    {decoder : Decoder} {env : Env} (hs : step (.start args decoder env) s = some s') :
    Accounted s'.world (served s'.listeners) (lost.add (leaves args decoder env)) := by
  have hstarted := startHttpLoop_started args decoder env s.world
  simp only [step] at hs
  generalize startHttpLoop args decoder env s.world = result at hstarted hs
  generalize leaves args decoder env = left at hstarted ⊢
  cases hstarted with
  | failed fs =>
    obtain rfl := Option.some.inj hs
    refine ⟨?_, h.listeners, h.locked, h.opaques, h.daemons, h.responses, h.tls⟩
    dsimp only [Lost.add]
    rw [h.files, add_comm]
  | stranded l n hjoin =>
    obtain rfl := Option.some.inj hs
    have hserved (x : Running) (hx : x.listener.join = none) :
        served (s.listeners ++ [x]) = served s.listeners := by
      simp [served, hx]
    dsimp only
    rw [hserved _ hjoin]
    refine ⟨?_, ?_, ?_, h.opaques, h.daemons, h.responses, h.tls⟩
    · exact h.files.trans (add_zero _).symm
    · dsimp only [Lost.add]
      rw [h.listeners, Nat.add_assoc]
    · dsimp only [Lost.add]
      rw [h.locked, Nat.add_assoc]
  | served l n hjoin htls =>
    obtain rfl := Option.some.inj hs
    have hserved (x : Running) (hx : x.listener.join = some .breakHttpLoop) :
        served (s.listeners ++ [x]) = served s.listeners ++ [x] := by
      simp [served, hx]
    have hlost : lost.add ⟨0, 0, 0⟩ = lost := by simp [Lost.add]
    dsimp only
    rw [hserved _ hjoin, Nat.add_sub_cancel_left, hlost]
    exact Accounted.add (x := ⟨l, decoder, n⟩) h htls

theorem Accounted.perm (h : Accounted w xs lost) (hperm : xs.Perm ys) : Accounted w ys lost where
  files := h.files
  listeners := by rw [h.listeners, hperm.length_eq]
  locked := by rw [h.locked, (hperm.map (·.locked)).sum_eq]
  opaques := by rw [h.opaques, hperm.countP_eq]
  daemons := by rw [h.daemons, hperm.length_eq]
  responses := by rw [h.responses, hperm.length_eq]
  tls := by
    intro x hx
    exact h.tls x (hperm.mem_iff.mpr hx)

theorem Accounted.shutDown (h : Accounted s.world (served s.listeners) lost)
    (hjoins : ∀ x ∈ s.listeners, x.listener.join ≠ some .listenerJoin) {k : ℕ}
    (hs : step (.shutdown k) s = some s') : Accounted s'.world (served s'.listeners) lost := by
  obtain ⟨x, hx, rfl⟩ := Option.map_eq_some_iff.mp hs
  obtain ⟨hk, hget⟩ := List.getElem?_eq_some_iff.mp hx
  have hperm : s.listeners.Perm (x :: s.listeners.eraseIdx k) := by
    rw [← hget]
    exact (List.getElem_cons_eraseIdx_perm hk).symm
  have hserved := hperm.filter fun x ↦ x.listener.join = some .breakHttpLoop
  dsimp only
  rcases hjoin : x.listener.join with _ | join
  · rw [List.filter_cons_of_neg (by simp [hjoin])] at hserved
    rw [shutdownListener, hjoin]
    exact h.perm hserved
  cases join with
  | listenerJoin => exact absurd hjoin (hjoins x (List.mem_of_getElem? hx))
  | breakHttpLoop =>
    rw [List.filter_cons_of_pos (by simp [hjoin])] at hserved
    rw [shutdownListener, hjoin]
    exact h.broken hserved

theorem joins_step (a : Action) (h : ∀ x ∈ s.listeners, x.listener.join ≠ some .listenerJoin)
    (hs : step a s = some s') : ∀ x ∈ s'.listeners, x.listener.join ≠ some .listenerJoin := by
  cases a with
  | start args decoder env =>
    have hstarted := startHttpLoop_started args decoder env s.world
    simp only [step] at hs
    generalize startHttpLoop args decoder env s.world = result at hstarted hs
    have hadd (x : Running) (hx : x.listener.join ≠ some .listenerJoin) :
        ∀ y ∈ s.listeners ++ [x], y.listener.join ≠ some .listenerJoin := by
      intro y hy
      obtain hy | hy := List.mem_append.mp hy
      · exact h y hy
      · rw [List.mem_singleton.mp hy]
        exact hx
    generalize leaves args decoder env = left at hstarted
    cases hstarted <;> obtain rfl := Option.some.inj hs
    case failed => exact h
    case stranded hjoin => exact hadd _ (by simp [hjoin])
    case served hjoin _ => exact hadd _ (by simp [hjoin])
  | shutdown k =>
    obtain ⟨x, -, rfl⟩ := Option.map_eq_some_iff.mp hs
    intro y hy
    exact h y (List.mem_of_mem_eraseIdx hy)

end Steps

structure Tracked (s : Process) (lost : Lost) : Prop where
  accounted : Accounted s.world (served s.listeners) lost
  joins : ∀ x ∈ s.listeners, x.listener.join ≠ some .listenerJoin

theorem tracked_step {s s' : Process} {lost : Lost} (a : Action) (h : Tracked s lost)
    (hs : step a s = some s') : Tracked s' (lost.add a.lost) := by
  have hjoins := joins_step a h.joins hs
  cases a with
  | start args decoder env => exact ⟨h.accounted.started hs, hjoins⟩
  | shutdown k =>
    have hlost : lost.add ⟨0, 0, 0⟩ = lost := by simp [Lost.add]
    refine ⟨?_, hjoins⟩
    rw [Action.lost, hlost]
    exact h.accounted.shutDown h.joins hs

theorem lost_concat (as : List Action) (a : Action) : lost (as ++ [a]) = (lost as).add a.lost := by
  rw [lost, List.foldl_append]
  rfl

theorem tracked_run (as : List Action) (s : Process) (hr : run step as start = some s) :
    Tracked s (lost as) := by
  refine run_invariant (M := fun as s ↦ Tracked s (lost as))
    ⟨accounted_nothing, by simp [start]⟩ ?_ as s hr
  intro as a s s' h hs
  rw [lost_concat]
  exact tracked_step a h hs

theorem Lost.add_eq_nothing_iff (a b : Lost) :
    a.add b = ⟨0, 0, 0⟩ ↔ a = ⟨0, 0, 0⟩ ∧ b = ⟨0, 0, 0⟩ := by
  obtain ⟨files, listeners, locked⟩ := a
  obtain ⟨files', listeners', locked'⟩ := b
  have hfiles : files + files' = 0 ↔ files = 0 ∧ files' = 0 := by
    rw [← Multiset.card_eq_zero, Multiset.card_add, Nat.add_eq_zero_iff, Multiset.card_eq_zero,
      Multiset.card_eq_zero]
  simp only [Lost.add, Lost.mk.injEq, hfiles, Nat.add_eq_zero_iff]
  tauto

theorem Action.lost_eq_nothing_iff (a : Action) : a.lost = ⟨0, 0, 0⟩ ↔ a.Sound := by
  cases a with
  | start args decoder env => exact leaves_eq_nothing_iff args decoder env
  | shutdown k => exact iff_of_true rfl trivial

theorem lost_eq_nothing_iff (as : List Action) : lost as = ⟨0, 0, 0⟩ ↔ ∀ a ∈ as, a.Sound := by
  induction as using List.reverseRecOn with
  | nil => simp [lost]
  | append_singleton as a ih =>
    rw [lost_concat, Lost.add_eq_nothing_iff, ih, Action.lost_eq_nothing_iff]
    simp [or_imp, forall_and]

/-- What the process holds is what its listeners hold and what its failed starts left, and a run
loses nothing exactly if each of its starts is sound. -/
theorem listeners_accounted (as : List Action) (s : Process) (hr : run step as start = some s) :
    Accounted s.world (served s.listeners) (lost as) ∧
      (lost as = ⟨0, 0, 0⟩ ↔ ∀ a ∈ as, a.Sound) :=
  ⟨(tracked_run as s hr).accounted, lost_eq_nothing_iff as⟩

def wholeFiles : Env := { shortCertificate with fread := fun _ ↦ 20 }

theorem sound_wholeFiles (args : HttpLoopArgs) (decoder : Decoder) :
    Sound args decoder wholeFiles := by
  rintro - - -
  refine ⟨rfl, ?_, fun _ ↦ rfl, rfl⟩
  intro f n _ hsize
  cases f <;> (cases hsize; decide)

def plainArgs : HttpLoopArgs := { tlsArgs with httpsKeyFilename := none, httpsCertFilename := none }

def shortThenWhole : List Action := [
  .start tlsArgs ⟨true, true, rfl⟩ shortCertificate,
  .start tlsArgs ⟨true, true, rfl⟩ wholeFiles,
  .start plainArgs ⟨false, false, rfl⟩ wholeFiles,
  .shutdown 1]

theorem short_certificate_accounted : ∃ s, run step shortThenWhole start = some s ∧
    Accounted s.world (served s.listeners) (lost shortThenWhole) ∧
      lost shortThenWhole = ⟨0, 1, 1⟩ :=
  ⟨_, rfl, (listeners_accounted shortThenWhole _ rfl).1, by decide⟩

theorem Accounted.eq_nothing {w : World} (h : Accounted w [] ⟨0, 0, 0⟩) : w = nothing := by
  obtain ⟨files, listeners, locked, opaques, daemons, responses⟩ := w
  obtain rfl : files = 0 := h.files
  obtain rfl : listeners = 0 := h.listeners
  obtain rfl : locked = 0 := h.locked
  obtain rfl : opaques = 0 := h.opaques
  obtain rfl : daemons = 0 := h.daemons
  have hcounter : responses.listenersCounter = 0 := h.responses
  have hcreated : responses.created = false := by
    rw [Bool.eq_false_iff]
    intro hcreated
    exact absurd (responses.created_iff.mp hcreated) (by omega)
  simp [nothing, HttpResponses.ext_iff, hcounter, hcreated]

/-- The responses, as far as they could be created, live exactly as long as a daemon, and the last
shutdown gives everything back. -/
theorem last_shutdown_releases (as : List Action) (s : Process) (hr : run step as start = some s) :
    (s.world.responses.created = true ↔ 0 < s.world.daemons) ∧
      ((∀ a ∈ as, a.Sound) → served s.listeners = [] → s.world = nothing) := by
  have h := (tracked_run as s hr).accounted
  constructor
  · rw [s.world.responses.created_iff, h.responses, h.daemons]
  · intro hsound hnil
    rw [(lost_eq_nothing_iff as).mpr hsound, hnil] at h
    exact h.eq_nothing

def startedAndShutDown : List Action := [
  .start tlsArgs ⟨true, true, rfl⟩ wholeFiles,
  .start plainArgs ⟨false, false, rfl⟩ wholeFiles,
  .shutdown 1,
  .shutdown 0]

theorem two_listeners_released :
    ∃ s, run step startedAndShutDown start = some s ∧ s.world = nothing := by
  refine ⟨_, rfl, (last_shutdown_releases startedAndShutDown _ rfl).2 ?_ rfl⟩
  simp [startedAndShutDown, Action.Sound, sound_wholeFiles]

end N2Kafka.Listener.HttpListeners
