import N2Kafka.Listener.HttpLoop

namespace N2Kafka.Listener.HttpLoop

open N2Kafka.Lib.CString

def Initialised (decoder : Decoder) (env : Env) : Prop :=
  decoder.opaqueCreator = true → env.opaqueCreator = 0

@[simp]
theorem listenerInitErr_undo (tlsDataSize n : ℕ) (t : Table) (w : World) (hn : t.locked = n)
    (hsize : 0 < n → 0 < tlsDataSize) :
    listenerInitErr tlsDataSize t { w with listeners := w.listeners + 1, locked := w.locked + n } =
      w := by
  unfold listenerInitErr
  by_cases h : 0 < tlsDataSize
  · simp [h, hn]
  · have hzero : n = 0 := by omega
    simp [h, hzero]

theorem startListener_of_not_initialised (args : HttpLoopArgs) (decoder : Decoder) (env : Env)
    (mode : PollingMode) (listener : HttpListener) (t : Table) (w : World)
    (h : ¬ Initialised decoder env) :
    startListener args decoder env mode listener t w =
      (none, listenerInitErr listener.tlsDataSize t w) := by
  obtain ⟨hcreator, hrc⟩ := Classical.not_imp.mp h
  simp [startListener, listenerInit, hcreator, hrc]

def initialisedWorld (decoder : Decoder) (w : World) : World :=
  { w with opaques := if decoder.opaqueCreator then w.opaques + 1 else w.opaques }

theorem listenerInit_of_initialised {decoder : Decoder} {env : Env} (h : Initialised decoder env)
    (w : World) : listenerInit decoder env w = (0, initialisedWorld decoder w) := by
  unfold listenerInit initialisedWorld
  by_cases hcreator : decoder.opaqueCreator = true
  · simp [hcreator, h hcreator]
  · simp [hcreator]

theorem listenerJoin_initialised (decoder : Decoder) (w : World) :
    listenerJoin decoder (initialisedWorld decoder w) = w := by
  have hpaired := decoder.paired
  unfold listenerJoin initialisedWorld
  by_cases hcreator : decoder.opaqueCreator = true
  · simp [hcreator, ← hpaired]
  · simp [hcreator, ← hpaired]

theorem startListener_of_not_started (args : HttpLoopArgs) {decoder : Decoder} {env : Env}
    (mode : PollingMode) (listener : HttpListener) (t : Table) (w : World)
    (hinit : Initialised decoder env) (hd : env.startDaemon = false) :
    startListener args decoder env mode listener t w =
      (none, listenerInitErr listener.tlsDataSize t w) := by
  have hundo : listenerJoin decoder { initialisedWorld decoder w with
      responses := responsesListenerCounterDecref (responsesListenerCounterIncref
        (initialisedWorld decoder w).responses) } = w := by
    rw [decref_incref]
    exact listenerJoin_initialised decoder w
  simp only [startListener, listenerInit_of_initialised hinit, hd, startDaemonErr]
  rw [hundo]
  simp

theorem startListener_of_started (args : HttpLoopArgs) {decoder : Decoder} {env : Env}
    (mode : PollingMode) (listener : HttpListener) (t : Table) (w : World)
    (hinit : Initialised decoder env) (hd : env.startDaemon = true) :
    ∃ served, startListener args decoder env mode listener t w =
      (some served, closeFiles t.file { initialisedWorld decoder w with
        responses := responsesListenerCounterIncref w.responses
        daemons := w.daemons + 1 }) := by
  simp only [startListener, listenerInit_of_initialised hinit, hd, ne_eq, not_true_eq_false,
    if_false, Bool.true_eq_false]
  exact ⟨_, rfl⟩

/-- The options pass the checks that stand before the first file is opened. -/
structure HttpLoopArgs.Accepted (args : HttpLoopArgs) : Prop where
  mode : (pollingMode args.mode).isSome
  pair : args.httpsKeyFilename.isNone = args.httpsCertFilename.isNone
  clientsCa : ¬ (args.httpsKeyFilename.isNone = true ∧ args.httpsClientsCaFilename.isSome = true)

namespace HttpLoopArgs

variable {args : HttpLoopArgs}

def configured (args : HttpLoopArgs) : List SecretFile :=
  secretFiles.filter fun f ↦ (args.filename f).isSome

theorem mem_configured {f : SecretFile} : f ∈ args.configured ↔ (args.filename f).isSome := by
  unfold configured secretFiles
  cases f <;> simp

theorem Accepted.filename_eq_none (h : args.Accepted) (hs : args.usesSecrets = false) :
    ∀ f, args.filename f = none := by
  obtain ⟨htls, hpasswd⟩ := Bool.or_eq_false_iff.mp hs
  have hkey : args.httpsKeyFilename = none := by simpa [tls] using htls
  have hcert := h.pair
  have hca := h.clientsCa
  rw [hkey] at hcert hca
  intro f
  cases f with
  | keyFile => exact hkey
  | certFile => simpa [filename] using hcert.symm
  | clientCaTrust => simpa [filename] using hca
  | htpasswd => simpa [filename] using hpasswd

theorem Accepted.filter_entries (h : args.Accepted) :
    ((if args.usesSecrets then secretFiles else []).filter fun f ↦ (args.filename f).isSome) =
      args.configured := by
  cases hs : args.usesSecrets with
  | true => rfl
  | false => simp [configured, h.filename_eq_none hs]

theorem Accepted.mem_entries (h : args.Accepted) {f : SecretFile} (hf : (args.filename f).isSome) :
    f ∈ if args.usesSecrets then secretFiles else [] := by
  have hmem := mem_configured.mpr hf
  rw [← h.filter_entries] at hmem
  exact (List.mem_filter.mp hmem).1

end HttpLoopArgs

theorem startHttpLoop_of_not_accepted {args : HttpLoopArgs} (decoder : Decoder) (env : Env)
    (w : World) (h : ¬ args.Accepted) : startHttpLoop args decoder env w = (none, w) := by
  unfold startHttpLoop
  cases hm : pollingMode args.mode with
  | none => rfl
  | some mode =>
    dsimp only
    by_cases hpair : args.httpsKeyFilename.isNone = args.httpsCertFilename.isNone
    · by_cases hca : args.httpsKeyFilename.isNone = true ∧ args.httpsClientsCaFilename.isSome = true
      · rw [if_neg (not_not.mpr hpair), if_pos hca]
      · exact absurd ⟨by simp [hm], hpair, hca⟩ h
    · rw [if_pos hpair]

theorem startHttpLoop_of_accepted {args : HttpLoopArgs} (decoder : Decoder) (env : Env)
    (w : World) (h : args.Accepted) :
    ∃ mode, startHttpLoop args decoder env w = startWithMode args decoder env mode w := by
  obtain ⟨mode, hm⟩ := Option.isSome_iff_exists.mp h.mode
  refine ⟨mode, ?_⟩
  simp only [startHttpLoop, hm]
  rw [if_neg (not_not.mpr h.pair), if_neg h.clientsCa]

section WithMode

variable {args : HttpLoopArgs} {decoder : Decoder} {env : Env} {mode : PollingMode} {w : World}

theorem startWithMode_of_not_opened (h : args.Accepted)
    (hstop : ¬ ∀ f, (args.filename f).isSome → Opens env f) :
    startWithMode args decoder env mode w = (none, w) := by
  obtain ⟨new, ho⟩ := openSecretFiles_opening args env
    (if args.usesSecrets then secretFiles else []) Table.initial w
  rcases hr : openSecretFiles args env (if args.usesSecrets then secretFiles else [])
    Table.initial w with ⟨b, t, w'⟩
  rw [hr] at ho
  cases b with
  | true =>
    refine absurd (fun f hf ↦ ?_) hstop
    exact ho.all_iff.mp rfl f (h.mem_entries hf) hf
  | false =>
    have hfile : t.file = new := ho.file
    have hw : w' = { w with files := new + w.files } := ho.world
    simp only [startWithMode, hr, hfile, hw, closeFiles_opened]

structure Opened (args : HttpLoopArgs) (env : Env) (t : Table) : Prop where
  file : t.file = args.configured
  locked : t.locked = 0
  filesize : ∀ f, (args.filename f).isSome → env.fileSizeCallback f = some (t.filesize f)

theorem openSecretFiles_opened (h : args.Accepted) (w : World)
    (hall : ∀ f, (args.filename f).isSome → Opens env f) :
    ∃ t, Opened args env t ∧
      openSecretFiles args env (if args.usesSecrets then secretFiles else []) Table.initial w =
        (true, t, { w with files := args.configured + w.files }) := by
  obtain ⟨new, ho⟩ := openSecretFiles_opening args env
    (if args.usesSecrets then secretFiles else []) Table.initial w
  rcases hr : openSecretFiles args env (if args.usesSecrets then secretFiles else [])
    Table.initial w with ⟨b, t, w'⟩
  rw [hr] at ho
  have hb : b = true := ho.all_iff.mpr fun f _ ↦ hall f
  have hnew : new = args.configured := (ho.all_new hb).trans h.filter_entries
  refine ⟨t, ⟨?_, ho.locked, fun f hf ↦ ?_⟩, ?_⟩
  · rw [← hnew]
    exact ho.file
  · obtain ⟨n, hn⟩ := Option.isSome_iff_exists.mp (hall f hf).sized
    have hsize : t.filesize f = n := by
      have hmem : f ∈ new := hnew ▸ HttpLoopArgs.mem_configured.mpr hf
      simpa [hmem, hn] using ho.filesize hb f
    rw [hn, hsize]
  · have hw : w' = { w with files := new + w.files } := ho.world
    rw [hb, hw, hnew]

/-- No file is shorter when it is read than when its size was asked for. -/
def ReadsAll (args : HttpLoopArgs) (env : Env) : Prop :=
  ∀ f n, (args.filename f).isSome → env.fileSizeCallback f = some n → n ≤ env.fileReadCallback f

theorem Opened.readsAll_iff {t : Table} (ho : Opened args env t) (h : args.Accepted) :
    ReadsAll args env ↔ ∀ f ∈ (if args.usesSecrets then secretFiles else []),
      (args.filename f).isSome → t.filesize f ≤ env.fileReadCallback f := by
  constructor
  · intro hread f _ hf
    exact hread f _ hf (ho.filesize f hf)
  · intro hread f n hf hn
    have hsize := (ho.filesize f hf).symm.trans hn
    rw [← Option.some_inj.mp hsize]
    exact hread f (h.mem_entries hf) hf

theorem tlsFilesSize_pos (t : Table) (hkey : (args.filename .keyFile).isSome) :
    0 < tlsFilesSize args t := by
  have hs : args.usesSecrets = true := Bool.or_eq_true_iff.mpr (.inl hkey)
  unfold tlsFilesSize
  rw [if_pos hs]
  simp only [secretFiles, List.filter_cons, hkey, if_true, List.map_cons, List.sum_cons]
  omega

/-- Every step behind the opening of the files succeeds. -/
structure Finishes (args : HttpLoopArgs) (decoder : Decoder) (env : Env) : Prop where
  allocated : env.calloc = true
  read : ReadsAll args env
  initialised : Initialised decoder env
  started : env.startDaemon = true

/-- How the function ends once every file that is configured is open. -/
inductive Ending (args : HttpLoopArgs) (decoder : Decoder) (env : Env) (w : World) :
    Option HttpListener × World → Prop
  | leftOpen (h : ¬ Finishes args decoder env) :
    Ending args decoder env w (none, { w with files := args.configured + w.files })
  | notRead (h : ¬ ReadsAll args env) (listener : HttpListener) (n : ℕ) :
    Ending args decoder env w
      (some listener, { w with listeners := w.listeners + 1, locked := w.locked + n })
  | started (h : Finishes args decoder env) (listener : HttpListener) (n : ℕ) :
    Ending args decoder env w (some listener, { initialisedWorld decoder w with
      listeners := w.listeners + 1
      locked := w.locked + n
      responses := responsesListenerCounterIncref w.responses
      daemons := w.daemons + 1 })

theorem startListener_ending {t : Table} (ho : t.file = args.configured) (n : ℕ)
    (hn : t.locked = n) (hcalloc : env.calloc = true) (hread : ReadsAll args env)
    (listener : HttpListener) (hsize : 0 < n → 0 < listener.tlsDataSize) :
    Ending args decoder env w (startListener args decoder env mode listener t
      { w with
        files := args.configured + w.files
        listeners := w.listeners + 1
        locked := w.locked + n }) := by
  by_cases hinit : Initialised decoder env
  · cases hd : env.startDaemon with
    | false =>
      rw [startListener_of_not_started args mode listener t _ hinit hd,
        listenerInitErr_undo _ n t { w with files := args.configured + w.files } hn hsize]
      apply Ending.leftOpen
      intro h
      simp [h.started] at hd
    | true =>
      obtain ⟨served, hs⟩ := startListener_of_started args mode listener t
        { w with
          files := args.configured + w.files
          listeners := w.listeners + 1
          locked := w.locked + n } hinit hd
      have hclose := closeFiles_opened args.configured { initialisedWorld decoder w with
        listeners := w.listeners + 1
        locked := w.locked + n
        responses := responsesListenerCounterIncref w.responses
        daemons := w.daemons + 1 }
      rw [hs, ho]
      exact hclose ▸ Ending.started ⟨hcalloc, hread, hinit, hd⟩ served n
  · rw [startListener_of_not_initialised args decoder env mode listener t _ hinit,
      listenerInitErr_undo _ n t { w with files := args.configured + w.files } hn hsize]
    apply Ending.leftOpen
    intro h
    exact hinit h.initialised

theorem startWithMode_ending (h : args.Accepted)
    (hall : ∀ f, (args.filename f).isSome → Opens env f) :
    Ending args decoder env w (startWithMode args decoder env mode w) := by
  obtain ⟨t, ho, hr⟩ := openSecretFiles_opened h w hall
  simp only [startWithMode, hr]
  cases hcalloc : env.calloc with
  | false =>
    rw [if_pos rfl]
    apply Ending.leftOpen
    intro hf
    simp [hf.allocated] at hcalloc
  | true =>
    rw [if_neg (by simp)]
    have hreading := readSecretFiles_reading args env
      (if args.usesSecrets then secretFiles else []) 0 t
      { w with files := args.configured + w.files, listeners := w.listeners + 1 }
    rcases hr : readSecretFiles args env (if args.usesSecrets then secretFiles else []) 0 t
      { w with files := args.configured + w.files, listeners := w.listeners + 1 } with ⟨b, t', w'⟩
    rw [hr] at hreading
    have hfile : t'.file = args.configured := hreading.file.trans ho.file
    have hiff := ho.readsAll_iff h
    obtain ⟨n, hn, hw, hkey⟩ := hreading.world
    dsimp only at hn hw
    rw [ho.locked, Nat.zero_add] at hn
    subst hw
    cases b with
    | false =>
      have hclose := closeFiles_opened args.configured
        { w with listeners := w.listeners + 1, locked := w.locked + n }
      dsimp only
      rw [hfile]
      refine hclose ▸ Ending.notRead (fun hread ↦ ?_) _ n
      have hb := hreading.all_iff.mpr (hiff.mp hread)
      cases hb
    | true =>
      have hread := hiff.mpr (hreading.all_iff.mp rfl)
      exact startListener_ending hfile n hn hcalloc hread _ fun hpos ↦ tlsFilesSize_pos t (hkey hpos)

end WithMode

/-- A listener is returned exactly when a daemon was started for it, every file is closed again, and
the process counts one listener more or holds what it held before. -/
structure ServesOrReleases (w : World) (result : Option HttpListener × World) : Prop where
  served_iff : result.1.isSome ↔ result.2.daemons = w.daemons + 1
  closed : result.2.files = w.files
  counted : result.2.daemons = w.daemons + 1 →
    result.2.responses.listenersCounter = w.responses.listenersCounter + 1
  released : result.2.daemons = w.daemons → result.2 = w

theorem servesOrReleases_leftOpen_iff (w : World) (opened : List SecretFile) :
    ServesOrReleases w (none, { w with files := opened + w.files }) ↔ opened = [] := by
  constructor
  · intro h
    have hclosed : (opened : Multiset SecretFile) + w.files = w.files := h.closed
    simpa using hclosed
  · intro h
    subst h
    exact { served_iff := by simp, closed := by simp, counted := by simp, released := by simp }

theorem Ending.finishes_iff {args : HttpLoopArgs} {decoder : Decoder} {env : Env}
    {w : World} {result : Option HttpListener × World} (h : Ending args decoder env w result) :
    ServesOrReleases w result ↔
      ((∃ f, (args.filename f).isSome) → Finishes args decoder env) := by
  have hnone : args.configured = [] ↔ ¬ ∃ f, (args.filename f).isSome := by
    simp only [List.eq_nil_iff_forall_not_mem, HttpLoopArgs.mem_configured, not_exists]
  cases h with
  | leftOpen hf =>
    rw [servesOrReleases_leftOpen_iff, hnone]
    constructor
    · intro hno hex
      exact absurd hex hno
    · intro himp hex
      exact hf (himp hex)
  | notRead hread listener n =>
    refine iff_of_false (fun hs ↦ ?_) fun himp ↦ hread fun f n hf ↦ ?_
    · have hd := hs.served_iff.mp rfl
      simp at hd
    · exact (himp ⟨f, hf⟩).read f n hf
  | started hf listener n =>
    refine iff_of_true ?_ fun _ ↦ hf
    exact {
      served_iff := by simp
      closed := rfl
      counted := fun _ ↦ rfl
      released := fun hd ↦ by simp at hd }

/-- The labels behind the allocation are right in one case only: without any secret file. With one,
whatever fails after the files were opened leaves them open, or is returned as a listener that no
daemon serves. -/
theorem servesOrReleases_iff (args : HttpLoopArgs) (decoder : Decoder) (env : Env) (w : World) :
    ServesOrReleases w (startHttpLoop args decoder env w) ↔
      (args.Accepted → (∀ f, (args.filename f).isSome → Opens env f) →
        (∃ f, (args.filename f).isSome) → Finishes args decoder env) := by
  have hunchanged : ServesOrReleases w (none, w) := by
    simpa using (servesOrReleases_leftOpen_iff w []).mpr rfl
  by_cases haccepted : args.Accepted
  · obtain ⟨mode, hm⟩ := startHttpLoop_of_accepted decoder env w haccepted
    rw [hm, forall_prop_of_true haccepted]
    by_cases hall : ∀ f, (args.filename f).isSome → Opens env f
    · rw [forall_prop_of_true hall]
      exact (startWithMode_ending haccepted hall).finishes_iff
    · rw [startWithMode_of_not_opened haccepted hall]
      exact iff_of_true hunchanged fun h ↦ absurd h hall
  · rw [startHttpLoop_of_not_accepted decoder env w haccepted]
    exact iff_of_true hunchanged fun h ↦ absurd h haccepted

def shortCertificate : Env where
  stat := some ⟨false, false⟩
  fopen _ := true
  seeks _ := ⟨some 0, true, some 20, true⟩
  extractSize := 0
  calloc := true
  mlock := true
  fread f := if f = .certFile then 10 else 20
  extractData := 0
  opaqueCreator := 0
  startDaemon := true

def tlsArgs : HttpLoopArgs where
  port := 7980
  numThreads := 1
  connectionMemoryLimit := 128 * 1024
  connectionLimit := 1024
  connectionTimeout := 30
  perIpConnectionLimit := 0
  mode := none
  httpsKeyFilename := some (lit "server.key")
  httpsCertFilename := some (lit "server.crt")
  httpsKeyPassword := none
  httpsClientsCaFilename := none
  htpasswdFilename := none

theorem short_certificate_returned_without_daemon :
    ¬ ∀ (args : HttpLoopArgs) (decoder : Decoder) (env : Env) (w : World),
      ServesOrReleases w (startHttpLoop args decoder env w) := by
  intro h
  have hserved := (h tlsArgs ⟨false, false, rfl⟩ shortCertificate
    ⟨0, 0, 0, 0, 0, ⟨0, false, by simp⟩⟩).served_iff
  exact absurd hserved (by decide)

end N2Kafka.Listener.HttpLoop
