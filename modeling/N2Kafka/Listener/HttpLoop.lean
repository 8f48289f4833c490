import Mathlib.Algebra.GroupWithZero.Nat
import Mathlib.Algebra.Order.Group.Multiset
import N2Kafka.Lib.CString

namespace N2Kafka.Listener.HttpLoop

open N2Kafka.Lib.CString

inductive SecretFile
  | keyFile
  | certFile
  | clientCaTrust
  | htpasswd
  deriving DecidableEq

/-- The table `secret_files`, in the order in which its entries are opened and read. -/
def secretFiles : List SecretFile := [.keyFile, .certFile, .clientCaTrust, .htpasswd]

structure HttpLoopArgs where
  port : ℤ
  numThreads : ℤ
  connectionMemoryLimit : ℤ
  connectionLimit : ℤ
  connectionTimeout : ℤ
  perIpConnectionLimit : ℤ
  mode : Option CStr
  httpsKeyFilename : Option CStr
  httpsCertFilename : Option CStr
  httpsKeyPassword : Option CStr
  httpsClientsCaFilename : Option CStr
  htpasswdFilename : Option CStr

namespace HttpLoopArgs

def filename (args : HttpLoopArgs) : SecretFile → Option CStr
  | .keyFile => args.httpsKeyFilename
  | .certFile => args.httpsCertFilename
  | .clientCaTrust => args.httpsClientsCaFilename
  | .htpasswd => args.htpasswdFilename

def tls (args : HttpLoopArgs) : Bool := args.httpsKeyFilename.isSome

/-- The guard of the three passes over the table. -/
def usesSecrets (args : HttpLoopArgs) : Bool := args.tls || args.htpasswdFilename.isSome

end HttpLoopArgs

inductive PollingMode
  | threadPerConnection
  | selectInternally
  | pollInternally
  | epollInternallyLinuxOnly
  deriving DecidableEq

def pollingMode : Option CStr → Option PollingMode
  | none => some .threadPerConnection
  | some mode =>
    if strcmp (lit "thread_per_connection") mode = 0 then some .threadPerConnection
    else if strcmp (lit "select") mode = 0 then some .selectInternally
    else if strcmp (lit "poll") mode = 0 then some .pollInternally
    else if strcmp (lit "epoll") mode = 0 then some .epollInternallyLinuxOnly
    else none

/-- What `ftello`, the seek to the end, the second `ftello` and the seek back answer. -/
structure Seeks where
  currOff : Option ℕ
  seekEnd : Bool
  bytes : Option ℕ
  seekRestore : Bool

def fileSize (seeks : Seeks) : Option ℕ :=
  if seeks.currOff.isNone then none
  else if !seeks.seekEnd then none
  else if !seeks.seekRestore then none
  else seeks.bytes

def htpasswdSize (rc : ℤ) : ℕ := if rc < 0 then 0 else rc.toNat

def htpasswdFread (rc : ℤ) : ℕ := if rc < 0 then 0 else rc.toNat

structure Permissions where
  othersRead : Bool
  othersWrite : Bool

/-- What the calls of one run of `start_http_loop` answer: every pattern of failures is such a
value. -/
structure Env where
  stat : Option Permissions
  fopen : SecretFile → Bool
  seeks : SecretFile → Seeks
  extractSize : ℤ
  calloc : Bool
  mlock : Bool
  fread : SecretFile → ℕ
  extractData : ℤ
  opaqueCreator : ℤ
  startDaemon : Bool

namespace Env

def fileSizeCallback (env : Env) : SecretFile → Option ℕ
  | .htpasswd => some (htpasswdSize env.extractSize)
  | f => fileSize (env.seeks f)

def fileReadCallback (env : Env) : SecretFile → ℕ
  | .htpasswd => htpasswdFread env.extractData
  | f => env.fread f

/-- The private key has to be there, and closed to the others. -/
def keyAllowed (env : Env) : Bool :=
  match env.stat with
  | none => false
  | some permissions => !(permissions.othersWrite || permissions.othersRead)

end Env

/-- The decoders either have both functions (`meraki`) or none of them. -/
structure Decoder where
  opaqueCreator : Bool
  opaqueDestructor : Bool
  paired : opaqueCreator = opaqueDestructor

/-- The four shared responses live as long as some listener counts on them. `created` says that the
calls which create them were made: what they answer is stored unchecked. -/
@[ext]
structure HttpResponses where
  listenersCounter : ℕ
  created : Bool
  created_iff : created = true ↔ 0 < listenersCounter

def responsesListenerCounterIncref (r : HttpResponses) : HttpResponses where
  listenersCounter := r.listenersCounter + 1
  created := if r.listenersCounter = 0 then true else r.created
  created_iff := by
    have h := r.created_iff
    split
    · simp
    · simp only [h]
      omega

/-- Every call follows the increment of the same listener, so the counter is not at zero. -/
def responsesListenerCounterDecref (r : HttpResponses) : HttpResponses where
  listenersCounter := r.listenersCounter - 1
  created := if r.listenersCounter - 1 = 0 then false else r.created
  created_iff := by
    have h := r.created_iff
    split
    · simp_all
    · simp only [h]
      omega

theorem decref_incref (r : HttpResponses) :
    responsesListenerCounterDecref (responsesListenerCounterIncref r) = r := by
  have h := r.created_iff
  apply HttpResponses.ext
  · rfl
  · simp only [responsesListenerCounterDecref, responsesListenerCounterIncref,
      Nat.add_sub_cancel]
    by_cases h0 : r.listenersCounter = 0
    · rw [if_pos h0, eq_comm, Bool.eq_false_iff]
      intro hc
      have hpos := h.mp hc
      omega
    · rw [if_neg h0, if_neg h0]

/-- What the process holds: open streams, blocks of memory, locked ranges of them, opaques of
decoders, running daemons and the shared responses. -/
structure World where
  files : Multiset SecretFile
  listeners : ℕ
  locked : ℕ
  opaques : ℕ
  daemons : ℕ
  responses : HttpResponses

structure Table where
  file : List SecretFile
  filesize : SecretFile → ℕ
  mem : SecretFile → Option ℕ
  locked : ℕ

def Table.initial : Table := ⟨[], fun _ ↦ 0, fun _ ↦ none, 0⟩

/-- The first pass. The flag is `false` on a jump to `tls_err`. -/
def openSecretFiles (args : HttpLoopArgs) (env : Env) :
    List SecretFile → Table → World → Bool × Table × World
  | [], t, w => (true, t, w)
  | f :: fs, t, w =>
    match args.filename f with
    | none => openSecretFiles args env fs t w
    | some _ =>
      if f = .keyFile ∧ env.keyAllowed = false then (false, t, w)
      else if env.fopen f = false then (false, t, w)
      else
        let t := { t with file := t.file ++ [f] }
        let w := { w with files := f ::ₘ w.files }
        match env.fileSizeCallback f with
        | none => (false, t, w)
        | some n =>
          openSecretFiles args env fs { t with filesize := Function.update t.filesize f n } w

/-- Room for the contents of every file, with a terminator behind each. -/
def tlsFilesSize (args : HttpLoopArgs) (t : Table) : ℕ :=
  if args.usesSecrets then
    ((secretFiles.filter fun f ↦ (args.filename f).isSome).map fun f ↦ t.filesize f + 1).sum
  else 0

/-- The third pass, with its cursor into `tls_data`. The flag is `false` on a jump to `tls_err`. -/
def readSecretFiles (args : HttpLoopArgs) (env : Env) :
    List SecretFile → ℕ → Table → World → Bool × Table × World
  | [], _, t, w => (true, t, w)
  | f :: fs, cursor, t, w =>
    match args.filename f with
    | none => readSecretFiles args env fs cursor t w
    | some _ =>
      let t := { t with mem := Function.update t.mem f (some cursor) }
      -- A key that cannot be locked is only warned about
      let locks := if f = .keyFile ∧ env.mlock then 1 else 0
      let t := { t with locked := t.locked + locks }
      let w := { w with locked := w.locked + locks }
      if env.fileReadCallback f < t.filesize f then (false, t, w)
      else readSecretFiles args env fs (cursor + t.filesize f + 1) t w

def closeFiles : List SecretFile → World → World
  | [], w => w
  | f :: fs, w => closeFiles fs { w with files := w.files.erase f }

inductive Join
  | listenerJoin
  | breakHttpLoop
  deriving DecidableEq

structure Daemon where
  mode : PollingMode
  port : BitVec 16
  connectionLimit : ℤ
  perIpConnectionLimit : ℤ
  connectionTimeout : ℤ
  connectionMemoryLimit : ℤ
  threadPoolSize : ℤ
  tls : Bool
  memKey : Option ℕ
  memCert : Option ℕ
  keyPassword : Option CStr
  memTrust : Option ℕ
  deriving DecidableEq

/-- The fields of the block are zero behind `calloc`. -/
structure HttpListener where
  port : BitVec 16
  join : Option Join
  tlsDataSize : ℕ
  d : Option Daemon
  htpasswd : Option ℕ
  clientTlsCert : Bool
  deriving DecidableEq

def listenerInit (decoder : Decoder) (env : Env) (w : World) : ℤ × World :=
  if decoder.opaqueCreator then
    if env.opaqueCreator ≠ 0 then (env.opaqueCreator, w)
    else (0, { w with opaques := w.opaques + 1 })
  else (0, w)

def listenerJoin (decoder : Decoder) (w : World) : World :=
  if decoder.opaqueDestructor then { w with opaques := w.opaques - 1 } else w

/-- Behind the label `listener_init_err`: `munlock` unlocks every range of the secrets, and the block
is freed. -/
def listenerInitErr (tlsDataSize : ℕ) (t : Table) (w : World) : World :=
  let w := if 0 < tlsDataSize then { w with locked := w.locked - t.locked } else w
  { w with listeners := w.listeners - 1 }

def startDaemonErr (decoder : Decoder) (tlsDataSize : ℕ) (t : Table) (w : World) : World :=
  let w := { w with responses := responsesListenerCounterDecref w.responses }
  listenerInitErr tlsDataSize t (listenerJoin decoder w)

def startListener (args : HttpLoopArgs) (decoder : Decoder) (env : Env) (mode : PollingMode)
    (listener : HttpListener) (t : Table) (w : World) : Option HttpListener × World :=
  match listenerInit decoder env w with
  | (rc, w) =>
    if rc ≠ 0 then (none, listenerInitErr listener.tlsDataSize t w)
    else
      let w := { w with responses := responsesListenerCounterIncref w.responses }
      if env.startDaemon = false then (none, startDaemonErr decoder listener.tlsDataSize t w)
      else
        let d : Daemon := {
          mode := mode
          port := BitVec.ofInt 16 args.port
          connectionLimit := args.connectionLimit
          perIpConnectionLimit := args.perIpConnectionLimit
          connectionTimeout := args.connectionTimeout
          connectionMemoryLimit := args.connectionMemoryLimit
          threadPoolSize := args.numThreads
          tls := args.tls
          memKey := if args.tls then t.mem .keyFile else none
          memCert := if args.tls then t.mem .certFile else none
          keyPassword := if args.tls then args.httpsKeyPassword else none
          memTrust := if args.tls then t.mem .clientCaTrust else none }
        let listener := { listener with
          port := BitVec.ofInt 16 args.port
          d := some d
          join := some .breakHttpLoop }
        (some listener, closeFiles t.file { w with daemons := w.daemons + 1 })

def startWithMode (args : HttpLoopArgs) (decoder : Decoder) (env : Env) (mode : PollingMode)
    (w : World) : Option HttpListener × World :=
  let entries := if args.usesSecrets then secretFiles else []
  match openSecretFiles args env entries Table.initial w with
  | (false, t, w) => (none, closeFiles t.file w)
  | (true, t, w) =>
    if env.calloc = false then (none, w)
    else
      let w := { w with listeners := w.listeners + 1 }
      let listener : HttpListener := {
        port := 0
        join := none
        tlsDataSize := tlsFilesSize args t
        d := none
        htpasswd := none
        clientTlsCert := args.usesSecrets && args.httpsClientsCaFilename.isSome }
      match readSecretFiles args env entries 0 t w with
      | (false, t, w) => (some listener, closeFiles t.file w)
      | (true, t, w) =>
        let listener := { listener with
          htpasswd := if args.htpasswdFilename.isSome then t.mem .htpasswd else none }
        startListener args decoder env mode listener t w

def startHttpLoop (args : HttpLoopArgs) (decoder : Decoder) (env : Env) (w : World) :
    Option HttpListener × World :=
  match pollingMode args.mode with
  | none => (none, w)
  | some mode =>
    if args.httpsKeyFilename.isNone ≠ args.httpsCertFilename.isNone then (none, w)
    else if args.httpsKeyFilename.isNone ∧ args.httpsClientsCaFilename.isSome then (none, w)
    else startWithMode args decoder env mode w

section Opening

variable (args : HttpLoopArgs) (env : Env)

structure Opens (f : SecretFile) : Prop where
  allowed : f = .keyFile → env.keyAllowed = true
  opened : env.fopen f = true
  sized : (env.fileSizeCallback f).isSome

structure Opening (fs : List SecretFile) (t : Table) (w : World) (new : List SecretFile)
    (result : Bool × Table × World) : Prop where
  file : result.2.1.file = t.file ++ new
  locked : result.2.1.locked = t.locked
  world : result.2.2 = { w with files := new + w.files }
  all_iff : result.1 = true ↔ ∀ f ∈ fs, (args.filename f).isSome → Opens env f
  all_new : result.1 = true → new = fs.filter fun f ↦ (args.filename f).isSome
  filesize : result.1 = true → ∀ f, result.2.1.filesize f =
    if f ∈ new then (env.fileSizeCallback f).getD 0 else t.filesize f

variable {args env}

theorem Opening.stop {f : SecretFile} {fs : List SecretFile} {t : Table} {w : World}
    (hf : (args.filename f).isSome) (hstop : ¬ Opens env f) :
    Opening args env (f :: fs) t w [] (false, t, w) where
  file := (List.append_nil _).symm
  locked := rfl
  world := by simp
  all_iff := by
    refine iff_of_false (by simp) fun h ↦ ?_
    exact hstop (h f (by simp) hf)
  all_new h := by cases h
  filesize h := by cases h

theorem Opening.stop_opened {f : SecretFile} {fs : List SecretFile} {t : Table} {w : World}
    (hf : (args.filename f).isSome) (hstop : ¬ Opens env f) :
    Opening args env (f :: fs) t w [f]
      (false, { t with file := t.file ++ [f] }, { w with files := f ::ₘ w.files }) where
  file := rfl
  locked := rfl
  world := by simp
  all_iff := by
    refine iff_of_false (by simp) fun h ↦ ?_
    exact hstop (h f (by simp) hf)
  all_new h := by cases h
  filesize h := by cases h

theorem Opening.skip {f : SecretFile} {fs new : List SecretFile} {t : Table} {w : World}
    {result : Bool × Table × World} (hf : args.filename f = none)
    (h : Opening args env fs t w new result) : Opening args env (f :: fs) t w new result where
  file := h.file
  locked := h.locked
  world := h.world
  all_iff := by
    rw [h.all_iff]
    simp [hf]
  all_new ht := by simpa [hf] using h.all_new ht
  filesize := h.filesize

theorem Opening.next {f : SecretFile} {fs new : List SecretFile} {t : Table} {w : World} {n : ℕ}
    {result : Bool × Table × World} (hf : (args.filename f).isSome) (hopens : Opens env f)
    (hn : env.fileSizeCallback f = some n)
    (h : Opening args env fs
      { t with file := t.file ++ [f], filesize := Function.update t.filesize f n }
      { w with files := f ::ₘ w.files } new result) :
    Opening args env (f :: fs) t w (f :: new) result where
  file := by rw [h.file, List.append_assoc, List.singleton_append]
  locked := h.locked
  world := by
    rw [h.world]
    simp [← Multiset.cons_coe]
  all_iff := by
    rw [h.all_iff]
    simp [hf, hopens]
  all_new ht := by simpa [hf] using h.all_new ht
  filesize ht g := by
    rw [h.filesize ht g]
    by_cases hg : g ∈ new
    · simp [hg]
    by_cases hgf : g = f
    · subst hgf
      simp [hg, hn]
    · simp [hg, hgf]

variable (args env)

theorem openSecretFiles_opening : ∀ (fs : List SecretFile) (t : Table) (w : World),
    ∃ new, Opening args env fs t w new (openSecretFiles args env fs t w)
  | [], t, w => ⟨[], {
      file := (List.append_nil _).symm
      locked := rfl
      world := by simp [openSecretFiles]
      all_iff := by simp [openSecretFiles]
      all_new := fun _ ↦ rfl
      filesize := fun _ f ↦ by simp [openSecretFiles] }⟩
  | f :: fs, t, w => by
    rw [openSecretFiles]
    cases hf : args.filename f with
    | none =>
      obtain ⟨new, h⟩ := openSecretFiles_opening fs t w
      exact ⟨new, h.skip hf⟩
    | some name =>
      have hname : (args.filename f).isSome := by simp [hf]
      by_cases hkey : f = .keyFile ∧ env.keyAllowed = false
      · refine ⟨[], ?_⟩
        rw [if_pos hkey]
        apply Opening.stop hname
        intro hopens
        simp [hopens.allowed hkey.1] at hkey
      by_cases hopen : env.fopen f = false
      · refine ⟨[], ?_⟩
        rw [if_neg hkey, if_pos hopen]
        apply Opening.stop hname
        intro hopens
        simp [hopens.opened] at hopen
      rw [if_neg hkey, if_neg hopen]
      cases hn : env.fileSizeCallback f with
      | none =>
        refine ⟨[f], Opening.stop_opened hname fun hopens ↦ ?_⟩
        simpa [hn] using hopens.sized
      | some n =>
        have hopens : Opens env f := {
          allowed := fun h ↦ by simpa [h] using hkey
          opened := by simpa using hopen
          sized := by simp [hn] }
        obtain ⟨new, h⟩ := openSecretFiles_opening fs
          { t with file := t.file ++ [f], filesize := Function.update t.filesize f n }
          { w with files := f ::ₘ w.files }
        exact ⟨f :: new, h.next hname hopens hn⟩

end Opening

theorem closeFiles_eq : ∀ (fs : List SecretFile) (w : World),
    closeFiles fs w = { w with files := w.files - fs }
  | [], w => by simp [closeFiles]
  | f :: fs, w => by
    rw [closeFiles, closeFiles_eq fs, ← Multiset.cons_coe, Multiset.sub_cons]

@[simp]
theorem closeFiles_opened (fs : List SecretFile) (w : World) :
    closeFiles fs { w with files := fs + w.files } = w := by
  simp [closeFiles_eq]

section Reading

variable (args : HttpLoopArgs) (env : Env)

structure Reading (fs : List SecretFile) (t : Table) (w : World)
    (result : Bool × Table × World) : Prop where
  file : result.2.1.file = t.file
  world : ∃ n, result.2.1.locked = t.locked + n ∧ result.2.2 = { w with locked := w.locked + n } ∧
    (0 < n → (args.filename .keyFile).isSome)
  all_iff : result.1 = true ↔
    ∀ f ∈ fs, (args.filename f).isSome → t.filesize f ≤ env.fileReadCallback f

variable {args env} {f : SecretFile} {fs : List SecretFile} {t : Table} {w : World}

theorem Reading.skip {result : Bool × Table × World} (hf : args.filename f = none)
    (h : Reading args env fs t w result) : Reading args env (f :: fs) t w result where
  file := h.file
  world := h.world
  all_iff := by
    rw [h.all_iff]
    simp [hf]

theorem Reading.stop (hf : (args.filename f).isSome) (mem : SecretFile → Option ℕ) {locks : ℕ}
    (hlocks : 0 < locks → (args.filename .keyFile).isSome)
    (hread : env.fileReadCallback f < t.filesize f) :
    Reading args env (f :: fs) t w (false, { t with mem := mem, locked := t.locked + locks },
      { w with locked := w.locked + locks }) where
  file := rfl
  world := ⟨locks, rfl, rfl, hlocks⟩
  all_iff := by
    refine iff_of_false (by simp) fun h ↦ ?_
    have hle := h f (by simp) hf
    omega

theorem Reading.next {result : Bool × Table × World} (hf : (args.filename f).isSome)
    (mem : SecretFile → Option ℕ) {locks : ℕ}
    (hlocks : 0 < locks → (args.filename .keyFile).isSome)
    (hread : t.filesize f ≤ env.fileReadCallback f)
    (h : Reading args env fs { t with mem := mem, locked := t.locked + locks }
      { w with locked := w.locked + locks } result) :
    Reading args env (f :: fs) t w result where
  file := h.file
  world := by
    obtain ⟨n, hn, hw, hkey⟩ := h.world
    refine ⟨locks + n, ?_, ?_, fun hpos ↦ ?_⟩
    · rw [hn, Nat.add_assoc]
    · rw [hw, Nat.add_assoc]
    · rcases Nat.eq_zero_or_pos n with hzero | hn
      · exact hlocks (by omega)
      · exact hkey hn
  all_iff := by
    rw [h.all_iff]
    simp [hf, hread]

variable (args env)

theorem readSecretFiles_reading : ∀ (fs : List SecretFile) (cursor : ℕ) (t : Table) (w : World),
    Reading args env fs t w (readSecretFiles args env fs cursor t w)
  | [], _, t, w => {
      file := rfl
      world := ⟨0, rfl, rfl, by simp⟩
      all_iff := by simp [readSecretFiles] }
  | f :: fs, cursor, t, w => by
    rw [readSecretFiles]
    cases hf : args.filename f with
    | none => exact (readSecretFiles_reading fs cursor t w).skip hf
    | some name =>
      dsimp only
      have hname : (args.filename f).isSome := by simp [hf]
      have hlocks : 0 < (if f = .keyFile ∧ env.mlock then 1 else 0) →
          (args.filename .keyFile).isSome := by
        intro h
        split at h
        case isTrue hkey => exact hkey.1 ▸ hname
        case isFalse => omega
      by_cases hread : env.fileReadCallback f < t.filesize f
      · rw [if_pos hread]
        exact .stop hname _ hlocks hread
      · rw [if_neg hread]
        exact .next hname _ hlocks (Nat.le_of_not_lt hread) (readSecretFiles_reading fs _ _ _)

end Reading

end N2Kafka.Listener.HttpLoop
