import N2Kafka.Lib.Jansson
import N2Kafka.Listener.TlsSecrets

namespace N2Kafka.Listener.HttpOptions

open Lib.CString Lib.Jansson Listener.HttpLoop Listener.HttpListeners Listener.TlsSecrets

inductive IntOption
  | port
  | numThreads
  | connectionMemoryLimit
  | connectionLimit
  | connectionTimeout
  | perIpConnectionLimit
  deriving DecidableEq

inductive StringOption
  | mode
  | httpsKeyFilename
  | httpsCertFilename
  | httpsKeyPassword
  | httpsClientsCaFilename
  | htpasswdFilename
  deriving DecidableEq

inductive HttpOption
  | int (o : IntOption)
  | string (o : StringOption)
  deriving DecidableEq

/-- The rows of `X_HTTP_CONFIG`. -/
def httpConfig : List HttpOption := [
  .int .port, .int .numThreads, .int .connectionMemoryLimit, .int .connectionLimit,
  .int .connectionTimeout, .int .perIpConnectionLimit, .string .mode, .string .httpsKeyFilename,
  .string .httpsCertFilename, .string .httpsKeyPassword, .string .httpsClientsCaFilename,
  .string .htpasswdFilename]

def IntOption.jsonName : IntOption → CStr
  | .port => lit "port"
  | .numThreads => lit "num_threads"
  | .connectionMemoryLimit => lit "connection_memory_limit"
  | .connectionLimit => lit "connection_limit"
  | .connectionTimeout => lit "connection_timeout"
  | .perIpConnectionLimit => lit "per_ip_connection_limit"

def IntOption.default : IntOption → ℤ
  | .port => 0
  | .numThreads => 1
  | .connectionMemoryLimit => 128 * 1024
  | .connectionLimit => 1024
  | .connectionTimeout => 30
  | .perIpConnectionLimit => 0

def StringOption.jsonName : StringOption → CStr
  | .mode => lit "mode"
  | .httpsKeyFilename => lit "https_key_filename"
  | .httpsCertFilename => lit "https_cert_filename"
  | .httpsKeyPassword => lit "https_key_password"
  | .httpsClientsCaFilename => lit "https_clients_ca_filename"
  | .htpasswdFilename => lit "htpasswd_filename"

def StringOption.envName : StringOption → Option CStr
  | .mode => none
  | .httpsKeyFilename => some (lit "HTTP_TLS_KEY_FILE")
  | .httpsCertFilename => some (lit "HTTP_TLS_CERT_FILE")
  | .httpsKeyPassword => some (lit "HTTP_TLS_KEY_PASSWORD")
  | .httpsClientsCaFilename => some (lit "HTTP_TLS_CLIENT_CA_FILE")
  | .htpasswdFilename => some (lit "HTTP_HTPASSWD_FILE")

def StringOption.default : StringOption → Option CStr
  | .mode => some (lit "poll")
  | _ => none

namespace HttpOption

abbrev Value : HttpOption → Type
  | .int _ => ℤ
  | .string _ => Option CStr

def jsonName : HttpOption → CStr
  | .int o => o.jsonName
  | .string o => o.jsonName

def optional (o : HttpOption) : Bool := o ≠ .int .port

def default : (o : HttpOption) → o.Value
  | .int o => o.default
  | .string o => o.default

/-- No option with a number has a variable. -/
def fromEnv (getenv : CStr → Option CStr) : (o : HttpOption) → Option o.Value
  | .int _ => none
  | .string o => (o.envName.bind getenv).map some

def ofJson : (o : HttpOption) → Json → Option o.Value
  | .int _, .integer n => some (Json.toInt32 n)
  | .string _, .string s => some (some s)
  | _, _ => none

def fromFile (config : Json) (o : HttpOption) : Option o.Value :=
  (config.objectGet o.jsonName).bind o.ofJson

end HttpOption

abbrev HandlerArgs := (o : HttpOption) → o.Value

def setOption (value : (o : HttpOption) → Option o.Value) (args : HandlerArgs) (o : HttpOption) :
    HandlerArgs :=
  match value o with
  | none => args
  | some v => Function.update args o v

def environ (getenv : CStr → Option CStr) (args : HandlerArgs) : HandlerArgs :=
  httpConfig.foldl (setOption fun o ↦ o.fromEnv getenv) args

/-- `json_unpack_ex` at one row. -/
def unpackOption (config : Json) (args : HandlerArgs) (o : HttpOption) : Option HandlerArgs :=
  match config.objectGet o.jsonName with
  | none => if o.optional then some args else none
  | some value => (o.ofJson value).map (Function.update args o)

def unpack (config : Json) (args : HandlerArgs) : Option HandlerArgs :=
  match config with
  | .object _ => httpConfig.foldlM (unpackOption config) args
  | _ => none

def handlerArgs (getenv : CStr → Option CStr) (config : Json) : Option HandlerArgs :=
  unpack config (environ getenv fun o ↦ o.default)

/-- A password that starts with `@` names the file to read it from. -/
def keyPassword (rdFileRead : CStr → Option CStr) (password : Option CStr) : Option CStr :=
  password.bind fun p ↦ if p.1.head? = some 64 then rdFileRead (p.drop 1) else some p

def loopArgs (rdFileRead : CStr → Option CStr) (args : HandlerArgs) : HttpLoopArgs where
  port := args (.int .port)
  numThreads := args (.int .numThreads)
  connectionMemoryLimit := args (.int .connectionMemoryLimit)
  connectionLimit := args (.int .connectionLimit)
  connectionTimeout := args (.int .connectionTimeout)
  perIpConnectionLimit := args (.int .perIpConnectionLimit)
  mode := args (.string .mode)
  httpsKeyFilename := args (.string .httpsKeyFilename)
  httpsCertFilename := args (.string .httpsCertFilename)
  httpsKeyPassword := keyPassword rdFileRead (args (.string .httpsKeyPassword))
  httpsClientsCaFilename := args (.string .httpsClientsCaFilename)
  htpasswdFilename := args (.string .htpasswdFilename)

def createHttpListener0 (copied : Bool) (getenv rdFileRead : CStr → Option CStr) (config : Json)
    (decoder : Decoder) (env : Env) (w : World) : Option HttpListener × World :=
  if copied = false then (none, w)
  else
    match handlerArgs getenv config with
    | none => (none, w)
    | some args => startHttpLoop (loopArgs rdFileRead args) decoder env w

def Passes (config : Json) (o : HttpOption) : Prop :=
  (o.fromFile config).isSome ∨ config.objectGet o.jsonName = none ∧ o.optional = true

/-- The file has an object that passes at every row. -/
def Usable (config : Json) : Prop := (∃ members, config = .object members) ∧ ∀ o, Passes config o

theorem mem_httpConfig (o : HttpOption) : o ∈ httpConfig := by
  cases o with
  | int o => cases o <;> decide
  | string o => cases o <;> decide

theorem foldl_setOption (value : (o : HttpOption) → Option o.Value) (os : List HttpOption)
    (args : HandlerArgs) (o : HttpOption) :
    os.foldl (setOption value) args o = if o ∈ os then (value o).getD (args o) else args o := by
  induction os generalizing args with
  | nil => simp
  | cons p os ih =>
    rw [List.foldl_cons, ih, setOption]
    by_cases hp : o = p
    · subst hp
      cases hv : value o with
      | none => simp
      | some v => simp
    · cases hv : value p with
      | none => simp [hp]
      | some v => simp [hp]

theorem unpackOption_eq_some_iff {config : Json} {args args' : HandlerArgs} {o : HttpOption} :
    unpackOption config args o = some args' ↔
      Passes config o ∧ args' = setOption (·.fromFile config) args o := by
  unfold unpackOption Passes
  cases hget : config.objectGet o.jsonName with
  | none =>
    have hfile : o.fromFile config = none := by simp [HttpOption.fromFile, hget]
    by_cases hoptional : o.optional
    · simpa [hoptional, setOption, hfile] using eq_comm
    · simp [hoptional, hfile]
  | some value =>
    have hfile : o.fromFile config = o.ofJson value := by simp [HttpOption.fromFile, hget]
    cases hvalue : o.ofJson value with
    | none => simp [hvalue, hfile]
    | some v => simpa [hvalue, setOption, hfile] using eq_comm

theorem foldlM_unpackOption {config : Json} {os : List HttpOption} {args args' : HandlerArgs} :
    os.foldlM (unpackOption config) args = some args' ↔
      (∀ o ∈ os, Passes config o) ∧ args' = os.foldl (setOption (·.fromFile config)) args := by
  induction os generalizing args with
  | nil => simp [eq_comm]
  | cons o os ih =>
    rw [List.foldlM_cons, List.forall_mem_cons, List.foldl_cons]
    constructor
    · intro h
      obtain ⟨args₁, hfirst, hrest⟩ := Option.bind_eq_some_iff.mp h
      obtain ⟨hpass, rfl⟩ := unpackOption_eq_some_iff.mp hfirst
      obtain ⟨hall, rfl⟩ := ih.mp hrest
      exact ⟨⟨hpass, hall⟩, rfl⟩
    · rintro ⟨⟨hpass, hall⟩, rfl⟩
      refine Option.bind_eq_some_iff.mpr ⟨_, unpackOption_eq_some_iff.mpr ⟨hpass, rfl⟩, ?_⟩
      exact ih.mpr ⟨hall, rfl⟩

theorem unpack_eq_some_iff {config : Json} {args args' : HandlerArgs} :
    unpack config args = some args' ↔
      Usable config ∧ args' = httpConfig.foldl (setOption (·.fromFile config)) args := by
  unfold unpack Usable
  cases config with
  | object members =>
    simp only [foldlM_unpackOption, mem_httpConfig, true_imp_iff, Json.object.injEq, exists_eq',
      true_and]
  | _ => simp

/-- An option has its value from the file, else from its variable, else its default. -/
def resolved (getenv : CStr → Option CStr) (config : Json) : HandlerArgs :=
  fun o ↦ ((o.fromFile config).or (o.fromEnv getenv)).getD o.default

theorem handlerArgs_eq_some_iff {getenv : CStr → Option CStr} {config : Json} {args : HandlerArgs} :
    handlerArgs getenv config = some args ↔ Usable config ∧ args = resolved getenv config := by
  have hresolved : httpConfig.foldl (setOption (·.fromFile config))
      (environ getenv fun o ↦ o.default) = resolved getenv config := by
    funext o
    rw [environ, foldl_setOption, foldl_setOption, if_pos (mem_httpConfig o),
      if_pos (mem_httpConfig o), resolved]
    cases o.fromFile config with
    | none => rfl
    | some v => rfl
  rw [handlerArgs, unpack_eq_some_iff, hresolved]

/-- The daemon runs with these options. -/
structure Obeys (args : HttpLoopArgs) (l : HttpListener) (d : Daemon) : Prop where
  port : l.port = BitVec.ofInt 16 args.port ∧ d.port = BitVec.ofInt 16 args.port
  threadPoolSize : d.threadPoolSize = args.numThreads
  connectionMemoryLimit : d.connectionMemoryLimit = args.connectionMemoryLimit
  connectionLimit : d.connectionLimit = args.connectionLimit
  connectionTimeout : d.connectionTimeout = args.connectionTimeout
  perIpConnectionLimit : d.perIpConnectionLimit = args.perIpConnectionLimit
  mode : pollingMode args.mode = some d.mode
  tls : d.tls = args.httpsKeyFilename.isSome
  keyPassword : d.keyPassword = if args.httpsKeyFilename.isSome then args.httpsKeyPassword else none
  secrets : ∀ f, (secretAt l d f).isSome ↔ (args.filename f).isSome

theorem startHttpLoop_obeys {args : HttpLoopArgs} {decoder : Decoder} {env : Env} {w w' : World}
    {l : HttpListener} {d : Daemon} (h : startHttpLoop args decoder env w = (some l, w'))
    (hd : l.d = some d) : Obeys args l d := by
  obtain ⟨-, -, size, -, hplace, -⟩ := startHttpLoop_serves h hd
  have hsecrets : ∀ f, (secretAt l d f).isSome ↔ (args.filename f).isSome := by
    intro f
    rw [hplace, Lib.Regions.place_isSome_iff, HttpLoopArgs.mem_configured]
  simp only [startHttpLoop] at h
  split at h
  · cases h
  rename_i mode hmode
  split at h
  · cases h
  split at h
  · cases h
  simp only [startWithMode] at h
  split at h
  · cases h
  split at h
  · cases h
  split at h
  · obtain ⟨hl, -⟩ := Prod.mk.inj h
    obtain rfl := Option.some.inj hl
    cases hd
  simp only [startListener] at h
  split at h
  · cases h
  split at h
  · cases h
  obtain ⟨hl, -⟩ := Prod.mk.inj h
  obtain rfl := Option.some.inj hl
  obtain rfl := Option.some.inj hd
  exact ⟨⟨rfl, rfl⟩, rfl, rfl, rfl, rfl, rfl, hmode, rfl, rfl, hsecrets⟩

def secretOption : SecretFile → StringOption
  | .keyFile => .httpsKeyFilename
  | .certFile => .httpsCertFilename
  | .clientCaTrust => .httpsClientsCaFilename
  | .htpasswd => .htpasswdFilename

/-- A secret is named in the file or in the environment. -/
def Named (getenv : CStr → Option CStr) (config : Json) (f : SecretFile) : Prop :=
  ((HttpOption.string (secretOption f)).fromFile config).isSome ∨
    ((secretOption f).envName.bind getenv).isSome

theorem fromFile_secretOption {config : Json} {f : SecretFile}
    {v : Option CStr} (h : (HttpOption.string (secretOption f)).fromFile config = some v) :
    v.isSome := by
  obtain ⟨value, -, hv⟩ := Option.bind_eq_some_iff.mp h
  cases value with
  | string s =>
    obtain rfl := Option.some.inj hv
    rfl
  | _ => cases hv

theorem filename_isSome_iff {getenv rdFileRead : CStr → Option CStr} {config : Json}
    (f : SecretFile) :
    ((loopArgs rdFileRead (resolved getenv config)).filename f).isSome ↔ Named getenv config f := by
  have hfilename : (loopArgs rdFileRead (resolved getenv config)).filename f =
      resolved getenv config (.string (secretOption f)) := by
    cases f <;> rfl
  have hdefault : (secretOption f).default = none := by cases f <;> rfl
  rw [hfilename, resolved, Named]
  cases hfile : (HttpOption.string (secretOption f)).fromFile config with
  | some v => simp [fromFile_secretOption hfile]
  | none =>
    cases henv : (secretOption f).envName.bind getenv with
    | none => simp [HttpOption.fromEnv, henv, HttpOption.default, hdefault]
    | some v => simp [HttpOption.fromEnv, henv]

/-- A listener that serves reads a secret exactly if the file or the environment names one, and it
uses TLS exactly if they name a key: the file cannot switch off what the environment asks for. -/
theorem named_secrets_used {copied : Bool} {getenv rdFileRead : CStr → Option CStr} {config : Json}
    {decoder : Decoder} {env : Env} {w w' : World} {l : HttpListener} {d : Daemon}
    (h : createHttpListener0 copied getenv rdFileRead config decoder env w = (some l, w'))
    (hd : l.d = some d) :
    (∀ f, (secretAt l d f).isSome ↔ Named getenv config f) ∧
      (d.tls = true ↔ Named getenv config .keyFile) := by
  unfold createHttpListener0 at h
  split at h
  · cases h
  · split at h
    · cases h
    · rename_i args hargs
      obtain ⟨-, rfl⟩ := handlerArgs_eq_some_iff.mp hargs
      have hserves := startHttpLoop_serves h hd
      obtain ⟨size, -, hplace, -⟩ := hserves.laid
      constructor
      · intro f
        rw [← filename_isSome_iff, hplace, Lib.Regions.place_isSome_iff,
          HttpLoopArgs.mem_configured]
      · rw [← filename_isSome_iff, hserves.tls]
        rfl

def tlsEnvironment (name : CStr) : Option CStr :=
  if name = lit "HTTP_TLS_KEY_FILE" then some (lit "server.key")
  else if name = lit "HTTP_TLS_CERT_FILE" then some (lit "server.crt")
  else none

def plainConfig : Json := .object [(lit "port", .integer 7980), (lit "num_threads", .integer 2)]

theorem environment_tls_used :
    ∃ l d w', createHttpListener0 true tlsEnvironment (fun _ ↦ none) plainConfig
        ⟨false, false, rfl⟩ wholeFiles nothing = (some l, w') ∧ l.d = some d ∧
      (d.tls = true ↔ Named tlsEnvironment plainConfig .keyFile) ∧ d.tls = true := by
  obtain ⟨l, w', hl, d, hd, htls⟩ : ∃ l w', createHttpListener0 true tlsEnvironment
      (fun _ ↦ none) plainConfig ⟨false, false, rfl⟩ wholeFiles nothing = (some l, w') ∧ ∃ d, l.d = some d ∧ d.tls = true :=
    ⟨_, _, rfl, _, rfl, rfl⟩
  exact ⟨l, d, w', hl, hd, (named_secrets_used hl hd).2, htls⟩

end N2Kafka.Listener.HttpOptions
