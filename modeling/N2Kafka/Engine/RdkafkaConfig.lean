import N2Kafka.Lib.Jansson

namespace N2Kafka.Engine.RdkafkaConfig

open Lib.CString Lib.Jansson

/-- `size` counts the terminator of `buf`. -/
structure MessageExtra where
  size : ℕ
  buf : Option Bytes
  deriving DecidableEq

/-- A `n2kafka_rdkafka_conf`, with the pairs that `parse_rdkafka_keyval_config` was called with and
the calls of `rd_kafka_conf_set`. -/
structure RdkafkaConf where
  parsed : List (CStr × CStr)
  sets : List (CStr × CStr)
  statisticsTopic : Option CStr
  messageExtra : MessageExtra
  deriving DecidableEq

def RdkafkaConf.new : RdkafkaConf := ⟨[], [], none, ⟨0, none⟩⟩

/-- What the libraries answer. `confSet` is whether `rd_kafka_conf_set` accepts the last of its
calls, `jsonDumps` embeds and is compact. -/
structure Libs where
  confSet : List (CStr × CStr) → Bool
  jsonLoads : CStr → Option Json
  jsonDumps : Json → Option Bytes
  malloc : Bool

/-- A run that ends in `fatal` or in a failed assertion is an error, with what was done until then. -/
abbrev Run (α : Type) := Except RdkafkaConf α

def configRdkafkaKey : CStr := lit "rdkafka."

/-- `name`, behind the two prefixes. The second is from the time when topics and the handler were
configured by different properties. -/
def optionName (key : CStr) : CStr :=
  let name := key.drop configRdkafkaKey.1.length
  if strncmp name (lit "topic.") (lit "topic.").1.length = 0 then
    name.drop (lit "topic.").1.length
  else name

def parseRdkafkaKeyvalConfig (libs : Libs) (conf : RdkafkaConf) (key value : CStr) :
    Run RdkafkaConf :=
  let conf := { conf with parsed := conf.parsed ++ [(key, value)] }
  let name := optionName key
  if strcmp name (lit "n2kafka.statistics.topic") = 0 then
    .ok { conf with statisticsTopic := some value }
  else
    let conf := { conf with sets := conf.sets ++ [(name, value)] }
    if libs.confSet conf.sets then .ok conf else .error conf

def assertJsonString (conf : RdkafkaConf) : Json → Run CStr
  | .string s => .ok s
  | _ => .error conf

def parseRdkafkaConfigJson (libs : Libs) (conf : RdkafkaConf) (key : CStr) (jvalue : Json) :
    Run RdkafkaConf := do
  let value ← assertJsonString conf jvalue
  parseRdkafkaKeyvalConfig libs conf key value

def parseRdkafkaConfigKeyval (libs : Libs) (conf : RdkafkaConf) (key : CStr) (value : Json) :
    Run RdkafkaConf :=
  if strcasecmp key (lit "topic") = 0 then do
    let _ ← assertJsonString conf value
    return conf
  else if strcasecmp key (lit "brokers") = 0 then do
    let brokers ← assertJsonString conf value
    parseRdkafkaKeyvalConfig libs conf (lit "rdkafka.metadata.broker.list") brokers
  else if strncasecmp key configRdkafkaKey configRdkafkaKey.1.length = 0 then
    parseRdkafkaConfigJson libs conf key value
  else .ok conf

def rdkafkaEnvPrefix : CStr := lit "RDKAFKA_"

def statsAddKey : CStr := lit "rdkafka.n2kafka.stats.append"

/-- A variable of the environment: its name ends in front of the first equal sign of its text. -/
structure EnvVar where
  name : CStr
  value : CStr
  name_plain : 61 ∉ name.1

def EnvVar.text (v : EnvVar) : CStr :=
  ⟨v.name.1 ++ 61 :: v.value.1, by
    simpa using ⟨v.name.2, v.value.2⟩⟩

def isupper (c : UInt8) : Bool := 65 ≤ c ∧ c ≤ 90

def isdigit (c : UInt8) : Bool := 48 ≤ c ∧ c ≤ 57

def sizeofEnvKey : ℕ := 64

/-- What is behind a turn of the loop where `old` was: a byte of no kind leaves it. -/
def convertByte (old c : UInt8) : UInt8 :=
  if c = 95 then 46
  else if isupper c then tolower c
  else if isdigit c then c
  else old

def convertKey (stale : ℕ → UInt8) (name : Bytes) : Bytes :=
  name.mapIdx fun i c ↦ convertByte (stale i) c

def envKey (stale : ℕ → UInt8) (name : Bytes) : CStr := strAt (convertKey stale name ++ [0])

structure Vars where
  conf : RdkafkaConf
  statsJsonEnrich : Option CStr
  jstatsJsonEnrich : Option Json

def Vars.new : Vars := ⟨.new, none, none⟩

/-- A turn of the first loop. `env_key` is declared inside of it: `stale` is what it starts with. -/
def parseEnvVar (libs : Libs) (stale : ℕ → UInt8) (vars : Vars) (text : CStr) : Run Vars :=
  if strncmp text rdkafkaEnvPrefix rdkafkaEnvPrefix.1.length ≠ 0 then .ok vars
  else
    match strchr text.1 61 with
    | none => .error vars.conf
    | some keySize =>
      if keySize + 1 > sizeofEnvKey then .ok vars
      else
        let envVal := text.drop (keySize + 1)
        if envVal.1 = [] then .ok vars
        else
          let key := envKey stale (text.1.take keySize)
          if strcmp statsAddKey key = 0 then .ok { vars with statsJsonEnrich := some envVal }
          else do
            let conf ← parseRdkafkaKeyvalConfig libs vars.conf key envVal
            return { vars with conf := conf }

def parseEnviron (libs : Libs) : (ℕ → ℕ → UInt8) → List EnvVar → Vars → Run Vars
  | _, [], vars => .ok vars
  | stale, v :: environ, vars => do
    let vars ← parseEnvVar libs (stale 0) vars v.text
    parseEnviron libs (fun i ↦ stale (i + 1)) environ vars

def jsonIsObject : Option Json → Bool
  | some (.object _) => true
  | _ => false

/-- A turn of the second loop. It asks whether the variable that it is about to set is an object. -/
def parseRootMember (libs : Libs) (vars : Vars) (jsonKey : CStr) (jsonVal : Json) : Run Vars :=
  if strcmp statsAddKey jsonKey = 0 then
    match jsonVal with
    | .string s => .ok { vars with statsJsonEnrich := some s }
    | jsonVal =>
      if jsonIsObject vars.jstatsJsonEnrich then .ok { vars with jstatsJsonEnrich := some jsonVal }
      else .error vars.conf
  else do
    let conf ← parseRdkafkaConfigKeyval libs vars.conf jsonKey jsonVal
    return { vars with conf := conf }

def parseRoot (libs : Libs) : List (CStr × Json) → Vars → Run Vars
  | [], vars => .ok vars
  | (jsonKey, jsonVal) :: root, vars => do
    let vars ← parseRootMember libs vars jsonKey jsonVal
    parseRoot libs root vars

/-- The text between the first opening and the last closing brace, with a terminator for the last. -/
def cutBraces (text : CStr) : Option MessageExtra := do
  let openBrace ← strchr text.1 123
  let size ← strrchr (text.drop openBrace) 125
  return ⟨size, some ((text.1.drop (openBrace + 1)).take (size - 1) ++ [0])⟩

def storeExtra (libs : Libs) (vars : Vars) : Run RdkafkaConf :=
  let conf := vars.conf
  match vars.jstatsJsonEnrich, vars.statsJsonEnrich with
  | some jstats, _ =>
    .ok { conf with messageExtra := { conf.messageExtra with buf := libs.jsonDumps jstats } }
  | none, some text =>
    match libs.jsonLoads text with
    | some (.object []) => .ok conf
    | some (.object (_ :: _)) =>
      match cutBraces text with
      | none => .error conf
      | some extra => if libs.malloc then .ok { conf with messageExtra := extra } else .error conf
    | _ => .error conf
  | none, none => .ok conf

def getRdkafkaConfig (libs : Libs) (stale : ℕ → ℕ → UInt8) (environ : List EnvVar)
    (root : List (CStr × Json)) : Run RdkafkaConf := do
  let vars ← parseEnviron libs stale environ .new
  let vars ← parseRoot libs root vars
  storeExtra libs vars

theorem bind_eq_ok_iff {α β : Type} {run : Run α} {f : α → Run β} {b : β} :
    run >>= f = .ok b ↔ ∃ a, run = .ok a ∧ f a = .ok b := by
  cases run with
  | error conf =>
    refine iff_of_false (fun h ↦ by cases h) ?_
    rintro ⟨a, ha, -⟩
    cases ha
  | ok a =>
    constructor
    · intro h
      exact ⟨a, rfl, h⟩
    · rintro ⟨a', ha, h⟩
      cases ha
      exact h

theorem getRdkafkaConfig_eq_ok_iff {libs : Libs} {stale : ℕ → ℕ → UInt8} {environ : List EnvVar}
    {root : List (CStr × Json)} {conf : RdkafkaConf} :
    getRdkafkaConfig libs stale environ root = .ok conf ↔
      ∃ vars, parseEnviron libs stale environ .new = .ok vars ∧
        ∃ vars', parseRoot libs root vars = .ok vars' ∧ storeExtra libs vars' = .ok conf := by
  unfold getRdkafkaConfig
  simp only [bind_eq_ok_iff]

/-- The configuration at the end of a run, however it ends. -/
def final {α : Type} (conf : α → RdkafkaConf) : Run α → RdkafkaConf
  | .ok a => conf a
  | .error conf => conf

def handed (run : Run RdkafkaConf) : List (CStr × CStr) := (final id run).parsed

/-- The variables that the first loop takes for librdkafka's. -/
def EnvVar.Considered (v : EnvVar) : Prop :=
  rdkafkaEnvPrefix.1 <+: v.name.1 ∧ v.name.1.length + 1 ≤ sizeofEnvKey ∧ v.value.1 ≠ []

instance (v : EnvVar) : Decidable v.Considered :=
  inferInstanceAs (Decidable (_ ∧ _ ∧ _))

/-- Names whose every byte is of a kind that the conversion knows. -/
def Convertible (name : Bytes) : Prop := ∀ c ∈ name, c = 95 ∨ isupper c ∨ isdigit c

/-- What is handed on does not depend on what `env_key` starts with in any turn, whatever the file
says and the libraries answer. -/
def StaleFree (environ : List EnvVar) : Prop :=
  ∀ libs root stale stale', handed (getRdkafkaConfig libs stale environ root) =
    handed (getRdkafkaConfig libs stale' environ root)

theorem take_eq_iff_prefix {c : UInt8} {p s t : Bytes} (hc : c ∉ p) :
    (s ++ c :: t).take p.length = p ↔ p <+: s := by
  by_cases hle : p.length ≤ s.length
  · rw [List.take_append_of_le_length hle, List.prefix_iff_eq_take]
    exact eq_comm
  · constructor
    · intro h
      have hmem : c ∈ (s ++ c :: t).take p.length := by
        refine List.mem_of_getElem? (i := s.length) ?_
        rw [List.getElem?_take_of_lt (by omega)]
        simp
      exact absurd (h ▸ hmem) hc
    · intro h
      exact absurd h.length_le hle

theorem parseEnvVar_text (libs : Libs) (stale : ℕ → UInt8) (vars : Vars) (v : EnvVar) :
    parseEnvVar libs stale vars v.text =
      if v.Considered then
        if statsAddKey = envKey stale v.name.1 then
          .ok { vars with statsJsonEnrich := some v.value }
        else do
          let conf ← parseRdkafkaKeyvalConfig libs vars.conf (envKey stale v.name.1) v.value
          return { vars with conf := conf }
      else .ok vars := by
  have hstart : strncmp v.text rdkafkaEnvPrefix rdkafkaEnvPrefix.1.length = 0 ↔
      rdkafkaEnvPrefix.1 <+: v.name.1 := by
    rw [strncmp_eq_zero_iff, List.take_length]
    exact take_eq_iff_prefix (by decide)
  have hequal : strchr v.text.1 61 = some v.name.1.length :=
    strchr_append v.name.1 v.value.1 61 v.name_plain v.name.2
  have hvalue : v.text.drop (v.name.1.length + 1) = v.value := by
    refine Subtype.ext ?_
    show (v.name.1 ++ 61 :: v.value.1).drop (v.name.1.length + 1) = v.value.1
    simp
  have hname : v.text.1.take v.name.1.length = v.name.1 := List.take_left
  unfold parseEnvVar
  simp only [ne_eq, hstart, hequal, hvalue, hname, strcmp_eq_zero_iff]
  by_cases hp : rdkafkaEnvPrefix.1 <+: v.name.1
  · by_cases hl : v.name.1.length + 1 ≤ sizeofEnvKey
    · by_cases hv : v.value.1 = []
      · rw [if_neg (not_not.mpr hp), if_neg (Nat.not_lt.mpr hl), if_pos hv,
          if_neg fun h : v.Considered ↦ h.2.2 hv]
      · rw [if_neg (not_not.mpr hp), if_neg (Nat.not_lt.mpr hl), if_neg hv,
          if_pos (show v.Considered from ⟨hp, hl, hv⟩)]
    · rw [if_neg (not_not.mpr hp), if_pos (Nat.not_le.mp hl),
        if_neg fun h : v.Considered ↦ hl h.2.1]
  · rw [if_pos hp, if_neg fun h : v.Considered ↦ hp h.1]

theorem convertKey_congr (stale stale' : ℕ → UInt8) {name : Bytes} (h : Convertible name) :
    convertKey stale name = convertKey stale' name := by
  refine List.ext_getElem (by simp [convertKey]) fun i hi _ ↦ ?_
  have hlen : i < name.length := by simpa [convertKey] using hi
  have hkind := h name[i] (List.getElem_mem hlen)
  simp only [convertKey, List.getElem_mapIdx, convertByte]
  obtain hc | hc | hc := hkind
  · rw [if_pos hc, if_pos hc]
  · simp only [hc, if_true]
  · simp only [hc, if_true]

theorem envKey_congr (stale stale' : ℕ → UInt8) {name : Bytes} (h : Convertible name) :
    envKey stale name = envKey stale' name := by
  unfold envKey
  rw [convertKey_congr stale stale' h]

theorem parseEnviron_congr (libs : Libs) {environ : List EnvVar}
    (h : ∀ v ∈ environ, v.Considered → Convertible v.name.1) (stale stale' : ℕ → ℕ → UInt8)
    (vars : Vars) : parseEnviron libs stale environ vars = parseEnviron libs stale' environ vars := by
  induction environ generalizing stale stale' vars with
  | nil => rfl
  | cons v environ ih =>
    have hturn : parseEnvVar libs (stale 0) vars v.text =
        parseEnvVar libs (stale' 0) vars v.text := by
      rw [parseEnvVar_text, parseEnvVar_text]
      by_cases hv : v.Considered
      · rw [envKey_congr (stale 0) (stale' 0) (h v (.head _) hv)]
      · rw [if_neg hv, if_neg hv]
    rw [parseEnviron, parseEnviron, hturn]
    exact congrArg _ (funext fun vars ↦ ih (fun v' hv' ↦ h v' (.tail _ hv')) _ _ vars)

theorem mem_convertKey_of_not_convertible {b : UInt8} {name : Bytes} (h : ¬ Convertible name) :
    b ∈ convertKey (fun _ ↦ b) name := by
  obtain ⟨c, hkinds⟩ := not_forall.mp h
  obtain ⟨hc, hkind⟩ := Classical.not_imp.mp hkinds
  obtain ⟨hdot, hrest⟩ := not_or.mp hkind
  obtain ⟨hupper, hdigit⟩ := not_or.mp hrest
  obtain ⟨i, hi, hget⟩ := List.getElem_of_mem hc
  have hlen : i < (convertKey (fun _ ↦ b) name).length := by simpa [convertKey] using hi
  have hkey : (convertKey (fun _ ↦ b) name)[i] = b := by
    simp [convertKey, convertByte, hget, hdot, hupper, hdigit]
  exact List.mem_of_getElem hkey

theorem convertKey_bytes {b c : UInt8} {name : Bytes} (h : c ∈ convertKey (fun _ ↦ b) name) :
    c = b ∨ 46 ≤ c.toNat := by
  obtain ⟨i, hi, rfl⟩ := List.mem_mapIdx.mp h
  have hrange (d : UInt8) : isupper d = true → 46 ≤ (tolower d).toNat := by
    intro hd
    simp only [isupper, decide_eq_true_eq, UInt8.le_iff_toNat_le] at hd
    have hlow : 65 ≤ d.toNat := hd.1
    have hhigh : d.toNat ≤ 90 := hd.2
    rw [tolower, if_pos ⟨UInt8.le_iff_toNat_le.mpr hlow, UInt8.le_iff_toNat_le.mpr hhigh⟩,
      UInt8.toNat_add]
    show 46 ≤ (d.toNat + 32) % 256
    omega
  unfold convertByte
  split
  · exact .inr (by decide)
  · split
    · rename_i hupper
      exact .inr (hrange _ hupper)
    · split
      · rename_i hdigit
        simp only [isdigit, decide_eq_true_eq, UInt8.le_iff_toNat_le] at hdigit
        have hlow : 48 ≤ (name[i]).toNat := hdigit.1
        exact .inr (by omega)
      · exact .inl rfl

theorem envKey_eq {b : UInt8} (hb : b ≠ 0) (name : Bytes) :
    (envKey (fun _ ↦ b) name).1 = convertKey (fun _ ↦ b) name := by
  refine strAt_append _ [] fun h ↦ ?_
  obtain hzero | hlarge := convertKey_bytes h
  · exact hb hzero.symm
  · exact absurd hlarge (by decide)

def obliging : Libs := ⟨fun _ ↦ true, fun _ ↦ some (.object []), fun _ ↦ none, true⟩

/-- The pair that a variable makes, with one byte all over `env_key`. -/
def pairOf (b : UInt8) (v : EnvVar) : Option (CStr × CStr) :=
  if v.Considered ∧ statsAddKey ≠ envKey (fun _ ↦ b) v.name.1 then
    some (envKey (fun _ ↦ b) v.name.1, v.value)
  else none

theorem parseRdkafkaKeyvalConfig_obliging (conf : RdkafkaConf) (key value : CStr) :
    ∃ conf', parseRdkafkaKeyvalConfig obliging conf key value = .ok conf' ∧
      conf'.parsed = conf.parsed ++ [(key, value)] := by
  unfold parseRdkafkaKeyvalConfig
  dsimp only
  split
  · exact ⟨_, rfl, rfl⟩
  · exact ⟨_, rfl, rfl⟩

theorem parseEnviron_obliging (b : UInt8) (environ : List EnvVar) (vars : Vars)
    (hvars : vars.jstatsJsonEnrich = none) :
    ∃ vars', parseEnviron obliging (fun _ _ ↦ b) environ vars = .ok vars' ∧
      vars'.jstatsJsonEnrich = none ∧
      vars'.conf.parsed = vars.conf.parsed ++ environ.filterMap (pairOf b) := by
  induction environ generalizing vars with
  | nil => exact ⟨vars, rfl, hvars, by simp⟩
  | cons v environ ih =>
    have hturn : ∃ vars₁, parseEnvVar obliging (fun _ ↦ b) vars v.text = .ok vars₁ ∧
        vars₁.jstatsJsonEnrich = none ∧
        vars₁.conf.parsed = vars.conf.parsed ++ (pairOf b v).toList := by
      rw [parseEnvVar_text]
      unfold pairOf
      by_cases hv : v.Considered
      · by_cases hkey : statsAddKey = envKey (fun _ ↦ b) v.name.1
        · rw [if_pos hv, if_pos hkey, if_neg fun h ↦ h.2 hkey]
          exact ⟨_, rfl, hvars, by simp⟩
        · obtain ⟨conf, hconf, hparsed⟩ :=
            parseRdkafkaKeyvalConfig_obliging vars.conf (envKey (fun _ ↦ b) v.name.1) v.value
          rw [if_pos hv, if_neg hkey, if_pos ⟨hv, hkey⟩, hconf]
          exact ⟨_, rfl, hvars, hparsed⟩
      · rw [if_neg hv, if_neg fun h ↦ hv h.1]
        exact ⟨vars, rfl, hvars, by simp⟩
    obtain ⟨vars₁, hfirst, hnone, hparsed⟩ := hturn
    obtain ⟨vars', hrest, hnone', hparsed'⟩ := ih vars₁ hnone
    refine ⟨vars', ?_, hnone', ?_⟩
    · rw [parseEnviron, hfirst]
      exact hrest
    · rw [hparsed', hparsed, List.append_assoc, List.filterMap_cons]
      cases pairOf b v <;> rfl

theorem handed_obliging (b : UInt8) (environ : List EnvVar) :
    handed (getRdkafkaConfig obliging (fun _ _ ↦ b) environ []) =
      environ.filterMap (pairOf b) := by
  obtain ⟨vars, hvars, hnone, hparsed⟩ := parseEnviron_obliging b environ .new rfl
  have hstore : storeExtra obliging vars = .ok vars.conf := by
    unfold storeExtra
    rw [hnone]
    cases vars.statsJsonEnrich <;> rfl
  have hrun : getRdkafkaConfig obliging (fun _ _ ↦ b) environ [] = .ok vars.conf := by
    unfold getRdkafkaConfig
    rw [hvars]
    exact hstore
  rw [hrun]
  exact hparsed

theorem eq_of_filterMap_eq {α β : Type*} {f g : α → Option β} {l : List α}
    (hsome : ∀ a ∈ l, (f a).isSome = (g a).isSome) (h : l.filterMap f = l.filterMap g) :
    ∀ a ∈ l, f a = g a := by
  induction l with
  | nil => intro a ha; cases ha
  | cons a l ih =>
    have ha := hsome a (.head _)
    have hl := fun a' ha' ↦ hsome a' (.tail _ ha')
    cases hf : f a with
    | none =>
      have hg : g a = none := by simpa [hf] using ha.symm
      rw [List.filterMap_cons_none hf, List.filterMap_cons_none hg] at h
      intro a' ha'
      obtain rfl | ha' := List.mem_cons.mp ha'
      · rw [hf, hg]
      · exact ih hl h a' ha'
    | some y =>
      obtain ⟨z, hg⟩ : ∃ z, g a = some z := Option.isSome_iff_exists.mp (by rw [← ha, hf]; rfl)
      rw [List.filterMap_cons_some hf, List.filterMap_cons_some hg] at h
      obtain ⟨hyz, hrest⟩ := List.cons.inj h
      intro a' ha'
      obtain rfl | ha' := List.mem_cons.mp ha'
      · rw [hf, hg, hyz]
      · exact ih hl hrest a' ha'

theorem notMem_statsAddKey {b : UInt8} (hb : b.toNat < 46) : b ∉ statsAddKey.1 := by
  have hbytes : statsAddKey.1.all fun c ↦ 46 ≤ c.toNat := by decide
  intro h
  have hlow := List.all_eq_true.mp hbytes b h
  rw [decide_eq_true_eq] at hlow
  omega

theorem pairOf_of_not_convertible {b : UInt8} (hb : b ≠ 0) (hsmall : b.toNat < 46) {v : EnvVar}
    (hv : v.Considered) (hname : ¬ Convertible v.name.1) :
    pairOf b v = some (envKey (fun _ ↦ b) v.name.1, v.value) ∧
      b ∈ (envKey (fun _ ↦ b) v.name.1).1 := by
  have hmem : b ∈ (envKey (fun _ ↦ b) v.name.1).1 := by
    rw [envKey_eq hb]
    exact mem_convertKey_of_not_convertible hname
  have hkey : statsAddKey ≠ envKey (fun _ ↦ b) v.name.1 := by
    intro h
    exact notMem_statsAddKey hsmall (h ▸ hmem)
  exact ⟨if_pos ⟨hv, hkey⟩, hmem⟩

theorem pairOf_congr {b b' : UInt8} {v : EnvVar} (h : v.Considered → Convertible v.name.1) :
    pairOf b v = pairOf b' v := by
  unfold pairOf
  by_cases hv : v.Considered
  · rw [envKey_congr (fun _ ↦ b) (fun _ ↦ b') (h hv)]
  · rw [if_neg fun hc ↦ hv hc.1, if_neg fun hc ↦ hv hc.1]

/-- The keys are free of stale memory exactly if each variable that is taken for librdkafka's has
nothing but upper case letters, digits and underscores in its name. -/
theorem staleFree_iff (environ : List EnvVar) :
    StaleFree environ ↔ ∀ v ∈ environ, v.Considered → Convertible v.name.1 := by
  constructor
  · intro h v hmem hv
    by_contra hname
    have hlists := h obliging [] (fun _ _ ↦ 1) (fun _ _ ↦ 2)
    rw [handed_obliging, handed_obliging] at hlists
    have hsome : ∀ v' ∈ environ, (pairOf 1 v').isSome = (pairOf 2 v').isSome := by
      intro v' _
      by_cases hgood : v'.Considered → Convertible v'.name.1
      · rw [pairOf_congr hgood]
      · obtain ⟨hv', hbad⟩ := Classical.not_imp.mp hgood
        rw [(pairOf_of_not_convertible (by decide) (by decide) hv' hbad).1,
          (pairOf_of_not_convertible (by decide) (by decide) hv' hbad).1]
        rfl
    have hsame := eq_of_filterMap_eq hsome hlists v hmem
    obtain ⟨hone, hmem₁⟩ := pairOf_of_not_convertible (b := 1) (by decide) (by decide) hv hname
    obtain ⟨htwo, -⟩ := pairOf_of_not_convertible (b := 2) (by decide) (by decide) hv hname
    rw [hone, htwo] at hsame
    have hkey := (Prod.mk.inj (Option.some.inj hsame)).1
    rw [hkey, envKey_eq (by decide)] at hmem₁
    obtain heq | hle := convertKey_bytes hmem₁
    · exact absurd heq (by decide)
    · exact absurd hle (by decide)
  · intro h libs root stale stale'
    unfold getRdkafkaConfig
    rw [parseEnviron_congr libs h stale stale']

def lowerCaseName : EnvVar := ⟨lit "RDKAFKA_group_id", lit "g", by decide⟩

/-- The lower case letters of the name are never written. -/
theorem lower_case_name_stale : ¬ StaleFree [lowerCaseName] := by
  intro h
  have hlists := h obliging [] (fun _ _ ↦ 1) (fun _ _ ↦ 2)
  revert hlists
  decide

end N2Kafka.Engine.RdkafkaConfig
