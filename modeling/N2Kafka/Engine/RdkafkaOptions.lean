import N2Kafka.Engine.RdkafkaConfig

namespace N2Kafka.Engine.RdkafkaConfig

open Lib.CString Lib.Jansson

def islower (c : UInt8) : Bool := 97 ≤ c ∧ c ≤ 122

def toupper (c : UInt8) : UInt8 := if 97 ≤ c ∧ c ≤ 122 then c - 32 else c

/-- The name of a librdkafka option, short enough for `env_key` and none of n2kafka's own. -/
structure OptionKey where
  name : CStr
  bytes : ∀ c ∈ name.1, islower c ∨ isdigit c ∨ c = 46
  short : (configRdkafkaKey.1 ++ name.1).length ≤ 63
  not_topic : name ≠ lit "n2kafka.statistics.topic"
  not_append : name ≠ lit "n2kafka.stats.append"

namespace OptionKey

variable (o : OptionKey)

def key : CStr :=
  ⟨configRdkafkaKey.1 ++ o.name.1, by
    simpa using ⟨configRdkafkaKey.2, o.name.2⟩⟩

def envByte (c : UInt8) : UInt8 := if c = 46 then 95 else toupper c

theorem convertByte_envByte {c : UInt8} (h : islower c ∨ isdigit c ∨ c = 46) (old : UInt8) :
    envByte c ≠ 0 ∧ envByte c ≠ 61 ∧ convertByte old (envByte c) = c := by
  obtain hlower | hdigit | rfl := h
  · simp only [islower, decide_eq_true_eq] at hlower
    have hlow : 97 ≤ c.toNat := UInt8.le_iff_toNat_le.mp hlower.1
    have hhigh : c.toNat ≤ 122 := UInt8.le_iff_toNat_le.mp hlower.2
    have hsub : (c - 32).toNat = c.toNat - 32 := UInt8.toNat_sub_of_le c 32 (by
      rw [UInt8.le_iff_toNat_le]
      show 32 ≤ c.toNat
      omega)
    have hne (n : UInt8) (hn : n.toNat < 65 ∨ 90 < n.toNat) : c - 32 ≠ n := by
      rintro rfl
      omega
    have henv : envByte c = c - 32 := by
      have hdot : c ≠ 46 := by
        rintro rfl
        exact absurd hlow (by decide)
      rw [envByte, if_neg hdot, toupper, if_pos hlower]
    have hupper : 65 ≤ c - 32 ∧ c - 32 ≤ 90 := by
      rw [UInt8.le_iff_toNat_le, UInt8.le_iff_toNat_le, hsub]
      show 65 ≤ c.toNat - 32 ∧ c.toNat - 32 ≤ 90
      omega
    rw [henv]
    refine ⟨hne 0 (by decide), hne 61 (by decide), ?_⟩
    rw [convertByte, if_neg (hne 95 (by decide)), if_pos (by simpa [isupper] using hupper),
      tolower, if_pos hupper, UInt8.sub_add_cancel]
  · have hrange := hdigit
    simp only [isdigit, decide_eq_true_eq] at hrange
    have hlow : 48 ≤ c.toNat := UInt8.le_iff_toNat_le.mp hrange.1
    have hhigh : c.toNat ≤ 57 := UInt8.le_iff_toNat_le.mp hrange.2
    have hne (n : UInt8) (hn : n.toNat < 48 ∨ 57 < n.toNat) : c ≠ n := by
      rintro rfl
      omega
    have hnotLower : ¬ (97 ≤ c ∧ c ≤ 122) := by
      rw [UInt8.le_iff_toNat_le]
      intro h
      have h97 : 97 ≤ c.toNat := h.1
      omega
    have hnotUpper : ¬ isupper c = true := by
      simp only [isupper, decide_eq_true_eq, UInt8.le_iff_toNat_le]
      intro h
      have h65 : 65 ≤ c.toNat := h.1
      omega
    have henv : envByte c = c := by
      rw [envByte, if_neg (hne 46 (by decide)), toupper, if_neg hnotLower]
    rw [henv]
    refine ⟨hne 0 (by decide), hne 61 (by decide), ?_⟩
    rw [convertByte, if_neg (hne 95 (by decide)), if_neg hnotUpper, if_pos hdigit]
  · exact ⟨by decide, by decide, rfl⟩

/-- The name of the variable: upper case, with underscores for dots. -/
def envName : CStr :=
  ⟨rdkafkaEnvPrefix.1 ++ o.name.1.map envByte, by
    intro h
    obtain h | h := List.mem_append.mp h
    · exact rdkafkaEnvPrefix.2 h
    · obtain ⟨c, hc, hzero⟩ := List.mem_map.mp h
      exact (convertByte_envByte (o.bytes c hc) 0).1 hzero⟩

def envVar (value : CStr) : EnvVar where
  name := o.envName
  value := value
  name_plain := by
    intro h
    obtain h | h := List.mem_append.mp h
    · exact absurd h (by decide)
    · obtain ⟨c, hc, hequal⟩ := List.mem_map.mp h
      exact (convertByte_envByte (o.bytes c hc) 0).2.1 hequal

/-- The name that librdkafka gets: without a leading `topic.`. -/
def passed : CStr := if (lit "topic.").1 <+: o.name.1 then o.name.drop 6 else o.name

theorem optionName_key : optionName o.key = o.passed := by
  have hname : o.key.drop configRdkafkaKey.1.length = o.name := Subtype.ext List.drop_left
  have htopic : strncmp o.name (lit "topic.") (lit "topic.").1.length = 0 ↔
      (lit "topic.").1 <+: o.name.1 := by
    rw [strncmp_eq_zero_iff, List.take_length, List.prefix_iff_eq_take]
    exact eq_comm
  unfold optionName passed
  simp only [hname, htopic]
  rfl

theorem envKey_envName (stale : ℕ → UInt8) : envKey stale o.envName.1 = o.key := by
  have hconvert : convertKey stale o.envName.1 = o.key.1 := by
    unfold convertKey
    show (rdkafkaEnvPrefix.1 ++ o.name.1.map envByte).mapIdx _ = configRdkafkaKey.1 ++ o.name.1
    rw [List.mapIdx_append]
    congr 1
    refine List.ext_getElem (by simp) fun i hi hi' ↦ ?_
    simp only [List.getElem_mapIdx, List.getElem_map]
    exact (convertByte_envByte (o.bytes _ (List.getElem_mem hi')) _).2.2
  refine Subtype.ext ?_
  unfold envKey
  rw [hconvert]
  exact strAt_append _ [] o.key.2

theorem considered_envVar {value : CStr} (hvalue : value.1 ≠ []) : (o.envVar value).Considered := by
  refine ⟨List.prefix_append _ _, ?_, hvalue⟩
  have hshort := o.short
  show (rdkafkaEnvPrefix.1 ++ o.name.1.map envByte).length + 1 ≤ 64
  have hstart : rdkafkaEnvPrefix.1.length = configRdkafkaKey.1.length := by decide
  rw [List.length_append, List.length_map]
  rw [List.length_append] at hshort
  omega

theorem statsAddKey_ne_key : statsAddKey ≠ o.key := by
  intro h
  refine o.not_append (Subtype.ext ?_)
  have hsplit : statsAddKey.1 = configRdkafkaKey.1 ++ (lit "n2kafka.stats.append").1 := by decide
  have hbytes : configRdkafkaKey.1 ++ (lit "n2kafka.stats.append").1 =
      configRdkafkaKey.1 ++ o.name.1 := hsplit.symm.trans (congrArg Subtype.val h)
  exact (List.append_cancel_left hbytes).symm

end OptionKey

/-- A run goes on from what was set before, and takes nothing back. -/
def Extends {α : Type} (conf : RdkafkaConf) (get : α → RdkafkaConf) (run : Run α) : Prop :=
  conf.sets <+: (final get run).sets

theorem Extends.bind {α β : Type} {conf : RdkafkaConf} {get : α → RdkafkaConf}
    {get' : β → RdkafkaConf} {run : Run α} {f : α → Run β} (h : Extends conf get run)
    (hf : ∀ a, Extends (get a) get' (f a)) : Extends conf get' (run >>= f) := by
  cases run with
  | error conf' => exact h
  | ok a => exact List.IsPrefix.trans h (hf a)

theorem extends_ok {α : Type} (get : α → RdkafkaConf) (a : α) : Extends (get a) get (.ok a) :=
  List.prefix_rfl

theorem extends_error {α : Type} (get : α → RdkafkaConf) (conf : RdkafkaConf) :
    Extends conf get (.error conf) :=
  List.prefix_rfl

theorem parseRdkafkaKeyvalConfig_extends (libs : Libs) (conf : RdkafkaConf) (key value : CStr) :
    Extends conf id (parseRdkafkaKeyvalConfig libs conf key value) := by
  unfold parseRdkafkaKeyvalConfig Extends
  dsimp only
  split_ifs
  · exact List.prefix_rfl
  · exact List.prefix_append _ _
  · exact List.prefix_append _ _

theorem parseRdkafkaConfigKeyval_extends (libs : Libs) (conf : RdkafkaConf) (key : CStr)
    (value : Json) : Extends conf id (parseRdkafkaConfigKeyval libs conf key value) := by
  have hstring {α : Type} {get : α → RdkafkaConf} {f : CStr → Run α}
      (hf : ∀ s, Extends conf get (f s)) : Extends conf get (assertJsonString conf value >>= f) := by
    cases value with
    | string s => exact hf s
    | null | bool | integer | real | array | object => exact extends_error _ _
  unfold parseRdkafkaConfigKeyval
  split_ifs
  · exact hstring fun _ ↦ extends_ok id conf
  · exact hstring fun s ↦ parseRdkafkaKeyvalConfig_extends libs conf _ s
  · exact hstring fun s ↦ parseRdkafkaKeyvalConfig_extends libs conf key s
  · exact extends_ok id conf

theorem parseEnvVar_extends (libs : Libs) (stale : ℕ → UInt8) (vars : Vars) (v : EnvVar) :
    Extends vars.conf Vars.conf (parseEnvVar libs stale vars v.text) := by
  rw [parseEnvVar_text]
  split_ifs
  · exact List.prefix_rfl
  · exact (parseRdkafkaKeyvalConfig_extends libs vars.conf _ _).bind fun conf ↦
      extends_ok Vars.conf { vars with conf := conf }
  · exact extends_ok Vars.conf vars

theorem parseEnviron_extends (libs : Libs) (environ : List EnvVar) (stale : ℕ → ℕ → UInt8)
    (vars : Vars) : Extends vars.conf Vars.conf (parseEnviron libs stale environ vars) := by
  induction environ generalizing stale vars with
  | nil => exact extends_ok Vars.conf vars
  | cons v environ ih =>
    exact (parseEnvVar_extends libs (stale 0) vars v).bind fun vars ↦ ih _ vars

theorem parseRootMember_extends (libs : Libs) (vars : Vars) (key : CStr) (value : Json) :
    Extends vars.conf Vars.conf (parseRootMember libs vars key value) := by
  unfold parseRootMember
  split
  · split
    · exact List.prefix_rfl
    · split
      · exact List.prefix_rfl
      · exact extends_error _ _
  · exact (parseRdkafkaConfigKeyval_extends libs vars.conf key value).bind fun conf ↦
      extends_ok Vars.conf { vars with conf := conf }

theorem parseRoot_extends (libs : Libs) (root : List (CStr × Json)) (vars : Vars) :
    Extends vars.conf Vars.conf (parseRoot libs root vars) := by
  induction root generalizing vars with
  | nil => exact extends_ok Vars.conf vars
  | cons m root ih =>
    exact (parseRootMember_extends libs vars m.1 m.2).bind fun vars ↦ ih vars

theorem storeExtra_extends (libs : Libs) (vars : Vars) :
    Extends vars.conf id (storeExtra libs vars) := by
  unfold storeExtra Extends
  dsimp only
  split
  · exact List.prefix_rfl
  · split
    · exact List.prefix_rfl
    · split
      · exact List.prefix_rfl
      · split
        · exact List.prefix_rfl
        · exact List.prefix_rfl
    · exact List.prefix_rfl
  · exact List.prefix_rfl

theorem parseEnviron_append (libs : Libs) (environ rest : List EnvVar) (stale : ℕ → ℕ → UInt8)
    (vars : Vars) : parseEnviron libs stale (environ ++ rest) vars =
      parseEnviron libs stale environ vars >>=
        parseEnviron libs (fun i ↦ stale (environ.length + i)) rest := by
  induction environ generalizing stale vars with
  | nil => simp [parseEnviron, bind, Except.bind]
  | cons v environ ih =>
    rw [List.cons_append, parseEnviron, parseEnviron, bind_assoc]
    refine congrArg _ (funext fun vars ↦ ?_)
    rw [ih]
    simp only [List.length_cons]
    congr 2
    funext i
    congr 1
    omega

theorem parseRoot_append (libs : Libs) (root rest : List (CStr × Json)) (vars : Vars) :
    parseRoot libs (root ++ rest) vars = parseRoot libs root vars >>= parseRoot libs rest := by
  induction root generalizing vars with
  | nil => rfl
  | cons m root ih =>
    rw [List.cons_append, parseRoot, parseRoot, bind_assoc]
    exact congrArg _ (funext fun vars ↦ ih vars)

def keyOption (key : CStr) : Option CStr :=
  if statsAddKey = key ∨ strcasecmp key (lit "topic") = 0 then none
  else if strcasecmp key (lit "brokers") = 0 then
    some (optionName (lit "rdkafka.metadata.broker.list"))
  else if strncasecmp key configRdkafkaKey configRdkafkaKey.1.length = 0 then some (optionName key)
  else none

def lastValue (sets : List (CStr × CStr)) (name : CStr) : Option CStr :=
  (sets.reverse.find? fun s ↦ s.1 = name).map Prod.snd

/-- librdkafka gets the option under some name, from the environment and from the file, and the value
that it gets last is one of the file if there is one. -/
structure PassedOn (o : OptionKey) (v name : CStr) : Prop where
  environ : ∀ libs stale before after root vars, parseEnviron libs stale before .new = .ok vars →
    vars.conf.sets ++ [(name, v)] <+:
      (final id (getRdkafkaConfig libs stale (before ++ o.envVar v :: after) root)).sets
  file : ∀ libs stale environ before after vars vars',
    parseEnviron libs stale environ .new = .ok vars → parseRoot libs before vars = .ok vars' →
    vars'.conf.sets ++ [(name, v)] <+:
      (final id (getRdkafkaConfig libs stale environ
        (before ++ (o.key, .string v) :: after))).sets
  last : ∀ libs stale environ root conf w, o.envVar v ∈ environ → (o.key, .string w) ∈ root →
    getRdkafkaConfig libs stale environ root = .ok conf →
    (∃ key w', (key, .string w') ∈ root ∧ keyOption key = some name ∧
      lastValue conf.sets name = some w') ∧
    ((∀ m ∈ root, keyOption m.1 = some name → m = (o.key, .string w)) →
      lastValue conf.sets name = some w)

theorem parseRdkafkaKeyvalConfig_sets {key : CStr}
    (hkey : optionName key ≠ lit "n2kafka.statistics.topic") (libs : Libs) (conf : RdkafkaConf)
    (value : CStr) : (final id (parseRdkafkaKeyvalConfig libs conf key value)).sets =
      conf.sets ++ [(optionName key, value)] := by
  unfold parseRdkafkaKeyvalConfig
  dsimp only
  rw [if_neg (mt (strcmp_eq_zero_iff _ _).mp hkey)]
  split <;> rfl

theorem compareBy_self (fold : UInt8 → UInt8) (s : Bytes) : compareBy fold s s = 0 := by
  induction s with
  | nil => rfl
  | cons c s ih => rw [compareBy, if_pos rfl, ih]

namespace OptionKey

variable (o : OptionKey)

theorem parseRdkafkaConfigKeyval_key (libs : Libs) (conf : RdkafkaConf) (value : CStr) :
    parseRdkafkaConfigKeyval libs conf o.key (.string value) =
      parseRdkafkaKeyvalConfig libs conf o.key value ∧ keyOption o.key = some o.passed := by
  have htopic : ¬ strcasecmp o.key (lit "topic") = 0 := by
    show ¬ (114 - 116 : ℤ) = 0
    decide
  have hbrokers : ¬ strcasecmp o.key (lit "brokers") = 0 := by
    show ¬ (114 - 98 : ℤ) = 0
    decide
  have hstart : strncasecmp o.key configRdkafkaKey configRdkafkaKey.1.length = 0 := by
    unfold strncasecmp
    rw [List.take_length]
    show compareBy tolower ((configRdkafkaKey.1 ++ o.name.1).take _) configRdkafkaKey.1 = 0
    rw [List.take_left, compareBy_self]
  constructor
  · unfold parseRdkafkaConfigKeyval
    rw [if_neg htopic, if_neg hbrokers, if_pos hstart]
    rfl
  · unfold keyOption
    rw [if_neg (not_or.mpr ⟨o.statsAddKey_ne_key, htopic⟩), if_neg hbrokers, if_pos hstart,
      optionName_key]

end OptionKey

def setOf (m : CStr × Json) : Option (CStr × CStr) :=
  match keyOption m.1, m.2 with
  | some name, .string s => if name = lit "n2kafka.statistics.topic" then none else some (name, s)
  | _, _ => none

theorem parseRdkafkaKeyvalConfig_ok {libs : Libs} {conf conf' : RdkafkaConf} {key value : CStr}
    (h : parseRdkafkaKeyvalConfig libs conf key value = .ok conf') : conf'.sets = conf.sets ++
      (if optionName key = lit "n2kafka.statistics.topic" then none
        else some (optionName key, value)).toList := by
  unfold parseRdkafkaKeyvalConfig at h
  simp only [strcmp_eq_zero_iff] at h
  split_ifs at h with htopic hset
  · cases h
    rw [if_pos htopic]
    exact (List.append_nil _).symm
  · cases h
    rw [if_neg htopic]
    rfl

theorem assertJsonString_bind {conf conf' : RdkafkaConf} {value : Json}
    {f : CStr → Run RdkafkaConf} (h : (assertJsonString conf value >>= f) = .ok conf') :
    ∃ s, value = .string s ∧ f s = .ok conf' := by
  cases value with
  | string s => exact ⟨s, rfl, h⟩
  | null | bool | integer | real | array | object => cases h

theorem parseRdkafkaConfigKeyval_ok {libs : Libs} {conf conf' : RdkafkaConf} {key : CStr}
    {value : Json} (hkey : statsAddKey ≠ key)
    (h : parseRdkafkaConfigKeyval libs conf key value = .ok conf') :
    conf'.sets = conf.sets ++ (setOf (key, value)).toList := by
  unfold parseRdkafkaConfigKeyval at h
  unfold setOf keyOption
  dsimp only
  split_ifs at h with htopic hbrokers hstart
  · obtain ⟨s, rfl, h⟩ := assertJsonString_bind h
    cases h
    rw [if_pos (.inr htopic)]
    exact (List.append_nil _).symm
  · obtain ⟨s, rfl, h⟩ := assertJsonString_bind h
    rw [if_neg (not_or.mpr ⟨hkey, htopic⟩), if_pos hbrokers]
    exact parseRdkafkaKeyvalConfig_ok h
  · obtain ⟨s, rfl, h⟩ := assertJsonString_bind h
    rw [if_neg (not_or.mpr ⟨hkey, htopic⟩), if_neg hbrokers, if_pos hstart]
    exact parseRdkafkaKeyvalConfig_ok h
  · cases h
    rw [if_neg (not_or.mpr ⟨hkey, htopic⟩), if_neg hbrokers, if_neg hstart]
    exact (List.append_nil _).symm

theorem parseRootMember_ok {libs : Libs} {vars vars' : Vars} {key : CStr} {value : Json}
    (h : parseRootMember libs vars key value = .ok vars') :
    vars'.conf.sets = vars.conf.sets ++ (setOf (key, value)).toList := by
  unfold parseRootMember at h
  simp only [strcmp_eq_zero_iff] at h
  by_cases hkey : statsAddKey = key
  · have hnone : setOf (key, value) = none := by
      unfold setOf keyOption
      rw [if_pos (.inl hkey)]
    rw [if_pos hkey] at h
    rw [hnone, Option.toList_none, List.append_nil]
    split at h
    · cases h
      rfl
    · split at h
      · cases h
        rfl
      · cases h
  · rw [if_neg hkey] at h
    cases hconf : parseRdkafkaConfigKeyval libs vars.conf key value with
    | error conf =>
      rw [hconf] at h
      cases h
    | ok conf =>
      rw [hconf] at h
      cases h
      exact parseRdkafkaConfigKeyval_ok hkey hconf

theorem parseRoot_ok {libs : Libs} {root : List (CStr × Json)} {vars vars' : Vars}
    (h : parseRoot libs root vars = .ok vars') :
    vars'.conf.sets = vars.conf.sets ++ root.filterMap setOf := by
  induction root generalizing vars with
  | nil =>
    cases h
    exact (List.append_nil _).symm
  | cons m root ih =>
    rw [parseRoot] at h
    cases hm : parseRootMember libs vars m.1 m.2 with
    | error conf =>
      rw [hm] at h
      cases h
    | ok vars₁ =>
      rw [hm] at h
      rw [ih h, parseRootMember_ok hm, List.append_assoc, List.filterMap_cons]
      cases setOf (m.1, m.2) <;> rfl

theorem storeExtra_ok {libs : Libs} {vars : Vars} {conf : RdkafkaConf}
    (h : storeExtra libs vars = .ok conf) : conf.sets = vars.conf.sets := by
  unfold storeExtra at h
  dsimp only at h
  repeat' split at h
  all_goals cases h; try rfl

theorem setOf_eq_some {m : CStr × Json} {name value : CStr} (h : setOf m = some (name, value)) :
    keyOption m.1 = some name ∧ m.2 = .string value := by
  unfold setOf at h
  split at h
  · rename_i name' s hkey hvalue
    split_ifs at h
    cases h
    exact ⟨hkey, hvalue⟩
  · cases h

theorem lastValue_append (sets : List (CStr × CStr)) {later : List (CStr × CStr)}
    {name value : CStr} (h : (name, value) ∈ later) :
    ∃ value', (name, value') ∈ later ∧ lastValue (sets ++ later) name = some value' := by
  have hsome : (later.reverse.find? fun s ↦ s.1 = name).isSome := by
    rw [List.find?_isSome]
    exact ⟨(name, value), List.mem_reverse.mpr h, by simp⟩
  obtain ⟨⟨name', value'⟩, hfind⟩ := Option.isSome_iff_exists.mp hsome
  have hname : name' = name := by simpa using List.find?_some hfind
  subst hname
  refine ⟨value', List.mem_reverse.mp (List.mem_of_find?_eq_some hfind), ?_⟩
  unfold lastValue
  rw [List.reverse_append, List.find?_append, hfind]
  rfl

section

variable {o : OptionKey} (hown : o.passed ≠ lit "n2kafka.statistics.topic")
include hown

theorem keyval_extends (libs : Libs) (conf : RdkafkaConf) (value : CStr) :
    Extends { conf with sets := conf.sets ++ [(o.passed, value)] } id
      (parseRdkafkaKeyvalConfig libs conf o.key value) := by
  have hsets := parseRdkafkaKeyvalConfig_sets (o.optionName_key.symm ▸ hown) libs conf value
  rw [o.optionName_key] at hsets
  exact ⟨[], (List.append_nil _).trans hsets.symm⟩

theorem envVar_extends {value : CStr} (hvalue : value.1 ≠ []) (libs : Libs) (stale : ℕ → UInt8)
    (vars : Vars) :
    Extends { vars.conf with sets := vars.conf.sets ++ [(o.passed, value)] } Vars.conf
      (parseEnvVar libs stale vars (o.envVar value).text) := by
  have hkey : envKey stale (o.envVar value).name.1 = o.key := o.envKey_envName stale
  rw [parseEnvVar_text, if_pos (o.considered_envVar hvalue), hkey, if_neg o.statsAddKey_ne_key]
  exact (keyval_extends hown libs vars.conf value).bind fun conf ↦
    extends_ok Vars.conf { vars with conf := conf }

theorem rootMember_extends (libs : Libs) (vars : Vars) (value : CStr) :
    Extends { vars.conf with sets := vars.conf.sets ++ [(o.passed, value)] } Vars.conf
      (parseRootMember libs vars o.key (.string value)) := by
  unfold parseRootMember
  rw [if_neg (mt (strcmp_eq_zero_iff _ _).mp o.statsAddKey_ne_key),
    (o.parseRdkafkaConfigKeyval_key libs vars.conf value).1]
  exact (keyval_extends hown libs vars.conf value).bind fun conf ↦
    extends_ok Vars.conf { vars with conf := conf }

theorem setOf_key (value : CStr) : setOf (o.key, .string value) = some (o.passed, value) := by
  unfold setOf
  rw [(o.parseRdkafkaConfigKeyval_key obliging .new value).2]
  exact if_neg hown

end

/-- Both forms of an option reach librdkafka under its name, without a leading `topic.`. -/
theorem option_passedOn (o : OptionKey) (v : CStr) (hv : v.1 ≠ [])
    (hown : o.passed ≠ lit "n2kafka.statistics.topic") : PassedOn o v o.passed := by
  constructor
  · intro libs stale before after root vars hvars
    have hturn := envVar_extends hown hv libs (stale (before.length + 0)) vars
    have henviron := hturn.bind fun vars ↦
      parseEnviron_extends libs after (fun i ↦ stale (before.length + (i + 1))) vars
    have hrun := (henviron.bind fun vars ↦ parseRoot_extends libs root vars).bind fun vars ↦
      storeExtra_extends libs vars
    unfold getRdkafkaConfig
    rw [parseEnviron_append, hvars, ← bind_assoc]
    exact hrun
  · intro libs stale environ before after vars vars' hvars hbefore
    have hturn := rootMember_extends hown libs vars' v
    have hrun := (hturn.bind fun vars ↦ parseRoot_extends libs after vars).bind fun vars ↦
      storeExtra_extends libs vars
    unfold getRdkafkaConfig
    rw [hvars]
    show _ <+: (final id (parseRoot libs (before ++ (o.key, .string v) :: after) vars >>=
      storeExtra libs)).sets
    rw [parseRoot_append, hbefore]
    exact hrun
  · intro libs stale environ root conf w _ hmem hconf
    obtain ⟨vars, -, vars', hroot, hstore⟩ := getRdkafkaConfig_eq_ok_iff.mp hconf
    have hsets : conf.sets = vars.conf.sets ++ root.filterMap setOf :=
      (storeExtra_ok hstore).trans (parseRoot_ok hroot)
    have hset : (o.passed, w) ∈ root.filterMap setOf :=
      List.mem_filterMap.mpr ⟨_, hmem, setOf_key hown w⟩
    obtain ⟨w', hw', hlast⟩ := lastValue_append vars.conf.sets hset
    obtain ⟨⟨key, value⟩, hm, hsetOf⟩ := List.mem_filterMap.mp hw'
    obtain ⟨hkey, rfl⟩ := setOf_eq_some hsetOf
    rw [hsets]
    refine ⟨⟨key, w', hm, hkey, hlast⟩, ?_⟩
    intro honly
    have heq := honly _ hm hkey
    cases heq
    exact hlast

theorem optionBytes_of_all {name : Bytes} (h : name.all fun c ↦ islower c ∨ isdigit c ∨ c = 46) :
    ∀ c ∈ name, islower c ∨ isdigit c ∨ c = 46 := by
  intro c hc
  exact of_decide_eq_true (List.all_eq_true.mp h c hc)

def refreshInterval : OptionKey where
  name := lit "topic.metadata.refresh.interval.ms"
  bytes := optionBytes_of_all (by decide)
  short := by decide
  not_topic := by decide
  not_append := by decide

def lingerMs : OptionKey where
  name := lit "linger.ms"
  bytes := optionBytes_of_all (by decide)
  short := by decide
  not_topic := by decide
  not_append := by decide

theorem linger_passedOn : PassedOn lingerMs (lit "5") (lit "linger.ms") :=
  option_passedOn lingerMs (lit "5") (by decide) (by decide)

/-- librdkafka gets it under the name `metadata.refresh.interval.ms`. -/
theorem refreshInterval_not_passedOn :
    ¬ PassedOn refreshInterval (lit "1000") refreshInterval.name := by
  intro h
  have hsets := h.environ obliging (fun _ _ ↦ 0) [] [] [] .new rfl
  revert hsets
  decide

end N2Kafka.Engine.RdkafkaConfig
