import N2Kafka.Lib.JsonGrammar
import N2Kafka.Engine.RdkafkaOptions
import N2Kafka.Util.KafkaEnrichment

namespace N2Kafka.Engine.StatsEnrichment

open Lib.CString Lib.Jansson Lib.JsonGrammar Engine.RdkafkaConfig Util.KafkaEnrichment

def initRdkafka (conf : RdkafkaConf) : Stats where
  n2kStatsCb := if conf.statisticsTopic.isSome then .topic else .rdlog
  appendBuf := (conf.messageExtra.buf.getD []).take conf.messageExtra.size

/-- What `json_loads` makes an object of is one, by the grammar, with white space around it; and an
object that has members has their texts between its braces. -/
def LoadsObjects (jsonLoads : CStr → Option Json) : Prop :=
  ∀ text members, jsonLoads text = some (.object members) →
    ∃ w e w', Spaces w ∧ Spaces w' ∧ text.1 = w ++ ascii "\x7b" ++ e ++ ascii "\x7d" ++ w' ∧
      (members ≠ [] → ∃ fields, Members e fields)

/-- A run that ends with a text for the statistics, and accepts it. -/
def Accepts (libs : Libs) (stale : ℕ → ℕ → UInt8) (environ : List EnvVar)
    (root : List (CStr × Json)) (text : CStr) (conf : RdkafkaConf) : Prop :=
  ∃ vars vars', parseEnviron libs stale environ .new = .ok vars ∧
    parseRoot libs root vars = .ok vars' ∧ vars'.statsJsonEnrich = some text ∧
    storeExtra libs vars' = .ok conf

theorem Accepts.getRdkafkaConfig {libs : Libs} {stale : ℕ → ℕ → UInt8} {environ : List EnvVar}
    {root : List (CStr × Json)} {text : CStr} {conf : RdkafkaConf}
    (h : Accepts libs stale environ root text conf) :
    getRdkafkaConfig libs stale environ root = .ok conf := by
  obtain ⟨vars, vars', hvars, hvars', -, hstore⟩ := h
  exact getRdkafkaConfig_eq_ok_iff.mpr ⟨vars, hvars, vars', hvars', hstore⟩

theorem strrchr_append {s : CStr} {before behind : Bytes} {c : UInt8}
    (hs : s.1 = before ++ c :: behind) (hc : c ∉ behind) : strrchr s c = some before.length := by
  have hreverse : s.1.reverse = behind.reverse ++ c :: before.reverse := by simp [hs]
  have hfind : s.1.reverse.findIdx? (· = c) = some behind.length := by
    rw [hreverse, List.findIdx?_append, List.findIdx?_eq_none_iff.mpr ?_]
    · simp [List.findIdx?_cons]
    · intro b hb
      have hne : b ≠ c := fun e ↦ hc (e ▸ List.mem_reverse.mp hb)
      simpa using hne
  unfold strrchr
  rw [hfind, hs]
  simp

theorem Spaces.notMem {w : Bytes} (hw : Spaces w) {c : UInt8} (hc : isSpace c = false) : c ∉ w := by
  intro h
  rw [hw c h] at hc
  cases hc

/-- The first opening and the last closing brace are those of the object itself, whatever braces its
members hold. -/
theorem cutBraces_object {text : CStr} {w e w' : Bytes} (hw : Spaces w) (hw' : Spaces w')
    (htext : text.1 = w ++ ascii "\x7b" ++ e ++ ascii "\x7d" ++ w') :
    cutBraces text = some ⟨e.length + 1, some (e ++ [0])⟩ := by
  have hopen : text.1 = w ++ 123 :: (e ++ 125 :: w') := by
    rw [htext]
    simp [ascii]
  have hfirst : strchr text.1 123 = some w.length := by
    rw [hopen]
    exact strchr_append w _ 123 (Spaces.notMem hw rfl) (Spaces.notMem hw rfl)
  have hdrop : (text.drop w.length).1 = 123 :: e ++ 125 :: w' := by
    show text.1.drop w.length = _
    rw [hopen, List.drop_left]
    rfl
  have hlast : strrchr (text.drop w.length) 125 = some (e.length + 1) :=
    strrchr_append hdrop (Spaces.notMem hw' rfl)
  have hbetween : (text.1.drop (w.length + 1)).take (e.length + 1 - 1) = e := by
    rw [hopen, ← List.drop_drop, List.drop_left, Nat.add_sub_cancel]
    exact List.take_left
  unfold cutBraces
  simp only [hfirst, hlast, hbetween, bind, Option.bind_some]
  rfl

/-- A run that goes on leaves `jstats_json_enrich` without an object. -/
def KeepsNull (run : Run Vars) : Prop := ∀ vars, run = .ok vars → vars.jstatsJsonEnrich = none

theorem KeepsNull.bind {run : Run Vars} {f : Vars → Run Vars} (h : KeepsNull run)
    (hf : ∀ vars, vars.jstatsJsonEnrich = none → KeepsNull (f vars)) : KeepsNull (run >>= f) := by
  intro vars' hvars'
  obtain ⟨vars, hrun, hvars'⟩ := bind_eq_ok_iff.mp hvars'
  exact hf vars (h vars hrun) vars' hvars'

theorem KeepsNull.setConf {run : Run RdkafkaConf} {vars : Vars}
    (h : vars.jstatsJsonEnrich = none) :
    KeepsNull (do let conf ← run; return { vars with conf := conf }) := by
  intro vars' hvars'
  cases run with
  | error conf => cases hvars'
  | ok conf =>
    cases hvars'
    exact h

theorem parseEnviron_keepsNull (libs : Libs) (environ : List EnvVar) (stale : ℕ → ℕ → UInt8)
    {vars : Vars} (h : vars.jstatsJsonEnrich = none) :
    KeepsNull (parseEnviron libs stale environ vars) := by
  induction environ generalizing stale vars with
  | nil =>
    intro vars' hvars'
    cases hvars'
    exact h
  | cons v environ ih =>
    refine KeepsNull.bind ?_ fun vars' h' ↦ ih _ h'
    rw [parseEnvVar_text]
    split_ifs
    · intro vars' hvars'
      cases hvars'
      exact h
    · exact .setConf h
    · intro vars' hvars'
      cases hvars'
      exact h

theorem parseRootMember_keepsNull (libs : Libs) (key : CStr) (value : Json) {vars : Vars}
    (h : vars.jstatsJsonEnrich = none) : KeepsNull (parseRootMember libs vars key value) := by
  unfold parseRootMember
  split
  · split
    · intro vars' hvars'
      cases hvars'
      exact h
    · rw [h]
      intro vars' hvars'
      cases hvars'
  · exact .setConf h

theorem parseRoot_keepsNull (libs : Libs) (root : List (CStr × Json)) {vars : Vars}
    (h : vars.jstatsJsonEnrich = none) : KeepsNull (parseRoot libs root vars) := by
  induction root generalizing vars with
  | nil =>
    intro vars' hvars'
    cases hvars'
    exact h
  | cons m root ih =>
    exact (parseRootMember_keepsNull libs m.1 m.2 h).bind fun vars' h' ↦ ih h'

theorem Accepts.messageExtra {libs : Libs} (hloads : LoadsObjects libs.jsonLoads)
    {stale : ℕ → ℕ → UInt8} {environ : List EnvVar} {root : List (CStr × Json)} {text : CStr}
    {conf : RdkafkaConf} (h : Accepts libs stale environ root text conf) {member : CStr × Json}
    {members : List (CStr × Json)}
    (hobject : libs.jsonLoads text = some (.object (member :: members))) :
    ∃ w e w' fields, Spaces w ∧ Spaces w' ∧
      text.1 = w ++ ascii "\x7b" ++ e ++ ascii "\x7d" ++ w' ∧ Members e fields ∧
      conf.messageExtra = ⟨e.length + 1, some (e ++ [0])⟩ := by
  obtain ⟨vars, vars', hvars, hvars', htext, hstore⟩ := h
  have hnull : vars'.jstatsJsonEnrich = none :=
    parseRoot_keepsNull libs root (parseEnviron_keepsNull libs environ stale rfl vars hvars) vars'
      hvars'
  obtain ⟨w, e, w', hw, hw', hsplit, hmembers⟩ := hloads text _ hobject
  obtain ⟨fields, hfields⟩ := hmembers (List.cons_ne_nil _ _)
  refine ⟨w, e, w', fields, hw, hw', hsplit, hfields, ?_⟩
  unfold storeExtra at hstore
  simp only [hnull, htext, hobject, cutBraces_object hw hw' hsplit] at hstore
  split_ifs at hstore
  cases hstore
  rfl

/-- The statistics with the text of the enrichment between their last member and the closing brace:
an object with the members of both. -/
theorem enrichment_merged (libs : Libs) (hloads : LoadsObjects libs.jsonLoads)
    (stale : ℕ → ℕ → UInt8) (environ : List EnvVar) (root : List (CStr × Json)) (text : CStr)
    (conf : RdkafkaConf) (haccepts : Accepts libs stale environ root text conf)
    (member : CStr × Json) (members : List (CStr × Json))
    (hobject : libs.jsonLoads text = some (.object (member :: members)))
    (m : Bytes) (fields : List (Bytes × Bytes)) (hm : Members m fields) (world : World) (id : ℕ)
    (junk : ℕ → UInt8) (hrealloc : world.realloc = some (id, junk)) (old : ℕ) :
    ∃ w e w' fields', Spaces w ∧ Spaces w' ∧
      text.1 = w ++ ascii "\x7b" ++ e ++ ascii "\x7d" ++ w' ∧ Members e fields' ∧
      (initRdkafka conf).appendBuf.length ≠ 0 ∧
      enrichedArgs world (initRdkafka conf).appendBuf ⟨old, ascii "\x7b" ++ m ++ ascii "\x7d"⟩ =
        some (⟨id, ascii "\x7b" ++ (m ++ ascii "," ++ e) ++ ascii "\x7d"⟩,
          (ascii "\x7b" ++ (m ++ ascii "," ++ e) ++ ascii "\x7d").length) ∧
      Members (m ++ ascii "," ++ e) (fields ++ fields') ∧
      Value (ascii "\x7b" ++ (m ++ ascii "," ++ e) ++ ascii "\x7d") := by
  obtain ⟨w, e, w', fields', hw, hw', htext, hfields, hextra⟩ := haccepts.messageExtra hloads hobject
  have happend : (initRdkafka conf).appendBuf = e ++ [0] := by
    unfold initRdkafka
    rw [hextra]
    exact List.take_of_length_le (by simp)
  have hjoined := hm.join hfields
  refine ⟨w, e, w', fields', hw, hw', htext, hfields, ?_, ?_, hjoined, hjoined.object⟩
  · rw [happend]
    simp
  · rw [happend]
    exact enrichedArgs_statsText hrealloc e m 0 old

def nestedText : CStr := lit " \x7b\"b\":\x7b\"c\":\"\x7d\"\x7d\x7d "

def nestedLibs : Libs where
  confSet := fun _ ↦ true
  jsonLoads := fun text ↦ if text = nestedText then
    some (.object [(lit "b", .object [(lit "c", .string (lit "\x7d"))])]) else none
  jsonDumps := fun _ ↦ none
  malloc := true

def nestedConf : RdkafkaConf :=
  { RdkafkaConf.new with
    messageExtra := ⟨14, some (ascii "\"b\":\x7b\"c\":\"\x7d\"\x7d" ++ [0])⟩ }

theorem letter_body {c : UInt8} (hc : 32 ≤ c) (hquote : c ≠ 34) (hback : c ≠ 92) :
    Lib.JsonGenerator.StringBody [c] :=
  .plain hc hquote hback .nil

theorem single_member {key value : Bytes} (hkey : Lib.JsonGenerator.StringBody key)
    (hvalue : Value value) :
    Members (ascii "\"" ++ key ++ ascii "\"" ++ ascii ":" ++ value) [(key, value)] := by
  have hspaces : Spaces [] := fun _ h ↦ by cases h
  refine ⟨[⟨[], key, ([], []), value, []⟩], by simp, ?_, ?_, rfl⟩
  · intro f hf
    obtain rfl := List.mem_singleton.mp hf
    exact ⟨⟨hspaces, hkey, ⟨hspaces, hspaces⟩, hspaces⟩, hvalue⟩
  · simp [Lib.JsonGenerator.commaSep, Field.text]

theorem nestedLibs_loadsObjects : LoadsObjects nestedLibs.jsonLoads := by
  intro text members h
  have htext : text = nestedText := by
    by_contra hne
    rw [show nestedLibs.jsonLoads text = none from if_neg hne] at h
    cases h
  subst htext
  have hinner : Members (ascii "\"c\":\"\x7d\"") [([99], ascii "\"\x7d\"")] :=
    single_member (letter_body (by decide) (by decide) (by decide))
      (.string (letter_body (c := 125) (by decide) (by decide) (by decide)))
  have houter : Members (ascii "\"b\":\x7b\"c\":\"\x7d\"\x7d")
      [([98], ascii "\x7b\"c\":\"\x7d\"\x7d")] :=
    single_member (letter_body (by decide) (by decide) (by decide)) hinner.object
  refine ⟨[32], ascii "\"b\":\x7b\"c\":\"\x7d\"\x7d", [32], ?_, ?_, by decide,
    fun _ ↦ ⟨_, houter⟩⟩
  · intro c hc
    obtain rfl := List.mem_singleton.mp hc
    rfl
  · intro c hc
    obtain rfl := List.mem_singleton.mp hc
    rfl

theorem nestedConf_accepted :
    Accepts nestedLibs (fun _ _ ↦ 0) [] [(statsAddKey, .string nestedText)] nestedText nestedConf :=
  ⟨.new, { Vars.new with statsJsonEnrich := some nestedText }, rfl, rfl, rfl, rfl⟩

theorem enrichment_merged_nested : ∃ e fields',
    enrichedArgs ⟨some (1, fun _ ↦ 0), true, true⟩ (initRdkafka nestedConf).appendBuf
        ⟨0, ascii "\x7b" ++ ascii "\"a\":true" ++ ascii "\x7d"⟩ =
      some (⟨1, ascii "\x7b" ++ (ascii "\"a\":true" ++ ascii "," ++ e) ++ ascii "\x7d"⟩,
        (ascii "\x7b" ++ (ascii "\"a\":true" ++ ascii "," ++ e) ++ ascii "\x7d").length) ∧
    Members (ascii "\"a\":true" ++ ascii "," ++ e) ([([97], ascii "true")] ++ fields') := by
  have hstats : Members (ascii "\"a\":true") [([97], ascii "true")] :=
    single_member (letter_body (by decide) (by decide) (by decide)) (.literal (.head _))
  obtain ⟨w, e, w', fields', -, -, -, -, -, hargs, hmembers, -⟩ :=
    enrichment_merged nestedLibs nestedLibs_loadsObjects _ _ _ nestedText nestedConf
      nestedConf_accepted _ _ rfl (ascii "\"a\":true") _ hstats ⟨some (1, fun _ ↦ 0), true, true⟩ 1
      (fun _ ↦ 0) rfl 0
  exact ⟨e, fields', hargs, hmembers⟩

def statsAppendName : CStr := lit "RDKAFKA_N2KAFKA_STATS_APPEND"

def statsAppendVar (text : CStr) : EnvVar := ⟨statsAppendName, text, by decide⟩

/-- The option in its three forms, on top of a configuration: as an object of the file, as a string of
the file and as a variable of the environment. They complete and leave the same to append. -/
def FormsAgree (libs : Libs) (stale : ℕ → ℕ → UInt8) (environ : List EnvVar)
    (before after : List (CStr × Json)) (members : List (CStr × Json)) (text : CStr) : Prop :=
  ∃ object string var : RdkafkaConf,
    getRdkafkaConfig libs stale environ (before ++ (statsAddKey, .object members) :: after) =
      .ok object ∧
    getRdkafkaConfig libs stale environ (before ++ (statsAddKey, .string text) :: after) =
      .ok string ∧
    getRdkafkaConfig libs stale (environ ++ [statsAppendVar text]) (before ++ after) = .ok var ∧
    object.messageExtra = string.messageExtra ∧ string.messageExtra = var.messageExtra

/-- The type of the value is asked of a variable that is still null. -/
theorem object_form_fatal (libs : Libs) (members : List (CStr × Json))
    (before after : List (CStr × Json)) {vars : Vars} (h : vars.jstatsJsonEnrich = none) :
    ∃ conf, parseRoot libs (before ++ (statsAddKey, .object members) :: after) vars =
      .error conf := by
  rw [parseRoot_append]
  cases hbefore : parseRoot libs before vars with
  | error conf => exact ⟨conf, rfl⟩
  | ok vars' =>
    have hnull := parseRoot_keepsNull libs before h vars' hbefore
    refine ⟨vars'.conf, ?_⟩
    show parseRoot libs ((statsAddKey, .object members) :: after) vars' = _
    have hturn : parseRootMember libs vars' statsAddKey (.object members) = .error vars'.conf := by
      unfold parseRootMember
      rw [if_pos ((strcmp_eq_zero_iff _ _).mpr rfl), hnull]
      rfl
    rw [parseRoot, hturn]
    rfl

theorem object_form_not_ok (libs : Libs) (stale : ℕ → ℕ → UInt8) (environ : List EnvVar)
    (before after members : List (CStr × Json)) (conf : RdkafkaConf) :
    getRdkafkaConfig libs stale environ (before ++ (statsAddKey, .object members) :: after) ≠
      .ok conf := by
  intro hobject
  obtain ⟨vars, hvars, vars', hroot, -⟩ := getRdkafkaConfig_eq_ok_iff.mp hobject
  have hnull := parseEnviron_keepsNull libs environ stale rfl vars hvars
  obtain ⟨conf, hfatal⟩ := object_form_fatal libs members before after hnull
  rw [hfatal] at hroot
  cases hroot

/-- The object form is fatal for every object, so the three forms never agree. -/
theorem forms_never_agree (libs : Libs) (stale : ℕ → ℕ → UInt8) (environ : List EnvVar)
    (before after : List (CStr × Json)) (member : CStr × Json) (members : List (CStr × Json))
    (text : CStr) : ¬ FormsAgree libs stale environ before after (member :: members) text := by
  rintro ⟨object, string, var, hobject, -⟩
  exact object_form_not_ok libs stale environ before after (member :: members) object hobject

theorem object_with_one_member_fatal :
    ¬ FormsAgree nestedLibs (fun _ _ ↦ 0) [] [] []
        [(lit "b", .object [(lit "c", .string (lit "\x7d"))])] nestedText ∧
      getRdkafkaConfig nestedLibs (fun _ _ ↦ 0) [] [(statsAddKey, .string nestedText)] =
        .ok nestedConf := by
  refine ⟨?_, nestedConf_accepted.getRdkafkaConfig⟩
  rintro ⟨object, string, var, hobject, -⟩
  exact object_form_not_ok nestedLibs _ [] [] [] _ object hobject

theorem parseRoot_withText (libs : Libs) (text : CStr) {root : List (CStr × Json)}
    (h : ∀ m ∈ root, statsAddKey ≠ m.1) (vars : Vars) :
    parseRoot libs root { vars with statsJsonEnrich := some text } = do
      let vars ← parseRoot libs root vars
      return { vars with statsJsonEnrich := some text } := by
  induction root generalizing vars with
  | nil => rfl
  | cons m root ih =>
    have hm := mt (strcmp_eq_zero_iff _ _).mp (h m (.head _))
    rw [parseRoot, parseRoot]
    unfold parseRootMember
    rw [if_neg hm, if_neg hm]
    cases parseRdkafkaConfigKeyval libs vars.conf m.1 m.2 with
    | error conf => rfl
    | ok conf => exact ih (fun m' hm' ↦ h m' (.tail _ hm')) { vars with conf := conf }

theorem convertible_statsAppendName : Convertible statsAppendName.1 := by
  have hall : statsAppendName.1.all fun c ↦ c = 95 ∨ isupper c ∨ isdigit c := by decide
  intro c hc
  exact of_decide_eq_true (List.all_eq_true.mp hall c hc)

theorem envKey_statsAppendName (stale : ℕ → UInt8) :
    envKey stale statsAppendName.1 = statsAddKey := by
  rw [envKey_congr stale (fun _ ↦ 0) convertible_statsAppendName]
  decide

theorem considered_statsAppendVar {text : CStr} (htext : text.1 ≠ []) :
    (statsAppendVar text).Considered := by
  have hstart : rdkafkaEnvPrefix.1 <+: statsAppendName.1 := by decide
  have hshort : statsAppendName.1.length + 1 ≤ sizeofEnvKey := by decide
  exact ⟨hstart, hshort, htext⟩

/-- The string of the file and the variable are the same option. -/
theorem string_and_variable_agree (libs : Libs) (stale : ℕ → ℕ → UInt8) (environ : List EnvVar)
    {before : List (CStr × Json)} (hbefore : ∀ m ∈ before, statsAddKey ≠ m.1)
    (after : List (CStr × Json)) {text : CStr} (htext : text.1 ≠ []) :
    getRdkafkaConfig libs stale environ (before ++ (statsAddKey, .string text) :: after) =
      getRdkafkaConfig libs stale (environ ++ [statsAppendVar text]) (before ++ after) := by
  have hvariable (stale : ℕ → ℕ → UInt8) (vars : Vars) :
      parseEnviron libs stale [statsAppendVar text] vars =
        .ok { vars with statsJsonEnrich := some text } := by
    have hkey : statsAddKey = envKey (stale 0) (statsAppendVar text).name.1 :=
      (envKey_statsAppendName (stale 0)).symm
    rw [parseEnviron, parseEnvVar_text, if_pos (considered_statsAppendVar htext), if_pos hkey]
    rfl
  have hstring (vars : Vars) :
      parseRootMember libs vars statsAddKey (.string text) =
        .ok { vars with statsJsonEnrich := some text } := by
    unfold parseRootMember
    rw [if_pos ((strcmp_eq_zero_iff _ _).mpr rfl)]
  have hroot (vars : Vars) :
      parseRoot libs (before ++ (statsAddKey, .string text) :: after) vars =
        parseRoot libs (before ++ after) { vars with statsJsonEnrich := some text } := by
    rw [parseRoot_append, parseRoot_append, parseRoot_withText libs text hbefore, bind_assoc]
    refine congrArg _ (funext fun vars ↦ ?_)
    rw [parseRoot, hstring]
    rfl
  unfold getRdkafkaConfig
  rw [parseEnviron_append, bind_assoc]
  refine congrArg _ (funext fun vars ↦ ?_)
  rw [hvariable, hroot]
  rfl

end N2Kafka.Engine.StatsEnrichment
