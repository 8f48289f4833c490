import N2Kafka.Decoder.ZzSession
import N2Kafka.Util.TopicRetention

namespace N2Kafka.Decoder.TopicSelection

open Lib.CString Util.Pairs Util.TopicDatabase Decoder.ZzParser
open Decoder.ZzSession (Allocs newZzSessionXml newZzSessionJson contentTypeXml uuidTopic)

def store (buffer : Bytes) (offset : ℕ) (data : Bytes) : Option Bytes :=
  if offset + data.length ≤ buffer.length then some (memWrite buffer offset data) else none

/-- The buffer on the stack, which holds anything when it is declared, once the name of the topic is
written into it. -/
def uuidTopicBuffer (stack : ℕ → UInt8) (clientUuid : Option CStr) (topic : Bytes) :
    Option Bytes := do
  let bufLen := (clientUuid.map fun uuid ↦ uuid.1.length).getD 0
  let uuidTopic := (List.range (topic.length + 1 + bufLen + 1)).map stack
  let (uuidTopic, cursor) ←
    match clientUuid with
    | none => some (uuidTopic, 0)
    | some uuid =>
      ((store uuidTopic 0 uuid.1).bind (store · bufLen (ascii "_"))).map (·, bufLen + 1)
  let uuidTopic ← store uuidTopic cursor topic
  store uuidTopic (cursor + topic.length) [0]

/-- What is there while a session is made: the stack, the time, whether a topic that is not in the
database can be created, and the libraries of the parsers. -/
structure Surroundings where
  stack : ℕ → UInt8
  now : ℤ
  created : Bool
  allocs : Allocs

/-- How `new_zz_session` returns: the name it asked the database for, if it did, and the topic
handler of the session. -/
structure Selected where
  rc : ℤ
  requested : Option CStr
  topicHandler : Option ℕ
  db : Db

/-- There is no result if the URL is absent or a write leaves the buffer. -/
def newZzSession (e : Surroundings) (db : Db) (msgVars : KeyvalList) : Option Selected := do
  let url ← valueof msgVars (lit "D-HTTP-URI") strcmp
  match extractUrlTopic url with
  | none => return ⟨-1, none, none, db⟩
  | some topic =>
    let buffer ← uuidTopicBuffer e.stack (valueof msgVars (lit "X-Consumer-ID") strcasecmp) topic
    let name := strAt buffer
    match topicsDbGetTopic db name e.now e.created with
    | (none, db) => return ⟨-1, name, none, db⟩
    | (some id, db) =>
      let handlerRc := if contentTypeXml msgVars then (newZzSessionXml e.allocs).rc
        else (newZzSessionJson e.allocs).rc
      if handlerRc ≠ 0 then return ⟨-1, name, some id, topicDecref db id⟩
      return ⟨0, name, some id, db⟩

/-- The URL is the prefix, a topic without specials, and then its end or a special. -/
def TopicUrl (url : CStr) (topic : Bytes) : Prop :=
  topic ≠ [] ∧ (∀ b ∈ topic, b ∉ urlSpecials) ∧
    ∃ rest, url.1 = validPrefix ++ topic ++ rest ∧ ∀ c ∈ rest.head?, c ∈ urlSpecials

def IsConsumerId (pair : Pair) : Prop := pair.key.1.map tolower = ascii "x-consumer-id"

/-- The topic, behind the value of the first header with that key if there is one. A header that has
no value counts as none. -/
def Named (msgVars : KeyvalList) (topic : Bytes) (name : CStr) : Prop :=
  (∀ pair ∈ msgVars, ¬ IsConsumerId pair) ∧ name.1 = topic ∨
    ∃ before pair after, msgVars = before ++ pair :: after ∧
      (∀ other ∈ before, ¬ IsConsumerId other) ∧ IsConsumerId pair ∧
      match pair.value with
      | some uuid => name.1 = uuid.1 ++ ascii "_" ++ topic
      | none => name.1 = topic

def TopicAvailable (e : Surroundings) (db : Db) (name : CStr) : Prop :=
  (∃ id ∈ db.hashtable, db.names id = name) ∨ e.created = true

def ParserAvailable (e : Surroundings) (msgVars : KeyvalList) : Prop :=
  if contentTypeXml msgVars = true then e.allocs.xmlParserCreate = true ∧ e.allocs.yajlGenAlloc = true
  else e.allocs.yajlAlloc = true

theorem takeWhile_eq_iff (p : UInt8 → Bool) (l t : Bytes) :
    l.takeWhile p = t ↔
      (∀ b ∈ t, p b = true) ∧ ∃ rest, l = t ++ rest ∧ ∀ c ∈ rest.head?, p c = false := by
  constructor
  · rintro rfl
    refine ⟨fun b hb ↦ List.mem_takeWhile_imp hb, l.dropWhile p, List.takeWhile_append_dropWhile.symm,
      ?_⟩
    intro c hc
    have hhead := List.head?_dropWhile_not p l
    rw [Option.mem_def.mp hc] at hhead
    exact hhead
  · intro ⟨hall, rest, hl, hhead⟩
    rw [hl, List.takeWhile_append_of_pos hall]
    cases rest with
    | nil => exact List.append_nil t
    | cons c rest =>
      have hc : ¬ p c = true := by simp [hhead c rfl]
      rw [List.takeWhile_cons_of_neg hc, List.append_nil]

theorem extractUrlTopic_eq_some_iff {url : CStr} {topic : Bytes} :
    extractUrlTopic url = some topic ↔ TopicUrl url topic := by
  unfold extractUrlTopic TopicUrl
  simp only [List.isPrefixOf_iff_prefix]
  constructor
  · intro h
    split_ifs at h with hstart hempty
    obtain ⟨path, hpath⟩ := hstart
    rw [← hpath, List.drop_left] at h hempty
    obtain ⟨hall, rest, hrest, hhead⟩ := (takeWhile_eq_iff _ _ _).mp (Option.some.inj h)
    refine ⟨?_, by simpa using hall, rest, ?_, by simpa using hhead⟩
    · rintro rfl
      rw [Option.some.inj h] at hempty
      exact hempty rfl
    · rw [← hpath, hrest, List.append_assoc]
  · intro ⟨hne, hall, rest, hurl, hhead⟩
    have htopic : (url.1.drop validPrefix.length).takeWhile (· ∉ urlSpecials) = topic := by
      rw [hurl, List.append_assoc, List.drop_left]
      exact (takeWhile_eq_iff _ _ _).mpr ⟨by simpa using hall, rest, rfl, by simpa using hhead⟩
    have hstart : validPrefix <+: url.1 := ⟨topic ++ rest, by rw [hurl, List.append_assoc]⟩
    rw [if_pos hstart, htopic, if_neg (fun e ↦ hne (List.length_eq_zero_iff.mp e))]

theorem store_append (done : Bytes) {rest data : Bytes} (h : data.length ≤ rest.length) :
    store (done ++ rest) done.length data = some (done ++ data ++ rest.drop data.length) := by
  have hroom : done.length + data.length ≤ (done ++ rest).length := by
    rw [List.length_append]
    omega
  have htake : (rest.take data.length).length = data.length := List.length_take_of_le h
  have hmem := memWrite_append done (rest.take data.length) (rest.drop data.length) data htake
  rw [List.append_assoc, List.take_append_drop] at hmem
  unfold store
  rw [if_pos hroom, hmem]

def uuidPrefix (clientUuid : Option CStr) : Bytes :=
  match clientUuid with
  | some uuid => uuid.1 ++ ascii "_"
  | none => []

theorem store_topic (done : Bytes) {rest topic : Bytes} (h : topic.length + 1 ≤ rest.length) :
    ∃ behind, ((store (done ++ rest) done.length topic).bind fun buffer ↦
      store buffer (done.length + topic.length) [0]) = some (done ++ topic ++ 0 :: behind) := by
  have hzero : ([0] : Bytes).length ≤ (rest.drop topic.length).length := by
    rw [List.length_drop, List.length_singleton]
    omega
  refine ⟨(rest.drop topic.length).drop 1, ?_⟩
  rw [store_append done (by omega), Option.bind_some, ← List.length_append,
    store_append (done ++ topic) hzero, List.append_assoc (done ++ topic)]
  rfl

/-- Whatever the stack holds, the name and its terminator fit into the buffer. -/
theorem uuidTopicBuffer_eq (stack : ℕ → UInt8) (clientUuid : Option CStr) (topic : Bytes) :
    ∃ behind, uuidTopicBuffer stack clientUuid topic =
      some (uuidPrefix clientUuid ++ topic ++ 0 :: behind) := by
  cases clientUuid with
  | none =>
    have hlen : ((List.range (topic.length + 1 + 0 + 1)).map stack).length = topic.length + 2 := by
      rw [List.length_map, List.length_range]
    have hroom : topic.length + 1 ≤ ((List.range (topic.length + 1 + 0 + 1)).map stack).length := by
      omega
    exact store_topic [] hroom
  | some uuid =>
    generalize hstack : (List.range (topic.length + 1 + uuid.1.length + 1)).map stack = buffer
    have hlen : buffer.length = topic.length + uuid.1.length + 2 := by
      rw [← hstack, List.length_map, List.length_range]
      omega
    have huuid : store buffer 0 uuid.1 = some (uuid.1 ++ buffer.drop uuid.1.length) :=
      store_append [] (by omega)
    have hunderscore : store (uuid.1 ++ buffer.drop uuid.1.length) uuid.1.length (ascii "_") =
        some (uuid.1 ++ ascii "_" ++ (buffer.drop uuid.1.length).drop 1) := by
      refine store_append uuid.1 ?_
      rw [List.length_drop]
      show 1 ≤ _
      omega
    have hroom : topic.length + 1 ≤ ((buffer.drop uuid.1.length).drop 1).length := by
      rw [List.length_drop, List.length_drop]
      omega
    obtain ⟨behind, hbehind⟩ := store_topic (uuid.1 ++ ascii "_") hroom
    have hcursor : (uuid.1 ++ ascii "_").length = uuid.1.length + 1 := List.length_append
    rw [hcursor] at hbehind
    refine ⟨behind, ?_⟩
    unfold uuidTopicBuffer
    simp only [Option.map_some, Option.getD_some, hstack, huuid, Option.bind_eq_bind,
      Option.bind_some, hunderscore]
    exact hbehind

theorem rktFound_names (db : Db) (id : ℕ) (now : ℤ) : (rktFound db id now).names = db.names :=
  foldl_names (purgeNode_names _) db _

theorem topicsDbGetTopic_names {db db' : Db} {topic : CStr} {now : ℤ} {created : Bool} {id : ℕ}
    (h : topicsDbGetTopic db topic now created = (some id, db')) : db'.names id = topic := by
  unfold topicsDbGetTopic at h
  cases hsearch : tommyHashdynSearch db topic with
  | some found =>
    rw [hsearch] at h
    obtain ⟨hid, rfl⟩ := Prod.mk.inj h
    rw [rktFound_names, ← Option.some.inj hid]
    exact (tommyHashdynSearch_some hsearch).2
  | none =>
    rw [hsearch] at h
    cases created with
    | false => cases h
    | true =>
      simp only [if_true] at h
      cases hagain : tommyHashdynSearch (newTopicS db topic) topic with
      | some aux =>
        rw [hagain] at h
        obtain ⟨hid, rfl⟩ := Prod.mk.inj h
        rw [rktFound_names, ← Option.some.inj hid]
        show (topicDecref (newTopicS db topic) db.next).names aux = topic
        rw [topicDecref_names]
        exact (tommyHashdynSearch_some hagain).2
      | none =>
        rw [hagain] at h
        obtain ⟨hid, rfl⟩ := Prod.mk.inj h
        rw [rktFound_names, ← Option.some.inj hid]
        exact Function.update_self ..

theorem topicsDbGetTopic_isSome_iff (e : Surroundings) (db : Db) (name : CStr) :
    (topicsDbGetTopic db name e.now e.created).1.isSome = true ↔ TopicAvailable e db name := by
  unfold topicsDbGetTopic TopicAvailable
  cases hsearch : tommyHashdynSearch db name with
  | some id => exact iff_of_true rfl (.inl ⟨id, tommyHashdynSearch_some hsearch⟩)
  | none =>
    have hnot : ¬ ∃ id ∈ db.hashtable, db.names id = name :=
      fun ⟨_, hid, hname⟩ ↦ tommyHashdynSearch_none hsearch hid hname
    rw [or_iff_right hnot]
    cases e.created with
    | false => exact Iff.rfl
    | true =>
      refine iff_of_true ?_ rfl
      cases hagain : tommyHashdynSearch (newTopicS db name) name with
      | none => simp [hagain]
      | some aux => simp [hagain]

theorem isConsumerId_iff (pair : Pair) :
    strcasecmp (lit "X-Consumer-ID") pair.key = 0 ↔ IsConsumerId pair := by
  have hname : (lit "X-Consumer-ID").1.map tolower = ascii "x-consumer-id" := by decide
  unfold IsConsumerId
  rw [strcasecmp_eq_zero_iff, hname, eq_comm]

theorem named_nil_iff {topic : Bytes} {name : CStr} : Named [] topic name ↔ name.1 = topic := by
  constructor
  · intro h
    obtain ⟨-, hname⟩ | ⟨before, pair, after, hnil, -⟩ := h
    · exact hname
    · exact absurd hnil.symm (by simp)
  · intro hname
    exact .inl ⟨by simp, hname⟩

theorem named_cons_of_consumerId {pair : Pair} (h : IsConsumerId pair) (msgVars : KeyvalList)
    {topic : Bytes} {name : CStr} :
    Named (pair :: msgVars) topic name ↔ name.1 = uuidPrefix pair.value ++ topic := by
  have hvalue : (match pair.value with
      | some uuid => name.1 = uuid.1 ++ ascii "_" ++ topic
      | none => name.1 = topic) ↔ name.1 = uuidPrefix pair.value ++ topic := by
    cases pair.value with
    | none => exact Iff.rfl
    | some uuid => exact Iff.rfl
  constructor
  · intro hnamed
    obtain ⟨hno, -⟩ | ⟨before, other, after, hlist, hbefore, -, hname⟩ := hnamed
    · exact absurd h (hno pair (.head _))
    · cases before with
      | nil =>
        obtain rfl := (List.cons.inj hlist).1
        exact hvalue.mp hname
      | cons first before =>
        obtain rfl := (List.cons.inj hlist).1
        exact absurd h (hbefore pair (.head _))
  · intro hname
    exact .inr ⟨[], pair, msgVars, rfl, by simp, h, hvalue.mpr hname⟩

theorem named_cons_of_not {pair : Pair} (h : ¬ IsConsumerId pair) {msgVars : KeyvalList}
    {topic : Bytes} {name : CStr} :
    Named (pair :: msgVars) topic name ↔ Named msgVars topic name := by
  constructor
  · intro hnamed
    obtain ⟨hno, hname⟩ | ⟨before, other, after, hlist, hbefore, hother, hname⟩ := hnamed
    · exact .inl ⟨fun other hmem ↦ hno other (.tail _ hmem), hname⟩
    · cases before with
      | nil =>
        obtain rfl := (List.cons.inj hlist).1
        exact absurd hother h
      | cons first before =>
        exact .inr ⟨before, other, after, (List.cons.inj hlist).2,
          fun q hmem ↦ hbefore q (.tail _ hmem), hother, hname⟩
  · intro hnamed
    obtain ⟨hno, hname⟩ | ⟨before, other, after, hlist, hbefore, hother, hname⟩ := hnamed
    · exact .inl ⟨List.forall_mem_cons.mpr ⟨h, hno⟩, hname⟩
    · exact .inr ⟨pair :: before, other, after, congrArg (pair :: ·) hlist,
        List.forall_mem_cons.mpr ⟨h, hbefore⟩, hother, hname⟩

theorem named_iff {msgVars : KeyvalList} {topic : Bytes} {name : CStr} :
    Named msgVars topic name ↔
      name.1 = uuidPrefix (valueof msgVars (lit "X-Consumer-ID") strcasecmp) ++ topic := by
  induction msgVars with
  | nil => exact named_nil_iff
  | cons pair msgVars ih =>
    rw [valueof]
    by_cases h : strcasecmp (lit "X-Consumer-ID") pair.key = 0
    · rw [if_pos h]
      exact named_cons_of_consumerId ((isConsumerId_iff pair).mp h) msgVars
    · rw [if_neg h, named_cons_of_not (fun hid ↦ h ((isConsumerId_iff pair).mpr hid))]
      exact ih

structure Selects (e : Surroundings) (db : Db) (msgVars : KeyvalList) (url : CStr) (s : Selected) :
    Prop where
  opens : s.rc = 0 ↔ ∃ topic name, TopicUrl url topic ∧ Named msgVars topic name ∧
    TopicAvailable e db name ∧ ParserAvailable e msgVars
  requests : ∀ name, s.requested = some name ↔ ∃ topic, TopicUrl url topic ∧ Named msgVars topic name
  handles : s.rc = 0 → ∃ id name, s.topicHandler = some id ∧ s.requested = some name ∧
    s.db.names id = name
  rejects : (∀ topic, ¬ TopicUrl url topic) → s.db = db

theorem handlerRc_eq_zero_iff (e : Surroundings) (msgVars : KeyvalList) :
    (if contentTypeXml msgVars = true then (newZzSessionXml e.allocs).rc
      else (newZzSessionJson e.allocs).rc) = 0 ↔ ParserAvailable e msgVars := by
  unfold ParserAvailable
  by_cases hxml : contentTypeXml msgVars = true
  · rw [if_pos hxml, if_pos hxml]
    unfold newZzSessionXml
    cases e.allocs.xmlParserCreate <;> cases e.allocs.yajlGenAlloc <;> decide
  · rw [if_neg hxml, if_neg hxml]
    unfold newZzSessionJson
    cases e.allocs.yajlAlloc <;> decide

theorem selects_rejected (e : Surroundings) (db : Db) (msgVars : KeyvalList) {url : CStr}
    (h : ∀ topic, ¬ TopicUrl url topic) : Selects e db msgVars url ⟨-1, none, none, db⟩ := by
  have hrc : (-1 : ℤ) ≠ 0 := by decide
  constructor
  · exact iff_of_false hrc fun ⟨topic, _, htopic, _⟩ ↦ h topic htopic
  · intro name
    exact iff_of_false (by simp) fun ⟨topic, htopic, _⟩ ↦ h topic htopic
  · exact fun hzero ↦ absurd hzero hrc
  · exact fun _ ↦ rfl

theorem selects_of_topic {e : Surroundings} {db : Db} {msgVars : KeyvalList} {url : CStr}
    {topic : Bytes} {name : CStr} (htopic : TopicUrl url topic) (hname : Named msgVars topic name)
    {s : Selected} (hrequested : s.requested = some name)
    (hopens : s.rc = 0 ↔ TopicAvailable e db name ∧ ParserAvailable e msgVars)
    (hhandles : s.rc = 0 → ∃ id, s.topicHandler = some id ∧ s.db.names id = name) :
    Selects e db msgVars url s := by
  have hunique {topic' : Bytes} {name' : CStr} (ht : TopicUrl url topic')
      (hn : Named msgVars topic' name') : name' = name := by
    have heq := (extractUrlTopic_eq_some_iff.mpr ht).symm.trans
      (extractUrlTopic_eq_some_iff.mpr htopic)
    rw [Option.some.inj heq] at hn
    exact Subtype.ext ((named_iff.mp hn).trans (named_iff.mp hname).symm)
  constructor
  · rw [hopens]
    constructor
    · intro ⟨havailable, hparser⟩
      exact ⟨topic, name, htopic, hname, havailable, hparser⟩
    · intro ⟨topic', name', ht, hn, havailable, hparser⟩
      obtain rfl := hunique ht hn
      exact ⟨havailable, hparser⟩
  · intro name'
    constructor
    · intro h
      obtain rfl := Option.some.inj (hrequested.symm.trans h)
      exact ⟨topic, htopic, hname⟩
    · intro ⟨topic', ht, hn⟩
      rw [hunique ht hn]
      exact hrequested
  · intro hrc
    obtain ⟨id, hid, hnames⟩ := hhandles hrc
    exact ⟨id, name, hid, hrequested, hnames⟩
  · exact fun hno ↦ absurd htopic (hno topic)

theorem not_mem_uuidPrefix (clientUuid : Option CStr) : (0 : UInt8) ∉ uuidPrefix clientUuid := by
  cases clientUuid with
  | none => exact List.not_mem_nil
  | some uuid =>
    intro h
    cases List.mem_append.mp h with
    | inl huuid => exact uuid.2 huuid
    | inr hunderscore => exact absurd hunderscore (by decide)

theorem named_strAt (e : Surroundings) (msgVars : KeyvalList) {url : CStr} {topic : Bytes}
    (htopic : TopicUrl url topic) :
    ∃ buffer, uuidTopicBuffer e.stack (valueof msgVars (lit "X-Consumer-ID") strcasecmp) topic =
      some buffer ∧ Named msgVars topic (strAt buffer) := by
  obtain ⟨-, -, rest, hurl, -⟩ := htopic
  have hzero : (0 : UInt8) ∉
      uuidPrefix (valueof msgVars (lit "X-Consumer-ID") strcasecmp) ++ topic := by
    intro h
    cases List.mem_append.mp h with
    | inl h => exact not_mem_uuidPrefix _ h
    | inr h =>
      have hmem : (0 : UInt8) ∈ url.1 := by
        rw [hurl]
        exact List.mem_append_left _ (List.mem_append_right _ h)
      exact url.2 hmem
  obtain ⟨behind, hbuffer⟩ := uuidTopicBuffer_eq e.stack
    (valueof msgVars (lit "X-Consumer-ID") strcasecmp) topic
  exact ⟨_, hbuffer, named_iff.mpr (strAt_append _ behind hzero)⟩

theorem newZzSession_selects (e : Surroundings) (db : Db) (msgVars : KeyvalList) (url : CStr)
    (h : valueof msgVars (lit "D-HTTP-URI") strcmp = some url) :
    ∃ s, newZzSession e db msgVars = some s ∧ Selects e db msgVars url s := by
  unfold newZzSession
  rw [h, Option.bind_eq_bind, Option.bind_some]
  cases htopic : extractUrlTopic url with
  | none =>
    refine ⟨_, rfl, selects_rejected e db msgVars fun topic ht ↦ ?_⟩
    rw [extractUrlTopic_eq_some_iff.mpr ht] at htopic
    cases htopic
  | some topic =>
    have ht := extractUrlTopic_eq_some_iff.mp htopic
    obtain ⟨buffer, hbuffer, hname⟩ := named_strAt e msgVars ht
    have havailable := topicsDbGetTopic_isSome_iff e db (strAt buffer)
    have hparser := handlerRc_eq_zero_iff e msgVars
    have hrc : (-1 : ℤ) ≠ 0 := by decide
    simp only [hbuffer, Option.bind_eq_bind, Option.bind_some]
    generalize (if contentTypeXml msgVars = true then (newZzSessionXml e.allocs).rc
      else (newZzSessionJson e.allocs).rc) = handlerRc at hparser ⊢
    cases hget : topicsDbGetTopic db (strAt buffer) e.now e.created with
    | mk returned db' =>
      rw [hget] at havailable
      cases returned with
      | none =>
        have hno : ¬ TopicAvailable e db (strAt buffer) := fun h ↦ by cases havailable.mpr h
        exact ⟨_, rfl, selects_of_topic ht hname rfl (iff_of_false hrc fun h ↦ hno h.1)
          fun hzero ↦ absurd hzero hrc⟩
      | some id =>
        have hyes : TopicAvailable e db (strAt buffer) := havailable.mp rfl
        by_cases hfail : handlerRc = 0
        · simp only [hfail, ne_eq, not_true, if_false]
          exact ⟨_, rfl, selects_of_topic ht hname rfl
            (iff_of_true rfl ⟨hyes, hparser.mp hfail⟩)
            fun _ ↦ ⟨id, rfl, topicsDbGetTopic_names hget⟩⟩
        · simp only [hfail, ne_eq, not_false_iff, if_true]
          exact ⟨_, rfl, selects_of_topic ht hname rfl
            (iff_of_false hrc fun h ↦ hfail (hparser.mpr h.2)) fun hzero ↦ absurd hzero hrc⟩

theorem uuidTopic_eq (msgVars : KeyvalList) (topic : Bytes) : uuidTopic msgVars topic =
    uuidPrefix (valueof msgVars (lit "X-Consumer-ID") strcasecmp) ++ topic := by
  unfold uuidTopic uuidPrefix
  cases valueof msgVars (lit "X-Consumer-ID") strcasecmp with
  | none => rfl
  | some uuid => rfl

/-- Where the resources of a session are counted, it is taken for granted what the database answers
to the name; with the answers of this one, the session returns the same. -/
theorem newZzSession_rc {e : Surroundings} {db : Db} {msgVars : KeyvalList} {s : Selected}
    (hget : ∀ name : CStr, e.allocs.getTopic name.1 =
      (topicsDbGetTopic db name e.now e.created).1.isSome)
    (hs : newZzSession e db msgVars = some s) :
    s.rc = (ZzSession.newZzSession e.allocs msgVars).rc := by
  obtain ⟨url, hurl, hs⟩ := Option.bind_eq_some_iff.mp hs
  have hsession : sessionUrlTopic msgVars = extractUrlTopic url := by
    unfold sessionUrlTopic
    rw [hurl, Option.bind_some]
  unfold ZzSession.newZzSession
  rw [hsession]
  cases htopic : extractUrlTopic url with
  | none =>
    rw [htopic] at hs
    obtain rfl := Option.some.inj hs
    rfl
  | some topic =>
    obtain ⟨buffer, hbuffer, hname⟩ := named_strAt e msgVars (extractUrlTopic_eq_some_iff.mp htopic)
    have hasked : uuidTopic msgVars topic = (strAt buffer).1 := by
      rw [uuidTopic_eq, ← named_iff.mp hname]
    have hanswer := hget (strAt buffer)
    simp only [htopic, hbuffer, Option.bind_eq_bind, Option.bind_some] at hs
    rw [← hasked] at hanswer
    have hparser : (if contentTypeXml msgVars = true then (newZzSessionXml e.allocs).rc
          else (newZzSessionJson e.allocs).rc) =
        (if contentTypeXml msgVars = true then newZzSessionXml e.allocs
          else newZzSessionJson e.allocs).rc := (apply_ite ZzSession.Made.rc _ _ _).symm
    simp only [hanswer]
    cases hdb : topicsDbGetTopic db (strAt buffer) e.now e.created with
    | mk returned db' =>
      rw [hdb] at hs
      cases returned with
      | none =>
        obtain rfl := Option.some.inj hs
        rfl
      | some id =>
        simp only [hparser] at hs
        simp only [Option.isSome_some, Bool.not_true, Bool.false_eq_true, if_false]
        generalize (if contentTypeXml msgVars = true then newZzSessionXml e.allocs
          else newZzSessionJson e.allocs) = handler at hs ⊢
        split_ifs at hs ⊢
        · obtain rfl := Option.some.inj hs
          rfl
        · obtain rfl := Option.some.inj hs
          rfl

def healthy : Surroundings := ⟨fun _ ↦ 0, 0, true, ⟨fun _ ↦ true, true, true, true⟩⟩

def noParser : Surroundings := { healthy with allocs := ⟨fun _ ↦ true, true, true, false⟩ }

def consumerVars : KeyvalList :=
  [⟨lit "x-CONSUMER-id", some (lit "me")⟩, ⟨lit "D-HTTP-URI", some (lit "/v1/data/t?param")⟩]

theorem newZzSession_selects_consumer : ∃ s, newZzSession healthy topicsDbNew consumerVars = some s ∧
    Selects healthy topicsDbNew consumerVars (lit "/v1/data/t?param") s :=
  newZzSession_selects healthy topicsDbNew consumerVars (lit "/v1/data/t?param") (by decide)

/-- The topic is there, and the session is refused as it gets no parser. -/
theorem parser_missing_not_opened :
    ¬ ∀ (e : Surroundings) (db : Db) (msgVars : KeyvalList) (url : CStr),
      valueof msgVars (lit "D-HTTP-URI") strcmp = some url →
      ∃ s, newZzSession e db msgVars = some s ∧
        (s.rc = 0 ↔ ∃ topic name, TopicUrl url topic ∧ Named msgVars topic name ∧
          TopicAvailable e db name) := by
  intro h
  obtain ⟨s, hs, hopens⟩ :=
    h noParser topicsDbNew consumerVars (lit "/v1/data/t?param") (by decide)
  have hrefused : (newZzSession noParser topicsDbNew consumerVars).map Selected.rc = some (-1) := by
    decide
  have htopic : extractUrlTopic (lit "/v1/data/t?param") = some (ascii "t") := by decide
  have hname : Named consumerVars (ascii "t") (lit "me_t") := named_iff.mpr (by decide)
  have hzero : s.rc = 0 :=
    hopens.mpr ⟨_, _, extractUrlTopic_eq_some_iff.mp htopic, hname, .inr rfl⟩
  rw [hs, Option.map_some, hzero] at hrefused
  exact absurd hrefused (by decide)

end N2Kafka.Decoder.TopicSelection
