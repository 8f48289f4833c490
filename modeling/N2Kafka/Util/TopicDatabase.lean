import Mathlib.Data.List.Perm.Basic
import Mathlib.Data.List.Nodup
import N2Kafka.Lib.CString
import N2Kafka.Lib.Transition

namespace N2Kafka.Util.TopicDatabase

open Lib.CString Lib.Transition

structure Topic where
  refcnt : ℕ
  timestamp : ℤ
  deriving DecidableEq

/-- The topics of a `topics_db` and of its users, by number. `names` is what librdkafka answers for
the topic's `rkt`, `destroyed` how often the topic was destroyed. -/
structure Db where
  names : ℕ → CStr
  heap : ℕ → Option Topic
  next : ℕ
  destroyed : ℕ → ℕ
  hashtable : List ℕ
  lru : List ℕ

def topicsDbNew : Db := ⟨fun _ ↦ lit "", fun _ ↦ none, 0, fun _ ↦ 0, [], []⟩

def topicDecref (db : Db) (id : ℕ) : Db :=
  match db.heap id with
  | some topic =>
    if topic.refcnt - 1 = 0 then
      { db with
        heap := Function.update db.heap id none
        destroyed := Function.update db.destroyed id (db.destroyed id + 1) }
    else { db with heap := Function.update db.heap id (some { topic with refcnt := topic.refcnt - 1 }) }
  | none => { db with destroyed := Function.update db.destroyed id (db.destroyed id + 1) }

def topicsCmp (db : Db) (topicName : CStr) (id : ℕ) : Int := strcmp (db.names id) topicName

def tommyHashdynSearch (db : Db) (topicName : CStr) : Option ℕ :=
  db.hashtable.find? fun id ↦ topicsCmp db topicName id = 0

def newTopicS (db : Db) (topicName : CStr) : Db :=
  { db with
    names := Function.update db.names db.next topicName
    heap := Function.update db.heap db.next (some ⟨1, 0⟩)
    next := db.next + 1 }

def topicLiveTimeS : ℤ := 15 * 60

def nodeOlderThan (topic : Topic) (age : ℤ) : Bool := age - topic.timestamp > 0

def purgeNode (ageLimit : ℤ) (db : Db) (id : ℕ) : Db :=
  match db.heap id with
  | some topic =>
    if nodeOlderThan topic ageLimit then
      topicDecref { db with hashtable := db.hashtable.erase id, lru := db.lru.erase id } id
    else db
  | none => db

def purgeTopicsOlderThan (db : Db) (ageLimit : ℤ) : Db := db.lru.foldl (purgeNode ageLimit) db

/-- From `rkt_found` on. -/
def rktFound (db : Db) (id : ℕ) (now : ℤ) : Db :=
  let db := purgeTopicsOlderThan db (now - topicLiveTimeS)
  { db with
    heap := Function.update db.heap id ((db.heap id).map fun topic ↦ ⟨topic.refcnt + 1, now⟩)
    lru := db.lru ++ [id] }

def topicListRemove (db : Db) (id : ℕ) : Db := { db with lru := db.lru.erase id }

/-- Where a thread is in `topics_db_get_topic`: the lock is given up while it creates a topic. -/
inductive Thread
  | idle
  | creating (topic : CStr) (now : ℤ)
  | created (topic : CStr) (now : ℤ) (id : ℕ)
  deriving DecidableEq

structure Handle where
  requested : CStr
  id : ℕ
  deriving DecidableEq

structure State where
  db : Db
  threads : List Thread
  handles : List Handle
  done : Bool

def State.init (threads : ℕ) : State := ⟨topicsDbNew, List.replicate threads .idle, [], false⟩

inductive Action
  | getTopic (t : ℕ) (topic : CStr) (now : ℤ)
  | createTopic (t : ℕ) (ok : Bool)
  | insertTopic (t : ℕ)
  | decref (k : ℕ)
  | topicsDbDone

/-- The first locked section of `topics_db_get_topic`. -/
def getTopic (s : State) (t : ℕ) (topic : CStr) (now : ℤ) : State :=
  match tommyHashdynSearch s.db topic with
  | some id =>
    { s with
      db := rktFound (topicListRemove s.db id) id now
      handles := ⟨topic, id⟩ :: s.handles }
  | none => { s with threads := s.threads.set t (.creating topic now) }

/-- The second one, after `id` was created. -/
def insertTopic (s : State) (t : ℕ) (topic : CStr) (now : ℤ) (id : ℕ) : State :=
  match tommyHashdynSearch s.db topic with
  | some aux =>
    { s with
      db := rktFound (topicListRemove (topicDecref s.db id) aux) aux now
      threads := s.threads.set t .idle
      handles := ⟨topic, aux⟩ :: s.handles }
  | none =>
    { s with
      db := rktFound { s.db with hashtable := s.db.hashtable ++ [id] } id now
      threads := s.threads.set t .idle
      handles := ⟨topic, id⟩ :: s.handles }

def topicsDbDone (db : Db) : Db :=
  { db.hashtable.foldl topicDecref db with hashtable := [], lru := [] }

def step : Action → State → Option State
  | .getTopic t topic now, s =>
    if s.threads[t]? = some .idle ∧ ¬ s.done then some (getTopic s t topic now) else none
  | .createTopic t ok, s =>
    match s.threads[t]? with
    | some (.creating topic now) =>
      if ok then
        some { s with
          db := newTopicS s.db topic
          threads := s.threads.set t (.created topic now s.db.next) }
      else some { s with threads := s.threads.set t .idle }
    | _ => none
  | .insertTopic t, s =>
    match s.threads[t]? with
    | some (.created topic now id) => some (insertTopic s t topic now id)
    | _ => none
  | .decref k, s =>
    match s.handles[k]? with
    | some handle => some { s with
        db := topicDecref s.db handle.id
        handles := s.handles.eraseIdx k }
    | none => none
  | .topicsDbDone, s =>
    if (∀ thread ∈ s.threads, thread = .idle) ∧ ¬ s.done then
      some { s with db := topicsDbDone s.db, done := true }
    else none

def Thread.creates (id : ℕ) : Thread → Bool
  | .created _ _ id' => id' = id
  | _ => false

@[simp]
theorem Thread.creates_idle (id : ℕ) : Thread.idle.creates id = false := rfl

@[simp]
theorem Thread.creates_creating (id : ℕ) (topic : CStr) (now : ℤ) :
    (Thread.creating topic now).creates id = false := rfl

@[simp]
theorem Thread.creates_created (id id' : ℕ) (topic : CStr) (now : ℤ) :
    (Thread.created topic now id').creates id = decide (id' = id) := rfl

/-- One reference for the database or for the thread that is still to insert the topic, and one for
each handle. -/
def State.refs (s : State) (id : ℕ) : ℕ :=
  (if id ∈ s.db.hashtable ∨ ∃ thread ∈ s.threads, thread.creates id then 1 else 0) +
    s.handles.countP (·.id = id)

structure Consistent (s : State) : Prop where
  same : ¬ s.done → ∀ id, id ∈ s.db.hashtable ↔ id ∈ s.db.lru
  once : s.db.hashtable.Nodup ∧ s.db.lru.Nodup
  distinct : ∀ id ∈ s.db.hashtable, ∀ id' ∈ s.db.hashtable,
    s.db.names id = s.db.names id' → id = id'
  refcnt : ∀ id topic, s.db.heap id = some topic → topic.refcnt = s.refs id
  destroyed : ∀ id < s.db.next, (s.db.heap id = none ↔ s.refs id = 0) ∧
    s.db.destroyed id = if s.refs id = 0 then 1 else 0
  handles : ∀ handle ∈ s.handles, s.db.names handle.id = handle.requested ∧
    (s.db.heap handle.id).isSome
  missed : ∀ t topic now s', tommyHashdynSearch s.db topic = none →
    step (.getTopic t topic now) s = some s' → s'.db = s.db ∧ s'.handles = s.handles
  failed : ∀ t s', step (.createTopic t false) s = some s' → s'.db = s.db ∧ s'.handles = s.handles

/-- The topics on the heap are those with references, and each counts its references. -/
structure Counts (db : Db) (refs : ℕ → ℕ) : Prop where
  refcnt : ∀ id topic, db.heap id = some topic → topic.refcnt = refs id
  live : ∀ id, (db.heap id).isSome ↔ 0 < refs id
  destroyed : ∀ id, db.destroyed id = if id < db.next ∧ refs id = 0 then 1 else 0
  fresh : ∀ id, db.next ≤ id → refs id = 0

/-- The table holds the topics of the list, and `out` while it is taken out of the list. -/
structure Stored (db : Db) (out : Option ℕ) : Prop where
  same : ∀ id, id ∈ db.hashtable ↔ id ∈ db.lru ∨ out = some id
  out_not_mem : ∀ id, out = some id → id ∉ db.lru
  table_nodup : db.hashtable.Nodup
  lru_nodup : db.lru.Nodup
  distinct : ∀ id ∈ db.hashtable, ∀ id' ∈ db.hashtable, db.names id = db.names id' → id = id'

/-- A database whose topics have `ext` references besides its own. -/
structure DbInv (db : Db) (out : Option ℕ) (ext : ℕ → ℕ) : Prop where
  stored : Stored db out
  counts : Counts db fun id ↦ db.hashtable.count id + ext id

@[simp]
theorem topicDecref_names (db : Db) (id : ℕ) : (topicDecref db id).names = db.names := by
  simp only [topicDecref]
  repeat' split
  all_goals rfl

@[simp]
theorem topicDecref_next (db : Db) (id : ℕ) : (topicDecref db id).next = db.next := by
  simp only [topicDecref]
  repeat' split
  all_goals rfl

@[simp]
theorem topicDecref_hashtable (db : Db) (id : ℕ) : (topicDecref db id).hashtable = db.hashtable := by
  simp only [topicDecref]
  repeat' split
  all_goals rfl

@[simp]
theorem topicDecref_lru (db : Db) (id : ℕ) : (topicDecref db id).lru = db.lru := by
  simp only [topicDecref]
  repeat' split
  all_goals rfl

theorem Counts.lt_next {db : Db} {refs : ℕ → ℕ} (h : Counts db refs) {id : ℕ} (hr : 0 < refs id) :
    id < db.next := by
  by_contra hle
  rw [h.fresh id (not_lt.mp hle)] at hr
  exact lt_irrefl 0 hr

theorem Counts.topicDecref {db : Db} {refs : ℕ → ℕ} (h : Counts db refs) (id : ℕ)
    (hr : 0 < refs id) :
    Counts (topicDecref db id) (Function.update refs id (refs id - 1)) := by
  obtain ⟨topic, htopic⟩ := Option.isSome_iff_exists.mp ((h.live id).mpr hr)
  have hcnt := h.refcnt id topic htopic
  have hlt := h.lt_next hr
  have hfresh : ∀ id', db.next ≤ id' → Function.update refs id (refs id - 1) id' = 0 := by
    intro id' hle
    rw [Function.update_of_ne (by omega), h.fresh id' hle]
  by_cases hlast : topic.refcnt - 1 = 0
  · have hone : refs id - 1 = 0 := by omega
    have hdb : TopicDatabase.topicDecref db id = { db with
        heap := Function.update db.heap id none
        destroyed := Function.update db.destroyed id (db.destroyed id + 1) } := by
      simp [TopicDatabase.topicDecref, htopic, hlast]
    rw [hdb]
    refine ⟨fun id' topic' h' ↦ ?_, fun id' ↦ ?_, fun id' ↦ ?_, hfresh⟩
    · by_cases hid : id' = id
      · simp [hid] at h'
      · simp only [Function.update_of_ne hid] at h' ⊢
        exact h.refcnt id' topic' h'
    · by_cases hid : id' = id
      · simp [hid, hone]
      · simp only [Function.update_of_ne hid]
        exact h.live id'
    · by_cases hid : id' = id
      · simp [hid, hone, hlt, h.destroyed id, hr.ne']
      · simp only [Function.update_of_ne hid]
        exact h.destroyed id'
  · have hmore : refs id - 1 ≠ 0 := by omega
    have hdb : TopicDatabase.topicDecref db id = { db with
        heap := Function.update db.heap id (some { topic with refcnt := topic.refcnt - 1 }) } := by
      simp [TopicDatabase.topicDecref, htopic, hlast]
    rw [hdb]
    refine ⟨fun id' topic' h' ↦ ?_, fun id' ↦ ?_, fun id' ↦ ?_, hfresh⟩
    · by_cases hid : id' = id
      · subst hid
        simp only [Function.update_self, Option.some.injEq] at h' ⊢
        rw [← h', hcnt]
      · simp only [Function.update_of_ne hid] at h' ⊢
        exact h.refcnt id' topic' h'
    · by_cases hid : id' = id
      · simp [hid, Nat.pos_iff_ne_zero.mpr hmore]
      · simp only [Function.update_of_ne hid]
        exact h.live id'
    · by_cases hid : id' = id
      · simp [hid, hmore, h.destroyed id, hr.ne']
      · simp only [Function.update_of_ne hid]
        exact h.destroyed id'

theorem Counts.congr {db : Db} {refs refs' : ℕ → ℕ} (h : Counts db refs)
    (he : ∀ id, refs id = refs' id) : Counts db refs' := by
  rwa [← funext he]

theorem Counts.relink {db : Db} {refs : ℕ → ℕ} (h : Counts db refs) (hashtable lru : List ℕ) :
    Counts { db with hashtable := hashtable, lru := lru } refs :=
  ⟨h.refcnt, h.live, h.destroyed, h.fresh⟩

theorem DbInv.live {db : Db} {out : Option ℕ} {ext : ℕ → ℕ} (h : DbInv db out ext) {id : ℕ}
    (hid : id ∈ db.hashtable) : ∃ topic, db.heap id = some topic := by
  refine Option.isSome_iff_exists.mp ((h.counts.live id).mpr ?_)
  have hpos := List.count_pos_iff.mpr hid
  omega

theorem DbInv.topicDecref {db : Db} {out : Option ℕ} {ext : ℕ → ℕ} (h : DbInv db out ext) {id : ℕ}
    (hid : 0 < ext id) : DbInv (topicDecref db id) out (Function.update ext id (ext id - 1)) := by
  refine ⟨?_, (h.counts.topicDecref id (by omega)).congr fun id' ↦ ?_⟩
  · obtain ⟨hsame, hout, htable, hlru, hdistinct⟩ := h.stored
    constructor <;> simpa
  · by_cases hid' : id' = id
    · simp only [hid', Function.update_self, topicDecref_hashtable]
      omega
    · simp [hid']

theorem Stored.purge {db : Db} {out : Option ℕ} (h : Stored db out) {id : ℕ} (hid : id ∈ db.lru) :
    Stored { db with hashtable := db.hashtable.erase id, lru := db.lru.erase id } out := by
  have hsub (id' : ℕ) (hm : id' ∈ db.hashtable.erase id) : id' ∈ db.hashtable :=
    List.mem_of_mem_erase hm
  refine ⟨fun id' ↦ ?_, fun id' hout hm ↦ ?_, h.table_nodup.erase id, h.lru_nodup.erase id,
    fun x hx y hy hxy ↦ h.distinct x (hsub x hx) y (hsub y hy) hxy⟩
  · have hne : out = some id' → id' ≠ id := by
      rintro hout rfl
      exact h.out_not_mem id' hout hid
    simp only [h.table_nodup.mem_erase_iff, h.lru_nodup.mem_erase_iff, h.same id']
    tauto
  · exact h.out_not_mem id' hout (List.mem_of_mem_erase hm)

theorem DbInv.purgeNode {db : Db} {out : Option ℕ} {ext : ℕ → ℕ} (h : DbInv db out ext)
    (ageLimit : ℤ) {id : ℕ} (hid : id ∈ db.lru) : DbInv (purgeNode ageLimit db id) out ext := by
  have htable : id ∈ db.hashtable := (h.stored.same id).mpr (.inl hid)
  obtain ⟨topic, htopic⟩ := h.live htable
  simp only [TopicDatabase.purgeNode, htopic]
  split
  · have hcounts := (h.counts.relink (db.hashtable.erase id) (db.lru.erase id)).topicDecref id
      (by have hpos := List.count_pos_iff.mpr htable; omega)
    refine ⟨?_, hcounts.congr fun id' ↦ ?_⟩
    · obtain ⟨hsame, hout, htable, hlru, hdistinct⟩ := h.stored.purge hid
      constructor <;> simpa
    · by_cases hid' : id' = id
      · subst hid'
        simp only [Function.update_self, topicDecref_hashtable, List.count_erase_self]
        have hpos := List.count_pos_iff.mpr htable
        omega
      · simp [hid', List.count_erase_of_ne hid']
  · exact h

@[simp]
theorem purgeNode_names (ageLimit : ℤ) (db : Db) (id : ℕ) :
    (purgeNode ageLimit db id).names = db.names := by
  unfold purgeNode
  repeat' split
  all_goals simp

@[simp]
theorem purgeNode_next (ageLimit : ℤ) (db : Db) (id : ℕ) :
    (purgeNode ageLimit db id).next = db.next := by
  unfold purgeNode
  repeat' split
  all_goals simp

theorem mem_purgeNode_lru {ageLimit : ℤ} {db : Db} {id id' : ℕ} (hne : id' ≠ id)
    (hm : id' ∈ db.lru) : id' ∈ (purgeNode ageLimit db id).lru := by
  unfold purgeNode
  repeat' split
  · simpa using (List.mem_erase_of_ne hne).mpr hm
  · exact hm
  · exact hm

theorem mem_of_mem_purgeNode {ageLimit : ℤ} {db : Db} {id id' : ℕ}
    (hm : id' ∈ (purgeNode ageLimit db id).hashtable) : id' ∈ db.hashtable := by
  unfold purgeNode at hm
  repeat' split at hm
  · rw [topicDecref_hashtable] at hm
    exact List.mem_of_mem_erase hm
  · exact hm
  · exact hm

theorem DbInv.purge {db : Db} {out : Option ℕ} {ext : ℕ → ℕ} (h : DbInv db out ext) (ageLimit : ℤ)
    {ids : List ℕ} (hsub : ∀ id ∈ ids, id ∈ db.lru) (hnodup : ids.Nodup) :
    DbInv (ids.foldl (TopicDatabase.purgeNode ageLimit) db) out ext ∧
      (ids.foldl (TopicDatabase.purgeNode ageLimit) db).names = db.names ∧
      (ids.foldl (TopicDatabase.purgeNode ageLimit) db).next = db.next ∧
      ∀ id ∈ (ids.foldl (TopicDatabase.purgeNode ageLimit) db).hashtable, id ∈ db.hashtable := by
  induction ids generalizing db with
  | nil => exact ⟨h, rfl, rfl, fun id hid ↦ hid⟩
  | cons id ids ih =>
    obtain ⟨hid, hids⟩ := List.nodup_cons.mp hnodup
    have hrest : ∀ id' ∈ ids, id' ∈ (TopicDatabase.purgeNode ageLimit db id).lru := by
      intro id' hm
      refine mem_purgeNode_lru ?_ (hsub id' (.tail _ hm))
      rintro rfl
      exact hid hm
    obtain ⟨hinv, hnames, hnext, hmem⟩ := ih (h.purgeNode ageLimit (hsub id (.head _))) hrest hids
    refine ⟨hinv, hnames.trans (purgeNode_names _ _ _), hnext.trans (purgeNode_next _ _ _), ?_⟩
    intro id' hm
    exact mem_of_mem_purgeNode (hmem id' hm)

theorem Counts.incref {db : Db} {refs : ℕ → ℕ} (h : Counts db refs) {id : ℕ} (hr : 0 < refs id)
    (now : ℤ) (lru : List ℕ) :
    Counts { db with
      heap := Function.update db.heap id ((db.heap id).map fun topic ↦ ⟨topic.refcnt + 1, now⟩)
      lru := lru } (Function.update refs id (refs id + 1)) := by
  obtain ⟨topic, htopic⟩ := Option.isSome_iff_exists.mp ((h.live id).mpr hr)
  have hlt := h.lt_next hr
  refine ⟨fun id' topic' h' ↦ ?_, fun id' ↦ ?_, fun id' ↦ ?_, fun id' hle ↦ ?_⟩
  · by_cases hid : id' = id
    · subst hid
      simp only [Function.update_self, htopic, Option.map_some, Option.some.injEq] at h' ⊢
      rw [← h', h.refcnt id' topic htopic]
    · simp only [Function.update_of_ne hid] at h' ⊢
      exact h.refcnt id' topic' h'
  · by_cases hid : id' = id
    · simp [hid, htopic]
    · simp only [Function.update_of_ne hid]
      exact h.live id'
  · by_cases hid : id' = id
    · simp [hid, h.destroyed id, hr.ne']
    · simp only [Function.update_of_ne hid]
      exact h.destroyed id'
  · have hne : id' ≠ id := by
      have hle' : db.next ≤ id' := hle
      omega
    rw [Function.update_of_ne hne]
    exact h.fresh id' hle

theorem DbInv.rktFound {db : Db} {ext : ℕ → ℕ} {id : ℕ} (h : DbInv db (some id) ext) (now : ℤ) :
    DbInv (rktFound db id now) none (Function.update ext id (ext id + 1)) ∧
      (TopicDatabase.rktFound db id now).names = db.names ∧
      (TopicDatabase.rktFound db id now).next = db.next ∧
      ∀ id' ∈ (TopicDatabase.rktFound db id now).hashtable, id' ∈ db.hashtable := by
  obtain ⟨hinv, hnames, hnext, hmem⟩ :=
    h.purge (now - topicLiveTimeS) (fun _ hm ↦ hm) h.stored.lru_nodup
  refine ⟨⟨⟨fun id' ↦ ?_, by simp, hinv.stored.table_nodup, ?_, hinv.stored.distinct⟩, ?_⟩,
    hnames, hnext, hmem⟩
  · have hsame := hinv.stored.same id'
    simp only [Option.some.injEq] at hsame
    simp only [TopicDatabase.rktFound, purgeTopicsOlderThan, List.mem_append, List.mem_singleton,
      reduceCtorEq, or_false, hsame]
    tauto
  · refine List.nodup_append.mpr ⟨hinv.stored.lru_nodup, by simp, ?_⟩
    rintro id' hm _ hm' rfl
    rw [List.mem_singleton] at hm'
    exact hinv.stored.out_not_mem id rfl (hm' ▸ hm)
  · have hin := (hinv.stored.same id).mpr (.inr rfl)
    have hpos := List.count_pos_iff.mpr hin
    refine (hinv.counts.incref (by omega) now _).congr fun id' ↦ ?_
    by_cases hid : id' = id
    · subst hid
      simp only [Function.update_self]
      exact Nat.add_assoc _ _ _
    · simp only [Function.update_of_ne hid]
      rfl

theorem tommyHashdynSearch_some {db : Db} {topic : CStr} {id : ℕ}
    (h : tommyHashdynSearch db topic = some id) : id ∈ db.hashtable ∧ db.names id = topic := by
  have hname := List.find?_some h
  rw [decide_eq_true_eq, topicsCmp, strcmp_eq_zero_iff] at hname
  exact ⟨List.mem_of_find?_eq_some h, hname⟩

theorem tommyHashdynSearch_none {db : Db} {topic : CStr} (h : tommyHashdynSearch db topic = none)
    {id : ℕ} (hid : id ∈ db.hashtable) : db.names id ≠ topic := by
  have hcmp := List.find?_eq_none.mp h id hid
  rw [decide_eq_true_eq, topicsCmp, strcmp_eq_zero_iff] at hcmp
  exact hcmp

theorem DbInv.topicListRemove {db : Db} {ext : ℕ → ℕ} (h : DbInv db none ext) {id : ℕ}
    (hid : id ∈ db.hashtable) : DbInv (topicListRemove db id) (some id) ext := by
  have hlru := h.stored.lru_nodup
  refine ⟨⟨fun id' ↦ ?_, ?_, h.stored.table_nodup, hlru.erase id, h.stored.distinct⟩,
    h.counts.relink db.hashtable (db.lru.erase id)⟩
  · have hmem : id ∈ db.lru := by simpa using (h.stored.same id).mp hid
    simp only [TopicDatabase.topicListRemove, h.stored.same id', reduceCtorEq, or_false,
      hlru.mem_erase_iff, Option.some.injEq]
    constructor
    · intro hm
      by_cases heq : id' = id
      · exact .inr heq.symm
      · exact .inl ⟨heq, hm⟩
    · rintro (⟨-, hm⟩ | rfl)
      · exact hm
      · exact hmem
  · rintro id' hout
    cases hout
    exact hlru.not_mem_erase

theorem DbInv.insert {db : Db} {ext : ℕ → ℕ} (h : DbInv db none ext) {id : ℕ}
    (hid : id ∉ db.hashtable) (hext : 0 < ext id)
    (hname : ∀ id' ∈ db.hashtable, db.names id' ≠ db.names id) :
    DbInv { db with hashtable := db.hashtable ++ [id] } (some id)
      (Function.update ext id (ext id - 1)) := by
  have hlru : id ∉ db.lru := by simpa [h.stored.same id] using hid
  refine ⟨⟨fun id' ↦ ?_, ?_, ?_, h.stored.lru_nodup, ?_⟩, ?_⟩
  · have hsame := h.stored.same id'
    simp only [reduceCtorEq, or_false] at hsame
    simp only [List.mem_append, List.mem_singleton, hsame, Option.some.injEq, eq_comm]
  · rintro id' hout
    cases hout
    exact hlru
  · refine List.nodup_append.mpr ⟨h.stored.table_nodup, by simp, ?_⟩
    rintro id' hm _ hm' rfl
    rw [List.mem_singleton] at hm'
    exact hid (hm' ▸ hm)
  · intro x hx y hy hxy
    rcases List.mem_append.mp hx with hx | hx <;> rcases List.mem_append.mp hy with hy | hy
    · exact h.stored.distinct x hx y hy hxy
    · rw [List.mem_singleton] at hy
      exact absurd (hy ▸ hxy) (hname x hx)
    · rw [List.mem_singleton] at hx
      exact absurd (hx ▸ hxy).symm (hname y hy)
    · rw [List.mem_singleton] at hx hy
      rw [hx, hy]
  · refine (h.counts.relink (db.hashtable ++ [id]) db.lru).congr fun id' ↦ ?_
    by_cases hid' : id' = id
    · subst hid'
      simp only [List.count_append, List.count_singleton_self, Function.update_self]
      omega
    · simp [hid', Ne.symm hid']

theorem DbInv.ne_next {db : Db} {out : Option ℕ} {ext : ℕ → ℕ} (h : DbInv db out ext) {id : ℕ}
    (hid : id ∈ db.hashtable) : id ≠ db.next := by
  rintro rfl
  have hzero := h.counts.fresh db.next le_rfl
  have hpos := List.count_pos_iff.mpr hid
  omega

theorem DbInv.newTopicS {db : Db} {ext : ℕ → ℕ} (h : DbInv db none ext) (topic : CStr) :
    DbInv (newTopicS db topic) none (Function.update ext db.next (ext db.next + 1)) := by
  have hzero := h.counts.fresh db.next le_rfl
  have hne {id : ℕ} (hid : id ∈ db.hashtable) : id ≠ db.next := h.ne_next hid
  refine ⟨⟨h.stored.same, by simp, h.stored.table_nodup, h.stored.lru_nodup, ?_⟩, ?_⟩
  · intro x hx y hy hxy
    simp only [TopicDatabase.newTopicS, Function.update_of_ne (hne hx),
      Function.update_of_ne (hne hy)] at hxy
    exact h.stored.distinct x hx y hy hxy
  · refine ⟨fun id topic' h' ↦ ?_, fun id ↦ ?_, fun id ↦ ?_, fun id hle ↦ ?_⟩
    · by_cases hid : id = db.next
      · subst hid
        simp only [TopicDatabase.newTopicS, Function.update_self, Option.some.injEq] at h' ⊢
        rw [← h']
        dsimp only
        omega
      · simp only [TopicDatabase.newTopicS, Function.update_of_ne hid] at h' ⊢
        exact h.counts.refcnt id topic' h'
    · by_cases hid : id = db.next
      · subst hid
        simp only [TopicDatabase.newTopicS, Function.update_self, Option.isSome_some, true_iff]
        omega
      · simp only [TopicDatabase.newTopicS, Function.update_of_ne hid]
        exact h.counts.live id
    · by_cases hid : id = db.next
      · subst hid
        have hd := h.counts.destroyed db.next
        simp only [lt_irrefl, false_and, if_false] at hd
        simp [TopicDatabase.newTopicS, hd]
      · have hd := h.counts.destroyed id
        have hlt : id < db.next + 1 ↔ id < db.next := by omega
        simp only [TopicDatabase.newTopicS, Function.update_of_ne hid, hlt]
        exact hd
    · have hle' : db.next + 1 ≤ id := hle
      rw [Function.update_of_ne (by omega)]
      exact h.counts.fresh id (by omega)

theorem Counts.topicsDbDone {db : Db} {ext : ℕ → ℕ} {ids : List ℕ}
    (h : Counts db fun id ↦ ids.count id + ext id) : Counts (ids.foldl TopicDatabase.topicDecref db) ext := by
  induction ids generalizing db with
  | nil => exact h.congr fun id ↦ by simp
  | cons id ids ih =>
    have hpos : 0 < (id :: ids).count id + ext id := by
      rw [List.count_cons_self]
      omega
    refine ih ((h.topicDecref id hpos).congr fun id' ↦ ?_)
    by_cases hid : id' = id
    · subst hid
      simp only [Function.update_self, List.count_cons_self]
      omega
    · simp [hid, Ne.symm hid]

theorem foldl_names {f : Db → ℕ → Db} (hf : ∀ db id, (f db id).names = db.names) (db : Db)
    (ids : List ℕ) : (ids.foldl f db).names = db.names := by
  induction ids generalizing db with
  | nil => rfl
  | cons id ids ih => rw [List.foldl_cons, ih, hf]

def State.ext (s : State) (id : ℕ) : ℕ :=
  s.threads.countP (·.creates id) + s.handles.countP (·.id = id)

structure Inv (s : State) : Prop where
  db : DbInv s.db none s.ext
  pending : ∀ topic now id, .created topic now id ∈ s.threads →
    id ∉ s.db.hashtable ∧ s.db.names id = topic
  alone : ∀ id, s.threads.countP (·.creates id) ≤ 1
  handles : ∀ handle ∈ s.handles, s.db.names handle.id = handle.requested

theorem countP_set_add {α : Type*} (p : α → Bool) {l : List α} {i : ℕ} {x : α} (y : α)
    (h : l[i]? = some x) :
    (l.set i y).countP p + (if p x then 1 else 0) = l.countP p + if p y then 1 else 0 := by
  obtain ⟨hi, hx⟩ := List.getElem?_eq_some_iff.mp h
  rw [List.countP_set hi, hx]
  by_cases hp : p x
  · have hpos : 0 < l.countP p := List.countP_pos_iff.mpr ⟨x, List.mem_of_getElem? h, hp⟩
    simp only [hp, if_true]
    omega
  · simp [hp]

theorem inv_init (n : ℕ) : Inv (.init n) where
  db := by
    refine ⟨⟨by simp [State.init, topicsDbNew], by simp, List.nodup_nil, List.nodup_nil,
      by simp [State.init, topicsDbNew]⟩, ⟨?_, ?_, ?_, ?_⟩⟩ <;>
    simp [State.init, topicsDbNew, State.ext, List.countP_replicate]
  pending topic now id h := by simp [State.init] at h
  alone id := by simp [State.init, List.countP_replicate]
  handles := by simp [State.init]

theorem Inv.congr_ext {s : State} {db : Db} {ext : ℕ → ℕ} (h : DbInv db none ext)
    (he : ∀ id, ext id = s.ext id) : DbInv db none s.ext := by
  rwa [← funext he]

theorem Inv.setThread {s : State} (h : Inv s) {t : ℕ} {old new : Thread}
    (ht : s.threads[t]? = some old) (hold : ∀ id, old.creates id = false)
    (hnew : ∀ id, new.creates id = false) : Inv { s with threads := s.threads.set t new } := by
  have hcount (id : ℕ) :
      (s.threads.set t new).countP (·.creates id) = s.threads.countP (·.creates id) := by
    have hset := countP_set_add (·.creates id) new ht
    simpa [hold, hnew] using hset
  refine ⟨Inv.congr_ext h.db fun id ↦ ?_, fun topic now id hm ↦ ?_, fun id ↦ ?_, h.handles⟩
  · simp only [State.ext, hcount]
  · rcases List.mem_or_eq_of_mem_set hm with hm | hm
    · exact h.pending topic now id hm
    · have hfalse := hnew id
      simp [← hm] at hfalse
  · simp only [hcount]
    exact h.alone id

theorem Inv.getTopic {s : State} (h : Inv s) {t : ℕ} (ht : s.threads[t]? = some .idle)
    (topic : CStr) (now : ℤ) : Inv (getTopic s t topic now) := by
  unfold TopicDatabase.getTopic
  cases hsearch : tommyHashdynSearch s.db topic with
  | none => exact h.setThread ht (fun _ ↦ rfl) (fun _ ↦ rfl)
  | some id =>
    obtain ⟨hid, hname⟩ := tommyHashdynSearch_some hsearch
    obtain ⟨hinv, hnames, -, hmem⟩ := (h.db.topicListRemove hid).rktFound now
    refine ⟨Inv.congr_ext hinv fun id' ↦ ?_, fun topic' now' id' hm ↦ ?_, h.alone, ?_⟩
    · by_cases hid' : id' = id
      · subst hid'
        simp only [Function.update_self, State.ext, List.countP_cons, decide_true, if_true]
        omega
      · simp [hid', State.ext, Ne.symm hid']
    · obtain ⟨hnot, hn⟩ := h.pending topic' now' id' hm
      dsimp only
      rw [hnames]
      exact ⟨fun hin ↦ hnot (hmem id' hin), hn⟩
    · intro handle hm
      dsimp only
      rw [hnames]
      rcases List.mem_cons.mp hm with rfl | hm
      · exact hname
      · exact h.handles handle hm

theorem Inv.createTopic {s : State} (h : Inv s) {t : ℕ} {topic : CStr} {now : ℤ}
    (ht : s.threads[t]? = some (.creating topic now)) :
    Inv { s with
      db := newTopicS s.db topic
      threads := s.threads.set t (.created topic now s.db.next) } := by
  have hcount (id : ℕ) : (s.threads.set t (.created topic now s.db.next)).countP (·.creates id) =
      s.threads.countP (·.creates id) + if s.db.next = id then 1 else 0 := by
    have hset := countP_set_add (·.creates id) (.created topic now s.db.next) ht
    simpa using hset
  have hzero := h.db.counts.fresh s.db.next le_rfl
  have hold {id : ℕ} (hr : 0 < s.db.hashtable.count id + s.ext id) :
      (newTopicS s.db topic).names id = s.db.names id :=
    Function.update_of_ne (h.db.counts.lt_next hr).ne _ _
  refine ⟨Inv.congr_ext (h.db.newTopicS topic) fun id ↦ ?_, fun topic' now' id hm ↦ ?_,
    fun id ↦ ?_, fun handle hm ↦ ?_⟩
  · by_cases hid : id = s.db.next
    · subst hid
      simp only [Function.update_self, State.ext, hcount, if_true]
      omega
    · simp [hid, State.ext, hcount, Ne.symm hid]
  · rcases List.mem_or_eq_of_mem_set hm with hm | hm
    · obtain ⟨hnot, hname⟩ := h.pending topic' now' id hm
      have hpos : 0 < s.threads.countP (·.creates id) :=
        List.countP_pos_iff.mpr ⟨_, hm, by simp⟩
      exact ⟨hnot, (hold (by simp only [State.ext]; omega)).trans hname⟩
    · cases hm
      refine ⟨fun hin ↦ ?_, Function.update_self _ _ _⟩
      have hpos := List.count_pos_iff.mpr hin
      simp only [TopicDatabase.newTopicS] at hpos
      omega
  · have halone := h.alone id
    simp only [hcount]
    split
    · rename_i hid
      subst hid
      simp only [State.ext] at hzero
      omega
    · exact halone
  · have hpos : 0 < s.handles.countP (·.id = handle.id) :=
      List.countP_pos_iff.mpr ⟨handle, hm, by simp⟩
    exact (hold (by simp only [State.ext]; omega)).trans (h.handles handle hm)

theorem State.ext_leave {s : State} {t : ℕ} {topic : CStr} {now : ℤ} {id : ℕ} (ret : ℕ) (db : Db)
    (ht : s.threads[t]? = some (.created topic now id)) (id' : ℕ) :
    Function.update (Function.update s.ext id (s.ext id - 1)) ret
        (Function.update s.ext id (s.ext id - 1) ret + 1) id' =
      State.ext { s with
        db := db
        threads := s.threads.set t .idle
        handles := ⟨topic, ret⟩ :: s.handles } id' := by
  have hown := countP_set_add (·.creates id') .idle ht
  simp only [Thread.creates_idle, Bool.false_eq_true, if_false, Thread.creates_created,
    decide_eq_true_eq, Nat.add_zero] at hown
  have hcons : (Handle.mk topic ret :: s.handles).countP (·.id = id') =
      s.handles.countP (·.id = id') + if ret = id' then 1 else 0 := by
    simp [List.countP_cons]
  by_cases hret' : id' = ret
  · subst hret'
    rw [Function.update_self]
    by_cases hid : id' = id
    · subst hid
      simp only [Function.update_self, State.ext, hcons, if_true] at hown ⊢
      omega
    · simp only [Function.update_of_ne hid, State.ext, hcons, if_neg (Ne.symm hid),
        if_true] at hown ⊢
      omega
  · rw [Function.update_of_ne hret']
    by_cases hid : id' = id
    · subst hid
      simp only [Function.update_self, State.ext, hcons, if_neg (Ne.symm hret'),
        if_true] at hown ⊢
      omega
    · simp only [Function.update_of_ne hid, State.ext, hcons, if_neg (Ne.symm hid),
        if_neg (Ne.symm hret')] at hown ⊢
      omega

theorem Inv.leave {s : State} (h : Inv s) {t : ℕ} {topic : CStr} {now : ℤ} {id ret : ℕ} {db : Db}
    (ht : s.threads[t]? = some (.created topic now id))
    (hinv : DbInv db none (Function.update (Function.update s.ext id (s.ext id - 1)) ret
      (Function.update s.ext id (s.ext id - 1) ret + 1)))
    (hnames : db.names = s.db.names) (hret : s.db.names ret = topic)
    (hsub : ∀ id' ∈ db.hashtable, id' ∈ s.db.hashtable ∨ id' = id) :
    Inv { s with
      db := db
      threads := s.threads.set t .idle
      handles := ⟨topic, ret⟩ :: s.handles } := by
  have hmem := List.mem_of_getElem? ht
  have hset (id' : ℕ) := countP_set_add (·.creates id') .idle ht
  simp only [Thread.creates_idle, Bool.false_eq_true, if_false, Thread.creates_created,
    decide_eq_true_eq, Nat.add_zero] at hset
  refine ⟨Inv.congr_ext hinv fun id' ↦ State.ext_leave ret db ht id', fun topic' now' id' hm ↦ ?_,
    fun id' ↦ ?_, fun handle hm ↦ ?_⟩
  · have hm' : .created topic' now' id' ∈ s.threads := by
      rcases List.mem_or_eq_of_mem_set hm with hm | hm
      · exact hm
      · cases hm
    obtain ⟨hnot, hname⟩ := h.pending topic' now' id' hm'
    have hleft : 0 < (s.threads.set t .idle).countP (·.creates id') :=
      List.countP_pos_iff.mpr ⟨_, hm, by simp⟩
    have hone := h.alone id'
    have hother := hset id'
    refine ⟨fun hin ↦ ?_, (congrFun hnames id').trans hname⟩
    rcases hsub id' hin with hin | rfl
    · exact hnot hin
    · rw [if_pos rfl] at hother
      omega
  · have hone := h.alone id'
    have hother := hset id'
    dsimp only
    omega
  · dsimp only
    rw [hnames]
    rcases List.mem_cons.mp hm with rfl | hm
    · exact hret
    · exact h.handles handle hm

theorem Inv.insertTopic {s : State} (h : Inv s) {t : ℕ} {topic : CStr} {now : ℤ} {id : ℕ}
    (ht : s.threads[t]? = some (.created topic now id)) :
    Inv (insertTopic s t topic now id) := by
  have hmem := List.mem_of_getElem? ht
  obtain ⟨hnot, hname⟩ := h.pending topic now id hmem
  have hext : 0 < s.ext id := by
    have hpos : 0 < s.threads.countP (·.creates id) :=
      List.countP_pos_iff.mpr ⟨_, hmem, by simp⟩
    simp only [State.ext]
    omega
  unfold TopicDatabase.insertTopic
  cases hsearch : tommyHashdynSearch s.db topic with
  | some aux =>
    obtain ⟨haux, hauxname⟩ := tommyHashdynSearch_some hsearch
    have haux' : aux ∈ (topicDecref s.db id).hashtable := by simpa using haux
    obtain ⟨hinv, hnames, -, hsub⟩ := ((h.db.topicDecref hext).topicListRemove haux').rktFound now
    refine h.leave ht hinv (hnames.trans (topicDecref_names _ _)) hauxname fun id' hin ↦ ?_
    have hin' := hsub id' hin
    exact .inl (by simpa [topicListRemove] using hin')
  | none =>
    have hother : ∀ id' ∈ s.db.hashtable, s.db.names id' ≠ s.db.names id := by
      intro id' hin
      rw [hname]
      exact tommyHashdynSearch_none hsearch hin
    obtain ⟨hinv, hnames, -, hsub⟩ := (h.db.insert hnot hext hother).rktFound now
    refine h.leave ht hinv hnames hname fun id' hin ↦ ?_
    simpa using hsub id' hin

theorem Inv.decref {s : State} (h : Inv s) {k : ℕ} {handle : Handle}
    (hk : s.handles[k]? = some handle) :
    Inv { s with db := topicDecref s.db handle.id, handles := s.handles.eraseIdx k } := by
  obtain ⟨hlt, hget⟩ := List.getElem?_eq_some_iff.mp hk
  have hperm := List.getElem_cons_eraseIdx_perm hlt
  rw [hget] at hperm
  have hcount (id : ℕ) : s.handles.countP (·.id = id) =
      (s.handles.eraseIdx k).countP (·.id = id) + if handle.id = id then 1 else 0 := by
    rw [← hperm.countP_eq, List.countP_cons]
    simp
  have hext : 0 < s.ext handle.id := by
    have hown := hcount handle.id
    rw [if_pos rfl] at hown
    simp only [State.ext]
    omega
  refine ⟨Inv.congr_ext (h.db.topicDecref hext) fun id ↦ ?_, fun topic now id hm ↦ ?_, h.alone,
    fun handle' hm ↦ ?_⟩
  · have hid := hcount id
    by_cases heq : id = handle.id
    · subst heq
      rw [if_pos rfl] at hid
      simp only [Function.update_self, State.ext, hid]
      omega
    · simp only [Function.update_of_ne heq, State.ext, hid, if_neg (Ne.symm heq), Nat.add_zero]
  · simpa using h.pending topic now id hm
  · simpa using h.handles handle' (List.mem_of_mem_eraseIdx hm)

theorem Inv.topicsDbDone {s : State} (h : Inv s) (hidle : ∀ thread ∈ s.threads, thread = .idle) :
    Inv { s with db := topicsDbDone s.db, done := true } := by
  refine ⟨⟨⟨by simp [TopicDatabase.topicsDbDone], by simp, List.nodup_nil, List.nodup_nil,
    by simp [TopicDatabase.topicsDbDone]⟩, ?_⟩, fun topic now id hm ↦ ?_, h.alone,
    fun handle hm ↦ ?_⟩
  · refine ((h.db.counts.topicsDbDone).relink [] []).congr fun id ↦ ?_
    simp [TopicDatabase.topicsDbDone, State.ext]
  · cases hidle _ hm
  · simpa [TopicDatabase.topicsDbDone, foldl_names topicDecref_names] using h.handles handle hm

theorem Inv.step {s s' : State} (h : Inv s) {a : Action} (hs : step a s = some s') : Inv s' := by
  cases a with
  | getTopic t topic now =>
    simp only [TopicDatabase.step] at hs
    split at hs <;> cases hs
    rename_i ht
    exact h.getTopic ht.1 topic now
  | createTopic t ok =>
    simp only [TopicDatabase.step] at hs
    split at hs
    · rename_i topic now ht
      split at hs <;> cases hs
      · exact h.createTopic ht
      · exact h.setThread ht (fun _ ↦ rfl) (fun _ ↦ rfl)
    · cases hs
  | insertTopic t =>
    simp only [TopicDatabase.step] at hs
    split at hs
    · rename_i topic now id ht
      cases hs
      exact h.insertTopic ht
    · cases hs
  | decref k =>
    simp only [TopicDatabase.step] at hs
    split at hs
    · rename_i handle hk
      cases hs
      exact h.decref hk
    · cases hs
  | topicsDbDone =>
    simp only [TopicDatabase.step] at hs
    split at hs <;> cases hs
    rename_i hidle
    exact h.topicsDbDone hidle.1

theorem Inv.refs_eq {s : State} (h : Inv s) (id : ℕ) :
    s.refs id = s.db.hashtable.count id + s.ext id := by
  have hone := h.alone id
  have hcreated : (∃ thread ∈ s.threads, thread.creates id) ↔
      0 < s.threads.countP (·.creates id) := List.countP_pos_iff.symm
  simp only [State.refs, hcreated]
  by_cases hin : id ∈ s.db.hashtable
  · have hnone : s.threads.countP (·.creates id) = 0 := by
      refine List.countP_eq_zero.mpr fun thread hm hc ↦ ?_
      cases thread with
      | idle => cases hc
      | creating topic now => cases hc
      | created topic now id' =>
        have hid : id' = id := by simpa using hc
        exact (h.pending topic now id' hm).1 (hid ▸ hin)
    have hcount := List.count_eq_one_of_mem h.db.stored.table_nodup hin
    simp only [State.ext, hnone, hcount, hin, true_or, if_true]
    omega
  · have hcount := List.count_eq_zero.mpr hin
    simp only [State.ext, hcount, hin, false_or]
    split <;> omega

theorem Inv.consistent {s : State} (h : Inv s) : Consistent s := by
  have hcounts := h.db.counts.congr fun id ↦ (h.refs_eq id).symm
  have hlive (id : ℕ) : s.db.heap id = none ↔ s.refs id = 0 := by
    have hl := hcounts.live id
    rw [← Option.not_isSome_iff_eq_none, hl]
    omega
  refine ⟨fun _ id ↦ ?_, ⟨h.db.stored.table_nodup, h.db.stored.lru_nodup⟩, h.db.stored.distinct,
    hcounts.refcnt, fun id hlt ↦ ⟨hlive id, ?_⟩, fun handle hm ↦ ⟨h.handles handle hm, ?_⟩, ?_, ?_⟩
  · simpa using h.db.stored.same id
  · rw [hcounts.destroyed id]
    simp [hlt]
  · refine (hcounts.live _).mpr ?_
    have hpos : 0 < s.handles.countP (·.id = handle.id) :=
      List.countP_pos_iff.mpr ⟨handle, hm, by simp⟩
    simp only [State.refs]
    omega
  · intro t topic now s' hnone hs
    simp only [TopicDatabase.step, TopicDatabase.getTopic, hnone] at hs
    split at hs <;> cases hs
    exact ⟨rfl, rfl⟩
  · intro t s' hs
    simp only [TopicDatabase.step] at hs
    split at hs <;> cases hs
    exact ⟨rfl, rfl⟩

theorem consistent_of_reachable {n : ℕ} {s : State} (h : Reachable step (.init n) s) :
    Consistent s :=
  (h.invariant (inv_init n) fun _ _ _ hi hs ↦ Inv.step hi hs).consistent

def createdTwice : List Action :=
  [.getTopic 0 (lit "t") 1000, .getTopic 1 (lit "t") 1001, .createTopic 0 true, .createTopic 1 true,
    .insertTopic 1, .insertTopic 0, .decref 0, .topicsDbDone, .decref 0]

theorem consistent_createdTwice :
    ∃ s, run step createdTwice (.init 2) = some s ∧ s.db.destroyed 0 = 1 ∧ s.db.destroyed 1 = 1 ∧
      Consistent s :=
  ⟨_, rfl, rfl, rfl, consistent_of_reachable (n := 2) (reachable_of_run .start createdTwice rfl)⟩

end N2Kafka.Util.TopicDatabase
