import N2Kafka.Util.TopicDatabase

namespace N2Kafka.Util.TopicDatabase

open Lib Lib.CString

/-- A call that no other one comes between; `created` is whether a new topic could be created. It
returns a topic, or nothing. -/
def topicsDbGetTopic (db : Db) (topic : CStr) (now : ℤ) (created : Bool) : Option ℕ × Db :=
  match tommyHashdynSearch db topic with
  | some id => (some id, rktFound (topicListRemove db id) id now)
  | none =>
    if created then
      let id := db.next
      let db := newTopicS db topic
      match tommyHashdynSearch db topic with
      | some aux => (some aux, rktFound (topicListRemove (topicDecref db id) aux) aux now)
      | none => (some id, rktFound { db with hashtable := db.hashtable ++ [id] } id now)
    else (none, db)

/-- The database, and the topics that its users have and are still to release. -/
structure Users where
  db : Db
  held : List ℕ

def Users.init : Users := ⟨topicsDbNew, []⟩

inductive Event
  | getTopic (topic : CStr) (now : ℤ) (created : Bool)
  | decref (k : ℕ)

def Event.time : Event → Option ℤ
  | .getTopic _ now _ => some now
  | .decref _ => none

def Event.returned (users : Users) : Event → Option ℕ
  | .getTopic topic now created => (topicsDbGetTopic users.db topic now created).1
  | .decref _ => none

def happen (users : Users) : Event → Users
  | .getTopic topic now created =>
    let call := topicsDbGetTopic users.db topic now created
    ⟨call.2, call.1.toList ++ users.held⟩
  | .decref k =>
    match users.held[k]? with
    | some id => ⟨topicDecref users.db id, users.held.eraseIdx k⟩
    | none => users

def after (events : List Event) : Users := events.foldl happen .init

theorem topicsDbGetTopic_steps (db : Db) (handles : List Handle) (topic : CStr) (now : ℤ)
    (created : Bool) : ∃ actions,
    Transition.run step actions ⟨db, [.idle], handles, false⟩ =
      some ⟨(topicsDbGetTopic db topic now created).2, [.idle],
        ((topicsDbGetTopic db topic now created).1.map (Handle.mk topic)).toList ++ handles,
        false⟩ := by
  unfold topicsDbGetTopic
  cases hsearch : tommyHashdynSearch db topic with
  | some id =>
    refine ⟨[.getTopic 0 topic now], ?_⟩
    simp [Transition.run, step, getTopic, hsearch]
  | none =>
    cases created with
    | false =>
      refine ⟨[.getTopic 0 topic now, .createTopic 0 false], ?_⟩
      simp [Transition.run, step, getTopic, hsearch]
    | true =>
      refine ⟨[.getTopic 0 topic now, .createTopic 0 true, .insertTopic 0], ?_⟩
      cases hagain : tommyHashdynSearch (newTopicS db topic) topic <;>
        simp [Transition.run, step, getTopic, insertTopic, hsearch, hagain]

/-- A topic of the table whose timestamp is not below the limit. -/
def Fresh (db : Db) (limit : ℤ) (id : ℕ) : Prop :=
  id ∈ db.hashtable ∧ ∃ topic, db.heap id = some topic ∧ limit ≤ topic.timestamp

theorem Fresh.mono {db : Db} {limit limit' : ℤ} {id : ℕ} (h : Fresh db limit id)
    (hle : limit' ≤ limit) : Fresh db limit' id := by
  obtain ⟨htable, topic, htopic, hlimit⟩ := h
  exact ⟨htable, topic, htopic, Int.le_trans hle hlimit⟩

theorem topicDecref_heap_of_ne {db : Db} {id id' : ℕ} (h : id' ≠ id) :
    (topicDecref db id).heap id' = db.heap id' := by
  unfold topicDecref
  repeat' split
  · exact Function.update_of_ne h _ _
  · exact Function.update_of_ne h _ _
  · rfl

theorem topicDecref_timestamp {db : Db} {id id' : ℕ} {topic : Topic}
    (h : (topicDecref db id).heap id' = some topic) :
    ∃ topic', db.heap id' = some topic' ∧ topic'.timestamp = topic.timestamp := by
  by_cases hid : id' = id
  · subst hid
    unfold topicDecref at h
    split at h
    · rename_i topic' htopic'
      split at h
      · simp at h
      · simp only [Function.update_self, Option.some.injEq] at h
        exact ⟨topic', htopic', by rw [← h]⟩
    · rename_i hnone
      rw [show db.heap id' = some topic from h] at hnone
      cases hnone
  · rw [topicDecref_heap_of_ne hid] at h
    exact ⟨topic, h, rfl⟩

theorem Fresh.purgeNode {db : Db} {limit : ℤ} {id : ℕ} (h : Fresh db limit id) (id' : ℕ) :
    (purgeNode limit db id').heap id = db.heap id ∧ Fresh (purgeNode limit db id') limit id := by
  obtain ⟨htable, topic, htopic, hlimit⟩ := h
  have hyoung : nodeOlderThan topic limit = false := by
    simp only [nodeOlderThan, decide_eq_false_iff_not]
    omega
  by_cases hid : id' = id
  · have hsame : TopicDatabase.purgeNode limit db id' = db := by
      simp [TopicDatabase.purgeNode, hid, htopic, hyoung]
    rw [hsame]
    exact ⟨rfl, htable, topic, htopic, hlimit⟩
  · have hheap : (TopicDatabase.purgeNode limit db id').heap id = db.heap id := by
      unfold TopicDatabase.purgeNode
      repeat' split
      · exact topicDecref_heap_of_ne (Ne.symm hid)
      · rfl
      · rfl
    have hin : id ∈ (TopicDatabase.purgeNode limit db id').hashtable := by
      unfold TopicDatabase.purgeNode
      repeat' split
      · rw [topicDecref_hashtable]
        exact (List.mem_erase_of_ne (Ne.symm hid)).mpr htable
      · exact htable
      · exact htable
    exact ⟨hheap, hin, topic, hheap.trans htopic, hlimit⟩

theorem Fresh.purge {db : Db} {limit : ℤ} {id : ℕ} (h : Fresh db limit id) (ids : List ℕ) :
    (ids.foldl (TopicDatabase.purgeNode limit) db).heap id = db.heap id ∧
      Fresh (ids.foldl (TopicDatabase.purgeNode limit) db) limit id := by
  induction ids generalizing db with
  | nil => exact ⟨rfl, h⟩
  | cons id' ids ih =>
    obtain ⟨hheap, hfresh⟩ := h.purgeNode id'
    obtain ⟨hheap', hfresh'⟩ := ih hfresh
    exact ⟨hheap'.trans hheap, hfresh'⟩

theorem DbInv.purgeNode_fresh {db : Db} {out : Option ℕ} {ext : ℕ → ℕ} (h : DbInv db out ext)
    (limit : ℤ) {id : ℕ} (hid : id ∈ db.lru) :
    id ∉ (TopicDatabase.purgeNode limit db id).hashtable ∨
      Fresh (TopicDatabase.purgeNode limit db id) limit id := by
  have htable : id ∈ db.hashtable := (h.stored.same id).mpr (.inl hid)
  obtain ⟨topic, htopic⟩ := h.live htable
  simp only [TopicDatabase.purgeNode, htopic]
  split
  · left
    rw [topicDecref_hashtable]
    exact h.stored.table_nodup.not_mem_erase
  · rename_i hyoung
    right
    refine ⟨htable, topic, htopic, ?_⟩
    simp only [nodeOlderThan, decide_eq_true_eq] at hyoung
    omega

theorem DbInv.purge_fresh {db : Db} {out : Option ℕ} {ext : ℕ → ℕ} (h : DbInv db out ext)
    (limit : ℤ) {ids : List ℕ} (hsub : ∀ id ∈ ids, id ∈ db.lru) (hnodup : ids.Nodup) :
    ∀ id ∈ ids, id ∈ (ids.foldl (TopicDatabase.purgeNode limit) db).hashtable →
      Fresh (ids.foldl (TopicDatabase.purgeNode limit) db) limit id := by
  induction ids generalizing db with
  | nil => intro id hid; cases hid
  | cons id' ids ih =>
    obtain ⟨hid', hids⟩ := List.nodup_cons.mp hnodup
    have hnode := h.purgeNode limit (hsub id' (.head _))
    have hrest : ∀ id ∈ ids, id ∈ (TopicDatabase.purgeNode limit db id').lru := by
      intro id hm
      refine mem_purgeNode_lru ?_ (hsub id (.tail _ hm))
      rintro rfl
      exact hid' hm
    intro id hm hleft
    cases hm with
    | head =>
      obtain hgone | hfresh := h.purgeNode_fresh limit (hsub id' (.head _))
      · obtain ⟨-, -, -, hmem⟩ := hnode.purge limit hrest hids
        exact absurd (hmem id' hleft) hgone
      · exact (hfresh.purge ids).2
    | tail _ hm => exact ih hnode hrest hids id hm hleft

structure Returns (db db' : Db) (id : ℕ) (now : ℤ) : Prop where
  stamped : Fresh db' now id
  others : ∀ id' ∈ db'.hashtable, id' ≠ id → Fresh db' (now - topicLiveTimeS) id'
  kept : ∀ id' limit, now - topicLiveTimeS ≤ limit → limit ≤ now → Fresh db limit id' →
    Fresh db' limit id'
  names : ∀ id' ∈ db.hashtable, db'.names id' = db.names id'

theorem DbInv.rktFound_returns {db : Db} {ext : ℕ → ℕ} {id : ℕ} (h : DbInv db (some id) ext)
    (now : ℤ) : Returns db (TopicDatabase.rktFound db id now) id now := by
  obtain ⟨hinv, hnames, -, hmem⟩ :=
    h.purge (now - topicLiveTimeS) (fun _ hm ↦ hm) h.stored.lru_nodup
  have hstamped : Fresh (TopicDatabase.rktFound db id now) now id := by
    have hin := (hinv.stored.same id).mpr (.inr rfl)
    obtain ⟨topic, htopic⟩ := hinv.live hin
    refine ⟨hin, ⟨topic.refcnt + 1, now⟩, ?_, Int.le_refl now⟩
    simp only [TopicDatabase.rktFound, purgeTopicsOlderThan, Function.update_self, htopic,
      Option.map_some]
  -- a topic other than the returned one leaves the purge as it is
  have hrest {id' : ℕ} {limit : ℤ} (hne : id' ≠ id)
      (hfresh : Fresh (purgeTopicsOlderThan db (now - topicLiveTimeS)) limit id') :
      Fresh (TopicDatabase.rktFound db id now) limit id' := by
    obtain ⟨htable, topic, htopic, hlimit⟩ := hfresh
    exact ⟨htable, topic, (Function.update_of_ne hne _ _).trans htopic, hlimit⟩
  refine ⟨hstamped, ?_, ?_, fun id' _ ↦ congrFun hnames id'⟩
  · intro id' hin hne
    have hlru : id' ∈ db.lru := by
      obtain hlru | hout := (h.stored.same id').mp (hmem id' hin)
      · exact hlru
      · exact absurd (Option.some.inj hout).symm hne
    exact hrest hne (h.purge_fresh _ (fun _ hm ↦ hm) h.stored.lru_nodup id' hlru hin)
  · intro id' limit hlow hhigh hfresh
    by_cases hid : id' = id
    · subst hid
      exact hstamped.mono hhigh
    · obtain ⟨hheap, hin, -⟩ := (hfresh.mono hlow).purge db.lru
      obtain ⟨-, topic, htopic, hlimit⟩ := hfresh
      exact hrest hid ⟨hin, topic, hheap.trans htopic, hlimit⟩

theorem DbInv.search_eq_some {db : Db} {out : Option ℕ} {ext : ℕ → ℕ} (h : DbInv db out ext)
    {id : ℕ} (hid : id ∈ db.hashtable) : tommyHashdynSearch db (db.names id) = some id := by
  cases hsearch : tommyHashdynSearch db (db.names id) with
  | none => exact absurd rfl (tommyHashdynSearch_none hsearch hid)
  | some id' =>
    obtain ⟨hid', hname⟩ := tommyHashdynSearch_some hsearch
    exact congrArg some (h.stored.distinct id' hid' id hid hname)

theorem DbInv.congr {db : Db} {out : Option ℕ} {ext ext' : ℕ → ℕ} (h : DbInv db out ext)
    (he : ∀ id, ext id = ext' id) : DbInv db out ext' := by
  rwa [← funext he]

section NewTopic

variable {db : Db} {ext : ℕ → ℕ} {topic : CStr}

theorem DbInv.newTopicS_names (h : DbInv db none ext) {id : ℕ} (hid : id ∈ db.hashtable) :
    (TopicDatabase.newTopicS db topic).names id = db.names id :=
  Function.update_of_ne (h.ne_next hid) _ _

theorem newTopicS_names_next : (TopicDatabase.newTopicS db topic).names db.next = topic :=
  Function.update_self _ _ _

theorem DbInv.newTopicS_other (h : DbInv db none ext) (hsearch : tommyHashdynSearch db topic = none) :
    ∀ id ∈ db.hashtable, (TopicDatabase.newTopicS db topic).names id ≠ topic := by
  intro id hid
  rw [h.newTopicS_names hid]
  exact tommyHashdynSearch_none hsearch hid

theorem DbInv.newTopicS_search (h : DbInv db none ext)
    (hsearch : tommyHashdynSearch db topic = none) :
    tommyHashdynSearch (TopicDatabase.newTopicS db topic) topic = none := by
  refine List.find?_eq_none.mpr fun id hid ↦ ?_
  rw [decide_eq_true_eq, topicsCmp, strcmp_eq_zero_iff]
  exact h.newTopicS_other hsearch id hid

end NewTopic

theorem DbInv.topicsDbGetTopic {db : Db} {held : List ℕ} (h : DbInv db none fun id ↦ held.count id)
    (topic : CStr) (now : ℤ) (created : Bool) {ret : Option ℕ} {db' : Db}
    (hcall : topicsDbGetTopic db topic now created = (ret, db')) :
    DbInv db' none (fun id ↦ (ret.toList ++ held).count id) ∧
      (ret = none ∧ db' = db ∨
        ∃ id, ret = some id ∧ Returns db db' id now ∧ db'.names id = topic) := by
  have hcount (id id' : ℕ) : Function.update (fun id ↦ held.count id) id (held.count id + 1) id' =
      (id :: held).count id' := by
    by_cases hid : id' = id
    · subst hid
      simp
    · simp [hid, Ne.symm hid]
  unfold TopicDatabase.topicsDbGetTopic at hcall
  cases hsearch : tommyHashdynSearch db topic with
  | some id =>
    rw [hsearch] at hcall
    obtain ⟨rfl, rfl⟩ := Prod.mk.inj hcall
    obtain ⟨hid, hname⟩ := tommyHashdynSearch_some hsearch
    have hout := h.topicListRemove hid
    obtain ⟨hinv, hnames, -, -⟩ := hout.rktFound now
    obtain ⟨hstamped, hothers, hkept, -⟩ := hout.rktFound_returns now
    refine ⟨hinv.congr (hcount id), .inr ⟨id, rfl, ⟨hstamped, hothers, hkept, fun id' _ ↦ ?_⟩, ?_⟩⟩
    · exact congrFun hnames id'
    · exact (congrFun hnames id).trans hname
  | none =>
    rw [hsearch] at hcall
    cases created with
    | false =>
      obtain ⟨rfl, rfl⟩ := Prod.mk.inj hcall
      exact ⟨h, .inl ⟨rfl, rfl⟩⟩
    | true =>
      simp only [if_true, h.newTopicS_search hsearch] at hcall
      obtain ⟨rfl, rfl⟩ := Prod.mk.inj hcall
      have hnot : db.next ∉ (TopicDatabase.newTopicS db topic).hashtable := fun hin ↦
        h.ne_next hin rfl
      have hinserted := (h.newTopicS topic).insert hnot (by simp) fun id hid ↦ by
        rw [newTopicS_names_next]
        exact h.newTopicS_other hsearch id hid
      obtain ⟨hinv, hsame, -, -⟩ := hinserted.rktFound now
      obtain ⟨hstamped, hothers, hkept, -⟩ := hinserted.rktFound_returns now
      refine ⟨?_, .inr ⟨db.next, rfl, ⟨hstamped, hothers, ?_, ?_⟩, ?_⟩⟩
      · refine hinv.congr fun id ↦ ?_
        rw [Option.toList_some, List.singleton_append, ← hcount]
        by_cases hid : id = db.next
        · subst hid
          simp
        · simp [hid]
      · intro id' limit hlow hhigh ⟨hin, stored, hstored, hlimit⟩
        refine hkept id' limit hlow hhigh ⟨List.mem_append_left _ hin, stored, ?_, hlimit⟩
        exact (Function.update_of_ne (h.ne_next hin) _ _).trans hstored
      · intro id' hin
        rw [hsame]
        exact h.newTopicS_names hin
      · rw [hsame]
        exact newTopicS_names_next

theorem happen_decref {users : Users} {k id : ℕ} (hk : users.held[k]? = some id) :
    happen users (.decref k) = ⟨topicDecref users.db id, users.held.eraseIdx k⟩ := by
  simp only [happen, hk]

theorem happen_decref_none {users : Users} {k : ℕ} (hk : users.held[k]? = none) :
    happen users (.decref k) = users := by
  simp only [happen, hk]

theorem DbInv.happen {users : Users} (h : DbInv users.db none fun id ↦ users.held.count id)
    (e : Event) :
    DbInv (happen users e).db none fun id ↦ (happen users e).held.count id := by
  cases e with
  | getTopic topic now created => exact (h.topicsDbGetTopic topic now created rfl).1
  | decref k =>
    cases hk : users.held[k]? with
    | none =>
      rw [happen_decref_none hk]
      exact h
    | some id =>
      rw [happen_decref hk]
      obtain ⟨hlt, hget⟩ := List.getElem?_eq_some_iff.mp hk
      have hperm := List.getElem_cons_eraseIdx_perm hlt
      rw [hget] at hperm
      have hcount (id' : ℕ) := hperm.count_eq id'
      have hown : 0 < users.held.count id := by
        rw [← hcount, List.count_cons_self]
        omega
      refine (h.topicDecref hown).congr fun id' ↦ ?_
      by_cases hid : id' = id
      · subst hid
        rw [Function.update_self, ← hcount id', List.count_cons_self]
        exact Nat.add_sub_cancel _ _
      · rw [Function.update_of_ne hid, ← hcount id', List.count_cons_of_ne (Ne.symm hid)]

theorem after_inv (events : List Event) :
    DbInv (after events).db none fun id ↦ (after events).held.count id := by
  induction events using List.reverseRecOn with
  | nil =>
    refine (inv_init 0).db.congr fun id ↦ ?_
    simp [State.ext, State.init, after, Users.init]
  | append_singleton events e ih =>
    unfold after
    rw [List.foldl_append]
    exact ih.happen e

/-- A topic of the table stays in it as long as nothing happens later than its time of life after
the limit, and keeps its name. -/
theorem Fresh.happen {users : Users} (h : DbInv users.db none fun id ↦ users.held.count id)
    {id : ℕ} {limit : ℤ} (hfresh : Fresh users.db limit id) {e : Event}
    (he : ∀ now, e.time = some now → limit ≤ now ∧ now - limit ≤ topicLiveTimeS) :
    Fresh (happen users e).db limit id ∧ (happen users e).db.names id = users.db.names id := by
  cases e with
  | getTopic topic now created =>
    obtain ⟨hlow, hhigh⟩ := he now rfl
    obtain ⟨-, ⟨-, hsame⟩ | ⟨ret, -, hreturns, -⟩⟩ := h.topicsDbGetTopic topic now created rfl
    · have hdb : (TopicDatabase.happen users (.getTopic topic now created)).db = users.db := hsame
      rw [hdb]
      exact ⟨hfresh, rfl⟩
    · exact ⟨hreturns.kept id limit (by omega) hlow hfresh, hreturns.names id hfresh.1⟩
  | decref k =>
    cases hk : users.held[k]? with
    | none =>
      rw [happen_decref_none hk]
      exact ⟨hfresh, rfl⟩
    | some id' =>
      have hinv := h.happen (.decref k)
      rw [happen_decref hk] at hinv ⊢
      obtain ⟨htable, topic, htopic, hlimit⟩ := hfresh
      have htable' : id ∈ (topicDecref users.db id').hashtable := by
        rw [topicDecref_hashtable]
        exact htable
      obtain ⟨topic', htopic'⟩ := hinv.live htable'
      obtain ⟨old, hold, htime⟩ := topicDecref_timestamp htopic'
      obtain rfl : topic = old := Option.some.inj (htopic.symm.trans hold)
      exact ⟨⟨htable', topic', htopic', htime ▸ hlimit⟩, congrFun (topicDecref_names _ _) id⟩

theorem Fresh.foldl_happen {users : Users} (h : DbInv users.db none fun id ↦ users.held.count id)
    {id : ℕ} {limit : ℤ} (hfresh : Fresh users.db limit id) {events : List Event}
    (he : ∀ e ∈ events, ∀ now, e.time = some now → limit ≤ now ∧ now - limit ≤ topicLiveTimeS) :
    Fresh (events.foldl TopicDatabase.happen users).db limit id ∧
      (events.foldl TopicDatabase.happen users).db.names id = users.db.names id := by
  induction events generalizing users with
  | nil => exact ⟨hfresh, rfl⟩
  | cons e events ih =>
    obtain ⟨hfresh', hname⟩ := hfresh.happen h (he e (.head _))
    obtain ⟨hfinal, hnames⟩ := ih (h.happen e) hfresh' fun e' he' ↦ he e' (.tail _ he')
    exact ⟨hfinal, hnames.trans hname⟩

theorem topicsDbGetTopic_stored {users : Users}
    (h : DbInv users.db none fun id ↦ users.held.count id) {id : ℕ}
    (hid : id ∈ users.db.hashtable) (now : ℤ) (created : Bool) :
    Event.returned users (.getTopic (users.db.names id) now created) = some id := by
  unfold Event.returned topicsDbGetTopic
  simp only [h.search_eq_some hid]

def times (events : List Event) : List ℤ := events.filterMap Event.time

theorem mem_times {events : List Event} {e : Event} {now : ℤ} (he : e ∈ events)
    (hnow : e.time = some now) : now ∈ times events :=
  List.mem_filterMap.mpr ⟨e, he, hnow⟩

def Ordered (events : List Event) : Prop := (times events).Pairwise (· ≤ ·)

theorem Ordered.between {before mid rest : List Event} {e e' : Event} {t t' : ℤ}
    (h : Ordered (before ++ e :: mid ++ e' :: rest)) (he : e.time = some t) (he' : e'.time = some t')
    {e₁ : Event} (hmem : e₁ ∈ mid) {now : ℤ} (hnow : e₁.time = some now) : t ≤ now ∧ now ≤ t' := by
  have hmem' := mem_times hmem hnow
  unfold Ordered times at h
  rw [List.filterMap_append, List.filterMap_append, List.filterMap_cons_some he,
    List.filterMap_cons_some he'] at h
  obtain ⟨hfront, -, hback⟩ := List.pairwise_append.mp h
  obtain ⟨-, htail, -⟩ := List.pairwise_append.mp hfront
  refine ⟨(List.pairwise_cons.mp htail).1 now hmem', hback now ?_ t' (.head _)⟩
  exact List.mem_append_right _ (.tail _ hmem')

/-- A topic is kept for 900 seconds after a call returned it, and a call that returns a topic leaves
no other one that is older. -/
theorem retained_and_purged (events : List Event) (h : Ordered events) :
    (∀ before topic t created mid t' created' rest id,
      events = before ++ .getTopic topic t created :: mid ++ .getTopic topic t' created' :: rest →
      Event.returned (after before) (.getTopic topic t created) = some id → t' - t ≤ 900 →
      Event.returned (after (before ++ .getTopic topic t created :: mid))
        (.getTopic topic t' created') = some id) ∧
    ∀ before topic now created rest id,
      events = before ++ .getTopic topic now created :: rest →
      Event.returned (after before) (.getTopic topic now created) = some id →
      ∀ id' ∈ (after (before ++ [.getTopic topic now created])).db.hashtable, id' ≠ id →
        ∃ stored, (after (before ++ [.getTopic topic now created])).db.heap id' = some stored ∧
          now - 900 ≤ stored.timestamp := by
  -- what a call that returns a topic leaves
  have hcall {before : List Event} {topic : CStr} {now : ℤ} {created : Bool} {id : ℕ}
      (hid : Event.returned (after before) (.getTopic topic now created) = some id) :
      Returns (after before).db (after (before ++ [.getTopic topic now created])).db id now ∧
        (after (before ++ [.getTopic topic now created])).db.names id = topic := by
    have hafter : after (before ++ [.getTopic topic now created]) =
        happen (after before) (.getTopic topic now created) := by
      unfold after
      rw [List.foldl_append]
      rfl
    rw [hafter]
    obtain ⟨-, ⟨hnone, -⟩ | ⟨id', hsome, hreturns⟩⟩ :=
      (after_inv before).topicsDbGetTopic topic now created rfl
    · exact absurd (hid.symm.trans hnone) (by simp)
    · obtain rfl : id = id' := Option.some.inj (hid.symm.trans hsome)
      exact hreturns
  constructor
  · intro before topic t created mid t' created' rest id hevents hid hlive
    rw [hevents] at h
    obtain ⟨hreturns, hname⟩ := hcall hid
    have hmid : ∀ e ∈ mid, ∀ now, e.time = some now → t ≤ now ∧ now - t ≤ topicLiveTimeS := by
      intro e he now hnow
      obtain ⟨hlow, hhigh⟩ := h.between rfl rfl he hnow
      have hwindow : topicLiveTimeS = 900 := rfl
      exact ⟨hlow, by omega⟩
    have hinv := after_inv (before ++ .getTopic topic t created :: mid)
    obtain ⟨hfresh, hnames⟩ := hreturns.stamped.foldl_happen (after_inv _) hmid
    have hsplit : mid.foldl happen (after (before ++ [.getTopic topic t created])) =
        after (before ++ .getTopic topic t created :: mid) := by
      unfold after
      rw [← List.foldl_append, List.append_assoc, List.singleton_append]
    rw [hsplit] at hfresh hnames
    have hstored := topicsDbGetTopic_stored hinv hfresh.1 t' created'
    rwa [hnames.trans hname] at hstored
  · intro before topic now created rest id hevents hid id' hin hne
    obtain ⟨-, stored, hstored, htime⟩ := (hcall hid).1.others id' hin hne
    exact ⟨stored, hstored, htime⟩

def reusedAndPurged : List Event :=
  [.getTopic (lit "a") 0 true, .decref 0, .getTopic (lit "b") 900 true, .getTopic (lit "a") 900 false,
    .getTopic (lit "b") 1801 true]

theorem retained_and_purged_at_limit : Ordered reusedAndPurged ∧
    Event.returned (after (reusedAndPurged.take 3)) (.getTopic (lit "a") 900 false) = some 0 := by
  have hordered : Ordered reusedAndPurged := by
    unfold Ordered
    decide
  refine ⟨hordered, ?_⟩
  exact (retained_and_purged reusedAndPurged hordered).1 [] (lit "a") 0 true
    [.decref 0, .getTopic (lit "b") 900 true] 900 false [.getTopic (lit "b") 1801 true] 0 rfl rfl
    (by decide)

end N2Kafka.Util.TopicDatabase
