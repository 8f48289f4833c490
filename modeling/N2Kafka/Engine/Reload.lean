import Mathlib.Data.List.Basic
import N2Kafka.Engine.GlobalConfig

namespace N2Kafka.Engine.Reload

open Lib.CString Lib.Jansson Engine.GlobalConfig

variable {world : World} {entries : List Json} {c c' : Config} {l : Listener} {value : Json}
  {index : ℕ}

def kept (entries : List Json) (l : Listener) : Bool :=
  (foundValue l.port entries).isSome && l.reload

def callsOf (entries : List Json) (l : Listener) : List Call :=
  match foundValue l.port entries, l.reload with
  | some value, true => [.reload l.id value]
  | _, _ => if l.join then [.join l.id] else []

theorem checkAlreadyPresent_listeners (entries : List Json) (c : Config) (i : Listener) :
    (checkAlreadyPresent entries c i).listeners =
      c.listeners.filter fun l ↦ l.id = i.id → kept entries i := by
  have hremoved : (shutdownListener (c.remove i) i).listeners = (c.remove i).listeners := by
    unfold shutdownListener
    split <;> rfl
  unfold checkAlreadyPresent kept
  cases hf : foundValue i.port entries with
  | none =>
    simp only [hremoved]
    simp [Config.remove]
  | some value =>
    cases hr : i.reload with
    | false =>
      simp only [hremoved]
      simp [Config.remove]
    | true => simp [Config.call]

theorem checkAlreadyPresent_calls (entries : List Json) (c : Config) (i : Listener) :
    (checkAlreadyPresent entries c i).calls = c.calls ++ callsOf entries i := by
  have hremoved : (shutdownListener (c.remove i) i).calls =
      c.calls ++ if i.join then [.join i.id] else [] := by
    unfold shutdownListener
    cases i.join <;> simp [Config.call, Config.remove]
  unfold checkAlreadyPresent callsOf
  cases hf : foundValue i.port entries with
  | none => exact hremoved
  | some value =>
    cases hr : i.reload with
    | false => exact hremoved
    | true => rfl

theorem foldl_checkAlreadyPresent (entries : List Json) (todo : List Listener) (c : Config) :
    (todo.foldl (checkAlreadyPresent entries) c).listeners =
        c.listeners.filter (fun l ↦ ∀ i ∈ todo, l.id = i.id → kept entries i) ∧
      (todo.foldl (checkAlreadyPresent entries) c).calls =
        c.calls ++ todo.flatMap (callsOf entries) := by
  induction todo generalizing c with
  | nil => simp
  | cons i todo ih =>
    obtain ⟨hlisteners, hcalls⟩ := ih (checkAlreadyPresent entries c i)
    rw [List.foldl_cons]
    constructor
    · rw [hlisteners, checkAlreadyPresent_listeners, List.filter_filter]
      apply List.filter_congr
      intro l _
      simp [Bool.and_comm]
    · rw [hcalls, checkAlreadyPresent_calls, List.flatMap_cons, List.append_assoc]

theorem checked_next : (reloadListenersCheckAlreadyPresent entries c).next = c.next := by
  rw [reloadListenersCheckAlreadyPresent]
  generalize c.listeners = todo
  induction todo generalizing c with
  | nil => rfl
  | cons i todo ih =>
    rw [List.foldl_cons, ih]
    unfold checkAlreadyPresent shutdownListener
    split
    · rfl
    · split <;> rfl

theorem Config.eq_of_id {k : Listener} (c : Config) (hk : k ∈ c.listeners) (hl : l ∈ c.listeners)
    (h : k.id = l.id) : k = l :=
  List.inj_on_of_nodup_map c.distinct hk hl h

theorem mem_checked :
    l ∈ (reloadListenersCheckAlreadyPresent entries c).listeners ↔
      l ∈ c.listeners ∧ kept entries l = true := by
  rw [reloadListenersCheckAlreadyPresent, (foldl_checkAlreadyPresent _ _ _).1, List.mem_filter]
  refine and_congr_right fun hl ↦ ?_
  rw [decide_eq_true_iff]
  constructor
  · intro h
    exact h l hl rfl
  · intro h i hi hid
    rwa [← Config.eq_of_id c hl hi hid]

theorem checked_sublist :
    (reloadListenersCheckAlreadyPresent entries c).listeners.Sublist c.listeners := by
  rw [reloadListenersCheckAlreadyPresent, (foldl_checkAlreadyPresent _ _ _).1]
  exact List.filter_sublist

def callsTo (c : Config) (id : ℕ) : List Call := c.calls.filter fun k ↦ k.target = id

theorem target_callsOf {k : Call} (hk : k ∈ callsOf entries l) : k.target = l.id := by
  unfold callsOf at hk
  split at hk
  · rw [List.mem_singleton.mp hk]
    rfl
  · split at hk
    · rw [List.mem_singleton.mp hk]
      rfl
    · cases hk

theorem filter_callsOf (entries : List Json) (l : Listener) (id : ℕ) :
    (callsOf entries l).filter (fun k ↦ k.target = id) =
      if l.id = id then callsOf entries l else [] := by
  split
  · rename_i h
    apply List.filter_eq_self.mpr
    intro k hk
    simp [target_callsOf hk, h]
  · rename_i h
    apply List.filter_eq_nil_iff.mpr
    intro k hk
    simp [target_callsOf hk, h]

theorem filter_flatMap_callsOf (entries : List Json) (ls : List Listener)
    (hd : (ls.map Listener.id).Nodup) (hl : l ∈ ls) :
    (ls.flatMap (callsOf entries)).filter (fun k ↦ k.target = l.id) = callsOf entries l := by
  induction ls with
  | nil => cases hl
  | cons i ls ih =>
    obtain ⟨hi, hd⟩ := List.nodup_cons.mp hd
    rw [List.flatMap_cons, List.filter_append, filter_callsOf]
    cases hl with
    | head =>
      have hrest : (ls.flatMap (callsOf entries)).filter (fun k ↦ k.target = l.id) = [] := by
        apply List.filter_eq_nil_iff.mpr
        intro k hk
        obtain ⟨j, hj, hk⟩ := List.mem_flatMap.mp hk
        have hne : j.id ≠ l.id := fun h ↦ hi (h ▸ List.mem_map_of_mem hj)
        simp [target_callsOf hk, hne]
      rw [if_pos rfl, hrest, List.append_nil]
    | tail _ hl =>
      have hne : i.id ≠ l.id := fun h ↦ hi (h ▸ List.mem_map_of_mem hl)
      rw [if_neg hne, List.nil_append, ih hd hl]

theorem callsTo_checked (hl : l ∈ c.listeners) :
    callsTo (reloadListenersCheckAlreadyPresent entries c) l.id =
      callsTo c l.id ++ callsOf entries l := by
  rw [callsTo, reloadListenersCheckAlreadyPresent, (foldl_checkAlreadyPresent _ _ _).2,
    List.filter_append, filter_flatMap_callsOf entries c.listeners c.distinct hl]
  rfl

def createNewOne (world : World) (index : ℕ) (value : Json) (c : Config) : Except Exit Config :=
  match servedBy c value with
  | some _ => .ok c
  | none => parseListener world index value c

theorem createNewOnes_cons (world : World) (index : ℕ) (value : Json) (rest : List Json)
    (c : Config) : reloadListenersCreateNewOnes world index (value :: rest) c =
      (createNewOne world index value c).bind
        (reloadListenersCreateNewOnes world (index + 1) rest) := by
  rw [reloadListenersCreateNewOnes, createNewOne]
  cases servedBy c value with
  | some i => rfl
  | none => cases parseListener world index value c <;> rfl

def Serves (c : Config) (p : BitVec 16) : Prop := p ≠ 0 ∧ ∃ l ∈ c.listeners, l.port = p

theorem servedBy_isSome_iff : (servedBy c value).isSome = true ↔ Serves c (searchedPort value) := by
  rw [servedBy, List.find?_isSome]
  simp only [decide_eq_true_eq, Serves]
  constructor
  · intro ⟨l, hl, hpos, hp⟩
    rw [← hp]
    exact ⟨by bv_omega, l, hl, rfl⟩
  · intro ⟨hne, l, hl, hp⟩
    rw [← hp] at hne
    exact ⟨l, hl, by bv_omega, hp⟩

/-- The entry has a known protocol, but its decoder is unknown or its factory fails. -/
def Fatal (world : World) (index : ℕ) (value : Json) : Prop :=
  ∃ proto decodeAs factory, value.unpackString (lit "proto") = some proto ∧
    value.unpackStringOpt (lit "decode_as") (lit "") = some decodeAs ∧
    listenerFor proto = some factory ∧
    (locateRegisteredDecoder decodeAs = none ∨ factory.create world index value = none)

theorem createListener_cases (world : World) (index : ℕ) (value : Json) :
    (¬ Fatal world index value ∧ createListener world index value = .ok none) ∨
      (¬ Fatal world index value ∧ ∃ factory : ListenerFactory, ∃ l,
        factory.create world index value = some l ∧
          createListener world index value = .ok (some l)) ∨
      (Fatal world index value ∧ ∃ e, createListener world index value = .error e) := by
  unfold createListener Fatal
  grind

theorem create_port {factory : ListenerFactory} {l : NewListener}
    (h : factory.create world index value = some l) :
    l = ⟨0, false, false⟩ ∨ l = ⟨searchedPort value, true, true⟩ := by
  have hinit : ∀ port, value.unpackInt (lit "port") = some port →
      listenerInit port = ⟨searchedPort value, true, true⟩ := by
    intro port hport
    simp [listenerInit, searchedPort, entryPort, hport]
  have hsocket : createSocketListener world index value = some l →
      l = ⟨searchedPort value, true, true⟩ := by
    intro h
    unfold createSocketListener at h
    split at h
    · rename_i port _ hport
      split at h
      · rw [← hinit port hport, Option.some.inj h]
      · cases h
    · cases h
  cases factory with
  | http =>
    simp only [ListenerFactory.create, createHttpListener] at h
    cases hport : value.unpackInt (lit "port") with
    | none => simp [hport] at h
    | some port =>
      cases hw : world.startHttpLoop index with
      | failed => simp [hport, hw] at h
      | notRead =>
        simp only [hport, hw, Option.some.injEq] at h
        exact .inl h.symm
      | started =>
        simp only [hport, hw, Option.some.injEq] at h
        exact .inr (h ▸ hinit port hport)
  | tcp => exact .inr (hsocket h)
  | udp => exact .inr (hsocket h)

theorem createListener_port {l : NewListener}
    (h : createListener world index value = .ok (some l)) :
    l = ⟨0, false, false⟩ ∨ l = ⟨searchedPort value, true, true⟩ := by
  obtain ⟨-, hc⟩ | ⟨-, factory, k, hk, hc⟩ | ⟨-, e, hc⟩ := createListener_cases world index value
  · simp [hc] at h
  · rw [hc] at h
    cases h
    exact create_port hk
  · simp [hc] at h

inductive Turn (world : World) (index : ℕ) (value : Json) (c : Config) : Config → Prop
  | served (hs : Serves c (searchedPort value)) : Turn world index value c c
  | skipped (hs : ¬ Serves c (searchedPort value))
      (hc : createListener world index value = .ok none) : Turn world index value c c
  | created {l : NewListener} (hs : ¬ Serves c (searchedPort value))
      (hc : createListener world index value = .ok (some l)) :
      Turn world index value c (c.insertHead l)

theorem createNewOne_served (h : Serves c (searchedPort value)) :
    createNewOne world index value c = .ok c := by
  obtain ⟨i, hi⟩ := Option.isSome_iff_exists.mp (servedBy_isSome_iff.mpr h)
  rw [createNewOne, hi]

theorem createNewOne_unserved (h : ¬ Serves c (searchedPort value)) :
    createNewOne world index value c = parseListener world index value c := by
  rw [← servedBy_isSome_iff, Bool.not_eq_true, Option.isSome_eq_false_iff,
    Option.isNone_iff_eq_none] at h
  rw [createNewOne, h]

theorem createNewOne_cases (world : World) (index : ℕ) (value : Json) (c : Config) :
    ((Fatal world index value → Serves c (searchedPort value)) ∧
      ∃ c', createNewOne world index value c = .ok c' ∧ Turn world index value c c') ∨
    (Fatal world index value ∧ ¬ Serves c (searchedPort value) ∧
      ∃ e, createNewOne world index value c = .error e) := by
  rcases Classical.em (Serves c (searchedPort value)) with hs | hs
  · exact .inl ⟨fun _ ↦ hs, c, createNewOne_served hs, .served hs⟩
  · rw [createNewOne_unserved hs, parseListener]
    obtain ⟨hf, hc⟩ | ⟨hf, _, l, -, hc⟩ | ⟨hf, e, hc⟩ := createListener_cases world index value
    · exact .inl ⟨fun h ↦ absurd h hf, c, by rw [hc], .skipped hs hc⟩
    · exact .inl ⟨fun h ↦ absurd h hf, c.insertHead l, by rw [hc], .created hs hc⟩
    · exact .inr ⟨hf, hs, e, by rw [hc]⟩

/-- The entry would be created with the port `p`. -/
def Starts (world : World) (index : ℕ) (value : Json) (p : BitVec 16) : Prop :=
  p ≠ 0 ∧ ∃ l, createListener world index value = .ok (some l) ∧ l.port = p

theorem Turn.serves_iff (h : Turn world index value c c') (p : BitVec 16) :
    Serves c' p ↔ Serves c p ∨ Starts world index value p := by
  cases h with
  | served hs =>
    refine ⟨.inl, fun h ↦ h.elim id ?_⟩
    intro ⟨hp, l, hc, hl⟩
    rcases createListener_port hc with rfl | rfl
    · exact absurd hl.symm hp
    · exact hl ▸ hs
  | skipped hs hc => simp [Starts, hc]
  | @created l hs hc =>
    simp only [Serves, Starts, Config.insertHead, List.mem_cons, exists_eq_or_imp, hc]
    simp only [Except.ok.injEq, Option.some.injEq, exists_eq_left']
    rw [← and_or_left, or_comm (a := l.port = p)]

def StartsBefore (world : World) (index : ℕ) (entries : List Json) (j : ℕ) (p : BitVec 16) : Prop :=
  ∃ i value, i < j ∧ entries[i]? = some value ∧ Starts world (index + i) value p

theorem startsBefore_cons {v : Json} {rest : List Json} {j : ℕ} {p : BitVec 16} :
    StartsBefore world index (v :: rest) (j + 1) p ↔
      Starts world index v p ∨ StartsBefore world (index + 1) rest j p := by
  constructor
  · intro ⟨i, value, hi, hv, hs⟩
    cases i with
    | zero =>
      cases hv
      exact .inl hs
    | succ i =>
      refine .inr ⟨i, value, Nat.lt_of_succ_lt_succ hi, hv, ?_⟩
      rwa [Nat.add_right_comm]
  · intro h
    cases h with
    | inl hs => exact ⟨0, v, Nat.succ_pos j, rfl, hs⟩
    | inr h =>
      obtain ⟨i, value, hi, hv, hs⟩ := h
      refine ⟨i + 1, value, Nat.succ_lt_succ hi, hv, ?_⟩
      rwa [← Nat.add_assoc, Nat.add_right_comm]

/-- The second pass comes to its end exactly if every fatal entry finds its port served. -/
theorem createNewOnes_ok_iff (world : World) (index : ℕ) (entries : List Json) (c : Config) :
    (∃ c', reloadListenersCreateNewOnes world index entries c = .ok c') ↔
      ∀ j value, entries[j]? = some value → Fatal world (index + j) value →
        Serves c (searchedPort value) ∨ StartsBefore world index entries j (searchedPort value) := by
  induction entries generalizing index c with
  | nil => simp [reloadListenersCreateNewOnes]
  | cons v rest ih =>
    rw [createNewOnes_cons]
    obtain ⟨hf, c₁, hc₁, hturn⟩ | ⟨hf, hs, e, he⟩ := createNewOne_cases world index v c
    · rw [hc₁]
      refine (ih (index + 1) c₁).trans ?_
      have hbefore : ∀ j p, (Serves c₁ p ∨ StartsBefore world (index + 1) rest j p) ↔
          (Serves c p ∨ StartsBefore world index (v :: rest) (j + 1) p) := by
        intro j p
        rw [hturn.serves_iff, startsBefore_cons, or_assoc]
      constructor
      · intro h j value hv hfatal
        cases j with
        | zero =>
          cases hv
          exact .inl (hf hfatal)
        | succ j =>
          rw [← hbefore]
          exact h j value hv (by rwa [Nat.add_right_comm])
      · intro h j value hv hfatal
        rw [hbefore]
        exact h (j + 1) value hv (by rwa [← Nat.add_assoc, Nat.add_right_comm])
    · refine iff_of_false ?_ ?_
      · rw [he]
        intro ⟨c', hc'⟩
        cases hc'
      · intro h
        cases h 0 v rfl hf with
        | inl h => exact hs h
        | inr h =>
          obtain ⟨i, _, hi, -⟩ := h
          exact Nat.not_lt_zero i hi

structure Extends (c c' : Config) : Prop where
  calls : c'.calls = c.calls
  next : c.next ≤ c'.next
  mem : ∀ l ∈ c.listeners, l ∈ c'.listeners
  new : ∀ l ∈ c'.listeners, l ∈ c.listeners ∨ c.next ≤ l.id

theorem Extends.refl (c : Config) : Extends c c :=
  ⟨rfl, le_rfl, fun _ h ↦ h, fun _ h ↦ .inl h⟩

theorem Extends.trans {c₁ c₂ c₃ : Config} (h : Extends c₁ c₂) (h' : Extends c₂ c₃) :
    Extends c₁ c₃ where
  calls := h'.calls.trans h.calls
  next := h.next.trans h'.next
  mem l hl := h'.mem l (h.mem l hl)
  new l hl := (h'.new l hl).elim (h.new l) fun hn ↦ .inr (h.next.trans hn)

theorem Turn.extends (h : Turn world index value c c') : Extends c c' := by
  cases h with
  | served => exact .refl c
  | skipped => exact .refl c
  | @created l hs hc =>
    refine ⟨rfl, Nat.le_succ _, fun k hk ↦ .tail _ hk, ?_⟩
    intro k hk
    cases hk with
    | head => exact .inr le_rfl
    | tail _ hk => exact .inl hk

theorem createNewOnes_invariant {I : ℕ → Config → Prop}
    (hturn : ∀ j value c c', entries[j]? = some value → Turn world (index + j) value c c' →
      I j c → I (j + 1) c')
    (h : reloadListenersCreateNewOnes world index entries c = .ok c') (h0 : I 0 c) :
    I entries.length c' := by
  induction entries generalizing index c I with
  | nil =>
    cases h
    exact h0
  | cons v rest ih =>
    rw [createNewOnes_cons] at h
    obtain ⟨-, c₁, hc₁, ht⟩ | ⟨-, -, e, he⟩ := createNewOne_cases world index v c
    · rw [hc₁] at h
      refine ih (I := fun j ↦ I (j + 1)) ?_ h (hturn 0 v c c₁ rfl ht h0)
      intro j value c c' hv ht
      exact hturn (j + 1) value c c' hv (by rwa [← Nat.add_assoc, Nat.add_right_comm])
    · rw [he] at h
      cases h

theorem createNewOnes_extends (h : reloadListenersCreateNewOnes world index entries c = .ok c') :
    Extends c c' :=
  createNewOnes_invariant (I := fun _ ↦ Extends c)
    (fun _ _ _ _ _ ht hc ↦ hc.trans ht.extends) h (.refl c)

def HasPort (value : Json) (p : ℤ) : Prop := value.objectGet (lit "port") = some (.integer p)

def Listed (entries : List Json) (l : Listener) : Prop := ∃ value ∈ entries, HasPort value l.port.toNat

theorem entryPort_of_hasPort {p : ℕ} (hp : p < 2 ^ 16) (h : HasPort value p) :
    entryPort value = p := by
  have hint : Json.toInt32 p = p := Json.toInt32_of_lt (by omega) (by omega)
  rw [HasPort] at h
  simp [entryPort, Json.unpackInt, h, hint]

theorem foundValue_eq_some (h : foundValue l.port entries = some value) :
    value ∈ entries ∧ 0 < entryPort value ∧ entryPort value = l.port.toNat := by
  refine ⟨List.mem_of_find?_eq_some h, ?_⟩
  simpa using List.find?_some h

theorem kept_eq_true (h : kept entries l = true) :
    l.reload = true ∧ l.port ≠ 0 ∧ ∃ value ∈ entries, foundValue l.port entries = some value ∧
      entryPort value = l.port.toNat := by
  obtain ⟨hf, hr⟩ := by simpa [kept] using h
  obtain ⟨value, hfound⟩ := Option.isSome_iff_exists.mp hf
  obtain ⟨hv, hpos, hport⟩ := foundValue_eq_some hfound
  refine ⟨hr, ?_, value, hv, hfound, hport⟩
  intro h0
  rw [hport, h0] at hpos
  exact absurd hpos (by decide)

theorem foundValue_isSome_of_listed (h : Listed entries l) (hp : l.port ≠ 0) :
    (foundValue l.port entries).isSome = true := by
  obtain ⟨value, hv, hport⟩ := h
  rw [foundValue, List.find?_isSome]
  refine ⟨value, hv, ?_⟩
  have he := entryPort_of_hasPort l.port.isLt hport
  have hpos : 0 < l.port.toNat := by bv_omega
  simp [he, hpos]

theorem kept_iff_of_listed (h : Listed entries l) :
    kept entries l = true ↔ l.port ≠ 0 ∧ l.reload = true := by
  constructor
  · intro hk
    obtain ⟨hr, hp, -⟩ := kept_eq_true hk
    exact ⟨hp, hr⟩
  · intro ⟨hp, hr⟩
    rw [kept, foundValue_isSome_of_listed h hp, hr, Bool.and_self]

/-- The listeners that have to outlive a reload: all of them when the file cannot be read, otherwise
those whose port is listed. -/
def Stays (file : Option Json) (l : Listener) : Prop :=
  match file with
  | none => True
  | some new => ∃ entries, listenersArray (some new) = some entries ∧ Listed entries l

/-- `exit` is not called, and the listeners that have to stay are in the list and not joined. -/
def Keeps (file : Option Json) (c : Config) (result : Except Exit Config) : Prop :=
  ∃ c', result = .ok c' ∧ ∀ l ∈ c.listeners, Stays file l →
    l ∈ c'.listeners ∧ (.join l.id ∈ c'.calls → .join l.id ∈ c.calls)

/-- No listener that has to stay is on port 0 or without a reload callback, and each fatal entry has
a port that a listener the new array still lists, or an entry before it, serves. -/
def Spares (world : World) (file : Option Json) (c : Config) : Prop :=
  ∀ entries, listenersArray file = some entries →
    (∀ l ∈ c.listeners, Listed entries l → l.port ≠ 0 ∧ l.reload = true) ∧
    ∀ j value, entries[j]? = some value → Fatal world j value →
      (searchedPort value ≠ 0 ∧
        ∃ l ∈ c.listeners, kept entries l = true ∧ l.port = searchedPort value) ∨
      StartsBefore world 0 entries j (searchedPort value)

theorem serves_checked {p : BitVec 16} :
    Serves (reloadListenersCheckAlreadyPresent entries c) p ↔
      p ≠ 0 ∧ ∃ l ∈ c.listeners, kept entries l = true ∧ l.port = p := by
  simp only [Serves, mem_checked, and_assoc]

theorem join_mem_checked (hl : l ∈ c.listeners) (hk : kept entries l = true)
    (hj : .join l.id ∈ (reloadListenersCheckAlreadyPresent entries c).calls) :
    .join l.id ∈ c.calls := by
  have hmem : .join l.id ∈ callsTo (reloadListenersCheckAlreadyPresent entries c) l.id :=
    List.mem_filter.mpr ⟨hj, by simp [Call.target]⟩
  rw [callsTo_checked hl, List.mem_append] at hmem
  cases hmem with
  | inl h => exact List.mem_of_mem_filter h
  | inr h =>
    obtain ⟨hr, -, value, -, hv, -⟩ := kept_eq_true hk
    simp [callsOf, hv, hr] at h

theorem keeps_iff_spares (world : World) (file : Option Json) (c : Config) :
    Keeps file c (reloadListeners world file c) ↔ Spares world file c := by
  rw [reloadListeners, Spares]
  cases hentries : listenersArray file with
  | none =>
    refine iff_of_true ⟨c, rfl, ?_⟩ nofun
    intro l hl _
    exact ⟨hl, id⟩
  | some entries =>
    have hstays : ∀ l, Stays file l ↔ Listed entries l := by
      intro l
      cases file with
      | none => cases hentries
      | some new => simp [Stays, hentries]
    have hok := createNewOnes_ok_iff world 0 entries (reloadListenersCheckAlreadyPresent entries c)
    simp only [Nat.zero_add, serves_checked] at hok
    simp only [Option.some.injEq, forall_eq', Keeps, hstays, ← hok]
    constructor
    · intro ⟨c', hc', hl⟩
      refine ⟨?_, c', hc'⟩
      intro l hmem hlisted
      obtain hold | hnew := (createNewOnes_extends hc').new l (hl l hmem hlisted).1
      · exact (kept_iff_of_listed hlisted).mp (mem_checked.mp hold).2
      · rw [checked_next] at hnew
        exact absurd (c.fresh l hmem) (Nat.not_lt.mpr hnew)
    · intro ⟨hl, c', hc'⟩
      refine ⟨c', hc', ?_⟩
      intro l hmem hlisted
      have hext := createNewOnes_extends hc'
      have hk : kept entries l = true := (kept_iff_of_listed hlisted).mpr (hl l hmem hlisted)
      refine ⟨hext.mem l (mem_checked.mpr ⟨hmem, hk⟩), ?_⟩
      intro hj
      rw [hext.calls] at hj
      exact join_mem_checked hmem hk hj

def tcpEntry (port : ℤ) (more : List (CStr × Json)) : Json :=
  .object ((lit "proto", .string (lit "tcp")) :: (lit "port", .integer port) :: more)

def allStart : World := ⟨fun _ ↦ .started, fun _ ↦ true⟩

/-- The factory gets as far as `listener_init` and what follows it. -/
def Creatable (world : World) (index : ℕ) (value : Json) : Prop :=
  ∃ port, createListener world index value = .ok (some (listenerInit port))

def Running (l : Listener) : Prop := l.reload = true ∧ l.join = true

structure Converges (entries : List Json) (c c' : Config) : Prop where
  ports : ∀ p : ℕ, (∃ l ∈ c'.listeners, l.port.toNat = p) ↔ ∃ value ∈ entries, HasPort value p
  once : (c'.listeners.map Listener.port).Nodup
  served : ∀ l ∈ c.listeners, Listed entries l → l ∈ c'.listeners ∧ ∃ value ∈ entries,
    HasPort value l.port.toNat ∧ callsTo c' l.id = callsTo c l.id ++ [.reload l.id value]
  gone : ∀ l ∈ c.listeners, ¬ Listed entries l →
    (∀ k ∈ c'.listeners, k.id ≠ l.id) ∧ callsTo c' l.id = callsTo c l.id ++ [.join l.id]

def PortsFit (entries : List Json) : Prop :=
  ∀ value ∈ entries, ∃ p : ℤ, 1 ≤ p ∧ p ≤ 65535 ∧ HasPort value p

theorem PortsFit.port (h : PortsFit entries) (hv : value ∈ entries) :
    searchedPort value ≠ 0 ∧ ∀ p : ℕ, HasPort value p ↔ (searchedPort value).toNat = p := by
  obtain ⟨p, hp, hp', hport⟩ := h value hv
  obtain ⟨n, rfl⟩ := Int.eq_ofNat_of_zero_le (by omega : 0 ≤ p)
  have hlt : n < 2 ^ 16 := by omega
  have hn : (searchedPort value).toNat = n := by
    rw [searchedPort, entryPort_of_hasPort hlt hport, BitVec.toNat_ofInt]
    omega
  constructor
  · intro h0
    rw [h0] at hn
    have : n = 0 := hn.symm
    omega
  · intro q
    rw [hn, HasPort, hport, Option.some.injEq, Json.integer.injEq]
    exact Int.ofNat_inj

theorem Creatable.createListener (h : Creatable world index value) :
    createListener world index value = .ok (some ⟨searchedPort value, true, true⟩) := by
  obtain ⟨port, hc⟩ := h
  rcases createListener_port hc with hl | hl
  · simp [listenerInit] at hl
  · rw [hc, hl]

theorem Creatable.not_fatal (h : Creatable world index value) : ¬ Fatal world index value := by
  have hc := h.createListener
  obtain ⟨hf, -⟩ | ⟨hf, -⟩ | ⟨-, e, he⟩ := createListener_cases world index value
  · exact hf
  · exact hf
  · rw [he] at hc
    cases hc

/-- After some turns of the second pass: each listener has a port of its own, which is one of those
that were there before the pass or of the entries so far. -/
structure Created (entries : List Json) (c₀ : Config) (j : ℕ) (c : Config) : Prop where
  once : (c.listeners.map Listener.port).Nodup
  pos : ∀ l ∈ c.listeners, l.port ≠ 0
  ports : ∀ p, (∃ l ∈ c.listeners, l.port = p) ↔ (∃ l ∈ c₀.listeners, l.port = p) ∨
    ∃ i value, i < j ∧ entries[i]? = some value ∧ searchedPort value = p

theorem Created.turn {c₀ : Config} {j : ℕ} (h : Created entries c₀ j c)
    (hv : entries[j]? = some value) (hp : searchedPort value ≠ 0)
    (hc : Creatable world index value) (ht : Turn world index value c c') :
    Created entries c₀ (j + 1) c' := by
  have hmore : ∀ p, (∃ i v, i < j + 1 ∧ entries[i]? = some v ∧ searchedPort v = p) ↔
      (∃ i v, i < j ∧ entries[i]? = some v ∧ searchedPort v = p) ∨ searchedPort value = p := by
    intro p
    constructor
    · intro ⟨i, v, hi, hv', hp'⟩
      rcases Nat.lt_succ_iff_lt_or_eq.mp hi with hi | rfl
      · exact .inl ⟨i, v, hi, hv', hp'⟩
      · rw [hv, Option.some.injEq] at hv'
        exact .inr (hv' ▸ hp')
    · intro hp'
      cases hp' with
      | inl hp' =>
        obtain ⟨i, v, hi, hv', hp'⟩ := hp'
        exact ⟨i, v, Nat.lt_succ_of_lt hi, hv', hp'⟩
      | inr hp' => exact ⟨j, value, Nat.lt_succ_self j, hv, hp'⟩
  cases ht with
  | served hs =>
    refine ⟨h.once, h.pos, fun p ↦ ?_⟩
    rw [hmore, ← or_assoc, ← h.ports]
    refine ⟨.inl, fun h ↦ h.elim id ?_⟩
    intro hp'
    exact hp' ▸ hs.2
  | skipped hs hn =>
    rw [hc.createListener] at hn
    cases hn
  | created hs hl =>
    rw [hc.createListener] at hl
    cases hl
    have hnew : ∀ l ∈ c.listeners, l.port ≠ searchedPort value := by
      intro l hl he
      exact hs ⟨hp, l, hl, he⟩
    refine ⟨?_, ?_, fun p ↦ ?_⟩
    · refine List.nodup_cons.mpr ⟨?_, h.once⟩
      intro hmem
      obtain ⟨l, hl, he⟩ := List.mem_map.mp hmem
      exact hnew l hl he
    · intro l hl
      cases hl with
      | head => exact hp
      | tail _ hl => exact h.pos l hl
    · rw [hmore, ← or_assoc, ← h.ports]
      simp only [Config.insertHead, List.mem_cons, exists_eq_or_imp]
      exact or_comm

theorem created_checked (hd : (c.listeners.map Listener.port).Nodup) :
    Created entries (reloadListenersCheckAlreadyPresent entries c) 0
      (reloadListenersCheckAlreadyPresent entries c) where
  once := hd.sublist (checked_sublist.map _)
  pos l hl := (kept_eq_true (mem_checked.mp hl).2).2.1
  ports p := by simp

theorem PortsFit.listed (h : PortsFit entries) (hv : value ∈ entries)
    (hport : entryPort value = l.port.toNat) : HasPort value l.port.toNat := by
  rw [(h.port hv).2, searchedPort, hport, BitVec.toNat_ofInt]
  have := l.port.isLt
  omega

theorem Created.port_iff (h : Created entries (reloadListenersCheckAlreadyPresent entries c)
    entries.length c') (hports : PortsFit entries) (p : ℕ) :
    (∃ l ∈ c'.listeners, l.port.toNat = p) ↔ ∃ value ∈ entries, HasPort value p := by
  constructor
  · intro ⟨l, hl, hp⟩
    obtain ⟨k, hk, hkl⟩ | ⟨i, value, -, hv, hvl⟩ := (h.ports l.port).mp ⟨l, hl, rfl⟩
    · obtain ⟨-, -, value, hv, -, hport⟩ := kept_eq_true (mem_checked.mp hk).2
      refine ⟨value, hv, ?_⟩
      rw [← hp, ← hkl]
      exact hports.listed hv hport
    · have hmem : value ∈ entries := List.mem_of_getElem? hv
      refine ⟨value, hmem, ?_⟩
      rw [(hports.port hmem).2, hvl, hp]
  · intro ⟨value, hv, hp⟩
    obtain ⟨i, hi, hget⟩ := List.mem_iff_getElem.mp hv
    obtain ⟨l, hl, hlp⟩ := (h.ports (searchedPort value)).mpr
      (.inr ⟨i, value, hi, List.getElem?_eq_some_iff.mpr ⟨hi, hget⟩, rfl⟩)
    refine ⟨l, hl, ?_⟩
    rw [hlp]
    exact ((hports.port hv).2 p).mp hp

theorem callsOf_served (h : PortsFit entries) (hr : Running l) (hl : Listed entries l) :
    kept entries l = true ∧ ∃ value ∈ entries, HasPort value l.port.toNat ∧
      callsOf entries l = [.reload l.id value] := by
  have hp : l.port ≠ 0 := by
    obtain ⟨value, hv, hport⟩ := hl
    obtain ⟨hne, hiff⟩ := h.port hv
    rw [hiff] at hport
    exact BitVec.eq_of_toNat_eq hport ▸ hne
  have hk := (kept_iff_of_listed hl).mpr ⟨hp, hr.1⟩
  obtain ⟨-, -, value, hv, hfound, hport⟩ := kept_eq_true hk
  refine ⟨hk, value, hv, h.listed hv hport, ?_⟩
  simp [callsOf, hfound, hr.1]

theorem callsOf_gone (h : PortsFit entries) (hr : Running l) (hl : ¬ Listed entries l) :
    kept entries l = false ∧ callsOf entries l = [.join l.id] := by
  have hnone : foundValue l.port entries = none := by
    cases hf : foundValue l.port entries with
    | none => rfl
    | some value =>
      obtain ⟨hv, -, hport⟩ := foundValue_eq_some hf
      exact absurd ⟨value, hv, h.listed hv hport⟩ hl
  simp [kept, callsOf, hnone, hr.2]

/-- A reload whose entries can all be created leaves exactly the ports of the new array, keeps the
listeners it finds there and joins the others. -/
theorem reload_converges (world : World) (c : Config) (newConfig : Json) (entries : List Json)
    (hd : (c.listeners.map Listener.port).Nodup) (hrun : ∀ l ∈ c.listeners, Running l)
    (hnew : listenersArray (some newConfig) = some entries) (hports : PortsFit entries)
    (hcreate : ∀ j value, entries[j]? = some value → Creatable world j value) :
    ∃ c', reloadListeners world (some newConfig) c = .ok c' ∧ Converges entries c c' := by
  have hok : ∃ c', reloadListeners world (some newConfig) c = .ok c' := by
    rw [reloadListeners, hnew]
    refine (createNewOnes_ok_iff world 0 entries _).mpr ?_
    intro j value hv hf
    rw [Nat.zero_add] at hf
    exact absurd hf (hcreate j value hv).not_fatal
  obtain ⟨c', hc'⟩ := hok
  refine ⟨c', hc', ?_⟩
  rw [reloadListeners, hnew] at hc'
  have hcreated : Created entries (reloadListenersCheckAlreadyPresent entries c) entries.length c' := by
    refine createNewOnes_invariant ?_ hc' (created_checked hd)
    intro j value c₁ c₂ hv ht h
    have hmem : value ∈ entries := List.mem_of_getElem? hv
    rw [Nat.zero_add] at ht
    exact h.turn hv (hports.port hmem).1 (hcreate j value hv) ht
  have hext := createNewOnes_extends hc'
  have hcalls : ∀ id, callsTo c' id =
      callsTo (reloadListenersCheckAlreadyPresent entries c) id := by
    intro id
    rw [callsTo, callsTo, hext.calls]
  constructor
  · exact hcreated.port_iff hports
  · exact hcreated.once
  · intro l hl hlisted
    obtain ⟨hk, value, hv, hport, hof⟩ := callsOf_served hports (hrun l hl) hlisted
    refine ⟨hext.mem l (mem_checked.mpr ⟨hl, hk⟩), value, hv, hport, ?_⟩
    rw [hcalls, callsTo_checked hl, hof]
  · intro l hl hlisted
    obtain ⟨hk, hof⟩ := callsOf_gone hports (hrun l hl) hlisted
    constructor
    · intro k hkmem hid
      obtain hold | hfresh := hext.new k hkmem
      · obtain ⟨hkc, hkept⟩ := mem_checked.mp hold
        rw [Config.eq_of_id c hkc hl hid, hk] at hkept
        cases hkept
      · rw [checked_next, hid] at hfresh
        exact absurd (c.fresh l hl) (Nat.not_lt.mpr hfresh)
    · rw [hcalls, callsTo_checked hl, hof]

def twoListeners : Config where
  listeners := [⟨1, 2057, true, true⟩, ⟨0, 2055, true, true⟩]
  next := 2
  calls := []
  fresh := by decide
  distinct := by decide

def repeatedPort : List Json := [tcpEntry 2056 [], tcpEntry 2055 [], tcpEntry 2056 []]

theorem reload_repeated_port :
    ∃ c', reloadListeners allStart (some (.object [(lit "listeners", .array repeatedPort)]))
        twoListeners = .ok c' ∧ Converges repeatedPort twoListeners c' := by
  apply reload_converges
  · decide
  · intro l hl
    obtain rfl | rfl := by simpa [twoListeners] using hl
    · exact ⟨rfl, rfl⟩
    · exact ⟨rfl, rfl⟩
  · rfl
  · intro value hv
    rw [repeatedPort, List.mem_cons, List.mem_cons, List.mem_singleton] at hv
    obtain rfl | rfl | rfl := hv
    · exact ⟨2056, by omega, by omega, rfl⟩
    · exact ⟨2055, by omega, by omega, rfl⟩
    · exact ⟨2056, by omega, by omega, rfl⟩
  · intro j value hv
    match j, hv with
    | 0, hv | 2, hv =>
      cases hv
      exact ⟨2056, rfl⟩
    | 1, hv =>
      cases hv
      exact ⟨2055, rfl⟩

end N2Kafka.Engine.Reload
