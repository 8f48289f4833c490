import N2Kafka.Engine.MainLoop

namespace N2Kafka.Engine.ListenerLives

open Lib.CString Lib.Jansson Lib.Transition Engine.GlobalConfig Engine.RdkafkaConfig
  Engine.Reload Engine.Startup Engine.MainLoop

variable {a : World × List Json} {arrays : List (World × List Json)} {c c' c₀ : Config}
  {l : Listener} {p : BitVec 16}

def Made (a : World × List Json) (l : Listener) : Prop :=
  ∃ i value, a.2[i]? = some value ∧
    createListener a.1 i value = .ok (some ⟨l.port, l.reload, l.join⟩)

structure Grown (a : World × List Json) (c c' : Config) : Prop where
  old : Extends c c'
  made : ∀ l ∈ c'.listeners, l ∈ c.listeners ∨ c.next ≤ l.id ∧ Made a l
  ids : ∀ id, c.next ≤ id → id < c'.next → ∃ l ∈ c'.listeners, l.id = id

theorem Grown.refl (a : World × List Json) (c : Config) : Grown a c c where
  old := .refl c
  made _ hl := .inl hl
  ids _ h h' := absurd h' (Nat.not_lt.mpr h)

theorem Grown.insertHead {i : ℕ} {value : Json} {l : NewListener} (h : Grown a c c')
    (hv : a.2[i]? = some value) (hc : createListener a.1 i value = .ok (some l)) :
    Grown a c (c'.insertHead l) where
  old := by
    refine h.old.trans ⟨rfl, Nat.le_succ _, fun k hk ↦ .tail _ hk, ?_⟩
    intro k hk
    cases hk with
    | head => exact .inr le_rfl
    | tail _ hk => exact .inl hk
  made k hk := by
    cases hk with
    | head => exact .inr ⟨h.old.next, i, value, hv, hc⟩
    | tail _ hk => exact h.made k hk
  ids id hid hid' := by
    rcases Nat.lt_succ_iff_lt_or_eq.mp hid' with hlt | rfl
    · obtain ⟨k, hk, hkid⟩ := h.ids id hid hlt
      exact ⟨k, .tail _ hk, hkid⟩
    · exact ⟨_, .head _, rfl⟩

theorem createNewOnes_grown (h : reloadListenersCreateNewOnes a.1 0 a.2 c = .ok c') :
    Grown a c c' := by
  refine createNewOnes_invariant (I := fun _ ↦ Grown a c) ?_ h (.refl a c)
  intro j value c₁ c₂ hv ht hg
  rw [Nat.zero_add] at ht
  cases ht with
  | served => exact hg
  | skipped => exact hg
  | created hs hc => exact hg.insertHead hv hc

theorem parseListener_cases {world : World} {index : ℕ} {value : Json}
    (h : parseListener world index value c = .ok c') :
    (createListener world index value = .ok none ∧ c' = c) ∨
      ∃ l, createListener world index value = .ok (some l) ∧ c' = c.insertHead l := by
  rw [parseListener] at h
  obtain ⟨-, hc⟩ | ⟨-, _, l, -, hc⟩ | ⟨-, e, hc⟩ := createListener_cases world index value
  · rw [hc] at h
    cases h
    exact .inl ⟨hc, rfl⟩
  · rw [hc] at h
    cases h
    exact .inr ⟨l, hc, rfl⟩
  · rw [hc] at h
    cases h

theorem parseListeners_cons {world : World} {index : ℕ} {value : Json} {rest : List Json}
    (h : parseListeners world index (value :: rest) c = .ok c') :
    ∃ c₁, parseListener world index value c = .ok c₁ ∧
      parseListeners world (index + 1) rest c₁ = .ok c' := by
  rw [parseListeners] at h
  cases hv : parseListener world index value c with
  | error e => simp [hv] at h
  | ok c₁ => exact ⟨c₁, rfl, by simpa [hv] using h⟩

theorem parseListeners_grown {index : ℕ} {entries : List Json}
    (hentries : ∀ j value, entries[j]? = some value → a.2[index + j]? = some value)
    (h : parseListeners a.1 index entries c = .ok c') (hg : Grown a c₀ c) : Grown a c₀ c' := by
  induction entries generalizing index c with
  | nil =>
    cases h
    exact hg
  | cons value rest ih =>
    obtain ⟨c₁, hc₁, h⟩ := parseListeners_cons h
    refine ih ?_ h ?_
    · intro j v hv
      rw [Nat.add_right_comm]
      exact hentries (j + 1) v hv
    · obtain ⟨-, rfl⟩ | ⟨l, hl, rfl⟩ := parseListener_cases hc₁
      · exact hg
      · exact hg.insertHead (hentries 0 value rfl) hl

theorem serves_insertHead (c : Config) (l : NewListener) :
    Serves (c.insertHead l) p ↔ Serves c p ∨ p ≠ 0 ∧ l.port = p := by
  simp only [Serves, Config.insertHead, List.mem_cons, exists_eq_or_imp]
  rw [← and_or_left, or_comm (a := l.port = p)]

theorem starts_iff {world : World} {index : ℕ} {value : Json} {l : NewListener}
    (h : createListener world index value = .ok (some l)) :
    Starts world index value p ↔ p ≠ 0 ∧ l.port = p := by
  simp [Starts, h]

def Opens (a : World × List Json) (p : BitVec 16) : Prop := StartsBefore a.1 0 a.2 a.2.length p

theorem parseListeners_serves {world : World} {index : ℕ} {entries : List Json}
    (h : parseListeners world index entries c = .ok c') :
    Serves c' p ↔ Serves c p ∨ StartsBefore world index entries entries.length p := by
  induction entries generalizing index c with
  | nil =>
    cases h
    simp [StartsBefore]
  | cons value rest ih =>
    obtain ⟨c₁, hc₁, h⟩ := parseListeners_cons h
    rw [ih h, List.length_cons, startsBefore_cons, ← or_assoc]
    refine or_congr_left ?_
    obtain ⟨hn, rfl⟩ | ⟨l, hl, rfl⟩ := parseListener_cases hc₁
    · simp [Starts, hn]
    · rw [serves_insertHead, starts_iff hl]

theorem createNewOnes_serves {world : World} {index : ℕ} {entries : List Json}
    (h : reloadListenersCreateNewOnes world index entries c = .ok c') :
    Serves c' p ↔ Serves c p ∨ StartsBefore world index entries entries.length p := by
  induction entries generalizing index c with
  | nil =>
    cases h
    simp [StartsBefore]
  | cons value rest ih =>
    rw [createNewOnes_cons] at h
    obtain ⟨-, c₁, hc₁, ht⟩ | ⟨-, -, e, he⟩ := createNewOne_cases world index value c
    · rw [hc₁] at h
      rw [ih h, List.length_cons, startsBefore_cons, ht.serves_iff, or_assoc]
    · rw [he] at h
      cases h

theorem callsTo_checked_other {entries : List Json} {id : ℕ} (hid : ∀ l ∈ c.listeners, l.id ≠ id) :
    callsTo (reloadListenersCheckAlreadyPresent entries c) id = callsTo c id := by
  have hnone : (c.listeners.flatMap (callsOf entries)).filter (fun k ↦ k.target = id) = [] := by
    apply List.filter_eq_nil_iff.mpr
    intro k hk
    obtain ⟨l, hl, hk⟩ := List.mem_flatMap.mp hk
    simp [target_callsOf hk, hid l hl]
  rw [callsTo, reloadListenersCheckAlreadyPresent, (foldl_checkAlreadyPresent _ _ _).2,
    List.filter_append, hnone, List.append_nil]
  rfl

/-- What a reload does to the listeners and with their callbacks. -/
structure Reloaded (a : World × List Json) (c c' : Config) : Prop where
  next : c.next ≤ c'.next
  kept_iff : ∀ l ∈ c.listeners, l ∈ c'.listeners ↔ kept a.2 l = true
  calls : ∀ l ∈ c.listeners, callsTo c' l.id = callsTo c l.id ++ callsOf a.2 l
  others : ∀ id, (∀ l ∈ c.listeners, l.id ≠ id) → callsTo c' id = callsTo c id
  made : ∀ l ∈ c'.listeners, l ∈ c.listeners ∨ c.next ≤ l.id ∧ Made a l
  ids : ∀ id, c.next ≤ id → id < c'.next → ∃ l ∈ c'.listeners, l.id = id
  serves : ∀ p, Serves c' p ↔ (p ≠ 0 ∧ ∃ l ∈ c.listeners, kept a.2 l = true ∧ l.port = p) ∨ Opens a p

theorem reloadListeners_reloaded {world : World} {newConfig : Option Json} {entries : List Json}
    (hentries : listenersArray newConfig = some entries)
    (h : reloadListeners world newConfig c = .ok c') : Reloaded (world, entries) c c' := by
  rw [reloadListeners, hentries] at h
  have hg : Grown (world, entries) _ c' := createNewOnes_grown h
  have hcalls : ∀ id, callsTo c' id =
      callsTo (reloadListenersCheckAlreadyPresent entries c) id := by
    intro id
    rw [callsTo, callsTo, hg.old.calls]
  have hnext : (reloadListenersCheckAlreadyPresent entries c).next = c.next := checked_next
  constructor
  · exact hnext ▸ hg.old.next
  · intro l hl
    constructor
    · intro hl'
      obtain hold | hnew := hg.old.new l hl'
      · exact (mem_checked.mp hold).2
      · rw [hnext] at hnew
        exact absurd (c.fresh l hl) (Nat.not_lt.mpr hnew)
    · intro hk
      exact hg.old.mem l (mem_checked.mpr ⟨hl, hk⟩)
  · intro l hl
    rw [hcalls, callsTo_checked hl]
  · intro id hid
    rw [hcalls, callsTo_checked_other hid]
  · intro l hl
    obtain hold | ⟨hnew, hm⟩ := hg.made l hl
    · exact .inl (mem_checked.mp hold).1
    · exact .inr ⟨hnext ▸ hnew, hm⟩
  · intro id hid
    exact hg.ids id (hnext ▸ hid)
  · intro p
    rw [createNewOnes_serves h, serves_checked]
    rfl

variable {newer : List (World × List Json)} {pc pc' : Pc} {s s' : Process} {path : CStr}

/-- The arrays that keep a listener running. -/
def Outlives (l : Listener) (newer : List (World × List Json)) : Prop :=
  ∀ a ∈ newer, kept a.2 l = true

instance (l : Listener) (newer : List (World × List Json)) : Decidable (Outlives l newer) :=
  inferInstanceAs (Decidable (∀ a ∈ newer, kept a.2 l = true))

theorem outlives_concat : Outlives l (newer ++ [a]) ↔ Outlives l newer ∧ kept a.2 l = true := by
  simp only [Outlives, List.mem_append, List.mem_singleton, or_imp, forall_and, forall_eq]

/-- The calls of a listener's callbacks while the arrays are gone through: none is left for an array
that comes after the one that did not keep it. -/
def lifeCalls (l : Listener) : List (World × List Json) → List Call
  | [] => []
  | a :: newer => callsOf a.2 l ++ if kept a.2 l then lifeCalls l newer else []

theorem lifeCalls_concat_of_outlives (h : Outlives l newer) :
    lifeCalls l (newer ++ [a]) = lifeCalls l newer ++ callsOf a.2 l := by
  induction newer with
  | nil => simp [lifeCalls]
  | cons b newer ih =>
    obtain ⟨hb, hnewer⟩ := List.forall_mem_cons.mp h
    simp only [List.cons_append, lifeCalls, if_pos hb, ih hnewer, List.append_assoc]

theorem lifeCalls_concat_of_not_outlives (h : ¬ Outlives l newer) :
    lifeCalls l (newer ++ [a]) = lifeCalls l newer := by
  induction newer with
  | nil => exact absurd nofun h
  | cons b newer ih =>
    simp only [List.cons_append, lifeCalls]
    split
    · rename_i hb
      rw [ih fun hn ↦ h (List.forall_mem_cons.mpr ⟨hb, hn⟩)]
    · rfl

def shutDown : Pc → Listener → Bool
  | .joining rest, l => l ∉ rest
  | .closing, _ => true
  | .done, _ => true
  | _, _ => false

def joinCall (l : Listener) : List Call := if l.join then [.join l.id] else []

def lastCalls (pc : Pc) (l : Listener) (newer : List (World × List Json)) : List Call :=
  if Outlives l newer ∧ shutDown pc l then joinCall l else []

theorem lastCalls_congr (h : Outlives l newer → shutDown pc' l = shutDown pc l) :
    lastCalls pc' l newer = lastCalls pc l newer := by
  by_cases ho : Outlives l newer
  · simp [lastCalls, ho, h ho]
  · simp [lastCalls, ho]

/-- The listener was created from one of the arrays, `newer` are those that came after it. -/
def Born (arrays : List (World × List Json)) (l : Listener) (newer : List (World × List Json)) :
    Prop :=
  ∃ old a, arrays = old ++ a :: newer ∧ Made a l

theorem Born.concat (h : Born arrays l newer) : Born (arrays ++ [a]) l (newer ++ [a]) := by
  obtain ⟨old, b, rfl, hm⟩ := h
  exact ⟨old, b, by simp, hm⟩

/-- The life of an object as the files tell it. -/
structure Life (s : Process) (l : Listener) (newer : List (World × List Json)) : Prop where
  born : Born s.arrays l newer
  running : l ∈ s.config.listeners ↔ Outlives l newer
  only : ∀ k ∈ s.config.listeners, k.id = l.id → k = l
  calls : callsTo s.config l.id = lifeCalls l newer ++ lastCalls s.pc l newer

structure Lives (s : Process) : Prop where
  start : s.pc = .parsing → s.config = noListeners ∧ s.arrays = []
  rest : ∀ rest, s.pc = .joining rest → rest <:+ s.config.listeners
  unborn : ∀ id, s.config.next ≤ id → callsTo s.config id = []
  lives : ∀ id < s.config.next, ∃ l newer, l.id = id ∧ Life s l newer

theorem Lives.frame (h : Lives s) (hconfig : s'.config = s.config) (harrays : s'.arrays = s.arrays)
    (hstart : s'.pc = .parsing → s.pc = .parsing)
    (hrest : ∀ rest, s'.pc = .joining rest → rest <:+ s.config.listeners)
    (hdown : ∀ l ∈ s.config.listeners, shutDown s'.pc l = shutDown s.pc l) : Lives s' where
  start hs := by
    rw [hconfig, harrays]
    exact h.start (hstart hs)
  rest := by rwa [hconfig]
  unborn := by
    rw [hconfig]
    exact h.unborn
  lives id hid := by
    rw [hconfig] at hid
    obtain ⟨l, newer, hl, hlife⟩ := h.lives id hid
    refine ⟨l, newer, hl, ?_, ?_, ?_, ?_⟩
    · rw [harrays]
      exact hlife.born
    · rw [hconfig]
      exact hlife.running
    · rw [hconfig]
      exact hlife.only
    · rw [hconfig, hlife.calls, lastCalls_congr fun ho ↦ hdown l (hlife.running.mpr ho)]

theorem lives_init (file : Option Json) : Lives (init file) where
  start _ := ⟨rfl, rfl⟩
  rest _ h := by cases h
  unborn _ _ := rfl
  lives _ h := absurd h (Nat.not_lt_zero _)

theorem Grown.lives {arr : World × List Json} (hg : Grown arr noListeners s.config)
    (harrays : s.arrays = [arr]) (hpc : s.pc = .unblocking) : Lives s where
  start h := by
    rw [hpc] at h
    cases h
  rest rest h := by
    rw [hpc] at h
    cases h
  unborn id _ := by
    rw [callsTo, hg.old.calls]
    rfl
  lives id hid := by
    obtain ⟨l, hl, hlid⟩ := hg.ids id (Nat.zero_le id) hid
    refine ⟨l, [], hlid, ?_, ?_, ?_, ?_⟩
    · obtain hold | ⟨-, hm⟩ := hg.made l hl
      · cases hold
      · exact ⟨[], arr, harrays, hm⟩
    · exact ⟨fun _ ↦ List.forall_mem_nil _, fun _ ↦ hl⟩
    · intro k hk hkid
      exact Config.eq_of_id s.config hk hl hkid
    · rw [callsTo, hg.old.calls, hpc]
      simp [noListeners, lifeCalls, lastCalls, shutDown]

theorem Life.reloaded (h : Life s l newer) (hid : l.id < s.config.next)
    (hr : Reloaded a s.config s'.config) (harrays : s'.arrays = s.arrays ++ [a])
    (hdown : ∀ k, shutDown s.pc k = false) (hdown' : ∀ k, shutDown s'.pc k = false) :
    Life s' l (newer ++ [a]) := by
  have hnone : ∀ pc newer, (∀ k, shutDown pc k = false) → lastCalls pc l newer = [] := by
    intro pc newer hpc
    simp [lastCalls, hpc]
  have hold : ∀ k ∈ s'.config.listeners, k.id = l.id → k ∈ s.config.listeners := by
    intro k hk hkid
    obtain hk | ⟨hnew, -⟩ := hr.made k hk
    · exact hk
    · exact absurd hid (Nat.not_lt.mpr (hkid ▸ hnew))
  constructor
  · rw [harrays]
    exact h.born.concat
  · rw [outlives_concat, ← h.running]
    constructor
    · intro hl
      have hl₀ := hold l hl rfl
      exact ⟨hl₀, (hr.kept_iff l hl₀).mp hl⟩
    · rintro ⟨hl₀, hk⟩
      exact (hr.kept_iff l hl₀).mpr hk
  · intro k hk hkid
    exact h.only k (hold k hk hkid) hkid
  · have hcalls := h.calls
    rw [hnone _ _ hdown, List.append_nil] at hcalls
    rw [hnone _ _ hdown', List.append_nil]
    by_cases ho : Outlives l newer
    · rw [hr.calls l (h.running.mpr ho), hcalls, lifeCalls_concat_of_outlives ho]
    · have hother : ∀ k ∈ s.config.listeners, k.id ≠ l.id := by
        intro k hk hkid
        have hkl := h.only k hk hkid
        exact ho (h.running.mp (hkl ▸ hk))
      rw [hr.others _ hother, hcalls, lifeCalls_concat_of_not_outlives ho]

theorem Lives.reloaded (h : Lives s) (hr : Reloaded a s.config s'.config)
    (harrays : s'.arrays = s.arrays ++ [a]) (hdown : ∀ k, shutDown s.pc k = false)
    (hpc : s'.pc = .clearing) : Lives s' where
  start hs := by
    rw [hpc] at hs
    cases hs
  rest rest hs := by
    rw [hpc] at hs
    cases hs
  unborn id hid := by
    have hid₀ : s.config.next ≤ id := le_trans hr.next hid
    rw [hr.others, h.unborn id hid₀]
    intro l hl hlid
    exact absurd (s.config.fresh l hl) (Nat.not_lt.mpr (hlid ▸ hid₀))
  lives id hid := by
    have hdown' : ∀ k, shutDown s'.pc k = false := by
      intro k
      rw [hpc]
      rfl
    rcases Nat.lt_or_ge id s.config.next with hlt | hge
    · obtain ⟨l, newer, hl, hlife⟩ := h.lives id hlt
      exact ⟨l, newer ++ [a], hl, hlife.reloaded (hl ▸ hlt) hr harrays hdown hdown'⟩
    · obtain ⟨l, hl, hlid⟩ := hr.ids id hge hid
      have hfresh : ∀ k ∈ s.config.listeners, k.id ≠ id := by
        intro k hk hkid
        exact absurd (s.config.fresh k hk) (Nat.not_lt.mpr (hkid ▸ hge))
      refine ⟨l, [], hlid, ?_, ?_, ?_, ?_⟩
      · obtain hold | ⟨-, hm⟩ := hr.made l hl
        · exact absurd hlid (hfresh l hold)
        · exact ⟨s.arrays, a, harrays, hm⟩
      · exact ⟨fun _ ↦ nofun, fun _ ↦ hl⟩
      · intro k hk hkid
        exact Config.eq_of_id s'.config hk hl hkid
      · rw [hlid, hr.others id hfresh, h.unborn id hge]
        simp [lifeCalls, lastCalls, hdown']

@[simp]
theorem shutdownListener_listeners (c : Config) (i : Listener) :
    (shutdownListener c i).listeners = c.listeners := by
  unfold shutdownListener
  split <;> rfl

@[simp]
theorem shutdownListener_next (c : Config) (i : Listener) :
    (shutdownListener c i).next = c.next := by
  unfold shutdownListener
  split <;> rfl

theorem callsTo_shutdownListener (c : Config) (i : Listener) (id : ℕ) :
    callsTo (shutdownListener c i) id = callsTo c id ++ if i.id = id then joinCall i else [] := by
  unfold shutdownListener joinCall
  split
  · by_cases hid : i.id = id
    · simp [callsTo, Config.call, Call.target, hid]
    · simp [callsTo, Config.call, Call.target, hid]
  · simp

theorem Life.joined {i : Listener} {rest : List Listener} (h : Life s l newer)
    (hpc : s.pc = .joining (i :: rest)) (hi : i ∈ s.config.listeners) (hirest : i ∉ rest) :
    Life { s with pc := .joining rest, config := shutdownListener s.config i } l newer := by
  constructor
  · exact h.born
  · rw [shutdownListener_listeners]
    exact h.running
  · rw [shutdownListener_listeners]
    exact h.only
  · rw [callsTo_shutdownListener, h.calls, hpc, List.append_assoc]
    congr 1
    by_cases hid : i.id = l.id
    · have hil : i = l := h.only i hi hid
      have ho : Outlives l newer := h.running.mp (hil ▸ hi)
      subst hil
      simp [lastCalls, shutDown, ho, hirest]
    · have hil : l ≠ i := fun he ↦ hid (he ▸ rfl)
      simp [lastCalls, shutDown, hid, hil]

theorem Lives.joined {i : Listener} {rest : List Listener} (h : Lives s)
    (hpc : s.pc = .joining (i :: rest)) :
    Lives { s with pc := .joining rest, config := shutdownListener s.config i } where
  start hs := by cases hs
  rest rest' hs := by
    cases hs
    rw [shutdownListener_listeners]
    exact (List.suffix_cons i rest).trans (h.rest _ hpc)
  unborn id hid := by
    rw [shutdownListener_next] at hid
    have hi : i ∈ s.config.listeners := (h.rest _ hpc).subset (.head _)
    have hne : i.id ≠ id := fun hid' ↦ absurd (s.config.fresh i hi) (Nat.not_lt.mpr (hid' ▸ hid))
    rw [callsTo_shutdownListener, h.unborn id hid, if_neg hne, List.append_nil]
  lives id hid := by
    rw [shutdownListener_next] at hid
    obtain ⟨l, newer, hl, hlife⟩ := h.lives id hid
    have hsuffix := h.rest _ hpc
    have hnodup : (i :: rest).Nodup :=
      (List.Nodup.of_map _ s.config.distinct).sublist hsuffix.sublist
    exact ⟨l, newer, hl, hlife.joined hpc (hsuffix.subset (.head _)) (List.nodup_cons.mp hnodup).1⟩

theorem Lives.parsed {sur : Surroundings} {settings : Settings} {conf : RdkafkaConf}
    {config : Config} (h : Lives s) (hpc : s.pc = .parsing)
    (hp : parseConfig sur path s.file s.settings s.config = some (settings, conf, config)) :
    Lives { s with
      pc := .unblocking
      settings := settings
      config := config
      arrays := s.arrays ++ [(sur.world, (s.file.map startupEntries).getD [])] } := by
  obtain ⟨hconfig, harrays⟩ := h.start hpc
  obtain ⟨file, hfile, -, hlisteners⟩ := parseConfig_eq_some hp
  rw [hconfig] at hlisteners
  have hg : Grown (sur.world, startupEntries file) noListeners config := by
    refine parseListeners_grown ?_ hlisteners (.refl _ _)
    intro j value hv
    rwa [Nat.zero_add]
  refine hg.lives ?_ rfl
  simp [harrays, hfile]

theorem Lives.applied {sur : Surroundings} {newConfig : Option Json} {config : Config}
    (h : Lives s) (hpc : s.pc = .applying newConfig)
    (hr : reloadListeners sur.world newConfig s.config = .ok config) :
    Lives { s with
      pc := .clearing
      config := config
      arrays := MainLoop.applied sur.world newConfig s.arrays } := by
  have hdown : ∀ l, shutDown s.pc l = false := by
    intro l
    rw [hpc]
    rfl
  cases hentries : listenersArray newConfig with
  | none =>
    rw [reloadListeners, hentries] at hr
    cases hr
    refine h.frame rfl ?_ (by simp) (by simp) fun l _ ↦ by rw [hdown]; rfl
    simp [MainLoop.applied, hentries]
  | some entries =>
    refine h.reloaded (reloadListeners_reloaded hentries hr) ?_ hdown rfl
    simp [MainLoop.applied, hentries]

theorem Lives.turned (h : Lives s) (ht : Turned path s s') : Lives s' := by
  cases ht with
  | parsed hpc hp => exact h.parsed hpc hp
  | applied hpc hr => exact h.applied hpc hr
  | joined hpc => exact h.joined hpc
  | shutsDown hpc hs =>
    refine h.frame rfl rfl nofun ?_ fun l hl ↦ by simp [hpc, shutDown, hl]
    intro rest hrest
    cases hrest
    exact List.suffix_rfl
  | exited hpc =>
    refine h.frame rfl rfl nofun nofun fun l _ ↦ ?_
    obtain hpc | ⟨newConfig, hpc⟩ := hpc
    · rw [hpc]
      rfl
    · rw [hpc]
      rfl
  | unblocked hpc | goesOn hpc | polled hpc | notAsked hpc | asked hpc | noPath hpc | loaded hpc
    | cleared hpc | allJoined hpc | closed hpc =>
    exact h.frame rfl rfl nofun nofun fun l _ ↦ by simp [hpc, shutDown, unblock]

theorem lives_of_reachable {file : Option Json} (h : Reachable (step path) (init file) s) :
    Lives s := by
  refine h.invariant (lives_init file) ?_
  intro act s s' hlives hs
  obtain ht | ⟨hpc, hconfig, harrays, -⟩ := step_frame hs
  · exact hlives.turned ht
  · refine hlives.frame hconfig harrays ?_ ?_ fun l _ ↦ by rw [hpc]
    · rw [hpc]
      exact id
    · rw [hpc]
      exact hlives.rest

/-- Each object that was ever created has been called as the arrays loaded since then say, and runs
as long as they all list its port. -/
theorem calls_follow_files {file : Option Json} (h : Reachable (step path) (init file) s) (id : ℕ)
    (hid : id < s.config.next) : ∃ l newer, l.id = id ∧ Life s l newer :=
  (lives_of_reachable h).lives id hid

theorem replaced_calls : ∃ l newer, l.id = 0 ∧ Life replaced l newer :=
  calls_follow_files replaced_reachable 0 (by decide)

theorem lifeCalls_eq (l : Listener) (newer : List (World × List Json)) :
    ∃ values : List Json, lifeCalls l newer =
      values.map (Call.reload l.id) ++ if Outlives l newer then [] else joinCall l := by
  induction newer with
  | nil => exact ⟨[], by simp [lifeCalls, Outlives]⟩
  | cons a newer ih =>
    obtain ⟨values, hvalues⟩ := ih
    cases hk : kept a.2 l with
    | false =>
      refine ⟨[], ?_⟩
      have hcalls : callsOf a.2 l = joinCall l := by
        unfold callsOf joinCall
        cases hf : foundValue l.port a.2 with
        | none => rfl
        | some value =>
          cases hr : l.reload with
          | false => rfl
          | true => simp [kept, hf, hr] at hk
      have ho : ¬ Outlives l (a :: newer) := by
        intro ho
        rw [ho a (.head _)] at hk
        cases hk
      simp [lifeCalls, hk, ho, hcalls]
    | true =>
      obtain ⟨hr, -, value, -, hf, -⟩ := kept_eq_true hk
      refine ⟨value :: values, ?_⟩
      have hcalls : callsOf a.2 l = [.reload l.id value] := by simp [callsOf, hf, hr]
      have ho : Outlives l (a :: newer) ↔ Outlives l newer := by simp [Outlives, hk]
      simp [lifeCalls, hk, ho, hcalls, hvalues]

theorem Made.join (h : Made a l) : l.join = true ∨ l.port = 0 ∧ l.reload = false := by
  obtain ⟨i, value, -, hc⟩ := h
  obtain hl | hl := createListener_port hc
  · simp only [NewListener.mk.injEq] at hl
    exact .inr ⟨hl.1, hl.2.1⟩
  · simp only [NewListener.mk.injEq] at hl
    exact .inl hl.2.2

/-- The object that an entry of one of the arrays created under this identity is told to join at most
once, by the last of its calls: not before it leaves the list or the process shuts down, and then at
once, unless it came without callbacks and was never called. -/
theorem joined_once_and_last {file : Option Json} (h : Reachable (step path) (init file) s) (id : ℕ)
    (hid : id < s.config.next) : ∃ l newer, l.id = id ∧ Born s.arrays l newer ∧
      (∀ k ∈ s.config.listeners, k.id = id → k = l) ∧
      (l.join = true ∨ callsTo s.config id = []) ∧
      ∃ values : List Json, callsTo s.config id = values.map (Call.reload id) ++
        if l ∈ s.config.listeners ∧ shutDown s.pc l = false then [] else joinCall l := by
  obtain ⟨l, newer, rfl, hlife⟩ := (lives_of_reachable h).lives id hid
  obtain ⟨values, hvalues⟩ := lifeCalls_eq l newer
  have hcalls : callsTo s.config l.id = values.map (Call.reload l.id) ++
      if l ∈ s.config.listeners ∧ shutDown s.pc l = false then [] else joinCall l := by
    rw [hlife.calls, hvalues, lastCalls]
    simp only [hlife.running]
    by_cases ho : Outlives l newer
    · cases hd : shutDown s.pc l <;> simp [ho]
    · simp [ho]
  refine ⟨l, newer, rfl, hlife.born, hlife.only, ?_, values, hcalls⟩
  obtain ⟨old, a, -, hm⟩ := hlife.born
  obtain hj | ⟨hp, hr⟩ := hm.join
  · exact .inl hj
  · by_cases hj : l.join = true
    · exact .inl hj
    · refine .inr ?_
      rw [hlife.calls, lastCalls, joinCall, if_neg hj, ite_self, List.append_nil]
      cases newer with
      | nil => rfl
      | cons b newer => simp [lifeCalls, callsOf, kept, hr, hj]

theorem replaced_joined : ∃ l newer, l.id = 0 ∧ Born replaced.arrays l newer ∧
    (∀ k ∈ replaced.config.listeners, k.id = 0 → k = l) ∧
    (l.join = true ∨ callsTo replaced.config 0 = []) ∧
    ∃ values : List Json, callsTo replaced.config 0 = values.map (Call.reload 0) ++
      if l ∈ replaced.config.listeners ∧ shutDown replaced.pc l = false then [] else joinCall l :=
  joined_once_and_last replaced_reachable 0 (by decide)

/-- Since an array that opened the port, every array has listed it. -/
def ServedSince (arrays : List (World × List Json)) (p : BitVec 16) : Prop :=
  ∃ old a newer, arrays = old ++ a :: newer ∧ Opens a p ∧
    ∀ b ∈ newer, (foundValue p b.2).isSome = true

theorem servedSince_concat :
    ServedSince (arrays ++ [a]) p ↔
      ServedSince arrays p ∧ (foundValue p a.2).isSome = true ∨ Opens a p := by
  constructor
  · rintro ⟨old, b, newer, harrays, hopens, hnewer⟩
    induction newer using List.reverseRecOn with
    | nil =>
      obtain ⟨rfl, hab⟩ := List.append_inj' harrays rfl
      rw [List.singleton_inj.mp hab]
      exact .inr hopens
    | append_singleton newer b' =>
      rw [← List.cons_append, ← List.append_assoc] at harrays
      obtain ⟨rfl, hab⟩ := List.append_inj' harrays rfl
      rw [List.singleton_inj.mp hab]
      refine .inl ⟨⟨old, b, newer, rfl, hopens, ?_⟩, hnewer b' (by simp)⟩
      intro k hk
      exact hnewer k (List.mem_append_left _ hk)
  · intro h
    rcases h with ⟨⟨old, b, newer, rfl, hopens, hnewer⟩, hfound⟩ | hopens
    · refine ⟨old, b, newer ++ [a], by simp, hopens, ?_⟩
      intro k hk
      cases List.mem_append.mp hk with
      | inl hk => exact hnewer k hk
      | inr hk => exact List.mem_singleton.mp hk ▸ hfound
    · exact ⟨arrays, a, [], rfl, hopens, by simp⟩

theorem Made.reload_of_port (h : Made a l) (hp : l.port ≠ 0) : l.reload = true := by
  obtain ⟨i, value, -, hc⟩ := h
  obtain hl | hl := createListener_port hc
  · simp only [NewListener.mk.injEq] at hl
    exact absurd hl.1 hp
  · simp only [NewListener.mk.injEq] at hl
    exact hl.2.1

theorem Lives.reload_of_port (h : Lives s) (hl : l ∈ s.config.listeners) (hp : l.port ≠ 0) :
    l.reload = true := by
  obtain ⟨k, newer, hk, hlife⟩ := h.lives l.id (s.config.fresh l hl)
  obtain ⟨old, a, -, hm⟩ := hlife.born
  have hlk : l = k := hlife.only l hl hk.symm
  subst hlk
  exact hm.reload_of_port hp

theorem Reloaded.serves_iff (h : Reloaded a c c')
    (hreload : ∀ l ∈ c.listeners, l.port ≠ 0 → l.reload = true) :
    Serves c' p ↔ Serves c p ∧ (foundValue p a.2).isSome = true ∨ Opens a p := by
  rw [h.serves, Serves, and_assoc]
  refine or_congr_left (and_congr_right fun hp ↦ ?_)
  constructor
  · rintro ⟨l, hl, hk, hlp⟩
    obtain ⟨-, -, value, -, hf, -⟩ := kept_eq_true hk
    exact ⟨⟨l, hl, hlp⟩, by rw [← hlp, hf]; rfl⟩
  · rintro ⟨⟨l, hl, hlp⟩, hf⟩
    refine ⟨l, hl, ?_, hlp⟩
    rw [kept, hlp, hf, hreload l hl (hlp ▸ hp)]
    rfl

/-- The served ports as the files tell them. -/
def Ports (s : Process) : Prop := ∀ p, Serves s.config p ↔ ServedSince s.arrays p

theorem Ports.frame (h : Ports s) (hlisteners : s'.config.listeners = s.config.listeners)
    (harrays : s'.arrays = s.arrays) : Ports s' := by
  intro p
  rw [harrays, ← h p, Serves, Serves, hlisteners]

theorem Ports.parsed {sur : Surroundings} {settings : Settings} {conf : RdkafkaConf}
    {config : Config} (hlives : Lives s) (hpc : s.pc = .parsing)
    (hp : parseConfig sur path s.file s.settings s.config = some (settings, conf, config)) :
    Ports { s with
      pc := .unblocking
      settings := settings
      config := config
      arrays := s.arrays ++ [(sur.world, (s.file.map startupEntries).getD [])] } := by
  obtain ⟨hconfig, harrays⟩ := hlives.start hpc
  obtain ⟨file, hfile, -, hlisteners⟩ := parseConfig_eq_some hp
  intro p
  have hserves := parseListeners_serves (p := p) hlisteners
  have hnone : ¬ ServedSince [] p := by
    rintro ⟨old, a, newer, ha, _⟩
    simp at ha
  have hcons : ServedSince [(sur.world, startupEntries file)] p ↔
      Opens (sur.world, startupEntries file) p := by
    rw [← List.nil_append [_], servedSince_concat]
    simp [hnone]
  simp only [harrays, hfile, List.nil_append, Option.map_some, Option.getD_some, hcons]
  rw [hserves, hconfig]
  simp [Serves, noListeners, Opens]

theorem Ports.applied {sur : Surroundings} {newConfig : Option Json} {config : Config}
    (h : Ports s) (hlives : Lives s)
    (hr : reloadListeners sur.world newConfig s.config = .ok config) :
    Ports { s with
      pc := .clearing
      config := config
      arrays := MainLoop.applied sur.world newConfig s.arrays } := by
  cases hentries : listenersArray newConfig with
  | none =>
    rw [reloadListeners, hentries] at hr
    cases hr
    exact h.frame rfl (by simp [MainLoop.applied, hentries])
  | some entries =>
    intro p
    have hserves := (reloadListeners_reloaded hentries hr).serves_iff (p := p)
      fun l hl ↦ hlives.reload_of_port hl
    simp only [MainLoop.applied, hentries]
    rw [hserves, servedSince_concat, h p]

theorem Ports.turned (h : Ports s) (hlives : Lives s) (ht : Turned path s s') : Ports s' := by
  cases ht with
  | parsed hpc hp => exact Ports.parsed hlives hpc hp
  | applied hpc hr => exact h.applied hlives hr
  | joined hpc => exact h.frame (shutdownListener_listeners _ _) rfl
  | _ => exact h.frame rfl rfl

theorem ports_of_reachable {file : Option Json} (h : Reachable (step path) (init file) s) :
    Ports s := by
  suffices Lives s ∧ Ports s from this.2
  refine h.invariant (P := fun s ↦ Lives s ∧ Ports s) ⟨lives_init file, ?_⟩ ?_
  · intro p
    refine iff_of_false ?_ ?_
    · simp [Serves, init, noListeners]
    · rintro ⟨old, a, newer, ha, _⟩
      simp [init] at ha
  · rintro act s s' ⟨hlives, hports⟩ hs
    obtain ht | ⟨hpc, hconfig, harrays, -⟩ := step_frame hs
    · exact ⟨hlives.turned ht, hports.turned hlives ht⟩
    · refine ⟨hlives.frame hconfig harrays ?_ ?_ fun l _ ↦ by rw [hpc], ?_⟩
      · rw [hpc]
        exact id
      · rw [hpc]
        exact hlives.rest
      · exact hports.frame (by rw [hconfig]) harrays

/-- A port is served exactly if some array that was gone through could open it and every array since
then has listed it. -/
theorem ports_follow_files {file : Option Json} (h : Reachable (step path) (init file) s)
    (p : BitVec 16) : Serves s.config p ↔ ServedSince s.arrays p :=
  ports_of_reachable h p

theorem replaced_ports : Serves replaced.config 2057 ↔ ServedSince replaced.arrays 2057 :=
  ports_follow_files replaced_reachable 2057

/-- Every entry has a port of its type and can be created. -/
def Good (a : World × List Json) : Prop :=
  PortsFit a.2 ∧ ∀ j value, a.2[j]? = some value → Creatable a.1 j value

theorem Good.opens_iff (h : Good a) :
    Opens a p ↔ ∃ value ∈ a.2, HasPort value p.toNat := by
  obtain ⟨hports, hcreate⟩ := h
  constructor
  · rintro ⟨i, value, _, hv, hp, l, hc, hl⟩
    rw [Nat.zero_add] at hc
    have hmem : value ∈ a.2 := List.mem_of_getElem? hv
    refine ⟨value, hmem, ?_⟩
    rw [(hcreate i value hv).createListener] at hc
    cases hc
    rw [(hports.port hmem).2, ← hl]
  · rintro ⟨value, hmem, hport⟩
    obtain ⟨i, hi, hget⟩ := List.mem_iff_getElem.mp hmem
    have hv : a.2[i]? = some value := List.getElem?_eq_some_iff.mpr ⟨hi, hget⟩
    obtain ⟨hne, hiff⟩ := hports.port hmem
    have hp : searchedPort value = p := BitVec.eq_of_toNat_eq ((hiff _).mp hport)
    refine ⟨i, value, hi, hv, hp ▸ hne, ⟨searchedPort value, true, true⟩, ?_, hp⟩
    rw [Nat.zero_add]
    exact (hcreate i value hv).createListener

/-- Whatever was loaded before it, an array without a bad entry leaves its ports and no others. -/
theorem ports_of_last_array {file : Option Json} {old : List (World × List Json)}
    (h : Reachable (step path) (init file) s) (harrays : s.arrays = old ++ [a]) (hgood : Good a)
    (p : BitVec 16) : Serves s.config p ↔ ∃ value ∈ a.2, HasPort value p.toNat := by
  rw [ports_of_reachable h p, harrays, servedSince_concat, ← hgood.opens_iff]
  refine ⟨fun h ↦ h.elim (fun hs ↦ ?_) id, .inr⟩
  obtain ⟨-, hfound⟩ := hs
  obtain ⟨value, hvalue⟩ := Option.isSome_iff_exists.mp hfound
  obtain ⟨hmem, -, hport⟩ := foundValue_eq_some (l := ⟨0, p, true, true⟩) hvalue
  change entryPort value = p.toNat at hport
  obtain ⟨hne, hiff⟩ := hgood.1.port hmem
  refine hgood.opens_iff.mpr ⟨value, hmem, (hiff _).mpr ?_⟩
  rw [searchedPort, hport, BitVec.toNat_ofInt]
  have := p.isLt
  omega

theorem replaced_ports_of_last_array : Serves replaced.config 2057 ↔
    ∃ value ∈ [tcpEntry 2056 [], tcpEntry 2057 []], HasPort value 2057 := by
  have harrays : replaced.arrays = [(allStart, [tcpEntry 2055 [], tcpEntry 2056 []])] ++
      [(allStart, [tcpEntry 2056 [], tcpEntry 2057 []])] := rfl
  refine ports_of_last_array replaced_reachable harrays ⟨?_, ?_⟩ 2057
  · intro value hv
    obtain rfl | rfl := by simpa using hv
    · exact ⟨2056, by omega, by omega, rfl⟩
    · exact ⟨2057, by omega, by omega, rfl⟩
  · intro j value hv
    match j, hv with
    | 0, hv =>
      cases hv
      exact ⟨2056, rfl⟩
    | 1, hv =>
      cases hv
      exact ⟨2057, rfl⟩

end N2Kafka.Engine.ListenerLives
