import N2Kafka.Util.KafkaStats

namespace N2Kafka.Util.KafkaEnrichment

open Lib.CString KafkaStats

structure Buffer where
  id : ℕ
  bytes : Bytes

inductive StatsRc
  | pleaseFreeLibrdkafka
  | iWillFreeLibrdkafka
  deriving DecidableEq

inductive StatsCb
  | topic
  | rdlog
  deriving DecidableEq

/-- `stats`, as `init_rdkafka` leaves it. `append_buf` has as many bytes as its size says, and the
last of them is only there for a brace. -/
structure Stats where
  n2kStatsCb : StatsCb
  appendBuf : Bytes

/-- What a callback meets: the block that a reallocation gives, with what is behind the old bytes in
it, whether the topic is still there and whether the message is produced. -/
structure World where
  realloc : Option (ℕ × (ℕ → UInt8))
  statsTopic : Bool
  produced : Bool

inductive Owner
  | librdkafka
  | decorator
  | message
  deriving DecidableEq

structure Release where
  owner : Owner
  id : ℕ
  deriving DecidableEq

structure Inner where
  json : Buffer
  jsonLen : ℕ
  rc : StatsRc
  releases : List Release

def rdkafkaStatsTopicCb (world : World) (json : Buffer) (jsonLen : ℕ) : Inner :=
  if !world.statsTopic then ⟨json, jsonLen, .pleaseFreeLibrdkafka, []⟩
  else if !world.produced then ⟨json, jsonLen, .pleaseFreeLibrdkafka, []⟩
  else ⟨json, jsonLen, .iWillFreeLibrdkafka, [⟨.message, json.id⟩]⟩

/-- There is no result if the callback reads past the buffer, or if the fuel does not last. -/
def n2kStatsCb (fuel : ℕ) (world : World) (cb : StatsCb) (json : Buffer) (jsonLen : ℕ) :
    Option Inner :=
  match cb with
  | .topic => some (rdkafkaStatsTopicCb world json jsonLen)
  | .rdlog =>
    if jsonLen ≤ json.bytes.length then
      (rdkafkaStatsRdlogCb fuel (json.bytes.take jsonLen)).map fun _ ↦
        ⟨json, jsonLen, .pleaseFreeLibrdkafka, []⟩
    else none

def enrich (bytes appendBuf : Bytes) (junk : ℕ → UInt8) : Option Bytes :=
  let jsonLen := bytes.length
  let newJsonLen := jsonLen + appendBuf.length
  let json := bytes ++ (List.range appendBuf.length).map junk
  if json[jsonLen - 1]? = some 125 then
    let json := memWrite json (jsonLen - 1) [44]
    let json := memWrite json jsonLen appendBuf
    some (memWrite json (newJsonLen - 1) [125])
  else none

/-- What `rdkafka_stats_enrich_decorator_cb` passes on. A failed reallocation leaves the buffer as it
is, but not its length. -/
def enrichedArgs (world : World) (appendBuf : Bytes) (json : Buffer) : Option (Buffer × ℕ) :=
  let newJsonLen := json.bytes.length + appendBuf.length
  match world.realloc with
  | none => some (json, newJsonLen)
  | some (id, junk) => (enrich json.bytes appendBuf junk).map fun bytes ↦ (⟨id, bytes⟩, newJsonLen)

def rdkafkaStatsEnrichDecoratorCb (fuel : ℕ) (world : World) (cb : StatsCb) (appendBuf : Bytes)
    (json : Buffer) : Option Inner := do
  let (json, newJsonLen) ← enrichedArgs world appendBuf json
  let inner ← n2kStatsCb fuel world cb json newJsonLen
  if world.realloc.isSome ∧ inner.rc = .pleaseFreeLibrdkafka then
    return { inner with
      rc := .iWillFreeLibrdkafka
      releases := inner.releases ++ [⟨.decorator, json.id⟩] }
  else return inner

def statsCb (fuel : ℕ) (world : World) (stats : Stats) (json : Buffer) : Option Inner :=
  if stats.appendBuf.length ≠ 0 then
    rdkafkaStatsEnrichDecoratorCb fuel world stats.n2kStatsCb stats.appendBuf json
  else n2kStatsCb fuel world stats.n2kStatsCb json json.bytes.length

/-- The callback with librdkafka around it, which releases the buffer that it passed if it is asked
to. -/
def emitStats (fuel : ℕ) (world : World) (stats : Stats) (json : Buffer) : Option Inner :=
  (statsCb fuel world stats json).map fun inner ↦
    if inner.rc = .pleaseFreeLibrdkafka then
      { inner with releases := inner.releases ++ [⟨.librdkafka, json.id⟩] }
    else inner

/-- The inner callback gets all of a buffer, and one owner releases it, once. -/
def OwnedOnce (world : World) (stats : Stats) (json : Buffer) : Prop :=
  ∃ fuel inner, emitStats fuel world stats json = some inner ∧
    inner.jsonLen = inner.json.bytes.length ∧
    ∃ owner, inner.releases = [⟨owner, inner.json.id⟩]

def statsText (body : Bytes) : Bytes := ascii "\x7b" ++ body ++ ascii "\x7d"

def Stats.text (stats : Stats) (body : Bytes) : Bytes :=
  if stats.appendBuf = [] then statsText body
  else statsText (body ++ ascii "," ++ stats.appendBuf.dropLast)

theorem enrich_statsText (body extra : Bytes) (last : UInt8) (junk : ℕ → UInt8) :
    enrich (statsText body) (extra ++ [last]) junk = some (statsText (body ++ ascii "," ++ extra)) := by
  obtain ⟨fill, hfill⟩ : ∃ fill, (List.range (extra ++ [last]).length).map junk = fill := ⟨_, rfl⟩
  have hfillLength : fill.length = (extra ++ [last]).length := by simp [← hfill]
  have htext : statsText body = 123 :: body ++ [125] := rfl
  have hlast : (statsText body).length - 1 = (123 :: body).length := by
    rw [htext, List.length_append]
    exact Nat.add_sub_cancel _ _
  have hcomma : memWrite (123 :: body ++ [125] ++ fill) (123 :: body).length [44] =
      123 :: body ++ [44] ++ fill := memWrite_append _ _ _ _ rfl
  have happend : memWrite (123 :: body ++ [44] ++ fill) (123 :: body ++ [44]).length
      (extra ++ [last]) = 123 :: body ++ [44] ++ extra ++ [last] := by
    have h := memWrite_append (123 :: body ++ [44]) fill [] (extra ++ [last]) hfillLength
    rwa [List.append_nil, List.append_nil, ← List.append_assoc] at h
  have hclose : memWrite (123 :: body ++ [44] ++ extra ++ [last]) (123 :: body ++ [44] ++ extra).length
      [125] = 123 :: body ++ [44] ++ extra ++ [125] := by
    have h := memWrite_append (123 :: body ++ [44] ++ extra) [last] [] [125] rfl
    rwa [List.append_nil, List.append_nil] at h
  have hlength : (statsText body).length = (123 :: body ++ [44]).length := by
    rw [htext]
    simp
  have hend : (statsText body).length + (extra ++ [last]).length - 1 =
      (123 :: body ++ [44] ++ extra).length := by
    rw [hlength]
    simp only [List.length_append, List.length_singleton]
    omega
  have hbrace : (statsText body ++ fill)[(statsText body).length - 1]? = some 125 := by
    rw [hlast, htext, List.append_assoc, List.getElem?_append_right le_rfl]
    simp
  unfold enrich
  simp only [hfill]
  rw [if_pos hbrace, hlast, hend, hlength, htext, hcomma, happend, hclose]
  simp [statsText, ascii]

/-- No comma is more than 1024 bytes behind the one before it, or behind the first byte. -/
def Spaced (json : Bytes) : Prop :=
  ∀ m next, Mark json m → memchr json (m + 1) comma = some next → next ≤ m + 1024

theorem rdlogLoop_returns {json : Bytes} (hjson : json ≠ []) (h : Spaced json) {cursor next : ℕ}
    (last : ℕ) (hmark : Mark json next) (hnear : next < cursor + 1024) :
    ∃ fuel lines, rdlogLoop json fuel cursor last next = some lines := by
  obtain ⟨last', next', hle', hfilled⟩ := exists_filled hjson hmark hnear
  cases next' with
  | none => exact ⟨1, _, rdlogLoop_near 0 last hjson hmark hnear hfilled⟩
  | some n =>
    have hspaced := h last' n hfilled.mark hfilled.follows
    have hn := (memchr_eq_some hfilled.follows).1
    have hend := (mark_of_memchr hfilled.follows).lt_length hjson
    obtain ⟨fuel, lines, hrun⟩ := rdlogLoop_returns hjson h last'
      (mark_of_memchr hfilled.follows) (by omega : n < last' + 1 + 1024)
    refine ⟨fuel + 1, piece json cursor (last' + 1) :: lines, ?_⟩
    rw [rdlogLoop_near fuel last hjson hmark hnear hfilled]
    simp only
    rw [hrun]
    rfl
termination_by json.length - next

theorem rdlogCb_returns_iff {json : Bytes} (hjson : json ≠ []) :
    (∃ fuel lines, rdkafkaStatsRdlogCb fuel json = some lines) ↔ Spaced json := by
  constructor
  · rintro ⟨fuel, lines, hrun⟩ m next hm hnext
    by_contra hgap
    have hnone : rdlogLoop json fuel 0 0 0 = none := rdlogLoop_stuck hjson hm hnext
      (Nat.not_le.mp hgap) fuel (.inl rfl) le_rfl (.inr rfl) (.inr (Nat.zero_le m))
    unfold rdkafkaStatsRdlogCb at hrun
    rw [hnone] at hrun
    cases hrun
  · intro h
    obtain ⟨fuel, lines, hrun⟩ :=
      rdlogLoop_returns hjson h 0 (.inl rfl) (by omega : 0 < 0 + 1024)
    refine ⟨fuel, header :: lines, ?_⟩
    unfold rdkafkaStatsRdlogCb
    rw [hrun]
    rfl

inductive Passed (json : Buffer) (jsonLen : ℕ) : Inner → Prop
  | left : Passed json jsonLen ⟨json, jsonLen, .pleaseFreeLibrdkafka, []⟩
  | produced : Passed json jsonLen ⟨json, jsonLen, .iWillFreeLibrdkafka, [⟨.message, json.id⟩]⟩

theorem n2kStatsCb_passed {fuel : ℕ} {world : World} {cb : StatsCb} {json : Buffer} {jsonLen : ℕ}
    {inner : Inner} (h : n2kStatsCb fuel world cb json jsonLen = some inner) :
    Passed json jsonLen inner := by
  cases cb with
  | topic =>
    obtain rfl := Option.some.inj h
    unfold rdkafkaStatsTopicCb
    split_ifs
    · exact .left
    · exact .left
    · exact .produced
  | rdlog =>
    unfold n2kStatsCb at h
    dsimp only at h
    split_ifs at h
    obtain ⟨lines, -, rfl⟩ := Option.map_eq_some_iff.mp h
    exact .left

theorem n2kStatsCb_returns_iff (world : World) (cb : StatsCb) {json : Buffer}
    (hjson : json.bytes ≠ []) :
    (∃ fuel inner, n2kStatsCb fuel world cb json json.bytes.length = some inner) ↔
      (cb = .rdlog → Spaced json.bytes) := by
  cases cb with
  | topic => exact ⟨fun _ h ↦ (by cases h), fun _ ↦ ⟨0, _, rfl⟩⟩
  | rdlog =>
    have hrun (fuel : ℕ) : n2kStatsCb fuel world .rdlog json json.bytes.length =
        (rdkafkaStatsRdlogCb fuel json.bytes).map fun _ ↦
          ⟨json, json.bytes.length, .pleaseFreeLibrdkafka, []⟩ := by
      unfold n2kStatsCb
      dsimp only
      rw [if_pos le_rfl, List.take_length]
    rw [imp_iff_right rfl, ← rdlogCb_returns_iff hjson]
    constructor
    · rintro ⟨fuel, inner, h⟩
      rw [hrun] at h
      obtain ⟨lines, hlines, -⟩ := Option.map_eq_some_iff.mp h
      exact ⟨fuel, lines, hlines⟩
    · rintro ⟨fuel, lines, hlines⟩
      refine ⟨fuel, ⟨json, json.bytes.length, .pleaseFreeLibrdkafka, []⟩, ?_⟩
      rw [hrun, hlines]
      rfl

theorem ownedOnce_plain (world : World) (cb : StatsCb) {json : Buffer} (hjson : json.bytes ≠ []) :
    OwnedOnce world ⟨cb, []⟩ json ↔ (cb = .rdlog → Spaced json.bytes) := by
  rw [← n2kStatsCb_returns_iff world cb hjson]
  constructor
  · rintro ⟨fuel, inner, h, -⟩
    obtain ⟨inner', h', -⟩ := Option.map_eq_some_iff.mp h
    exact ⟨fuel, inner', h'⟩
  · rintro ⟨fuel, inner, h⟩
    refine ⟨fuel, _, congrArg (Option.map _) h, ?_⟩
    cases n2kStatsCb_passed h with
    | left => exact ⟨rfl, .librdkafka, rfl⟩
    | produced => exact ⟨rfl, .message, rfl⟩

theorem not_ownedOnce_of_refused {world : World} (hrealloc : world.realloc = none) (cb : StatsCb)
    {appendBuf : Bytes} (happend : appendBuf ≠ []) (json : Buffer) :
    ¬ OwnedOnce world ⟨cb, appendBuf⟩ json := by
  have hadded := List.length_pos_iff.mpr happend
  rintro ⟨fuel, inner, h, hlength, -⟩
  obtain ⟨inner', h', rfl⟩ := Option.map_eq_some_iff.mp h
  have hcb : n2kStatsCb fuel world cb json (json.bytes.length + appendBuf.length) =
      some inner' := by
    unfold statsCb rdkafkaStatsEnrichDecoratorCb enrichedArgs at h'
    rw [if_pos hadded.ne'] at h'
    simpa [hrealloc] using h'
  cases n2kStatsCb_passed hcb with
  | left =>
    have hlen : json.bytes.length + appendBuf.length = json.bytes.length := hlength
    omega
  | produced =>
    have hlen : json.bytes.length + appendBuf.length = json.bytes.length := hlength
    omega

theorem enrichedArgs_statsText {world : World} {id : ℕ} {junk : ℕ → UInt8}
    (hrealloc : world.realloc = some (id, junk)) (extra body : Bytes) (last : UInt8) (old : ℕ) :
    enrichedArgs world (extra ++ [last]) ⟨old, statsText body⟩ =
      some (⟨id, statsText (body ++ ascii "," ++ extra)⟩,
        (statsText (body ++ ascii "," ++ extra)).length) := by
  have hlength : (statsText body).length + (extra ++ [last]).length =
      (statsText (body ++ ascii "," ++ extra)).length := by
    simp only [statsText, ascii, List.length_append, List.length_map]
    simp
    omega
  unfold enrichedArgs
  simp only [hrealloc, enrich_statsText, hlength, Option.map_some]

theorem ownedOnce_enriched {world : World} {id : ℕ} {junk : ℕ → UInt8}
    (hrealloc : world.realloc = some (id, junk)) (cb : StatsCb) (extra body : Bytes)
    (last : UInt8) (old : ℕ) :
    OwnedOnce world ⟨cb, extra ++ [last]⟩ ⟨old, statsText body⟩ ↔
      (cb = .rdlog → Spaced (statsText (body ++ ascii "," ++ extra))) := by
  have hcb (fuel : ℕ) : statsCb fuel world ⟨cb, extra ++ [last]⟩ ⟨old, statsText body⟩ =
      (n2kStatsCb fuel world cb ⟨id, statsText (body ++ ascii "," ++ extra)⟩
        (statsText (body ++ ascii "," ++ extra)).length).map fun inner ↦
        if inner.rc = .pleaseFreeLibrdkafka then
          { inner with
            rc := .iWillFreeLibrdkafka
            releases := inner.releases ++ [⟨.decorator, id⟩] }
        else inner := by
    unfold statsCb rdkafkaStatsEnrichDecoratorCb
    rw [if_pos (by simp), enrichedArgs_statsText hrealloc]
    simp only [bind, Option.bind_some, hrealloc, Option.isSome_some, true_and]
    cases n2kStatsCb fuel world cb ⟨id, statsText (body ++ ascii "," ++ extra)⟩
      (statsText (body ++ ascii "," ++ extra)).length with
    | none => rfl
    | some inner =>
      simp only [Option.bind_some, Option.map_some]
      split <;> rfl
  have hne : (⟨id, statsText (body ++ ascii "," ++ extra)⟩ : Buffer).bytes ≠ [] := by
    simp [statsText, ascii]
  have hreturns := n2kStatsCb_returns_iff world cb hne
  refine Iff.trans ?_ hreturns
  constructor
  · rintro ⟨fuel, inner, h, -⟩
    obtain ⟨inner', h', -⟩ := Option.map_eq_some_iff.mp h
    rw [hcb] at h'
    obtain ⟨inner'', h'', -⟩ := Option.map_eq_some_iff.mp h'
    exact ⟨fuel, inner'', h''⟩
  · rintro ⟨fuel, inner, h⟩
    have hemit := congrArg (Option.map fun inner : Inner ↦
      if inner.rc = .pleaseFreeLibrdkafka then
        { inner with releases := inner.releases ++ [⟨.librdkafka, old⟩] }
      else inner) ((hcb fuel).trans (congrArg (Option.map _) h))
    refine ⟨fuel, _, hemit, ?_⟩
    cases n2kStatsCb_passed h with
    | left => exact ⟨rfl, .decorator, rfl⟩
    | produced => exact ⟨rfl, .message, rfl⟩

/-- A statistics buffer is passed on and released as it should be, unless text is to be appended and
the reallocation fails, or the log callback does not return. -/
theorem ownedOnce_iff (world : World) (stats : Stats) (id : ℕ) (body : Bytes) :
    OwnedOnce world stats ⟨id, statsText body⟩ ↔
      (stats.appendBuf = [] ∨ world.realloc ≠ none) ∧
        (stats.n2kStatsCb = .rdlog → Spaced (stats.text body)) := by
  obtain ⟨cb, appendBuf⟩ := stats
  obtain rfl | ⟨extra, last, rfl⟩ := List.eq_nil_or_concat' appendBuf
  · have hjson : (⟨id, statsText body⟩ : Buffer).bytes ≠ [] := by simp [statsText, ascii]
    rw [ownedOnce_plain world cb hjson]
    exact (and_iff_right (.inl rfl)).symm
  · have happend : extra ++ [last] ≠ [] := by simp
    cases hrealloc : world.realloc with
    | none =>
      refine iff_of_false (not_ownedOnce_of_refused hrealloc cb happend _) ?_
      rintro ⟨h | h, -⟩
      · exact happend h
      · exact h rfl
    | some block =>
      have htext : Stats.text ⟨cb, extra ++ [last]⟩ body =
          statsText (body ++ ascii "," ++ extra) := by
        unfold Stats.text
        rw [if_neg happend, List.dropLast_concat]
      rw [ownedOnce_enriched hrealloc, htext]
      exact (and_iff_right (.inr (by simp))).symm

/-- The reallocation fails, and the message is produced with six bytes from behind the buffer. -/
theorem refused_reallocation_overlong :
    ¬ OwnedOnce ⟨none, true, true⟩ ⟨.topic, ascii "\"b\":2" ++ [0]⟩
        ⟨0, statsText (ascii "\"a\":1")⟩ ∧
      (emitStats 0 ⟨none, true, true⟩ ⟨.topic, ascii "\"b\":2" ++ [0]⟩
        ⟨0, statsText (ascii "\"a\":1")⟩).map Inner.jsonLen = some 13 :=
  ⟨not_ownedOnce_of_refused rfl _ (by decide) _, by decide⟩

end N2Kafka.Util.KafkaEnrichment
