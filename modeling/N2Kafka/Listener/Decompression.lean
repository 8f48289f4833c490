import Mathlib.Algebra.GroupWithZero.Nat
import Mathlib.Data.List.Infix
import N2Kafka.Listener.Http

namespace N2Kafka.Listener.Decompression

open Lib.CString Decoder.DecoderApi Listener.Http

/-- A compressed stream: `ready i` bytes of the plaintext are determined by the first `i` bytes. -/
structure ZStream where
  z : Bytes
  p : Bytes
  ready : ℕ → ℕ
  mono : ∀ i j, i ≤ j → ready i ≤ ready j
  bounded : ∀ i, ready i ≤ p.length
  zero : ready 0 = 0
  whole : ready z.length = p.length

variable {σ : Type*}

structure Inflated (σ : Type*) where
  strm : σ
  rest : Bytes
  result : Inflate

/-- What is assumed of one call of `inflate` with `room` bytes of output space, after `taken` bytes of
the stream were consumed and `given` bytes of the plaintext written. -/
structure Progress (st : ZStream) (endsAgain : Bool) (taken given : ℕ) (input : Bytes) (room : ℕ)
    (taken' : ℕ) (r : Inflated σ) : Prop where
  taken_le : taken ≤ taken' ∧ taken' ≤ taken + input.length
  rest : r.rest = input.drop (taken' - taken)
  output : r.result.output = (st.p.drop given).take r.result.output.length
  fits : r.result.output.length ≤ room
  ready : given + r.result.output.length ≤ st.ready taken'
  most : r.result.output.length = room ∨
    taken' = taken + input.length ∧ given + r.result.output.length = st.ready taken'
  moved : taken < taken' ∨ r.result.output ≠ [] →
    r.result.zret = .ok ∨ r.result.zret = .streamEnd
  stuck : taken' = taken → r.result.output = [] → r.result.zret =
    if endsAgain ∧ taken = st.z.length ∧ given = st.p.length then .streamEnd else .bufError

/-- zlib, as far as one stream is concerned. `endsAgain` tells what `inflate` answers when it is called
once more at the end of the stream: `Z_STREAM_END`, or `Z_BUF_ERROR` as anywhere else without progress. -/
structure Inflater (st : ZStream) (σ : Type*) where
  inflate : σ → Bytes → ℕ → Inflated σ
  init : σ
  taken : σ → ℕ
  given : σ → ℕ
  endsAgain : Bool
  taken_init : taken init = 0
  given_init : given init = 0
  given_inflate : ∀ s input room,
    given (inflate s input room).strm = given s + (inflate s input room).result.output.length
  progress : ∀ s input room, 0 < room → input <+: st.z.drop (taken s) → given s ≤ st.ready (taken s) →
    Progress st endsAgain (taken s) (given s) input room (taken (inflate s input room).strm)
      (inflate s input room)

variable {st : ZStream} (zl : Inflater st σ)

/-- The answers of `inflate` inside one call of `compressed_callback`: it is called again as long as
it fills the buffer. -/
def Inflater.inflates : ℕ → σ → Bytes → List Inflate × σ
  | 0, s, _ => ([], s)
  | fuel + 1, s, input =>
    let r := zl.inflate s input zlibChunk
    if r.result.output.length = zlibChunk then
      let (more, last) := inflates fuel r.strm r.rest
      (r.result :: more, last)
    else ([r.result], r.strm)

def Inflater.yields (s : σ) (input : Bytes) : ℕ := st.ready (zl.taken s + input.length) - zl.given s

def Inflater.leftover : ℕ → σ → Bytes → Bytes
  | 0, _, input => input
  | n + 1, s, input =>
    leftover n (zl.inflate s input zlibChunk).strm (zl.inflate s input zlibChunk).rest

/-- The plaintext of the chunk fills the buffer a whole number of times, and nothing of the chunk is
left when it is full for the last time. -/
structure Inflater.Stalls (s : σ) (input : Bytes) : Prop where
  full : zlibChunk ∣ zl.yields s input
  drained : zl.leftover (zl.yields s input / zlibChunk) s input = []
  unended : ¬ (zl.endsAgain ∧ zl.taken s + input.length = st.z.length)

section Loop

variable {zl} {e : Env} {s : σ} {input : Bytes}

theorem zlibChunk_pos : 0 < zlibChunk := by decide

structure Inflater.Full (zl : Inflater st σ) (s : σ) (input : Bytes) (r : Inflated σ) : Prop where
  rest : r.rest <+: st.z.drop (zl.taken r.strm)
  taken : zl.taken r.strm + r.rest.length = zl.taken s + input.length
  given : zl.given r.strm = zl.given s + zlibChunk
  ready : zl.given r.strm ≤ st.ready (zl.taken r.strm)
  yields : zl.yields s input = zl.yields r.strm r.rest + zlibChunk
  zret : r.result.zret = .ok ∨ r.result.zret = .streamEnd
  output : r.result.output = (st.p.drop (zl.given s)).take zlibChunk

theorem Inflater.full_of_length (hin : input <+: st.z.drop (zl.taken s))
    (hgiven : zl.given s ≤ st.ready (zl.taken s))
    (hfull : (zl.inflate s input zlibChunk).result.output.length = zlibChunk) :
    zl.Full s input (zl.inflate s input zlibChunk) := by
  have hp := zl.progress s input zlibChunk zlibChunk_pos hin hgiven
  have hg := zl.given_inflate s input zlibChunk
  rw [hfull] at hg
  obtain ⟨hle, hle'⟩ := hp.taken_le
  have hrest : (zl.inflate s input zlibChunk).rest.length =
      input.length - (zl.taken (zl.inflate s input zlibChunk).strm - zl.taken s) := by
    rw [hp.rest, List.length_drop]
  have hready := hp.ready
  rw [hfull] at hready
  have hmono := st.mono _ _ hle'
  refine ⟨?_, by omega, hg, by omega, ?_, hp.moved (.inr ?_), ?_⟩
  · rw [hp.rest]
    have hdrop := hin.drop (zl.taken (zl.inflate s input zlibChunk).strm - zl.taken s)
    rwa [List.drop_drop, Nat.add_sub_cancel' hle] at hdrop
  · have htaken : zl.taken (zl.inflate s input zlibChunk).strm +
        (zl.inflate s input zlibChunk).rest.length = zl.taken s + input.length := by omega
    rw [Inflater.yields, Inflater.yields, htaken, hg]
    omega
  · intro hnil
    rw [hnil] at hfull
    exact absurd hfull (by decide)
  · have houtput := hp.output
    rwa [hfull] at houtput

theorem Inflater.Full.stalls_iff {r : Inflated σ} (h : zl.Full s input r)
    (hr : zl.inflate s input zlibChunk = r) : zl.Stalls s input ↔ zl.Stalls r.strm r.rest := by
  have hdiv : zl.yields s input / zlibChunk = zl.yields r.strm r.rest / zlibChunk + 1 := by
    rw [h.yields, Nat.add_div_right _ zlibChunk_pos]
  constructor
  · intro hs
    refine ⟨?_, ?_, ?_⟩
    · have hfull := hs.full
      rw [h.yields] at hfull
      exact (Nat.dvd_add_left (Nat.dvd_refl _)).mp hfull
    · have hdrained := hs.drained
      rwa [hdiv, Inflater.leftover, hr] at hdrained
    · rw [h.taken]
      exact hs.unended
  · intro hs
    refine ⟨?_, ?_, ?_⟩
    · rw [h.yields]
      exact Nat.dvd_add hs.full (Nat.dvd_refl _)
    · rw [hdiv, Inflater.leftover, hr]
      exact hs.drained
    · rw [← h.taken]
      exact hs.unended

structure Inflater.Last (zl : Inflater st σ) (s : σ) (input : Bytes) (r : Inflated σ) : Prop where
  taken : zl.taken r.strm = zl.taken s + input.length
  given : zl.given r.strm = st.ready (zl.taken s + input.length)
  length : r.result.output.length = zl.yields s input
  output : r.result.output = (st.p.drop (zl.given s)).take (zl.yields s input)
  yields : zl.yields s input < zlibChunk
  moved : input ≠ [] ∨ r.result.output ≠ [] → r.result.zret = .ok ∨ r.result.zret = .streamEnd
  stuck : input = [] → r.result.output = [] → r.result.zret =
    if zl.endsAgain ∧ zl.taken s + input.length = st.z.length then .streamEnd else .bufError

theorem Inflater.last_of_length (hin : input <+: st.z.drop (zl.taken s))
    (hgiven : zl.given s ≤ st.ready (zl.taken s))
    (hpart : (zl.inflate s input zlibChunk).result.output.length ≠ zlibChunk) :
    zl.Last s input (zl.inflate s input zlibChunk) := by
  have hp := zl.progress s input zlibChunk zlibChunk_pos hin hgiven
  have hg := zl.given_inflate s input zlibChunk
  obtain ⟨htaken, hready⟩ := hp.most.resolve_left hpart
  have hfits := hp.fits
  rw [htaken] at hready
  have hlen : (zl.inflate s input zlibChunk).result.output.length = zl.yields s input := by
    rw [Inflater.yields]
    omega
  refine ⟨htaken, by omega, hlen, ?_, by omega, ?_, ?_⟩
  · rw [← hlen]
    exact hp.output
  · intro hor
    apply hp.moved
    apply hor.imp_left
    intro hne
    have hpos := List.length_pos_iff.mpr hne
    omega
  · intro hnil hout
    subst hnil
    rw [List.length_nil, Nat.add_zero] at htaken hready ⊢
    rw [hout, List.length_nil, Nat.add_zero] at hready
    have hend : zl.taken s = st.z.length → zl.given s = st.p.length := by
      intro hz
      rw [hready, hz, st.whole]
    rw [hp.stuck htaken hout]
    congr 1
    apply propext
    constructor
    · exact fun h ↦ ⟨h.1, h.2.1⟩
    · exact fun h ↦ ⟨h.1, h.2, hend h.2⟩

theorem Inflater.Last.stalls_iff {r : Inflated σ} (h : zl.Last s input r) :
    zl.Stalls s input ↔ r.result.output = [] ∧ input = [] ∧
      ¬ (zl.endsAgain ∧ zl.taken s + input.length = st.z.length) := by
  have hdiv : zl.yields s input / zlibChunk = 0 := Nat.div_eq_of_lt h.yields
  have hnil : r.result.output = [] ↔ zl.yields s input = 0 := by
    rw [← h.length, List.length_eq_zero_iff]
  rw [hnil]
  constructor
  · intro hs
    refine ⟨Nat.eq_zero_of_dvd_of_lt hs.full h.yields, ?_, hs.unended⟩
    have hdrained := hs.drained
    rwa [hdiv] at hdrained
  · rintro ⟨hzero, hin, hend⟩
    refine ⟨?_, ?_, hend⟩
    · rw [hzero]
      exact Nat.dvd_zero _
    · rwa [hdiv]

theorem compressedLoop_last (hdecode : ∀ k, (e.decode k).rc = .ok) {calls : ℕ} {last : DecodeResult}
    (hlast : last.rc = .ok) {r : Inflated σ} (h : zl.Last s input r) :
    (compressedLoop e [r.result] calls last).1.flatten = r.result.output ∧
      ((compressedLoop e [r.result] calls last).2.rc = .ok ↔ ¬ (r.result.output = [] ∧ input = [] ∧
        ¬ (zl.endsAgain ∧ zl.taken s + input.length = st.z.length))) := by
  have hok (hz : r.result.zret = .ok ∨ r.result.zret = .streamEnd) :
      ¬ (r.result.zret ≠ .ok ∧ r.result.zret ≠ .streamEnd) := fun hne ↦ hz.elim hne.1 hne.2
  rw [compressedLoop]
  by_cases hout : r.result.output = []
  · by_cases hin : input = []
    · have hstuck := h.stuck hin hout
      by_cases hend : zl.endsAgain ∧ zl.taken s + input.length = st.z.length
      · rw [hstuck, if_pos hend]
        exact ⟨by simp [hout], iff_of_true (by simp [hout, hlast]) fun hs ↦ hs.2.2 hend⟩
      · rw [hstuck, if_neg hend]
        exact ⟨by simp [hout], iff_of_false (by simp [zlibFailure]) fun hs ↦ hs ⟨hout, hin, hend⟩⟩
    · rw [if_neg (hok (h.moved (.inl hin)))]
      simp [hout, hin, hlast]
  · have hne : r.result.output.length ≠ zlibChunk := by
      rw [h.length]
      exact h.yields.ne
    rw [if_neg (hok (h.moved (.inr hout)))]
    simp [hout, hne, hdecode]

theorem inflates_spec (hdecode : ∀ k, (e.decode k).rc = .ok) (fuel calls : ℕ) (last : DecodeResult)
    (hlast : last.rc = .ok) (hin : input <+: st.z.drop (zl.taken s))
    (hgiven : zl.given s ≤ st.ready (zl.taken s)) (hfuel : zl.yields s input / zlibChunk < fuel) :
    zl.taken (zl.inflates fuel s input).2 = zl.taken s + input.length ∧
      zl.given (zl.inflates fuel s input).2 = st.ready (zl.taken s + input.length) ∧
      (compressedLoop e (zl.inflates fuel s input).1 calls last).1.flatten =
        (st.p.drop (zl.given s)).take (zl.yields s input) ∧
      ((compressedLoop e (zl.inflates fuel s input).1 calls last).2.rc = .ok ↔
        ¬ zl.Stalls s input) := by
  induction fuel generalizing s input calls last with
  | zero => exact absurd hfuel (Nat.not_lt_zero _)
  | succ fuel ih =>
    rw [Inflater.inflates]
    by_cases hfull : (zl.inflate s input zlibChunk).result.output.length = zlibChunk
    · have h := Inflater.full_of_length hin hgiven hfull
      have hfuel' : zl.yields (zl.inflate s input zlibChunk).strm
          (zl.inflate s input zlibChunk).rest / zlibChunk < fuel := by
        rw [h.yields, Nat.add_div_right _ zlibChunk_pos] at hfuel
        omega
      obtain ⟨htaken, hg, hblocks, hrc⟩ := ih (calls + 1) _ (hdecode calls) h.rest h.ready hfuel'
      have hloop (zs : List Inflate) :
          compressedLoop e ((zl.inflate s input zlibChunk).result :: zs) calls last =
            ((zl.inflate s input zlibChunk).result.output ::
              (compressedLoop e zs (calls + 1) (e.decode calls)).1,
              (compressedLoop e zs (calls + 1) (e.decode calls)).2) := by
        have hz : ¬ ((zl.inflate s input zlibChunk).result.zret ≠ .ok ∧
            (zl.inflate s input zlibChunk).result.zret ≠ .streamEnd) := by
          intro hne
          exact h.zret.elim hne.1 hne.2
        rw [compressedLoop, if_neg hz, if_neg (by rw [hfull]; decide),
          if_neg (by simp [hdecode, hfull])]
      rw [if_pos hfull]
      dsimp only
      rw [hloop, h.stalls_iff rfl, ← h.taken]
      refine ⟨htaken, hg, ?_, hrc⟩
      rw [List.flatten_cons, hblocks, h.output, h.given, h.yields, ← List.drop_drop, ← List.take_add,
        Nat.add_comm zlibChunk]
    · have h := Inflater.last_of_length hin hgiven hfull
      rw [if_neg hfull]
      refine ⟨h.taken, h.given, ?_⟩
      rw [← h.output, h.stalls_iff]
      exact compressedLoop_last hdecode hlast h

end Loop

/-- The upload chunks of one request, one call of `compressed_callback` each. The plaintext has no more
buffers than bytes. -/
def Inflater.upload (e : Env) : List Bytes → σ → List (List Bytes × DecodeResult)
  | [], _ => []
  | c :: cs, s =>
    compressedCallback { e with inflates := (zl.inflates (st.p.length + 1) s c).1 } ::
      Inflater.upload e cs (zl.inflates (st.p.length + 1) s c).2

/-- Every byte of the plaintext is passed on, and every call answers OK. -/
structure Delivers (p : Bytes) (results : List (List Bytes × DecodeResult)) : Prop where
  blocks : (results.flatMap (·.1)).flatten = p
  ok : ∀ r ∈ results, r.2.rc = .ok

def Inflater.Flows : List Bytes → σ → Prop
  | [], _ => True
  | c :: cs, s => ¬ zl.Stalls s c ∧ Inflater.Flows cs (zl.inflates (st.p.length + 1) s c).2

theorem upload_spec {e : Env} (hdecode : ∀ k, (e.decode k).rc = .ok) {chunks : List Bytes} {s : σ}
    (hchunks : chunks.flatten = st.z.drop (zl.taken s)) (htaken : zl.taken s ≤ st.z.length)
    (hgiven : zl.given s = st.ready (zl.taken s)) :
    ((zl.upload e chunks s).flatMap (·.1)).flatten = st.p.drop (zl.given s) ∧
      ((∀ r ∈ zl.upload e chunks s, r.2.rc = .ok) ↔ zl.Flows chunks s) := by
  induction chunks generalizing s with
  | nil =>
    have hend : st.z.length ≤ zl.taken s := List.drop_eq_nil_iff.mp hchunks.symm
    have hready : zl.given s = st.p.length := by rw [hgiven, ← st.whole, htaken.antisymm hend]
    refine ⟨?_, by simp [Inflater.upload, Inflater.Flows]⟩
    simp [Inflater.upload, hready]
  | cons c cs ih =>
    rw [List.flatten_cons] at hchunks
    have hlen := congrArg List.length hchunks
    rw [List.length_append, List.length_drop] at hlen
    have hfuel : zl.yields s c / zlibChunk < st.p.length + 1 := by
      apply Nat.lt_succ_of_le
      exact (Nat.div_le_self _ _).trans ((Nat.sub_le _ _).trans (st.bounded _))
    obtain ⟨htaken', hgiven', hblocks, hrc⟩ := inflates_spec
      (e := { e with inflates := (zl.inflates (st.p.length + 1) s c).1 }) hdecode (st.p.length + 1) 0
      ⟨.ok, none, 0⟩ rfl ⟨cs.flatten, hchunks⟩ hgiven.le hfuel
    have hrest : cs.flatten = st.z.drop (zl.taken (zl.inflates (st.p.length + 1) s c).2) := by
      rw [htaken', ← List.drop_drop, ← hchunks, List.drop_left]
    obtain ⟨hblocks', hok'⟩ := ih hrest (by omega) (by rw [hgiven', htaken'])
    have hyields : zl.given s + zl.yields s c = st.ready (zl.taken s + c.length) := by
      have hmono := st.mono _ _ (Nat.le_add_right (zl.taken s) c.length)
      rw [Inflater.yields]
      omega
    rw [Inflater.upload, Inflater.Flows, List.flatMap_cons, List.flatten_append, List.forall_mem_cons]
    refine ⟨?_, and_congr hrc hok'⟩
    rw [hblocks', hgiven', ← hyields, ← List.drop_drop]
    exact (congrArg (· ++ _) hblocks).trans (List.take_append_drop _ _)

/-- Decompression passes on every byte whatever the chunks are; every call answers OK exactly if no
chunk stalls. -/
theorem delivers_iff_flows (st : ZStream) (zl : Inflater st σ) (e : Env)
    (hdecode : ∀ k, (e.decode k).rc = .ok) (chunks : List Bytes) (hchunks : chunks.flatten = st.z) :
    Delivers st.p (zl.upload e chunks zl.init) ↔ zl.Flows chunks zl.init := by
  obtain ⟨hblocks, hok⟩ := upload_spec zl hdecode (s := zl.init)
    (by rw [zl.taken_init, List.drop_zero, hchunks]) (by rw [zl.taken_init]; exact Nat.zero_le _)
    (by rw [zl.taken_init, zl.given_init, st.zero])
  rw [zl.given_init, List.drop_zero] at hblocks
  rw [← hok]
  exact ⟨fun h ↦ h.ok, fun h ↦ ⟨hblocks, h⟩⟩

/-- Takes all input at once, and keeps the plaintext there is no room for. -/
def greedyInflate (st : ZStream) (endsAgain : Bool) (s : ℕ × ℕ) (input : Bytes) (room : ℕ) :
    Inflated (ℕ × ℕ) :=
  let output := (st.p.drop s.2).take (min room (st.ready (s.1 + input.length) - s.2))
  { strm := (s.1 + input.length, s.2 + output.length)
    rest := []
    result :=
      { zret :=
          if input = [] ∧ output = [] then
            if endsAgain ∧ s.1 = st.z.length ∧ s.2 = st.p.length then .streamEnd else .bufError
          else if s.1 + input.length = st.z.length ∧ s.2 + output.length = st.p.length then .streamEnd
          else .ok
        output := output } }

theorem greedy_progress (st : ZStream) (endsAgain : Bool) (s : ℕ × ℕ) (input : Bytes) (room : ℕ)
    (hgiven : s.2 ≤ st.ready s.1) :
    Progress st endsAgain s.1 s.2 input room (s.1 + input.length)
      (greedyInflate st endsAgain s input room) := by
  have hbound := st.bounded (s.1 + input.length)
  have hmono := st.mono _ _ (Nat.le_add_right s.1 input.length)
  have hlen : ((st.p.drop s.2).take (min room (st.ready (s.1 + input.length) - s.2))).length =
      min room (st.ready (s.1 + input.length) - s.2) := by
    rw [List.length_take, List.length_drop]
    omega
  refine ⟨⟨Nat.le_add_right _ _, le_rfl⟩, by simp [greedyInflate], ?_, ?_, ?_, ?_, ?_, ?_⟩
  · dsimp only [greedyInflate]
    rw [hlen]
  · dsimp only [greedyInflate]
    omega
  · dsimp only [greedyInflate]
    omega
  · dsimp only [greedyInflate]
    omega
  · dsimp only [greedyInflate]
    intro hmoved
    rw [if_neg]
    · split
      · exact .inr rfl
      · exact .inl rfl
    · rintro ⟨hin, hout⟩
      obtain hlt | hne := hmoved
      · simp [hin] at hlt
      · exact hne hout
  · dsimp only [greedyInflate]
    intro heq hout
    have hin : input = [] := by simpa using heq
    rw [if_pos ⟨hin, hout⟩]

def greedy (st : ZStream) (endsAgain : Bool) : Inflater st (ℕ × ℕ) where
  inflate := greedyInflate st endsAgain
  init := (0, 0)
  taken s := s.1
  given s := s.2
  endsAgain := endsAgain
  taken_init := rfl
  given_init := rfl
  given_inflate _ _ _ := rfl
  progress s input room _ _ hgiven := greedy_progress st endsAgain s input room hgiven

def storedReady : List ℕ → ℕ → ℕ
  | [], _ => 0
  | n :: ns, i => min n (i - 5) + storedReady ns (i - 5 - n)

theorem storedReady_mono (ns : List ℕ) {i j : ℕ} (h : i ≤ j) : storedReady ns i ≤ storedReady ns j := by
  induction ns generalizing i j with
  | nil => exact le_rfl
  | cons n ns ih =>
    have hrest := ih (i := i - 5 - n) (j := j - 5 - n) (by omega)
    simp only [storedReady]
    omega

theorem storedReady_le (ns : List ℕ) (i : ℕ) : storedReady ns i ≤ ns.sum := by
  induction ns generalizing i with
  | nil => exact le_rfl
  | cons n ns ih =>
    have hrest := ih (i - 5 - n)
    simp only [storedReady, List.sum_cons]
    omega

theorem storedReady_zero (ns : List ℕ) : storedReady ns 0 = 0 := by
  induction ns with
  | nil => rfl
  | cons n ns ih => simp [storedReady, ih]

def storedBlock (final : Bool) (data : Bytes) : Bytes :=
  [if final then 1 else 0, (data.length % 256).toUInt8, (data.length / 256).toUInt8,
    (255 - data.length % 256).toUInt8, (255 - data.length / 256).toUInt8] ++ data

def storedBlocks (c : UInt8) : List ℕ → Bytes
  | [] => []
  | n :: ns => storedBlock ns.isEmpty (List.replicate n c) ++ storedBlocks c ns

theorem storedReady_whole (c : UInt8) (ns : List ℕ) (k : ℕ) :
    storedReady ns ((storedBlocks c ns).length + k) = ns.sum := by
  induction ns generalizing k with
  | nil => rfl
  | cons n ns ih =>
    have hlen : (storedBlocks c (n :: ns)).length + k = 5 + n + ((storedBlocks c ns).length + k) := by
      simp only [storedBlocks, storedBlock, List.length_append, List.length_cons, List.length_nil,
        List.length_replicate]
      omega
    have hrest : 5 + n + ((storedBlocks c ns).length + k) - 5 - n = (storedBlocks c ns).length + k := by
      omega
    rw [hlen, storedReady, hrest, ih, List.sum_cons]
    omega

def stored (c : UInt8) (ns : List ℕ) (adler : Bytes) : ZStream where
  z := [0x78, 0x01] ++ (storedBlocks c ns ++ adler)
  p := List.replicate ns.sum c
  ready i := storedReady ns (i - 2)
  mono _ _ h := storedReady_mono ns (Nat.sub_le_sub_right h 2)
  bounded i := by
    rw [List.length_replicate]
    exact storedReady_le ns _
  zero := storedReady_zero ns
  whole := by
    rw [List.length_replicate, ← storedReady_whole c ns adler.length]
    simp

def accepting : Env where
  clientAddr := none
  certificate := false
  basicAuth := none
  authTurns := 0
  values := []
  allocated := true
  inflateInit := true
  newSessionRc := 0
  appended := true
  inflates := []
  decode := fun _ ↦ ⟨.ok, none, 0⟩
  queued := .yes

theorem storedBlocks_length (c : UInt8) (ns : List ℕ) :
    (storedBlocks c ns).length = (ns.map (· + 5)).sum := by
  induction ns with
  | nil => rfl
  | cons n ns ih =>
    simp only [storedBlocks, storedBlock, List.length_append, List.length_cons, List.length_nil,
      List.length_replicate, ih, List.map_cons, List.sum_cons]
    omega

def nineBlocks : ZStream := stored 97 (List.replicate 9 65535) [0xd8, 0xc4, 0x2f, 0xbf]

theorem nineBlocks_length : nineBlocks.z.length = 589866 := by
  simp only [nineBlocks, stored, List.length_append, storedBlocks_length]
  rfl

/-- The first chunk leaves the first block unfinished, and the second one has a whole buffer and more. -/
theorem flows_nineBlocks : (greedy nineBlocks true).Flows
    [nineBlocks.z.take 100, nineBlocks.z.drop 100] (0, 0) := by
  have hfirst : (nineBlocks.z.take 100).length = 100 := by
    rw [List.length_take, nineBlocks_length]
    rfl
  have hsecond : (nineBlocks.z.drop 100).length = 589766 := by
    rw [List.length_drop, nineBlocks_length]
  have hready : nineBlocks.ready 100 = 93 := by decide
  have hyields : (greedy nineBlocks true).yields (0, 0) (nineBlocks.z.take 100) = 93 := by
    rw [Inflater.yields, hfirst]
    exact hready
  have hfuel : (greedy nineBlocks true).yields (0, 0) (nineBlocks.z.take 100) / zlibChunk <
      nineBlocks.p.length + 1 := by
    rw [hyields, Nat.div_eq_of_lt (by decide)]
    exact Nat.add_one_pos _
  have hin : nineBlocks.z.take 100 <+: nineBlocks.z.drop ((greedy nineBlocks true).taken (0, 0)) :=
    List.take_prefix 100 nineBlocks.z
  have hstart : (greedy nineBlocks true).given (0, 0) ≤
      nineBlocks.ready ((greedy nineBlocks true).taken (0, 0)) := Nat.zero_le _
  obtain ⟨htaken, hgiven, -⟩ := inflates_spec (e := accepting) (fun _ ↦ rfl)
    (nineBlocks.p.length + 1) 0 ⟨.ok, none, 0⟩ rfl hin hstart hfuel
  have htaken' := htaken.trans (congrArg (0 + ·) hfirst)
  have hgiven' := hgiven.trans ((congrArg (nineBlocks.ready <| 0 + ·) hfirst).trans hready)
  refine ⟨fun h ↦ ?_, fun h ↦ ?_, trivial⟩
  · have hfull := h.full
    rw [hyields] at hfull
    exact absurd hfull (by decide)
  · have hfull := h.full
    rw [Inflater.yields, htaken', hgiven', hsecond] at hfull
    exact absurd hfull (by decide)

theorem delivers_nine_blocks :
    Delivers nineBlocks.p ((greedy nineBlocks true).upload accepting
      [nineBlocks.z.take 100, nineBlocks.z.drop 100] (0, 0)) :=
  (delivers_iff_flows nineBlocks (greedy nineBlocks true) accepting (fun _ ↦ rfl)
    [nineBlocks.z.take 100, nineBlocks.z.drop 100]
    (by simp only [List.flatten_cons, List.flatten_nil, List.append_nil, List.take_append_drop])).mpr
      flows_nineBlocks

/-- 512 KiB and one byte, to be cut where the first 512 KiB are complete. -/
def exactCut : ZStream := stored 97 (List.replicate 8 65535 ++ [9]) [0xed, 0xc4, 0x2d, 0xda]

theorem exactCut_length : exactCut.z.length = 524340 := by
  simp only [exactCut, stored, List.length_append, storedBlocks_length]
  rfl

theorem stalls_exactCut : (greedy exactCut true).Stalls (0, 0) (exactCut.z.take 524335) := by
  have hlen : (exactCut.z.take 524335).length = 524335 := by
    rw [List.length_take, exactCut_length]
    rfl
  have hyields : (greedy exactCut true).yields (0, 0) (exactCut.z.take 524335) = zlibChunk := by
    rw [Inflater.yields, hlen]
    decide
  refine ⟨?_, ?_, ?_⟩
  · calc zlibChunk ∣ zlibChunk := Nat.dvd_refl _
      _ = (greedy exactCut true).yields (0, 0) (exactCut.z.take 524335) := hyields.symm
  · rw [hyields, Nat.div_self zlibChunk_pos]
    rfl
  · rintro ⟨-, hend⟩
    rw [hlen, exactCut_length] at hend
    cases hend

theorem full_buffer_answered_with_error :
    [exactCut.z.take 524335, exactCut.z.drop 524335].flatten = exactCut.z ∧
      ¬ Delivers exactCut.p ((greedy exactCut true).upload accepting
        [exactCut.z.take 524335, exactCut.z.drop 524335] (0, 0)) := by
  have hchunks : [exactCut.z.take 524335, exactCut.z.drop 524335].flatten = exactCut.z := by
    simp only [List.flatten_cons, List.flatten_nil, List.append_nil, List.take_append_drop]
  refine ⟨hchunks, fun h ↦ ?_⟩
  obtain ⟨-, hok⟩ := upload_spec (greedy exactCut true) (e := accepting) (fun _ ↦ rfl) (s := (0, 0))
    hchunks (Nat.zero_le _) (storedReady_zero _).symm
  exact (hok.mp h.ok).1 stalls_exactCut

end N2Kafka.Listener.Decompression
