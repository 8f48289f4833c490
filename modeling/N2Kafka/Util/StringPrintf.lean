import N2Kafka.Util.GrowableString

namespace N2Kafka.Util.GrowableString

section

variable {s : Str} {a : ℕ} (t : Printed) (served : ℕ → Bool)

theorem printfLoop_fits (hs : Valid s a) (hfits : t.1.length + 1 < a - s.size)
    (fuel turn : ℕ) (failed : Bool) :
    ∃ s', stringPrintfLoop t served s.size (fuel + 1) turn failed s =
        some (.returned t.1.length failed s') ∧ Appended s s' t.1 ∧ s'.buf ≠ none ∧
        ∃ a', Valid s' a' := by
  obtain ⟨s', hprint, hvalid, hsize, -, hnone, -, happend⟩ := vsnprintf_spec hs t
  have hbuf : s.buf ≠ none := by
    intro hbuf
    have := (hs.of_none hbuf).1
    omega
  have hbuf' : s'.buf ≠ none := fun e ↦ hbuf (hnone.mp e)
  refine ⟨{ s' with size := s'.size + t.1.length }, ?_,
    ⟨congrArg (· + t.1.length) hsize, happend hfits⟩, hbuf', ?_⟩
  · rw [stringPrintfLoop]
    simp only [hs.allocated, Option.bind_some, hprint, Option.map_some]
    exact if_pos hfits
  · refine hvalid.resized hbuf' hbuf' ?_ hvalid.le_block
    show s'.size + t.1.length ≤ a
    omega

/-- A turn that does not print everything makes the block grow, by more than is needed: the size is
counted twice. It goes on unless it is told that the string is as long as its block. -/
theorem printfLoop_grows (hs : Valid s a) (hfull : ¬ t.1.length + 1 < a - s.size) {p : ℕ}
    (hp : nextPow2 (s.size + (s.size + t.1.length)) = some p) (turn : ℕ) (failed : Bool) :
    ∃ s' g, Valid s' a ∧ s'.size = s.size ∧ s'.contents = s.contents ∧
      (s'.buf = none ↔ s.buf = none) ∧ s'.block.length = s.block.length ∧
      Grown (served turn) s' a p g ∧ ∀ fuel,
      stringPrintfLoop t served s.size (fuel + 1) turn failed s =
        if g.allocated = s.size then
          match g.str.write s.size [0] with
          | none => some .undefined
          | some s => some (.returned (-1) (failed || g.failed) s)
        else stringPrintfLoop t served s.size fuel (turn + 1) (failed || g.failed) g.str := by
  obtain ⟨s', hprint, hvalid, hsize, hcontents, hnone, hlen, -⟩ := vsnprintf_spec hs t
  rw [← hsize] at hp
  obtain ⟨g, hgrow, hg⟩ := stringGrow_grown (served turn) hvalid.allocated hp
  refine ⟨s', g, hvalid, hsize, hcontents, hnone, hlen, hg, ?_⟩
  intro fuel
  rw [stringPrintfLoop]
  simp only [hs.allocated, Option.bind_some, hprint, Option.map_some]
  rw [if_neg hfull, ← hsize]
  exact hgrow ▸ rfl

theorem printfLoop_undefined (hs : Valid s a) (hfull : ¬ t.1.length + 1 < a - s.size)
    (hmax : 2 ^ 31 < s.size + (s.size + t.1.length)) (fuel turn : ℕ) (failed : Bool) :
    stringPrintfLoop t served s.size (fuel + 1) turn failed s = some .undefined := by
  obtain ⟨s', hprint, -, hsize, -⟩ := vsnprintf_spec hs t
  rw [stringPrintfLoop]
  simp only [hs.allocated, Option.bind_some, hprint, Option.map_some]
  rw [if_neg hfull, stringGrow_eq_none _ (hsize ▸ hmax)]

theorem printfLoop_succ (initialLen : ℕ) : ∀ {fuel turn : ℕ} {failed : Bool} {s : Str}
    {e : PrintfEnd}, stringPrintfLoop t served initialLen fuel turn failed s = some e →
    stringPrintfLoop t served initialLen (fuel + 1) turn failed s = some e
  | 0, _, _, _, _, h => by cases h
  | fuel + 1, turn, failed, s, e, h => by
    rw [stringPrintfLoop] at h ⊢
    split at h
    · exact h
    · split_ifs at h ⊢ with hfits
      · exact h
      · split at h
        · exact h
        · split_ifs at h ⊢ with hfull
          · exact h
          · exact printfLoop_succ initialLen h

theorem Grown.lt_of_ne {served : Bool} {s : Str} {a p : ℕ} {g : Growth}
    (h : Grown served s a p g) (hlt : s.size < a) : s.size < g.allocated := by
  cases h with
  | enough _ => exact hlt
  | refused _ _ => exact hlt
  | served h _ => exact lt_of_lt_of_le (hlt.trans h) (le_max_left _ _)

/-- Growing does not change what `string_allocated` says, so a text that does not fit is tried
again and again. -/
theorem printfLoop_stuck (hs : Valid s a) (hbuf : s.buf ≠ none) (hlt : s.size < a)
    (hfull : ¬ t.1.length + 1 < a - s.size) :
    ∀ fuel turn failed rc failed' s',
      stringPrintfLoop t served s.size fuel turn failed s ≠ some (.returned rc failed' s') := by
  intro fuel
  induction fuel generalizing s with
  | zero => intro _ _ _ _ _ h; cases h
  | succ fuel ih =>
    intro turn failed rc failed' s'
    by_cases hmax : s.size + (s.size + t.1.length) ≤ 2 ^ 31
    · obtain ⟨p, hp⟩ := exists_nextPow2 hmax
      obtain ⟨s₁, g, hvalid, hsize, -, hnone, -, hg, heq⟩ :=
        printfLoop_grows t served hs hfull hp turn failed
      have hgrown := hg.lt_of_ne (hsize ▸ hlt)
      obtain ⟨hvalid', hbuf'⟩ := hg.valid hvalid (fun e ↦ hbuf (hnone.mp e))
      have hsize' : g.str.size = s.size := hg.size.trans hsize
      rw [heq, if_neg (by omega), ← hsize']
      exact ih hvalid' hbuf' (hsize' ▸ hlt) (hsize' ▸ hfull) _ _ _ _ _
    · rw [printfLoop_undefined t served hs hfull (Nat.not_le.mp hmax)]
      simp

theorem exists_write_zero {s : Str} {offset : ℕ} (hbuf : s.buf ≠ none) :
    (∃ s', s.write offset [0] = some s') ↔ offset < s.block.length := by
  constructor
  · rintro ⟨s', h⟩
    obtain hinside | hnil := (written_of_write h).inside
    · exact hinside
    · simp at hnil
  · intro h
    exact exists_write hbuf h

theorem lt_nextPow2_of_full (hs : Valid s s.size) (hbuf : s.buf ≠ none) {p : ℕ}
    (hp : nextPow2 (s.size + (s.size + t.1.length)) = some p) : s.size < p := by
  have hle := le_nextPow2 hp
  have hmin := (stringAllocated_pow hbuf hs.allocated).1
  unfold stringMinSize at hmin
  omega

theorem printfLoop_full_served (hs : Valid s s.size) (hbuf : s.buf ≠ none)
    (hmax : s.size + (s.size + t.1.length) ≤ 2 ^ 31) {turn : ℕ} (failed : Bool)
    (hserved : served turn = true) :
    ∃ s₁, Valid s₁ s₁.size ∧ s₁.size = s.size ∧ s₁.contents = s.contents ∧ s₁.buf ≠ none ∧
      s₁.size < s₁.block.length ∧ ∀ fuel,
        stringPrintfLoop t served s.size (fuel + 1) turn failed s =
          stringPrintfLoop t served s₁.size fuel (turn + 1) failed s₁ := by
  obtain ⟨p, hp⟩ := exists_nextPow2 hmax
  have hlt := lt_nextPow2_of_full t hs hbuf hp
  obtain ⟨s₁, g, hvalid, hsize, hcontents, hnone, -, hg, heq⟩ :=
    printfLoop_grows t served hs (by omega) hp turn failed
  obtain ⟨hvalid', hbuf'⟩ := hg.valid hvalid (fun e ↦ hbuf (hnone.mp e))
  have hsize' := hg.size.trans hsize
  have hcontents' := (hg.contents hvalid).trans hcontents
  have hmaxlt := lt_of_lt_of_le hlt (le_max_left p stringMinSize)
  cases hg with
  | enough h => omega
  | refused _ hrefused => simp [hserved] at hrefused
  | served _ _ =>
    refine ⟨_, hsize'.symm ▸ hvalid', hsize', hcontents', hbuf', ?_, ?_⟩
    · simp only [Str.block, Option.getD_some, length_resize]
      omega
    · intro fuel
      rw [heq fuel, if_neg (by simp only; omega)]
      simp only [hsize, Bool.or_false]

theorem printfLoop_full_refused (hs : Valid s s.size) (hbuf : s.buf ≠ none)
    (hmax : s.size + (s.size + t.1.length) ≤ 2 ^ 31) {turn : ℕ} (failed : Bool)
    (hrefused : served turn = false) (fuel : ℕ) :
    if s.size < s.block.length then
      ∃ s', stringPrintfLoop t served s.size (fuel + 1) turn failed s =
        some (.returned (-1) true s') ∧ s'.contents = s.contents
    else stringPrintfLoop t served s.size (fuel + 1) turn failed s = some .undefined := by
  obtain ⟨p, hp⟩ := exists_nextPow2 hmax
  have hlt := lt_nextPow2_of_full t hs hbuf hp
  obtain ⟨s₁, g, hvalid, hsize, hcontents, hnone, hlen, hg, heq⟩ :=
    printfLoop_grows t served hs (by omega) hp turn failed
  have hbuf₁ : s₁.buf ≠ none := fun e ↦ hbuf (hnone.mp e)
  cases hg with
  | enough h => omega
  | served _ hserved => simp [hrefused] at hserved
  | refused _ _ =>
    rw [heq fuel, if_pos rfl]
    split_ifs with hroom
    · obtain ⟨s', hwrite⟩ := (exists_write_zero hbuf₁).mpr (hlen ▸ hroom)
      refine ⟨s', by rw [hwrite, Bool.or_true], ?_⟩
      rw [(written_of_write hwrite).contents hsize.le, hcontents]
    · cases hwrite : s₁.write s.size [0] with
      | none => rfl
      | some s' => exact absurd (hlen ▸ (exists_write_zero hbuf₁).mp ⟨s', hwrite⟩) hroom

/-- A call on a full string returns if and only if a reallocation fails, not the first one unless
there is room for the terminator. -/
theorem printfLoop_full_gives_up (k : ℕ) : ∀ {s : Str} {turn : ℕ} (failed : Bool), Valid s s.size →
    s.buf ≠ none → s.size + (s.size + t.1.length) ≤ 2 ^ 31 → served (turn + k) = false →
    (served turn = false → s.size < s.block.length) →
    ∃ fuel s', stringPrintfLoop t served s.size fuel turn failed s =
      some (.returned (-1) true s') ∧ s'.contents = s.contents := by
  induction k with
  | zero =>
    intro s turn failed hs hbuf hmax hk hroom
    have h := printfLoop_full_refused t served hs hbuf hmax failed hk 0
    rw [if_pos (hroom hk)] at h
    exact ⟨1, h⟩
  | succ k ih =>
    intro s turn failed hs hbuf hmax hk hroom
    cases hserved : served turn with
    | false =>
      have h := printfLoop_full_refused t served hs hbuf hmax failed hserved 0
      rw [if_pos (hroom hserved)] at h
      exact ⟨1, h⟩
    | true =>
      obtain ⟨s₁, hs₁, hsize, hcontents, hbuf₁, hroom₁, heq⟩ :=
        printfLoop_full_served t served hs hbuf hmax failed hserved
      obtain ⟨fuel, s', heq', hcontents'⟩ := ih failed hs₁ hbuf₁ (hsize ▸ hmax)
        (by rwa [Nat.add_assoc, Nat.add_comm 1 k]) (fun _ ↦ hroom₁)
      exact ⟨fuel + 1, s', (heq fuel).trans heq', hcontents'.trans hcontents⟩

theorem exists_refused_of_full : ∀ (fuel : ℕ) {s : Str} {turn : ℕ} (failed : Bool),
    Valid s s.size → s.buf ≠ none → s.size + (s.size + t.1.length) ≤ 2 ^ 31 →
    ∀ {rc failed' s'}, stringPrintfLoop t served s.size fuel turn failed s =
      some (.returned rc failed' s') →
    (∃ k, served (turn + k) = false) ∧ (served turn = false → s.size < s.block.length)
  | 0, _, _, _, _, _, _, _, _, _, h => by cases h
  | fuel + 1, s, turn, failed, hs, hbuf, hmax, rc, failed', s', h => by
    cases hserved : served turn with
    | false =>
      refine ⟨⟨0, hserved⟩, fun _ ↦ ?_⟩
      by_contra hroom
      have hundefined := printfLoop_full_refused t served hs hbuf hmax failed hserved fuel
      rw [if_neg hroom, h] at hundefined
      cases hundefined
    | true =>
      obtain ⟨s₁, hs₁, hsize, -, hbuf₁, -, heq⟩ :=
        printfLoop_full_served t served hs hbuf hmax failed hserved
      rw [heq] at h
      obtain ⟨⟨k, hk⟩, -⟩ := exists_refused_of_full fuel failed hs₁ hbuf₁ (hsize ▸ hmax) h
      refine ⟨⟨k + 1, ?_⟩, by simp⟩
      rwa [Nat.add_comm k 1, ← Nat.add_assoc]

theorem valid_first_block {p : ℕ} (n : ℕ) (hn : max p stringMinSize = n) :
    Valid ⟨some (resize [] n), 0⟩ stringMinSize := by
  refine ⟨rfl, Nat.zero_le _, ?_⟩
  simp only [Str.block, Option.getD_some, length_resize, ← hn]
  exact le_max_right _ _

theorem Grown.exists_valid {served : Bool} {s : Str} {a p : ℕ} {g : Growth}
    (h : Grown served s a p g) (hs : Valid s a) : ∃ a', Valid g.str a' := by
  by_cases hbuf : s.buf = none
  · obtain ⟨rfl, hzero⟩ := hs.of_none hbuf
    cases h with
    | enough _ => exact ⟨0, hs⟩
    | refused _ _ => exact ⟨0, hs⟩
    | served _ _ =>
      have hblock : s.block = [] := by simp [Str.block, hbuf]
      rw [hzero, hblock]
      exact ⟨_, valid_first_block _ rfl⟩
  · exact ⟨a, (h.valid hs hbuf).1⟩

theorem printfLoop_valid : ∀ (fuel : ℕ) {s : Str} {a turn : ℕ} {failed : Bool}, Valid s a →
    ∀ {rc failed' s'}, stringPrintfLoop t served s.size fuel turn failed s =
      some (.returned rc failed' s') → ∃ a', Valid s' a'
  | 0, _, _, _, _, _, _, _, _, h => by cases h
  | fuel + 1, s, a, turn, failed, hs, rc, failed', s', h => by
    by_cases hfits : t.1.length + 1 < a - s.size
    · obtain ⟨s₁, heq, -, -, hvalid⟩ := printfLoop_fits t served hs hfits fuel turn failed
      rw [heq] at h
      cases h
      exact hvalid
    · by_cases hmax : s.size + (s.size + t.1.length) ≤ 2 ^ 31
      · obtain ⟨p, hp⟩ := exists_nextPow2 hmax
        obtain ⟨s₁, g, hvalid, hsize, -, -, -, hg, heq⟩ :=
          printfLoop_grows t served hs hfits hp turn failed
        obtain ⟨a', hvalid'⟩ := hg.exists_valid hvalid
        rw [heq] at h
        split_ifs at h
        · cases hwrite : g.str.write s.size [0] with
          | none => rw [hwrite] at h; cases h
          | some s₂ =>
            rw [hwrite] at h
            cases h
            exact ⟨a', (written_of_write hwrite).valid hvalid'⟩
        · rw [← hsize, ← hg.size] at h
          exact printfLoop_valid fuel hvalid' h
      · rw [printfLoop_undefined t served hs hfits (Nat.not_le.mp hmax)] at h
        cases h

theorem Reachable.valid {s : Str} (h : Reachable s) : ∃ a, Valid s a := by
  induction h with
  | initializer => exact ⟨0, rfl, le_rfl, le_rfl⟩
  | @append s s' served data rc _ happend ih =>
    obtain ⟨a, hs⟩ := ih
    by_cases hmax : s.size + data.length ≤ 2 ^ 31
    · obtain ⟨rc', s₁, heq, hvalid, -⟩ := stringAppend_spec hs served hmax
      rw [happend] at heq
      cases heq
      exact hvalid
    · rw [stringAppend_eq_none served (Nat.not_le.mp hmax)] at happend
      cases happend
  | popBack _ hpop ih =>
    obtain ⟨a, hs⟩ := ih
    exact (stringPopBack_valid hs hpop).1
  | @printf s s' fuel served t rc failed _ hprintf ih =>
    obtain ⟨a, hs⟩ := ih
    exact printfLoop_valid t served fuel hs hprintf

/-- When a call does append or say that it could not. -/
inductive Works (served : ℕ → Bool) (s : Str) (t : Printed) : Prop
  | fits {a : ℕ} (ha : stringAllocated s = some a) (hlt : s.size + t.1.length + 1 < a)
  | first (hbuf : s.buf = none) (hserved : served 0 = true) (hlt : t.1.length + 1 < stringMinSize)
  -- a string that fills its block, and a reallocation that fails
  | refused (hbuf : s.buf ≠ none) (hfull : stringAllocated s = some s.size)
      (hmax : s.size + (s.size + t.1.length) ≤ 2 ^ 31) {turn : ℕ} (hturn : served turn = false)
      (hroom : served 0 = false → s.size < s.block.length)

theorem printfLoop_first (hs : Valid s a) (hbuf : s.buf = none) (failed : Bool) (fuel turn : ℕ) :
    if served turn then
      ∃ s₁, Valid s₁ stringMinSize ∧ s₁.size = s.size ∧ s₁.contents = s.contents ∧ s₁.buf ≠ none ∧
        stringPrintfLoop t served s.size (fuel + 1) turn failed s =
          stringPrintfLoop t served s₁.size fuel (turn + 1) failed s₁
    else stringPrintfLoop t served s.size (fuel + 1) turn failed s = some .undefined := by
  obtain ⟨rfl, hzero⟩ := hs.of_none hbuf
  have hmax : s.size + (s.size + t.1.length) ≤ 2 ^ 31 := by
    have := t.2
    omega
  obtain ⟨p, hp⟩ := exists_nextPow2 hmax
  obtain ⟨s₁, g, hvalid, hsize, hcontents, hnone, -, hg, heq⟩ :=
    printfLoop_grows t served hs (by omega) hp turn failed
  have hbuf₁ := hnone.mpr hbuf
  have hcontents' := (hg.contents hvalid).trans hcontents
  cases hg with
  | enough h => have := nextPow2_pos hp; omega
  | served h hserved =>
    rw [if_pos hserved]
    have hblock : s₁.block = [] := by simp [Str.block, hbuf₁]
    have hvalid' := valid_first_block (max p stringMinSize) rfl
    rw [← hblock, ← hzero, ← hsize] at hvalid'
    refine ⟨_, hvalid', hsize, hcontents', by simp, ?_⟩
    have hpos := lt_of_lt_of_le h (le_max_left p stringMinSize)
    rw [heq fuel, if_neg (by simp only; omega)]
    simp only [hsize, Bool.or_false]
  | refused h hrefused =>
    rw [if_neg (by simp [hrefused]), heq fuel, if_pos hzero.symm]
    have hwrite : s₁.write s.size [0] = none := by
      unfold Str.write
      simp only [hbuf₁]
    simp only [hwrite]

theorem appends_of_works {s : Str} {a : ℕ} (hs : Valid s a) {t : Printed} {served : ℕ → Bool}
    (h : Works served s t) : Appends served s t := by
  cases h with
  | @fits a' ha hlt =>
    obtain rfl := Option.some.inj (hs.allocated.symm.trans ha)
    obtain ⟨s', heq, happended, -⟩ := printfLoop_fits t served hs (by omega) 0 0 false
    exact ⟨1, _, false, s', heq, fun _ ↦ ⟨rfl, happended.contents⟩, by simp⟩
  | first hbuf hserved hlt =>
    have hturn := printfLoop_first t served hs hbuf false 1 0
    rw [if_pos hserved] at hturn
    obtain ⟨s₁, hs₁, hsize, hcontents, -, heq⟩ := hturn
    have hzero := (hs.of_none hbuf).2
    obtain ⟨s', heq', happended, -⟩ := printfLoop_fits t served hs₁ (by omega) 0 1 false
    refine ⟨2, _, false, s', heq.trans heq', fun _ ↦ ⟨rfl, ?_⟩, by simp⟩
    rw [happended.contents, hcontents]
  | @refused hbuf hfull hmax turn hturn hroom =>
    obtain rfl := Option.some.inj (hs.allocated.symm.trans hfull)
    obtain ⟨fuel, s', heq, hcontents⟩ := printfLoop_full_gives_up t served turn false hs hbuf hmax
      (by rwa [Nat.zero_add]) hroom
    exact ⟨fuel, _, true, s', heq, by simp, fun _ ↦ ⟨by omega, hcontents⟩⟩

theorem works_of_returned {s : Str} {a : ℕ} (hs : Valid s a) {t : Printed} {served : ℕ → Bool}
    {fuel : ℕ} {rc : ℤ} {failed : Bool} {s' : Str}
    (h : stringPrintf fuel served s t = some (.returned rc failed s')) : Works served s t := by
  cases fuel with
  | zero => cases h
  | succ fuel =>
    unfold stringPrintf at h
    by_cases hbuf : s.buf = none
    · have hzero := (hs.of_none hbuf).2
      have hturn := printfLoop_first t served hs hbuf false fuel 0
      split_ifs at hturn with hserved
      · obtain ⟨s₁, hs₁, hsize, -, hbuf₁, heq⟩ := hturn
        refine .first hbuf hserved ?_
        by_contra hlong
        rw [heq] at h
        exact printfLoop_stuck t served hs₁ hbuf₁ (by unfold stringMinSize; omega) (by omega) fuel _
          _ _ _ _ h
      · rw [hturn] at h
        cases h
    · by_cases hfits : t.1.length + 1 < a - s.size
      · exact .fits hs.allocated (by omega)
      · by_cases hlt : s.size < a
        · exact absurd h (printfLoop_stuck t served hs hbuf hlt hfits _ _ _ _ _ _)
        · obtain rfl : a = s.size := Nat.le_antisymm (Nat.not_lt.mp hlt) hs.size_le
          by_cases hmax : s.size + (s.size + t.1.length) ≤ 2 ^ 31
          · obtain ⟨⟨k, hk⟩, hroom⟩ := exists_refused_of_full t served _ false hs hbuf hmax h
            exact .refused hbuf hs.allocated hmax hk hroom
          · rw [printfLoop_undefined t served hs hfits (Nat.not_le.mp hmax)] at h
            cases h

end

/-- A call of `string_printf` does what it is for if the text fits at once, which it only does with
a byte to spare, or if the failure of a reallocation finds the string as long as its block. -/
theorem appends_iff (s : ReachableStr) (t : Printed) (served : ℕ → Bool) :
    Appends served s.1 t ↔ Works served s.1 t := by
  obtain ⟨a, hs⟩ := s.2.valid
  constructor
  · rintro ⟨fuel, rc, failed, s', h, -⟩
    exact works_of_returned hs h
  · exact appends_of_works hs

theorem appends_iff_short (s : ReachableStr) (hshort : s.1.size < stringMinSize) (t : Printed)
    (served : ℕ → Bool) (hserved : s.1.buf = none → served 0 = true) :
    Appends served s.1 t ↔ s.1.size + t.1.length + 1 < stringMinSize := by
  obtain ⟨a, hs⟩ := s.2.valid
  rw [appends_iff]
  by_cases hbuf : s.1.buf = none
  · obtain ⟨rfl, hzero⟩ := hs.of_none hbuf
    constructor
    · intro hworks
      cases hworks with
      | fits ha hlt =>
        obtain rfl := Option.some.inj (hs.allocated.symm.trans ha)
        omega
      | first _ _ hlt => omega
      | refused hsome => exact absurd hbuf hsome
    · exact fun hlt ↦ .first hbuf (hserved hbuf) (by omega)
  · obtain ⟨block, hblock⟩ := Option.ne_none_iff_exists'.mp hbuf
    have hallocated : stringAllocated s.1 = some stringMinSize := by
      rw [stringAllocated_some hblock, if_pos hshort]
    constructor
    · intro hworks
      cases hworks with
      | fits ha hlt =>
        obtain rfl := Option.some.inj (hallocated.symm.trans ha)
        exact hlt
      | first hnone => exact absurd hnone hbuf
      | refused _ hfull =>
        exact absurd (Option.some.inj (hallocated.symm.trans hfull)) hshort.ne'
    · exact fun hlt ↦ .fits hallocated hlt

def filledText : Printed := ⟨List.replicate 4095 97, by rw [List.length_replicate]; omega⟩

def shortText : Printed := ⟨[97], by decide⟩

/-- A text as long as the smallest block never ends, and a first block that is refused makes a
terminator go through a null pointer. -/
theorem first_text_not_appended : Reachable .initializer ∧
    ¬ Appends (fun _ ↦ true) .initializer filledText ∧
    ¬ Appends (fun _ ↦ false) .initializer shortText := by
  have hvalid : Valid .initializer 0 := ⟨rfl, le_rfl, le_rfl⟩
  refine ⟨.initializer, ?_, ?_⟩
  · rintro ⟨fuel, rc, failed, s', h, -⟩
    cases works_of_returned hvalid h with
    | fits ha hlt => cases ha; omega
    | first _ _ hlt =>
      have hlength : filledText.1.length = 4095 := List.length_replicate
      unfold stringMinSize at hlt
      omega
    | refused hbuf => exact hbuf rfl
  · rintro ⟨fuel, rc, failed, s', h, -⟩
    cases works_of_returned hvalid h with
    | fits ha hlt => cases ha; omega
    | first _ hserved _ => cases hserved
    | refused hbuf => exact hbuf rfl

end N2Kafka.Util.GrowableString
