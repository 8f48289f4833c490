import N2Kafka.Util.KafkaMessageArray

namespace N2Kafka.Util.KafkaMessageArray

/-- What the loop does about a rejected message: the index it uses of the table, if it does, what the
clock says then, and whether it writes a log line. -/
structure Report where
  err : RespErr
  index : Option ℕ
  now : ℤ
  logged : Bool

def report (clock : ℕ → ℤ) (err : RespErr) (p : Produced) : Report :=
  let pos := kafkaErrorToWarningTimePos err
  match p.lastTime with
  | none => ⟨err, none, clock p.ticks, true⟩
  | some times =>
    if pos ≤ lastWarningTimeEnd then
      ⟨err, some pos, clock p.ticks, !decide (clock p.ticks - times pos < alertThreshold)⟩
    else ⟨err, none, clock p.ticks, true⟩

def reject (clock : ℕ → ℤ) (err : RespErr) (p : Produced) : Produced :=
  let p := Produced.warn clock err { p with msgsOk := p.msgsOk + 1 }
  { p with decrefs := p.decrefs + 1 }

def loopReports (clock : ℕ → ℤ) (messagesInBatch : ℕ) : List RespErr → Produced → List Report
  | [], _ => []
  | err :: errs, p =>
    if p.msgsOk < messagesInBatch then
      if err = .noError then loopReports clock messagesInBatch errs p
      else report clock err p :: loopReports clock messagesInBatch errs (reject clock err p)
    else []

def produceReports (array : MessageArray) (verdict : ℕ → RespErr) (clock : ℕ → ℤ)
    (state : Option (ℕ → ℤ)) : List Report :=
  let errs := verdicts array verdict
  loopReports clock (kafkaMessageArraySize array) errs ⟨rdKafkaProduceBatch errs, 0, state, [], 0⟩

structure Call where
  array : MessageArray
  verdict : ℕ → RespErr

/-- The calls on a session. `words` are those of the session from `produce_error_last_time` on, the
first of them behind the table is `session_messages_sent`; `ticks` counts the calls of `time`. -/
structure Session where
  words : ℕ → ℤ
  ticks : ℕ
  reports : List Report

def Session.init : Session := ⟨fun _ ↦ 0, 0, []⟩

def Session.clock (clock : ℕ → ℤ) (s : Session) : ℕ → ℤ := fun k ↦ clock (s.ticks + k)

def Session.produce (clock : ℕ → ℤ) (s : Session) (c : Call) : Session :=
  let produced := kafkaMessageArrayProduce c.array c.verdict (s.clock clock) (some s.words)
  { words := produced.lastTime.getD s.words
    ticks := s.ticks + produced.ticks
    reports := s.reports ++ produceReports c.array c.verdict (s.clock clock) (some s.words) }

def produceAll (clock : ℕ → ℤ) (calls : List Call) : Session :=
  calls.foldl (Session.produce clock) .init

def Tracked (err : RespErr) : Prop := kafkaErrorToWarningTimePos err < lastWarningTimeEnd

/-- Log lines for one tracked class of errors keep their distance. -/
def Apart (r r' : Report) : Prop :=
  r.logged = true → r'.logged = true → Tracked r.err →
    kafkaErrorToWarningTimePos r.err = kafkaErrorToWarningTimePos r'.err → 300 ≤ r'.now - r.now

/-- The warnings of a session are limited, and by nothing but the table. -/
structure RateLimited (clock : ℕ → ℤ) (calls : List Call) : Prop where
  inside : ∀ r ∈ (produceAll clock calls).reports, ∀ k, r.index = some k → k < lastWarningTimeEnd
  others : ∀ before c rest, calls = before ++ c :: rest → ∀ k, lastWarningTimeEnd ≤ k →
    ((produceAll clock before).produce clock c).words k = (produceAll clock before).words k
  apart : (produceAll clock calls).reports.Pairwise Apart
  untracked : ∀ r ∈ (produceAll clock calls).reports, ¬ Tracked r.err → r.logged = true

theorem produceLoop_cons (clock : ℕ → ℤ) (n : ℕ) (err : RespErr) (errs : List RespErr)
    (p : Produced) : produceLoop clock n (err :: errs) p =
      if p.msgsOk < n then
        if err = .noError then produceLoop clock n errs p
        else produceLoop clock n errs (reject clock err p)
      else p := rfl

theorem report_err (clock : ℕ → ℤ) (err : RespErr) (p : Produced) :
    (report clock err p).err = err := by
  unfold report
  cases p.lastTime with
  | none => rfl
  | some times =>
    dsimp only
    split <;> rfl

theorem kafkaErrorToWarningTimePos_le (err : RespErr) :
    kafkaErrorToWarningTimePos err ≤ lastWarningTimeEnd := by
  cases err <;> simp [kafkaErrorToWarningTimePos, lastWarningTimeEnd]

theorem report_index (clock : ℕ → ℤ) (err : RespErr) {p : Produced} {times : ℕ → ℤ}
    (hp : p.lastTime = some times) :
    (report clock err p).index = some (kafkaErrorToWarningTimePos err) := by
  unfold report
  rw [hp]
  simp only [kafkaErrorToWarningTimePos_le, if_true]

theorem reject_spec (clock : ℕ → ℤ) (err : RespErr) {p : Produced} {times : ℕ → ℤ}
    (hp : p.lastTime = some times) :
    (reject clock err p).msgsOk = p.msgsOk + 1 ∧
    (reject clock err p).logged =
      p.logged ++ (if (report clock err p).logged then [err] else []) ∧
    (reject clock err p).lastTime = some (if (report clock err p).logged then
      Function.update times (kafkaErrorToWarningTimePos err) (report clock err p).now else times) ∧
    ((report clock err p).logged = true →
      alertThreshold ≤ (report clock err p).now - times (kafkaErrorToWarningTimePos err)) := by
  unfold reject report Produced.warn
  rw [hp]
  simp only [kafkaErrorToWarningTimePos_le, if_true]
  by_cases hlt : clock p.ticks - times (kafkaErrorToWarningTimePos err) < alertThreshold
  · simp [hlt]
  · simp [hlt]
    omega

theorem loopReports_errs (clock : ℕ → ℤ) (n : ℕ) {errs : List RespErr} {p : Produced}
    {times : ℕ → ℤ} (hp : p.lastTime = some times) (hn : p.msgsOk + rejected errs ≤ n) :
    (loopReports clock n errs p).map Report.err = errs.filter (· ≠ .noError) ∧
      (produceLoop clock n errs p).logged =
        p.logged ++ ((loopReports clock n errs p).filter Report.logged).map Report.err := by
  induction errs generalizing p times with
  | nil => exact ⟨rfl, by simp [loopReports, produceLoop]⟩
  | cons err errs ih =>
    rw [loopReports, produceLoop_cons]
    by_cases he : err = .noError
    · have hr : rejected (err :: errs) = rejected errs := by simp [rejected, he]
      rw [hr] at hn
      simp only [he, if_true]
      by_cases hlt : p.msgsOk < n
      · simp only [hlt, if_true]
        simpa using ih hp hn
      · have hzero := rejected_eq_zero.mp (show rejected errs = 0 by omega)
        simpa [hlt] using hzero
    · have hr : rejected (err :: errs) = rejected errs + 1 := by simp [rejected, he]
      rw [hr] at hn
      obtain ⟨hok, hlogged, htimes, -⟩ := reject_spec clock err hp
      obtain ⟨herrs, hlog⟩ := ih htimes (by omega)
      simp only [show p.msgsOk < n by omega, if_true, he, if_false]
      refine ⟨by simp [he, report_err, herrs], ?_⟩
      rw [hlog, hlogged, List.append_assoc]
      by_cases hl : (report clock err p).logged <;> simp [hl, report_err]

theorem loopReports_index (clock : ℕ → ℤ) (n : ℕ) {errs : List RespErr} {p : Produced}
    {times : ℕ → ℤ} (hp : p.lastTime = some times) :
    ∀ r ∈ loopReports clock n errs p, r.index = some (kafkaErrorToWarningTimePos r.err) := by
  induction errs generalizing p times with
  | nil => simp [loopReports]
  | cons err errs ih =>
    rw [loopReports]
    split
    · split
      · exact ih hp
      · intro r hr
        obtain rfl | hr := List.mem_cons.mp hr
        · rw [report_err]
          exact report_index clock err hp
        · obtain ⟨-, -, htimes, -⟩ := reject_spec clock err hp
          exact ih htimes r hr
    · simp

/-- The table has the time of the last log line for each class, and none was written since. -/
structure Limited (reports : List Report) (times : ℕ → ℤ) : Prop where
  apart : reports.Pairwise Apart
  last : ∀ r ∈ reports, r.logged = true → Tracked r.err →
    r.now ≤ times (kafkaErrorToWarningTimePos r.err)

theorem Limited.concat {reports : List Report} {times : ℕ → ℤ} (h : Limited reports times)
    (r : Report) (hgap : r.logged = true →
      alertThreshold ≤ r.now - times (kafkaErrorToWarningTimePos r.err)) :
    Limited (reports ++ [r]) (if r.logged then
      Function.update times (kafkaErrorToWarningTimePos r.err) r.now else times) := by
  have hthreshold : alertThreshold = 300 := rfl
  constructor
  · refine List.pairwise_append.mpr ⟨h.apart, List.pairwise_singleton _ _, ?_⟩
    intro r₀ hr₀ r' hr' hlogged hlogged' htracked hpos
    obtain rfl := List.mem_singleton.mp hr'
    have hlast := h.last r₀ hr₀ hlogged htracked
    have hr := hgap hlogged'
    rw [hpos] at hlast
    omega
  · intro r₀ hr₀ hlogged htracked
    obtain hr₀ | hr₀ := List.mem_append.mp hr₀
    · have hlast := h.last r₀ hr₀ hlogged htracked
      by_cases hl : r.logged = true
      · rw [if_pos hl]
        by_cases hpos : kafkaErrorToWarningTimePos r₀.err = kafkaErrorToWarningTimePos r.err
        · have hr := hgap hl
          rw [hpos] at hlast ⊢
          rw [Function.update_self]
          omega
        · rw [Function.update_of_ne hpos]
          exact hlast
      · rw [if_neg hl]
        exact hlast
    · obtain rfl := List.mem_singleton.mp hr₀
      exact Int.le_of_eq (by rw [if_pos hlogged, Function.update_self])

theorem loopReports_limited (clock : ℕ → ℤ) (n : ℕ) {errs : List RespErr} {p : Produced}
    {times : ℕ → ℤ} {reports : List Report} (hp : p.lastTime = some times)
    (htracked : ∀ err ∈ errs, err ≠ .noError → Tracked err) (h : Limited reports times) :
    ∃ times', (produceLoop clock n errs p).lastTime = some times' ∧
      Limited (reports ++ loopReports clock n errs p) times' ∧
      (∀ k, lastWarningTimeEnd ≤ k → times' k = times k) ∧
      ∀ r ∈ loopReports clock n errs p, Tracked r.err := by
  induction errs generalizing p times reports with
  | nil => exact ⟨times, hp, by simpa [loopReports] using h, fun _ _ ↦ rfl, by simp [loopReports]⟩
  | cons err errs ih =>
    have hrest := fun e he ↦ htracked e (List.mem_cons_of_mem err he)
    rw [loopReports, produceLoop_cons]
    by_cases hlt : p.msgsOk < n
    · by_cases he : err = .noError
      · simp only [hlt, he, if_true]
        exact ih hp hrest h
      · simp only [hlt, he, if_true, if_false]
        have htrack := htracked err (.head _) he
        obtain ⟨-, -, htimes, hgap⟩ := reject_spec clock err hp
        have herr := report_err clock err p
        have hnext := h.concat (report clock err p) (herr.symm ▸ hgap)
        rw [herr] at hnext
        obtain ⟨times', hlast, hlimited, hbehind, hreports⟩ := ih htimes hrest hnext
        refine ⟨times', hlast, by simpa using hlimited, ?_, ?_⟩
        · intro k hk
          rw [hbehind k hk]
          split
          · exact Function.update_of_ne (by unfold Tracked at htrack; omega) _ _
          · rfl
        · intro r hr
          obtain rfl | hr := List.mem_cons.mp hr
          · rw [herr]
            exact htrack
          · exact hreports r hr
    · simp only [hlt, if_false]
      exact ⟨times, hp, by simpa using h, fun _ _ ↦ rfl, by simp⟩

/-- The two ways out in front of the loop are what the loop itself would do. -/
theorem kafkaMessageArrayProduce_eq_produceLoop (array : MessageArray) (verdict : ℕ → RespErr)
    (clock : ℕ → ℤ) (state : Option (ℕ → ℤ)) :
    kafkaMessageArrayProduce array verdict clock state =
      produceLoop clock (kafkaMessageArraySize array) (verdicts array verdict)
        ⟨rdKafkaProduceBatch (verdicts array verdict), 0, state, [], 0⟩ := by
  unfold kafkaMessageArrayProduce
  dsimp only
  split
  · rename_i hzero
    simp [verdicts, hzero, produceLoop, rdKafkaProduceBatch]
  · split
    · rename_i hall
      have hall' : rdKafkaProduceBatch (verdicts array verdict) = kafkaMessageArraySize array := hall
      rw [hall']
      show (⟨rdKafkaProduceBatch (verdicts array verdict), 0, state, [], 0⟩ : Produced) = _
      rw [hall']
      cases verdicts array verdict with
      | nil => rfl
      | cons err errs => rw [produceLoop_cons, if_neg (Nat.lt_irrefl _)]
    · rfl

def Call.Classed (c : Call) : Prop :=
  ∀ i < kafkaMessageArraySize c.array, c.verdict i = .noError ∨ Tracked (c.verdict i)

theorem Call.Classed.tracked {c : Call} (h : c.Classed) :
    ∀ err ∈ verdicts c.array c.verdict, err ≠ .noError → Tracked err := by
  intro err hmem hne
  obtain ⟨i, hi, rfl⟩ := List.mem_map.mp hmem
  exact (h i (List.mem_range.mp hi)).resolve_left hne

theorem Session.produce_limited (clock : ℕ → ℤ) {s : Session} (h : Limited s.reports s.words)
    {c : Call} (hc : c.Classed) :
    Limited (s.produce clock c).reports (s.produce clock c).words ∧
      (∀ k, lastWarningTimeEnd ≤ k → (s.produce clock c).words k = s.words k) ∧
      ∀ r ∈ (s.produce clock c).reports, r ∈ s.reports ∨ Tracked r.err := by
  obtain ⟨times, hlast, hlimited, hbehind, hreports⟩ :=
    loopReports_limited (s.clock clock) (kafkaMessageArraySize c.array)
      (p := ⟨rdKafkaProduceBatch (verdicts c.array c.verdict), 0, some s.words, [], 0⟩) rfl
      hc.tracked h
  have hwords : (s.produce clock c).words = times := by
    unfold Session.produce
    dsimp only
    rw [kafkaMessageArrayProduce_eq_produceLoop, hlast]
    rfl
  rw [hwords]
  refine ⟨hlimited, hbehind, ?_⟩
  intro r hr
  obtain hr | hr := List.mem_append.mp hr
  · exact .inl hr
  · exact .inr (hreports r hr)

theorem produceAll_concat (clock : ℕ → ℤ) (calls : List Call) (c : Call) :
    produceAll clock (calls ++ [c]) = (produceAll clock calls).produce clock c := by
  unfold produceAll
  rw [List.foldl_append]
  rfl

theorem produceAll_limited (clock : ℕ → ℤ) {calls : List Call} (h : ∀ c ∈ calls, c.Classed) :
    Limited (produceAll clock calls).reports (produceAll clock calls).words ∧
      ∀ r ∈ (produceAll clock calls).reports, Tracked r.err := by
  induction calls using List.reverseRecOn with
  | nil => exact ⟨⟨List.Pairwise.nil, by simp [produceAll, Session.init]⟩,
      by simp [produceAll, Session.init]⟩
  | append_singleton calls c ih =>
    obtain ⟨hlimited, hreports⟩ := ih fun c' hc' ↦ h c' (List.mem_append_left _ hc')
    have hc := h c (List.mem_append_right _ (.head _))
    obtain ⟨hnext, -, hnew⟩ := Session.produce_limited clock hlimited hc
    rw [produceAll_concat]
    refine ⟨hnext, ?_⟩
    intro r hr
    obtain hold | hr := hnew r hr
    · exact hreports r hold
    · exact hr

theorem produceReports_errs (c : Call) (clock : ℕ → ℤ) (words : ℕ → ℤ) :
    (produceReports c.array c.verdict clock (some words)).map Report.err =
      (verdicts c.array c.verdict).filter (· ≠ .noError) := by
  have hall := count_add_rejected (verdicts c.array c.verdict)
  have hlen : (verdicts c.array c.verdict).length = kafkaMessageArraySize c.array := by
    simp [verdicts]
  exact (loopReports_errs clock _ rfl (hlen ▸ hall.le)).1

theorem produceAll_index (clock : ℕ → ℤ) (calls : List Call) :
    ∀ r ∈ (produceAll clock calls).reports,
      r.index = some (kafkaErrorToWarningTimePos r.err) := by
  induction calls using List.reverseRecOn with
  | nil => simp [produceAll, Session.init]
  | append_singleton calls c ih =>
    rw [produceAll_concat]
    intro r hr
    obtain hr | hr := List.mem_append.mp hr
    · exact ih r hr
    · exact loopReports_index _ _ rfl r hr

theorem foldl_produce_reports (clock : ℕ → ℤ) (calls : List Call) (s : Session) {r : Report}
    (hr : r ∈ s.reports) : r ∈ (calls.foldl (Session.produce clock) s).reports := by
  induction calls generalizing s with
  | nil => exact hr
  | cons c calls ih => exact ih _ (List.mem_append_left _ hr)

theorem exists_report (clock : ℕ → ℤ) {calls : List Call} {c : Call} (hc : c ∈ calls) {i : ℕ}
    (hi : i < kafkaMessageArraySize c.array) (hne : c.verdict i ≠ .noError) :
    ∃ r ∈ (produceAll clock calls).reports, r.err = c.verdict i := by
  obtain ⟨before, rest, rfl⟩ := List.append_of_mem hc
  have hmem : c.verdict i ∈ (verdicts c.array c.verdict).filter (· ≠ .noError) := by
    refine List.mem_filter.mpr ⟨List.mem_map_of_mem (List.mem_range.mpr hi), by simpa using hne⟩
  rw [← produceReports_errs c ((produceAll clock before).clock clock)
    (produceAll clock before).words] at hmem
  obtain ⟨r, hr, herr⟩ := List.mem_map.mp hmem
  refine ⟨r, ?_, herr⟩
  unfold produceAll
  rw [List.foldl_append, List.foldl_cons]
  exact foldl_produce_reports clock rest _ (List.mem_append_right _ hr)

/-- The bound lets the sentinel pass, so the warnings of a session stay inside of the table exactly
if no message is ever rejected with an error that has no class. -/
theorem rateLimited_iff (clock : ℕ → ℤ) (calls : List Call) :
    RateLimited clock calls ↔ ∀ c ∈ calls, ∀ i < kafkaMessageArraySize c.array,
      c.verdict i = .noError ∨ Tracked (c.verdict i) := by
  constructor
  · intro h c hc i hi
    by_cases hne : c.verdict i = .noError
    · exact .inl hne
    · obtain ⟨r, hr, herr⟩ := exists_report clock hc hi hne
      have hinside := h.inside r hr _ (produceAll_index clock calls r hr)
      exact .inr (herr ▸ hinside)
  · intro h
    have hclassed : ∀ c ∈ calls, c.Classed := h
    obtain ⟨hlimited, htracked⟩ := produceAll_limited clock hclassed
    refine ⟨?_, ?_, hlimited.apart, fun r hr hnot ↦ absurd (htracked r hr) hnot⟩
    · intro r hr k hk
      rw [produceAll_index clock calls r hr] at hk
      obtain rfl := Option.some.inj hk
      exact htracked r hr
    · rintro before c rest rfl k hk
      have hbefore : ∀ c' ∈ before, c'.Classed := fun c' hc' ↦
        hclassed c' (List.mem_append_left _ hc')
      have hc := hclassed c (List.mem_append_right _ (.head _))
      exact (Session.produce_limited clock (produceAll_limited clock hbefore).1 hc).2.1 k hk

def unauthorized : Call := ⟨⟨[⟨some 0, 2⟩], some (Lib.CString.ascii "\x7b\x7d")⟩, fun _ ↦ .other 29⟩

/-- The time of the warning is written over the count of the messages, and the next one is not
logged. -/
theorem session_messages_sent_overwritten :
    ¬ RateLimited (fun _ ↦ 1700000000) [unauthorized] ∧
      (produceAll (fun _ ↦ 1700000000) [unauthorized]).words lastWarningTimeEnd = 1700000000 ∧
      ((produceAll (fun _ ↦ 1700000000) [unauthorized, unauthorized]).reports.map
        Report.logged) = [true, false] := by
  refine ⟨?_, rfl, rfl⟩
  intro h
  have hinside := h.inside ⟨.other 29, some 4, 1700000000, true⟩ (.head _) 4 rfl
  exact absurd hinside (by decide)

end N2Kafka.Util.KafkaMessageArray
