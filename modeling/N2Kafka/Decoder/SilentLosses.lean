import N2Kafka.Decoder.RejectedMessages

namespace N2Kafka.Decoder.SilentLosses

open Lib.CString Lib.JsonText Util.Pairs Util.KafkaMessageArray Decoder.DecoderApi Decoder.Yajl
open Decoder.ZzParser Decoder.ZzDecoder Decoder.ZzParserJson Decoder.JsonFraming
open Decoder.RejectedMessages Decoder.JsonAllocations

/-- Only objects of the body are handed over, and a call that answers OK hands over every object it
completes. -/
structure SafeCall (body : Bytes) (before : ZzJsonSession) (d : Decoded ZzJsonSession) : Prop where
  payloads : ∀ x ∈ d.handed, x.1 ∈ outermost body
  complete : d.rc = .ok → (completedIn before d.session.parser).Subperm (d.handed.map (·.1))

/-- What one call needs. In a chunk that yajl takes, no object may be lost between its first and its
last byte. In one that it refuses, the call answers with an error, and only the payload of an object
begun earlier can go wrong, a null pointer if nothing of it was saved. -/
structure Spared (env : Env) (y : Grammar) (body : Bytes) (json : ZzJsonSession) (buffer : Bytes) :
    Prop where
  begun : y.accepted json.yajlHandler.text buffer = buffer → begunEarlier y json buffer ≠ [] →
    Intact json ∧ env.splitAppended
  added : y.accepted json.yajlHandler.text buffer = buffer →
    ∀ k < (begunHere y json buffer).length, env.added k
  refused : y.accepted json.yajlHandler.text buffer ≠ buffer → ∀ o ∈ begunEarlier y json buffer,
    Intact json ∨ if json.lastObject = [] then ¬ env.added 0
      else env.splitAppended → mangled json.yajlHandler.text json.lastObject o ∈ outermost body

variable (y : Grammar) (props : KeyvalList)

/-- The calls of a request, up to the first that answers with an error: all of them come back, and
all are safe. -/
def SafeRun (body : Bytes) : List Call → ZzSession ZzJsonSession → Prop
  | [], _ => True
  | c :: cs, session => ∃ d, zzDecodeJson c.env y props c.buffer session = some d ∧
      SafeCall body session.parser d ∧ (d.rc = .ok → SafeRun body cs d.session)

def SparedRun (body : Bytes) : List Call → ZzSession ZzJsonSession → Prop
  | [], _ => True
  | c :: cs, session =>
    (methodAllowed props → c.env.malloc → Spared c.env y body session.parser c.buffer) ∧
      ∀ d, zzDecodeJson c.env y props c.buffer session = some d → d.rc = .ok →
        SparedRun body cs d.session

variable {y props} {env : Env} {json : ZzJsonSession} {buffer body : Bytes}

theorem mem_outermost_of_completes {rest o : Bytes}
    (hbody : body = json.yajlHandler.text ++ (buffer ++ rest)) (h : o ∈ completes y json buffer) :
    o ∈ outermost body := by
  obtain ⟨more, hmore⟩ := accepted_prefix y json.yajlHandler.text buffer
  have htext : body = json.yajlHandler.text ++ y.accepted json.yajlHandler.text buffer ++
      (more ++ rest) := by
    rw [hbody, List.append_assoc, ← List.append_assoc _ more, hmore]
  rw [htext]
  exact (outermost_grows _ _).subset (List.mem_of_mem_drop h)

section Through

variable {processed : Processed ZzJsonSession} {front own : List Bytes} {rest : Bytes}

theorem safe_iff_spared_of_accepted (ho : Outcome env y json buffer processed front own)
    (hbody : body = json.yajlHandler.text ++ (buffer ++ rest))
    (hacc : y.accepted json.yajlHandler.text buffer = buffer) :
    SafeCall body json (consume env.verdict env.clock processed) ↔
      Spared env y body json buffer := by
  have hcompleted : completedIn json (consume env.verdict env.clock processed).session.parser =
      completes y json buffer := by
    rw [parser_consume, completedIn, ho.text, completes]
  have hhanded := handed_payloads ho
  constructor
  · intro h
    have hrc : (consume env.verdict env.clock processed).rc = .ok := by
      rw [consume_rc, ho.rc, if_pos hacc]
    have hsub := h.complete hrc
    rw [hcompleted, hhanded] at hsub
    obtain ⟨hbegun, hadded⟩ := delivered_of_subperm hsub
    exact ⟨fun _ ↦ hbegun, fun _ ↦ hadded, fun hno ↦ absurd hacc hno⟩
  · intro h
    rw [payloadsOf_eq (h.begun hacc) (h.added hacc)] at hhanded
    refine ⟨fun x hx ↦ ?_, fun _ ↦ ?_⟩
    · have hmem := List.mem_map_of_mem (f := (·.1)) hx
      rw [hhanded] at hmem
      exact mem_outermost_of_completes hbody hmem
    · exact (List.Perm.of_eq (hcompleted.trans hhanded.symm)).subperm

theorem mem_payloadsOf_of_begun (env : Env) {o : Bytes} (ho : o ∈ begunEarlier y json buffer) :
    (json.lastObject = [] → env.added 0 → [] ∈ payloadsOf env y json buffer) ∧
      (json.lastObject ≠ [] → env.splitAppended →
        mangled json.yajlHandler.text json.lastObject o ∈ payloadsOf env y json buffer) := by
  obtain ⟨hbegun, -⟩ := mem_begunEarlier ho
  rw [payloadsOf, hbegun]
  refine ⟨fun hnil hadded ↦ ?_, fun hsaved hs ↦ ?_⟩
  · obtain ⟨later, -, hkept⟩ := kept_cons env [] (begunHere y json buffer)
    rw [nulls, if_pos hnil, List.map_singleton, List.singleton_append, hkept, if_pos hadded]
    simp
  · rw [if_pos hs, apart, if_neg hsaved]
    simp

theorem mem_payloadsOf {payload : Bytes} (h : payload ∈ payloadsOf env y json buffer) :
    payload ∈ begunHere y json buffer ∨ ∃ o ∈ begunEarlier y json buffer,
      (json.lastObject = [] ∧ env.added 0 ∧ payload = []) ∨
        (json.lastObject ≠ [] ∧ env.splitAppended ∧
          payload = mangled json.yajlHandler.text json.lastObject o) := by
  rw [payloadsOf] at h
  obtain h | h := List.mem_append.mp h
  · split at h
    · rename_i hs
      unfold apart at h
      split at h
      · cases h
      · rename_i hsaved
        obtain ⟨o, ho, rfl⟩ := List.mem_map.mp h
        exact .inr ⟨o, ho, .inr ⟨hsaved, hs, rfl⟩⟩
    · cases h
  · by_cases hsaved : json.lastObject = []
    · cases hbegun : begunEarlier y json buffer with
      | nil =>
        rw [hbegun, nulls, if_pos hsaved] at h
        exact .inl (kept_subset _ h)
      | cons o os =>
        have hsingle := (mem_begunEarlier (hbegun ▸ List.mem_cons_self)).1
        rw [hsingle, nulls, if_pos hsaved, List.map_singleton, List.singleton_append] at h
        obtain ⟨later, hlater, hkept⟩ := kept_cons env [] (begunHere y json buffer)
        rw [hkept] at h
        obtain h | h := List.mem_append.mp h
        · split at h
          · rename_i hadded
            exact .inr ⟨o, List.mem_cons_self, .inl ⟨hsaved, hadded, List.mem_singleton.mp h⟩⟩
          · cases h
        · exact .inl (hlater h)
    · rw [nulls, if_neg hsaved] at h
      exact .inl (kept_subset _ h)

theorem safe_iff_spared_of_refused (hr : Outcome env y json buffer processed front own)
    (hbody : body = json.yajlHandler.text ++ (buffer ++ rest))
    (hacc : y.accepted json.yajlHandler.text buffer ≠ buffer) :
    SafeCall body json (consume env.verdict env.clock processed) ↔
      Spared env y body json buffer := by
  have hrc : (consume env.verdict env.clock processed).rc ≠ .ok := by
    rw [consume_rc, hr.rc, if_neg hacc]
    decide
  have hhanded := handed_payloads hr
  constructor
  · intro h
    have hpayload : ∀ payload ∈ payloadsOf env y json buffer, payload ∈ outermost body := by
      intro payload hmem
      rw [← hhanded] at hmem
      obtain ⟨x, hx, rfl⟩ := List.mem_map.mp hmem
      exact h.payloads x hx
    refine ⟨fun hok ↦ absurd hok hacc, fun hok ↦ absurd hok hacc, fun _ o ho ↦ .inr ?_⟩
    obtain ⟨hnull, hsplit⟩ := mem_payloadsOf_of_begun env ho
    split
    · rename_i hnil
      intro hadded
      exact nil_notMem_outermost _ (hpayload _ (hnull hnil hadded))
    · rename_i hsaved
      exact fun hs ↦ hpayload _ (hsplit hsaved hs)
  · intro h
    refine ⟨fun x hx ↦ ?_, fun hok ↦ absurd hok hrc⟩
    have hmem := List.mem_map_of_mem (f := (·.1)) hx
    rw [hhanded] at hmem
    have hcompletes : ∀ o ∈ completes y json buffer, o ∈ outermost body :=
      fun o ho ↦ mem_outermost_of_completes hbody ho
    rw [← begunEarlier_append_begunHere] at hcompletes
    obtain hown | ⟨o, ho, hcase⟩ := mem_payloadsOf hmem
    · exact hcompletes _ (List.mem_append_right _ hown)
    · have hrefused := h.refused hacc o ho
      obtain ⟨hnil, hadded, -⟩ | ⟨hsaved, hs, heq⟩ := hcase
      · rw [if_pos hnil] at hrefused
        rcases hrefused with hintact | hno
        · exact absurd (hintact.symm.trans hnil) (current_ne_nil_of_begunEarlier ho)
        · exact absurd hadded hno
      · rw [if_neg hsaved] at hrefused
        rw [heq]
        rcases hrefused with hintact | hmangled
        · rw [(mangled_eq_self_iff ho).mpr hintact]
          exact hcompletes _ (List.mem_append_left _ ho)
        · exact hmangled hs

end Through

theorem safeCall_of_idle {d : Decoded ZzJsonSession} (hh : d.handed = [])
    (htext : d.session.parser.yajlHandler.text = json.yajlHandler.text) : SafeCall body json d := by
  refine ⟨by simp [hh], fun _ ↦ ?_⟩
  simp [completedIn, htext, hh]

theorem spared_nil : Spared env y body json [] := by
  have hcompletes : completes y json [] = [] := by simp [completes, Grammar.accepted]
  refine ⟨fun _ hne ↦ ?_, fun _ k hk ↦ ?_, fun hne ↦ absurd rfl hne⟩
  · simp [begunEarlier, hcompletes] at hne
  · simp [begunHere, hcompletes] at hk

theorem call_safe_iff {session : ZzSession ZzJsonSession} (hl : Lossy session.parser) {rest : Bytes}
    (hbody : body = session.parser.yajlHandler.text ++ (buffer ++ rest)) :
    (∃ d, zzDecodeJson env y props buffer session = some d ∧ SafeCall body session.parser d) ↔
      (methodAllowed props → env.malloc → Spared env y body session.parser buffer) := by
  obtain ⟨d, hd, hdecoding⟩ := zzDecodeJson_decoding env y props buffer hl
  have hcall : (∃ d, zzDecodeJson env y props buffer session = some d ∧
      SafeCall body session.parser d) ↔ SafeCall body session.parser d := by
    constructor
    · rintro ⟨d', hd', hsafe⟩
      exact Option.some.inj (hd'.symm.trans hd) ▸ hsafe
    · exact fun hsafe ↦ ⟨d, hd, hsafe⟩
  rw [hcall]
  cases hdecoding with
  | idle _ hhanded htext hempty =>
    refine iff_of_true (safeCall_of_idle hhanded htext) fun hm hmalloc ↦ ?_
    rw [hempty hm hmalloc]
    exact spared_nil
  | through processed front own ho hm hmalloc =>
    rw [forall_prop_of_true hm, forall_prop_of_true hmalloc]
    by_cases hacc : y.accepted session.parser.yajlHandler.text buffer = buffer
    · exact safe_iff_spared_of_accepted ho hbody hacc
    · exact safe_iff_spared_of_refused ho hbody hacc

theorem call_lossy {session : ZzSession ZzJsonSession} (hl : Lossy session.parser)
    {d : Decoded ZzJsonSession} (hd : zzDecodeJson env y props buffer session = some d)
    (hrc : d.rc = .ok) :
    Lossy d.session.parser ∧
      d.session.parser.yajlHandler.text = session.parser.yajlHandler.text ++ buffer := by
  obtain ⟨d', hd', hdecoding⟩ := zzDecodeJson_decoding env y props buffer hl
  obtain rfl := Option.some.inj (hd'.symm.trans hd)
  cases hdecoding with
  | idle _ hhanded htext hempty hok hlossy =>
    refine ⟨hlossy, ?_⟩
    rw [htext, hok hrc, List.append_nil]
  | through processed front own ho hm hmalloc =>
    have hacc : y.accepted session.parser.yajlHandler.text buffer = buffer := by
      by_contra hno
      rw [consume_rc, ho.rc, if_neg hno] at hrc
      cases hrc
    rw [parser_consume]
    refine ⟨ho.lossy hacc, ?_⟩
    rw [ho.text, hacc]

theorem run_safe_iff {session : ZzSession ZzJsonSession} (hl : Lossy session.parser)
    (cs : List Call)
    (hbody : body = session.parser.yajlHandler.text ++ cs.flatMap (·.buffer)) :
    SafeRun y props body cs session ↔ SparedRun y props body cs session := by
  induction cs generalizing session with
  | nil => rfl
  | cons c cs ih =>
    rw [List.flatMap_cons] at hbody
    have hcall : (∃ d, zzDecodeJson c.env y props c.buffer session = some d ∧
        SafeCall body session.parser d) ↔
          (methodAllowed props → c.env.malloc → Spared c.env y body session.parser c.buffer) :=
      call_safe_iff hl hbody
    have hrest {d : Decoded ZzJsonSession}
        (hd : zzDecodeJson c.env y props c.buffer session = some d) (hrc : d.rc = .ok) :
        SafeRun y props body cs d.session ↔ SparedRun y props body cs d.session := by
      obtain ⟨hlossy, htext⟩ := call_lossy hl hd hrc
      apply ih hlossy
      rw [htext, hbody, List.append_assoc]
    rw [SafeRun, SparedRun, ← hcall]
    constructor
    · rintro ⟨d, hd, hsafe, hrun⟩
      refine ⟨⟨d, hd, hsafe⟩, fun d' hd' hrc ↦ ?_⟩
      obtain rfl := Option.some.inj (hd.symm.trans hd')
      exact (hrest hd hrc).mp (hrun hrc)
    · rintro ⟨⟨d, hd, hsafe⟩, hrun⟩
      exact ⟨d, hd, hsafe, fun hrc ↦ (hrest hd hrc).mpr (hrun d hd hrc)⟩

/-- A request loses no object without an error, and sends no mangled one, exactly when each of its
calls is spared: allocations may fail, but not those whose failure goes unreported. -/
theorem safeRun_iff (y : Grammar) (props : KeyvalList)
    (errorMessage : Bytes → DecoderCallbackErr → ℕ → Bytes) (cs : List Call) :
    SafeRun y props (cs.flatMap (·.buffer)) cs (newZzSessionJson errorMessage) ↔
      SparedRun y props (cs.flatMap (·.buffer)) cs (newZzSessionJson errorMessage) :=
  run_safe_iff (lossy_new errorMessage) cs rfl

def middleNotSaved : List Call :=
  [⟨ascii "\x7b\"a\":", plentiful⟩, ⟨ascii "1,\"b\":", { plentiful with saved := false }⟩,
    ⟨ascii "2\x7d", plentiful⟩]

theorem middle_dropped_from_payload :
    ¬ ∀ (y : Grammar) (props : KeyvalList)
      (errorMessage : Bytes → DecoderCallbackErr → ℕ → Bytes) (cs : List Call),
      SafeRun y props (cs.flatMap (·.buffer)) cs (newZzSessionJson errorMessage) := by
  intro h
  obtain ⟨d₁, hd₁, -, h₁⟩ := h balanced [] (fun _ _ _ ↦ []) middleNotSaved
  obtain rfl := Option.some.inj hd₁
  obtain ⟨d₂, hd₂, -, h₂⟩ := h₁ rfl
  obtain rfl := Option.some.inj hd₂
  obtain ⟨d₃, hd₃, hsafe, -⟩ := h₂ rfl
  obtain rfl := Option.some.inj hd₃
  have hmem := hsafe.payloads (ascii "\x7b\"a\":2\x7d", .noError) (by decide)
  revert hmem
  decide

end N2Kafka.Decoder.SilentLosses
