import Mathlib.Data.List.Perm.Subperm
import N2Kafka.Decoder.JsonFraming

namespace N2Kafka.Decoder.JsonAllocations

open Lib.CString Lib.JsonText Util.Pairs Util.KafkaMessageArray Decoder.DecoderApi Decoder.Yajl
open Decoder.ZzParser Decoder.ZzDecoder Decoder.ZzParserJson Decoder.JsonFraming

section Chunk

variable (env : Env) (y : Grammar) (json : ZzJsonSession) (buffer : Bytes)

/-- The outermost objects that a chunk completes. -/
def completes : List Bytes :=
  (outermost (json.yajlHandler.text ++ y.accepted json.yajlHandler.text buffer)).drop
    (outermost json.yajlHandler.text).length

def begunEarlier : List Bytes :=
  if depth json.yajlHandler.text = 0 then [] else (completes y json buffer).take 1

def begunHere : List Bytes :=
  if depth json.yajlHandler.text = 0 then completes y json buffer
  else (completes y json buffer).drop 1

def payloadsOf : List Bytes :=
  (if env.splitAppended then
    apart json.yajlHandler.text json.lastObject (begunEarlier y json buffer) else []) ++
    kept env (nulls json.lastObject (begunEarlier y json buffer) ++ begunHere y json buffer)

end Chunk

/-- All that was read of the open object has been saved. -/
def Intact (json : ZzJsonSession) : Prop :=
  json.lastObject = (scan json.yajlHandler.text).current

variable {env : Env} {y : Grammar} {json : ZzJsonSession} {buffer : Bytes}

theorem kept_length (own : List Bytes) :
    (kept env own).length = own.length ↔ ∀ k < own.length, env.added k := by
  rw [kept, List.length_map]
  have hlen : own.zipIdx.length = own.length := List.length_zipIdx
  rw [← hlen, List.length_filter_eq_length_iff, hlen]
  constructor
  · intro h k hk
    refine h (own[k], k) ?_
    rw [List.mem_zipIdx_iff_getElem?]
    exact List.getElem?_eq_getElem hk
  · intro h x hx
    have hx' := List.mem_zipIdx_iff_getElem?.mp hx
    exact h x.2 (List.getElem?_eq_some_iff.mp hx').1

theorem kept_length_le (own : List Bytes) : (kept env own).length ≤ own.length := by
  rw [kept, List.length_map]
  exact (List.length_filter_le _ _).trans List.length_zipIdx.le

theorem kept_eq_self {own : List Bytes} (h : ∀ k < own.length, env.added k) :
    kept env own = own := by
  have hall : own.zipIdx.filter (env.added ·.2) = own.zipIdx := by
    refine List.filter_eq_self.mpr fun x hx ↦ ?_
    have hx' := List.mem_zipIdx_iff_getElem?.mp hx
    exact h x.2 (List.getElem?_eq_some_iff.mp hx').1
  rw [kept, hall]
  simp

theorem kept_cons (env : Env) (o : Bytes) (own : List Bytes) : ∃ rest, rest ⊆ own ∧
    kept env (o :: own) = (if env.added 0 then [o] else []) ++ rest := by
  refine ⟨((own.zipIdx 1).filter (env.added ·.2)).map (·.1), fun o' ho' ↦ ?_, ?_⟩
  · obtain ⟨x, hx, rfl⟩ := List.mem_map.mp ho'
    exact List.fst_mem_of_mem_zipIdx (List.mem_filter.mp hx).1
  · rw [kept, List.zipIdx_cons, List.filter_cons]
    by_cases hadded : env.added 0 = true <;> simp [hadded]

theorem kept_subset (own : List Bytes) : kept env own ⊆ own := by
  intro o ho
  obtain ⟨x, hx, rfl⟩ := List.mem_map.mp ho
  exact List.fst_mem_of_mem_zipIdx (List.mem_filter.mp hx).1

theorem completes_eq {objects : List Bytes}
    (h : (scan (json.yajlHandler.text ++ y.accepted json.yajlHandler.text buffer)).objects =
      (scan json.yajlHandler.text).objects ++ objects) : completes y json buffer = objects := by
  rw [scan_objects, scan_objects] at h
  rw [completes, h, List.drop_left]

theorem begunEarlier_append_begunHere :
    begunEarlier y json buffer ++ begunHere y json buffer = completes y json buffer := by
  unfold begunEarlier begunHere
  split
  · rfl
  · exact List.take_append_drop 1 _

theorem mem_begunEarlier {o : Bytes} (h : o ∈ begunEarlier y json buffer) :
    begunEarlier y json buffer = [o] ∧ depth json.yajlHandler.text ≠ 0 ∧
      ∃ back, o = (scan json.yajlHandler.text).current ++ back := by
  have hdepth : depth json.yajlHandler.text ≠ 0 := by
    intro h0
    simp [begunEarlier, h0] at h
  obtain ⟨hobjects, -, -⟩ | ⟨back, later, hobjects⟩ :=
    scan_continued hdepth (y.accepted json.yajlHandler.text buffer)
  · have hnil : completes y json buffer = [] := completes_eq (by simp [hobjects])
    simp [begunEarlier, hnil] at h
  · have hbegun : begunEarlier y json buffer = [(scan json.yajlHandler.text).current ++ back] := by
      simp [begunEarlier, hdepth, completes_eq hobjects]
    have ho : o = (scan json.yajlHandler.text).current ++ back := by simpa [hbegun] using h
    exact ⟨ho ▸ hbegun, hdepth, back, ho⟩

theorem current_ne_nil_of_begunEarlier {o : Bytes} (h : o ∈ begunEarlier y json buffer) :
    (scan json.yajlHandler.text).current ≠ [] :=
  mt (scan_current_eq_nil_iff _).mp (mem_begunEarlier h).2.1

theorem mangled_eq_self_iff {o : Bytes} (h : o ∈ begunEarlier y json buffer) :
    mangled json.yajlHandler.text json.lastObject o = o ↔ Intact json := by
  obtain ⟨-, -, back, rfl⟩ := mem_begunEarlier h
  rw [mangled, List.drop_left, Intact]
  exact List.append_left_inj back

theorem apart_length_add_nulls (text saved : Bytes) (front : List Bytes) :
    (apart text saved front).length + (nulls saved front).length = front.length := by
  unfold apart nulls
  split <;> simp

theorem payloadsOf_length_le : (payloadsOf env y json buffer).length ≤
    (completes y json buffer).length := by
  have hkept : (kept env (nulls json.lastObject (begunEarlier y json buffer) ++
    begunHere y json buffer)).length ≤ _ := kept_length_le _
  have hfront := apart_length_add_nulls json.yajlHandler.text json.lastObject
    (begunEarlier y json buffer)
  rw [List.length_append] at hkept
  rw [payloadsOf, ← begunEarlier_append_begunHere, List.length_append, List.length_append]
  split
  · omega
  · rw [List.length_nil]
    omega

theorem payloadsOf_eq (hbegun : begunEarlier y json buffer ≠ [] → Intact json ∧ env.splitAppended)
    (hadded : ∀ k < (begunHere y json buffer).length, env.added k) :
    payloadsOf env y json buffer = completes y json buffer := by
  rw [payloadsOf, ← begunEarlier_append_begunHere]
  by_cases hnil : begunEarlier y json buffer = []
  · simp [hnil, apart, nulls, kept_eq_self hadded]
  · obtain ⟨hintact, hs⟩ := hbegun hnil
    obtain ⟨o, ho⟩ := List.exists_mem_of_ne_nil _ hnil
    have hsaved : json.lastObject ≠ [] := by
      rw [hintact]
      exact current_ne_nil_of_begunEarlier ho
    rw [if_pos hs, apart, if_neg hsaved, nulls, if_neg hsaved, List.nil_append, kept_eq_self hadded,
      List.append_left_inj]
    refine (List.map_congr_left fun o ho ↦ ?_).trans (List.map_id _)
    exact (mangled_eq_self_iff ho).mpr hintact

theorem delivered_of_subperm
    (h : (completes y json buffer).Subperm (payloadsOf env y json buffer)) :
    (begunEarlier y json buffer ≠ [] → Intact json ∧ env.splitAppended) ∧
      ∀ k < (begunHere y json buffer).length, env.added k := by
  have hperm := h.perm_of_length_le payloadsOf_length_le
  have hlen := hperm.length_eq
  have hkept : (kept env (nulls json.lastObject (begunEarlier y json buffer) ++
    begunHere y json buffer)).length ≤ _ := kept_length_le _
  have hfront := apart_length_add_nulls json.yajlHandler.text json.lastObject
    (begunEarlier y json buffer)
  rw [payloadsOf, ← begunEarlier_append_begunHere] at hperm
  rw [payloadsOf, ← begunEarlier_append_begunHere, List.length_append, List.length_append] at hlen
  rw [List.length_append] at hkept
  have hadded : ∀ k < (nulls json.lastObject (begunEarlier y json buffer)).length +
      (begunHere y json buffer).length, env.added k := by
    rw [← List.length_append]
    refine (kept_length _).mp ?_
    rw [List.length_append]
    split at hlen
    · omega
    · rw [List.length_nil] at hlen
      omega
  refine ⟨fun hne ↦ ?_, fun k hk ↦ hadded k (by omega)⟩
  obtain ⟨o, ho⟩ := List.exists_mem_of_ne_nil _ hne
  have hsingle := (mem_begunEarlier ho).1
  have hcurrent := current_ne_nil_of_begunEarlier ho
  have hself : kept env
      (nulls json.lastObject (begunEarlier y json buffer) ++ begunHere y json buffer) =
        nulls json.lastObject (begunEarlier y json buffer) ++ begunHere y json buffer := by
    refine kept_eq_self fun k hk ↦ hadded k ?_
    rwa [List.length_append] at hk
  rw [hself, hsingle] at hperm
  by_cases hsaved : json.lastObject = []
  · -- the array has a null payload in the place of the object
    have hboth : ([o] ++ begunHere y json buffer).Perm ([[]] ++ begunHere y json buffer) := by
      simpa [apart, nulls, hsaved] using hperm
    have hnull : o = [] :=
      List.singleton_perm_singleton.mp ((List.perm_append_right_iff _).mp hboth)
    obtain ⟨back, hback⟩ := (mem_begunEarlier ho).2.2
    rw [hnull] at hback
    exact absurd (List.append_eq_nil_iff.mp hback.symm).1 hcurrent
  · by_cases hs : env.splitAppended = true
    · have hboth : ([o] ++ begunHere y json buffer).Perm
          ([mangled json.yajlHandler.text json.lastObject o] ++ begunHere y json buffer) := by
        simpa [apart, nulls, hsaved, hs] using hperm
      have hmangled : o = mangled json.yajlHandler.text json.lastObject o :=
        List.singleton_perm_singleton.mp ((List.perm_append_right_iff _).mp hboth)
      exact ⟨(mangled_eq_self_iff ho).mp hmangled.symm, hs⟩
    · rw [hsingle, nulls, if_neg hsaved, if_neg hs] at hlen
      rw [nulls, if_neg hsaved] at hkept
      simp only [List.length_nil, List.length_singleton] at hlen hkept
      omega

section Handed

variable {processed : Processed ZzJsonSession} {front own : List Bytes}

theorem completes_eq_append (ho : Outcome env y json buffer processed front own) :
    completes y json buffer = front ++ own := by
  rw [completes, ← ho.text, ho.objects, List.drop_left]

theorem begun_eq (ho : Outcome env y json buffer processed front own) :
    begunEarlier y json buffer = front ∧ begunHere y json buffer = own := by
  have hcompletes := completes_eq_append ho
  by_cases hnil : front ++ own = []
  · obtain ⟨rfl, rfl⟩ := List.append_eq_nil_iff.mp hnil
    simp [begunEarlier, begunHere, hcompletes]
  · have hlen := ho.front_eq hnil
    unfold begunEarlier begunHere
    rw [hcompletes]
    split at hlen
    · rename_i hdepth
      obtain rfl := List.length_eq_zero_iff.mp hlen
      simp [hdepth]
    · rename_i hdepth
      obtain ⟨o, rfl⟩ := List.length_eq_one_iff.mp hlen
      simp [hdepth]

theorem handed_payloads (ho : Outcome env y json buffer processed front own) :
    (consume env.verdict env.clock processed).handed.map (·.1) = payloadsOf env y json buffer := by
  obtain ⟨hfront, hown⟩ := begun_eq ho
  rw [consume_handed, ho.payloads, ho.handed, List.map_append, List.map_fst_zip (by simp), payloadsOf,
    hfront, hown]
  by_cases hs : env.splitAppended = true <;> simp [hs, Function.comp_def]

theorem handed_verdicts (ho : Outcome env y json buffer processed front own) :
    (consume env.verdict env.clock processed).handed.map (·.2) =
      (List.range (payloadsOf env y json buffer).length).map env.verdict := by
  have hfirst : processed.handed.map (·.2) =
      (List.range processed.handed.length).map env.verdict := by
    have hle := apart_length_add_nulls json.yajlHandler.text json.lastObject front
    have hone := ho.front_le
    rw [ho.handed]
    split
    · match hapart : apart json.yajlHandler.text json.lastObject front with
      | [] => rfl
      | [o] => rfl
      | o :: o' :: rest =>
        rw [hapart, List.length_cons, List.length_cons] at hle
        omega
    · rfl
  rw [← handed_payloads ho, List.length_map, consume_handed, List.length_append, List.range_add,
    List.map_append, List.map_append, hfirst, List.map_snd_zip (by simp), List.map_map]
  simp [Function.comp_def]

end Handed

/-- What a call comes to: it does not get to the text, or it goes through the chunk. -/
inductive Decoding (env : Env) (y : Grammar) (props : KeyvalList) (buffer : Bytes)
    (session : ZzSession ZzJsonSession) : Decoded ZzJsonSession → Prop
  | idle (d : Decoded ZzJsonSession) (hhanded : d.handed = [])
    (htext : d.session.parser.yajlHandler.text = session.parser.yajlHandler.text)
    (hempty : methodAllowed props → env.malloc → buffer = []) (hok : d.rc = .ok → buffer = [])
    (hlossy : Lossy d.session.parser) : Decoding env y props buffer session d
  | through (processed : Processed ZzJsonSession) (front own : List Bytes)
    (ho : Outcome env y session.parser buffer processed front own) (hm : methodAllowed props)
    (hmalloc : env.malloc) :
    Decoding env y props buffer session (consume env.verdict env.clock processed)

theorem zzDecodeJson_decoding (env : Env) (y : Grammar) (props : KeyvalList) (buffer : Bytes)
    {session : ZzSession ZzJsonSession} (hl : Lossy session.parser) :
    ∃ d, zzDecodeJson env y props buffer session = some d ∧
      Decoding env y props buffer session d := by
  by_cases hm : methodAllowed props
  · have hrun {processed : Processed ZzJsonSession}
        (hp : processJsonBuffer env y buffer { session with kafkaMsgs := .initializer } =
          some processed) :
        zzDecodeJson env y props buffer session = some (consume env.verdict env.clock processed) :=
      zzDecode_of_processed hm hp
    by_cases hne : buffer = []
    · subst hne
      refine ⟨_, hrun processJsonBuffer_empty, .idle _ ?_ ?_ (fun _ _ ↦ rfl) (fun _ ↦ rfl) ?_⟩
      · simp [MessageArray.payloads, MessageArray.initializer]
      · simp
      · rw [parser_consume]
        exact hl
    by_cases hmalloc : env.malloc
    · obtain ⟨processed, front, own, hp, ho⟩ := processJsonBuffer_outcome env y
        (hl : Lossy { session with kafkaMsgs := MessageArray.initializer }.parser) rfl hne hmalloc
      exact ⟨_, hrun hp, .through processed front own ho hm hmalloc⟩
    · refine ⟨_, hrun (processJsonBuffer_noMemory hne hmalloc),
        .idle _ ?_ ?_ (fun _ h ↦ absurd h hmalloc) (fun hrc ↦ ?_) ?_⟩
      · simp [MessageArray.payloads, MessageArray.initializer]
      · simp
      · rw [consume_rc] at hrc
        cases hrc
      · rw [parser_consume]
        exact ⟨hl.running, hl.stackPos, rfl, hl.lastObject⟩
  · exact ⟨⟨session, .httpMethodNotAllowed, none, []⟩, by simp [zzDecodeJson, zzDecode, hm],
      .idle _ rfl rfl (fun h ↦ absurd h hm) (fun hrc ↦ by cases hrc) hl⟩

/-- The sessions there are: every call of `zz_decode` on one of them leaves another, whatever
allocations fail and whatever rdkafka answers. -/
inductive Reached (y : Grammar) : ZzSession ZzJsonSession → Prop
  | new (errorMessage : Bytes → DecoderCallbackErr → ℕ → Bytes) :
    Reached y (newZzSessionJson errorMessage)
  | call {session : ZzSession ZzJsonSession} {d : Decoded ZzJsonSession} (env : Env)
    (props : KeyvalList) (buffer : Bytes) (h : Reached y session)
    (hd : zzDecodeJson env y props buffer session = some d) : Reached y d.session

theorem lossy_new (errorMessage : Bytes → DecoderCallbackErr → ℕ → Bytes) :
    Lossy (newZzSessionJson errorMessage).parser := ⟨rfl, rfl, rfl, .inl rfl⟩

/-- An object may have lost bytes, but a session keeps count of the braces until yajl fails. -/
theorem Reached.lossy {session : ZzSession ZzJsonSession} (h : Reached y session) :
    session.parser.yajlHandler.failed = false → Lossy session.parser := by
  induction h with
  | new errorMessage => exact fun _ ↦ lossy_new errorMessage
  | @call session d env props buffer h hd ih =>
    intro hrun
    by_cases hf : session.parser.yajlHandler.failed = false
    · obtain ⟨d', hd', hdecoding⟩ := zzDecodeJson_decoding env y props buffer (ih hf)
      obtain rfl := Option.some.inj (hd'.symm.trans hd)
      cases hdecoding with
      | idle _ _ _ _ _ hlossy => exact hlossy
      | through processed front own ho =>
        rw [parser_consume] at hrun ⊢
        exact ho.lossy (by simpa [ho.failed] using hrun)
    · -- yajl does not take up again what it has refused
      by_cases hm : methodAllowed props
      · obtain ⟨d', hd', -, hhandler, -⟩ := zzDecodeJson_failed env y hm (by simpa using hf) buffer
        obtain rfl := Option.some.inj (hd'.symm.trans hd)
        rw [hhandler] at hrun
        exact absurd hrun hf
      · have hkept : zzDecodeJson env y props buffer session =
            some ⟨session, .httpMethodNotAllowed, none, []⟩ := by
          simp [zzDecodeJson, zzDecode, hm]
        obtain rfl := Option.some.inj (hkept.symm.trans hd)
        exact absurd hrun hf

end N2Kafka.Decoder.JsonAllocations
