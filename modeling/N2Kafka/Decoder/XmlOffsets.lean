import Mathlib.Algebra.Ring.Int.Defs
import N2Kafka.Decoder.XmlChunking

namespace N2Kafka.Decoder.XmlOffsets

open Lib.CString Util.KafkaMessageArray Decoder.DecoderApi Decoder.Expat
open Decoder.ZzDecoder Decoder.ZzParserXml Decoder.XmlTranslation

/-- What is assumed of expat: the byte index counts all bytes since the last reset, and a stop leaves
it behind what was being reported. -/
structure CountsBytes (expat : Library) : Prop where
  token : ∀ fed chunk, ∀ t ∈ (expat.parse fed chunk).tokens, 0 < t.stop.byte ∧
    ∃ k ≤ chunk.length, t.stop.byte = fed.flatten.length + k
  junk : ∀ fed chunk, (expat.parse fed chunk).error = .junkAfterDocElement →
    0 < (expat.parse fed chunk).position.byte ∧
      ∃ k ≤ chunk.length, (expat.parse fed chunk).position.byte = fed.flatten.length + k
  ok : ∀ fed chunk, (expat.parse fed chunk).status = .ok → (expat.parse fed chunk).error = .none
  running : ∀ fed chunk, (expat.parse fed chunk).status ≠ .suspended ∧
    (expat.parse fed chunk).error ≠ .aborted

variable (env : Env)

/-- A turn of the loop of `process_xml_buffer`, up to the advance. -/
inductive Turn
  | aborted
  | left (s : Parsing)
  | restart (offset : ℤ) (s : Parsing)

def Turn.answered (s : Parsing) : Turn :=
  match s.printed with
  | none => .aborted
  | some s => .left s

def turn (buffer : Bytes) (s : Parsing) : Turn :=
  match xmlParse env buffer s with
  | none => .aborted
  | some (stat, s) =>
    if stat = .ok then .left s
    else if trueError stat s then .answered (queueXmlError env (ascii "Error parsing XML") .ok s)
    else if s.expatHandler.position.byte ≤ 0 ∧ s.httpResponse.length = 0 then
      .answered (queueXmlError env (ascii "Can't get parse offset") .ok s)
    else .restart s.expatHandler.position.byte s

theorem xmlLoop_succ (fuel : ℕ) (buffer : Bytes) (s : Parsing) :
    xmlLoop env (fuel + 1) buffer s =
      if buffer.length > 0 ∧ s.httpResponse.length = 0 then
        match turn env buffer s with
        | .aborted => none
        | .left s => some s
        | .restart offset s =>
          if 0 ≤ offset ∧ offset ≤ buffer.length then
            xmlLoop env fuel (buffer.drop offset.toNat) (zzResetXmlHandler s)
          else none
      else some s := by
  rw [xmlLoop, turn]
  congr 1
  cases xmlParse env buffer s with
  | none => rfl
  | some parsed =>
    obtain ⟨stat, s⟩ := parsed
    by_cases hok : stat = .ok
    · simp [hok]
    · by_cases htrue : trueError stat s
      · simp only [Option.bind_some, hok, htrue, if_false, if_true, Turn.answered]
        cases (queueXmlError env (ascii "Error parsing XML") .ok s).printed <;> rfl
      · by_cases hoffset : s.expatHandler.position.byte ≤ 0 ∧ s.httpResponse.length = 0
        · simp only [Option.bind_some, hok, htrue, hoffset, if_false, if_true, and_self,
            Bool.false_eq_true, Turn.answered]
          cases (queueXmlError env (ascii "Can't get parse offset") .ok s).printed <;> rfl
        · simp only [Option.bind_some, hok, htrue, hoffset, if_false, Bool.false_eq_true]

structure Restart where
  offset : ℤ
  bsize : ℕ
  deriving DecidableEq

def Restart.Inside (r : Restart) : Prop := 0 < r.offset ∧ r.offset ≤ r.bsize

/-- The restarts of the loop, up to the first one that leaves the chunk. -/
def restarts : ℕ → Bytes → Parsing → List Restart
  | 0, _, _ => []
  | fuel + 1, buffer, s =>
    if buffer.length > 0 ∧ s.httpResponse.length = 0 then
      match turn env buffer s with
      | .aborted | .left _ => []
      | .restart offset s =>
        ⟨offset, buffer.length⟩ ::
          if 0 ≤ offset ∧ offset ≤ buffer.length then
            restarts fuel (buffer.drop offset.toNat) (zzResetXmlHandler s)
          else []
    else []

/-- Nothing is wrong with the parser as long as no error is queued. -/
def Live (s : Parsing) : Prop :=
  s.httpResponse = [] → s.expatHandler.stopped = false ∧ s.expatHandler.error = .none

theorem live_reset (s : Parsing) : Live (zzResetXmlHandler s) := fun _ ↦ ⟨rfl, rfl⟩

variable {env}

theorem answered_eq_left {s s' : Parsing} (h : Turn.answered s = .left s') : s = s' := by
  unfold Turn.answered at h
  cases hs : s.printed with
  | none => simp [hs] at h
  | some s₁ =>
    rw [hs] at h
    exact (printed_eq_some_iff.mp hs).1.trans (Turn.left.inj h)

theorem answered_ne_restart (s s' : Parsing) (offset : ℤ) : Turn.answered s ≠ .restart offset s' := by
  unfold Turn.answered
  split <;> simp

theorem live_queueXmlError (text : Bytes) (s : Parsing) : Live (queueXmlError env text .ok s) :=
  fun hnil ↦ absurd hnil (queueXmlError_response _ _ _)

theorem xmlDeliver_stopped {ts : List Token} {s s' : Parsing} (h : xmlDeliver env ts s = some s')
    (hrun : s.expatHandler.stopped = false) (hstop : s'.expatHandler.stopped) :
    ∃ t ∈ ts, s'.expatHandler.position = t.stop ∧ s'.expatHandler.error = .aborted := by
  induction ts generalizing s with
  | nil =>
    obtain rfl := Option.some.inj h
    exact absurd (hrun.symm.trans hstop) (by decide)
  | cons t ts ih =>
    obtain ⟨s₁, -, h⟩ := Option.bind_eq_some_iff.mp h
    split at h
    · obtain rfl := Option.some.inj h
      exact ⟨t, .head _, rfl, rfl⟩
    · rename_i hrun₁
      obtain ⟨u, hu, hpos, herr⟩ := ih h (by simpa using hrun₁)
      exact ⟨u, .tail _ hu, hpos, herr⟩

theorem xmlParse_cases {buffer : Bytes} {s s' : Parsing} {stat : XmlStatus}
    (hstop : s.expatHandler.stopped = false) (herr : s.expatHandler.error = .none)
    (h : xmlParse env buffer s = some (stat, s')) :
    (stat = .error ∧ s'.expatHandler.stopped ∧ s'.expatHandler.error = .aborted ∧
      ∃ t ∈ (env.expat.parse s.expatHandler.fed buffer).tokens,
        s'.expatHandler.position = t.stop) ∨
    (stat = (env.expat.parse s.expatHandler.fed buffer).status ∧
      s'.expatHandler = ⟨s.expatHandler.fed ++ [buffer],
        (env.expat.parse s.expatHandler.fed buffer).error,
        (env.expat.parse s.expatHandler.fed buffer).position, false⟩) := by
  simp only [xmlParse, hstop, herr, ne_eq, not_true_eq_false, Bool.false_eq_true, if_false] at h
  obtain ⟨s₁, hs₁, heq⟩ := Option.map_eq_some_iff.mp h
  split at heq
  · rename_i hstopped
    obtain ⟨rfl, rfl⟩ := Prod.mk.inj heq
    obtain ⟨t, ht, hpos, herr'⟩ := xmlDeliver_stopped hs₁ hstop hstopped
    exact .inl ⟨rfl, hstopped, herr', t, ht, hpos⟩
  · obtain ⟨rfl, rfl⟩ := Prod.mk.inj heq
    exact .inr ⟨rfl, rfl⟩

theorem turn_restart (hexpat : CountsBytes env.expat) {buffer : Bytes} {s s' : Parsing} {offset : ℤ}
    (hstop : s.expatHandler.stopped = false) (herr : s.expatHandler.error = .none)
    (h : turn env buffer s = .restart offset s') :
    0 < offset ∧ ∃ k ≤ buffer.length, offset = s.expatHandler.fed.flatten.length + k := by
  unfold turn at h
  cases hparse : xmlParse env buffer s with
  | none => simp [hparse] at h
  | some parsed =>
    obtain ⟨stat, s₁⟩ := parsed
    simp only [hparse] at h
    split at h
    · cases h
    · rename_i hok
      split at h
      · exact absurd h (answered_ne_restart _ _ _)
      · rename_i htrue
        split at h
        · exact absurd h (answered_ne_restart _ _ _)
        · obtain ⟨rfl, rfl⟩ := Turn.restart.inj h
          obtain ⟨-, -, -, t, ht, hpos⟩ | ⟨hstat, hparser⟩ := xmlParse_cases hstop herr hparse
          · rw [hpos]
            exact hexpat.token _ _ t ht
          · have hrunning := hexpat.running s.expatHandler.fed buffer
            have hjunk : (env.expat.parse s.expatHandler.fed buffer).error = .junkAfterDocElement := by
              cases hs : stat with
              | ok => exact absurd hs hok
              | suspended => exact absurd (hstat.symm.trans hs) hrunning.1
              | error =>
                rw [hs] at htrue
                simp only [trueError, hparser, Bool.not_eq_true, decide_eq_false_iff_not, not_and_or,
                  not_not] at htrue
                exact htrue.resolve_right hrunning.2
            rw [hparser]
            exact hexpat.junk _ _ hjunk

theorem turn_left_live (hexpat : CountsBytes env.expat) {buffer : Bytes} {s s' : Parsing}
    (hstop : s.expatHandler.stopped = false) (herr : s.expatHandler.error = .none)
    (h : turn env buffer s = .left s') : Live s' := by
  unfold turn at h
  cases hparse : xmlParse env buffer s with
  | none => simp [hparse] at h
  | some parsed =>
    obtain ⟨stat, s₁⟩ := parsed
    simp only [hparse] at h
    split at h
    · rename_i hok
      obtain rfl := Turn.left.inj h
      obtain ⟨hstat, -⟩ | ⟨hstat, hparser⟩ := xmlParse_cases hstop herr hparse
      · exact absurd (hok.symm.trans hstat) (by decide)
      · intro _
        rw [hparser]
        exact ⟨rfl, hexpat.ok _ _ (hstat.symm.trans hok)⟩
    · split at h
      · rw [← answered_eq_left h]
        exact live_queueXmlError _ _
      · split at h
        · rw [← answered_eq_left h]
          exact live_queueXmlError _ _
        · cases h

theorem xmlLoop_live (hexpat : CountsBytes env.expat) (fuel : ℕ) {buffer : Bytes} {s s' : Parsing}
    (hs : Live s) (h : xmlLoop env fuel buffer s = some s') : Live s' := by
  induction fuel generalizing buffer s with
  | zero =>
    obtain rfl := Option.some.inj h
    exact hs
  | succ fuel ih =>
    rw [xmlLoop_succ] at h
    split at h
    · rename_i hcond
      obtain ⟨hstop, herr⟩ := hs (List.length_eq_zero_iff.mp hcond.2)
      cases hturn : turn env buffer s with
      | aborted => simp [hturn] at h
      | left s₁ =>
        simp only [hturn, Option.some.injEq] at h
        subst h
        exact turn_left_live hexpat hstop herr hturn
      | restart offset s₁ =>
        simp only [hturn] at h
        split at h
        · exact ih (live_reset s₁) h
        · cases h
    · obtain rfl := Option.some.inj h
      exact hs

/-- More fuel than bytes makes no difference: each restart takes at least one byte. -/
theorem xmlLoop_fuel (hexpat : CountsBytes env.expat) {fuel fuel' : ℕ} {buffer : Bytes} {s : Parsing}
    (hs : Live s) (hfuel : buffer.length ≤ fuel) (hfuel' : buffer.length ≤ fuel') :
    xmlLoop env fuel buffer s = xmlLoop env fuel' buffer s := by
  induction fuel generalizing fuel' buffer s with
  | zero =>
    obtain rfl := List.length_eq_zero_iff.mp (Nat.le_zero.mp hfuel)
    rw [xmlLoop_nil, xmlLoop_nil]
  | succ fuel ih =>
    cases fuel' with
    | zero =>
      obtain rfl := List.length_eq_zero_iff.mp (Nat.le_zero.mp hfuel')
      rw [xmlLoop_nil, xmlLoop_nil]
    | succ fuel' =>
      rw [xmlLoop_succ, xmlLoop_succ]
      split
      · rename_i hcond
        obtain ⟨hstop, herr⟩ := hs (List.length_eq_zero_iff.mp hcond.2)
        cases hturn : turn env buffer s with
        | aborted => rfl
        | left s₁ => rfl
        | restart offset s₁ =>
          have hpos := (turn_restart hexpat hstop herr hturn).1
          dsimp only
          split
          · apply ih (live_reset s₁)
            · rw [List.length_drop]
              omega
            · rw [List.length_drop]
              omega
          · rfl
      · rfl

/-- Every restart stays inside the chunk, and together they take each byte at most once. -/
structure Contained (size : ℕ) (rs : List Restart) : Prop where
  inside : ∀ r ∈ rs, r.Inside
  total : (rs.map (·.offset)).sum ≤ size

theorem contained_nil (size : ℕ) : Contained size [] := ⟨by simp, by simp⟩

theorem contained_cons {buffer : Bytes} {offset : ℤ} {rs : List Restart} (hpos : 0 < offset)
    (hle : offset ≤ buffer.length) (h : Contained (buffer.drop offset.toNat).length rs) :
    Contained buffer.length (⟨offset, buffer.length⟩ :: rs) := by
  refine ⟨List.forall_mem_cons.mpr ⟨⟨hpos, hle⟩, h.inside⟩, ?_⟩
  have htotal := h.total
  rw [List.length_drop] at htotal
  simp only [List.map_cons, List.sum_cons]
  omega

theorem contained_fresh (hexpat : CountsBytes env.expat) (fuel : ℕ) (buffer : Bytes) {s : Parsing}
    (h : s.expatHandler = .fresh) : Contained buffer.length (restarts env fuel buffer s) := by
  induction fuel generalizing buffer s with
  | zero => exact contained_nil _
  | succ fuel ih =>
    rw [restarts]
    split
    · cases hturn : turn env buffer s with
      | aborted => exact contained_nil _
      | left s₁ => exact contained_nil _
      | restart offset s₁ =>
        obtain ⟨hpos, k, hk, hoffset⟩ := turn_restart hexpat (by rw [h]; rfl) (by rw [h]; rfl) hturn
        have hle : offset ≤ buffer.length := by
          rw [hoffset, h]
          simpa [XmlParser.fresh] using hk
        dsimp only
        rw [if_pos ⟨by omega, hle⟩]
        exact contained_cons hpos hle (ih _ rfl)
    · exact contained_nil _

structure Call where
  env : Env
  buffer : Bytes

def chunkRestarts (c : Call) (session : ZzSession ZzXmlSession) : ℕ × List Restart :=
  (c.buffer.length, restarts c.env c.buffer.length c.buffer (enterXmlChunk c.env session))

def runRestarts : List Call → ZzSession ZzXmlSession → List (ℕ × List Restart)
  | [], _ => []
  | c :: cs, session =>
    chunkRestarts c session ::
      match processXmlBuffer c.env c.buffer session with
      | none => []
      | some processed => runRestarts cs { processed.session with kafkaMsgs := .initializer }

def LiveSession (session : ZzSession ZzXmlSession) : Prop :=
  session.httpResponse = [] → session.parser.expatHandler.stopped = false ∧
    session.parser.expatHandler.error = .none

theorem LiveSession.process (hexpat : CountsBytes env.expat) {buffer : Bytes}
    {session : ZzSession ZzXmlSession} {processed : Processed ZzXmlSession} (h : LiveSession session)
    (hp : processXmlBuffer env buffer session = some processed) :
    LiveSession { processed.session with kafkaMsgs := .initializer } := by
  obtain ⟨s, hs, rfl⟩ := Option.map_eq_some_iff.mp hp
  exact xmlLoop_live hexpat buffer.length (s := enterXmlChunk env session) h hs

theorem mem_run {r : Reading} {i : ℕ} {s : Bytes} {t : Token} (h : t ∈ (r.run i s).2) :
    ∃ k ≤ s.length, 0 < k ∧ t.stop.byte = i + k := by
  induction s generalizing r i with
  | nil => cases h
  | cons c s ih =>
    rw [Reading.run] at h
    obtain h | h := List.mem_append.mp h
    · obtain ⟨e, -, rfl⟩ := List.mem_map.mp h
      exact ⟨1, by simp, by simp, by simp⟩
    · obtain ⟨k, hk, hpos, hbyte⟩ := ih h
      refine ⟨k + 1, by simpa using hk, by simp, ?_⟩
      rw [hbyte]
      push_cast
      omega

theorem countsBytes_plain : CountsBytes plainExpat := by
  refine ⟨?_, ?_, fun _ _ _ ↦ rfl, fun _ _ ↦ ⟨by simp [plainExpat], by simp [plainExpat]⟩⟩
  · intro fed chunk t ht
    obtain ⟨k, hk, hpos, hbyte⟩ := mem_run ht
    exact ⟨by omega, k, hk, hbyte⟩
  · intro fed chunk hjunk
    cases hjunk

end N2Kafka.Decoder.XmlOffsets
