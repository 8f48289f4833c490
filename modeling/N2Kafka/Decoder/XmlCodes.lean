import N2Kafka.Decoder.XmlErrors

namespace N2Kafka.Decoder.XmlCodes

open Lib.CString Decoder.DecoderApi Decoder.Expat Decoder.ZzDecoder Decoder.ZzParserXml
open Decoder.XmlTranslation Decoder.XmlOffsets Decoder.XmlNesting Decoder.XmlAllocations
open Decoder.XmlErrors

/-- A turn of the loop over a chunk: the bytes left to it, and the session before it. -/
structure Round where
  left : Bytes
  before : Parsing

variable (env : Env)

def rounds : ℕ → Bytes → Parsing → List Round
  | 0, _, _ => []
  | fuel + 1, buffer, s =>
    if buffer.length > 0 ∧ s.httpResponse.length = 0 then
      ⟨buffer, s⟩ ::
        match turn env buffer s with
        | .aborted | .left _ => []
        | .restart offset s =>
          if 0 ≤ offset ∧ offset ≤ buffer.length then
            rounds fuel (buffer.drop offset.toNat) (zzResetXmlHandler s)
          else []
    else []

/-- A root ends in this call of a handler, or it queues an error. -/
def Halts (d : Delivery) : Prop :=
  EndsRoot d.before.stackPos d.token.event ∨ d.queued env ≠ 0

/-- Nothing in this call makes a code other than OK: no tag is too deep, expat is not stopped often
enough to complain, and the byte index is behind the end of a root. -/
structure Silent (d : Delivery) : Prop where
  room : roomForEvent env.style.maxDepth d.before.stackPos d.token.event = true
  few : d.queued env < 3
  behind : EndsRoot d.before.stackPos d.token.event → d.queued env = 0 → 0 < d.token.stop.byte

/-- Nothing in this turn does: where no handler stops expat, it finds nothing wrong either. -/
structure Round.Passes (r : Round) : Prop where
  silent : ∀ d ∈ turnDeliveries env r.left r.before, Silent env d
  accepted : (∀ d ∈ turnDeliveries env r.left r.before, ¬ Halts env d) →
    (env.expat.parse r.before.expatHandler.fed r.left).error = .none

inductive Coded (buffer : Bytes) (s : Parsing) : Turn → Prop
  | aborted : Coded buffer s .aborted
  | left {s' : Parsing} (h : s'.rc = .ok ↔ Round.Passes env ⟨buffer, s⟩) : Coded buffer s (.left s')
  | ended (offset : ℤ) {s' : Parsing} (hpasses : Round.Passes env ⟨buffer, s⟩)
      (h : Tracks env.expat ⟨[], 0⟩ (zzResetXmlHandler s')) : Coded buffer s (.restart offset s')
  | queued (offset : ℤ) {s' : Parsing} (hresponse : s'.httpResponse ≠ [])
      (h : s'.rc = .ok ↔ Round.Passes env ⟨buffer, s⟩) : Coded buffer s (.restart offset s')

variable {env}

section Turns

variable {d : Delivery} {r : Reader} {s s' : Parsing} {buffer : Bytes}

theorem not_halts_of_runs (h : d.Runs env) : ¬ Halts env d := by
  obtain ⟨⟨depth, hat, herror, hallowed⟩, hquiet, s', hs', hrun⟩ := h
  obtain ⟨-, hroot, -, -⟩ := Delivery.Stands.runs hat herror hallowed hs' hrun
  rintro (hends | hqueued)
  · rw [hat.stackPos] at hends
    exact hroot hends
  · exact hqueued hquiet

theorem silent_of_runs (h : d.Runs env) : Silent env d := by
  have hhalts := not_halts_of_runs h
  obtain ⟨⟨depth, hat, -, hallowed⟩, hquiet, -⟩ := h
  refine ⟨?_, ?_, fun hends _ ↦ absurd (.inl hends) hhalts⟩
  · by_contra hroom
    rw [hat.stackPos, Bool.not_eq_true] at hroom
    exact queued_of_tooDeep hat _ hallowed hroom hquiet
  · rw [hquiet]
    decide

theorem passes_iff_accepted (h : ∀ d ∈ turnDeliveries env buffer s, d.Runs env) :
    Round.Passes env ⟨buffer, s⟩ ↔ (env.expat.parse s.expatHandler.fed buffer).error = .none :=
  ⟨fun hpasses ↦ hpasses.accepted fun d hd ↦ not_halts_of_runs (h d hd),
    fun haccepted ↦ ⟨fun d hd ↦ silent_of_runs (h d hd), fun _ ↦ haccepted⟩⟩

theorem passes_iff_silent {front : List Delivery}
    (hds : turnDeliveries env buffer s = front ++ [d]) (hfront : ∀ d ∈ front, d.Runs env)
    (hhalts : Halts env d) : Round.Passes env ⟨buffer, s⟩ ↔ Silent env d := by
  have hmem : d ∈ turnDeliveries env buffer s := by simp [hds]
  refine ⟨fun hpasses ↦ hpasses.silent d hmem, fun hsilent ↦ ⟨?_, fun hnone ↦ ?_⟩⟩
  · intro d' hd'
    dsimp only at hd'
    rw [hds] at hd'
    obtain hd' | hd' := List.mem_append.mp hd'
    · exact silent_of_runs (hfront d' hd')
    · rwa [List.mem_singleton.mp hd']
  · exact absurd hhalts (hnone d hmem)

theorem coded (hexpat : ReportsNesting env.expat) (h : Tracks env.expat r s) (buffer : Bytes) :
    Coded env buffer s (turn env buffer s) := by
  have hends := ends hexpat h buffer
  generalize turn env buffer s = next at hends ⊢
  cases hends with
  | accepted hruns herror htracks =>
    exact .left (iff_of_true htracks.stands.rc ((passes_iff_accepted hruns).mpr herror))
  | wrong hruns herror hresponse hrc =>
    exact .left (iff_of_false hrc fun hpasses ↦ herror ((passes_iff_accepted hruns).mp hpasses))
  | stuck => exact .aborted
  | root front d hds hfront hlast hreturns hroot hzero hlost hended =>
    have hpasses := passes_iff_silent hds hfront (.inl hroot)
    by_cases hbyte : d.token.stop.byte ≤ 0
    · obtain ⟨s', rfl, -, hrc⟩ := hlost hbyte
      refine .left (iff_of_false hrc fun hround ↦ ?_)
      exact absurd ((hpasses.mp hround).behind hroot hzero) (by omega)
    · obtain ⟨s', rfl, htracks⟩ := hended hbyte
      refine .ended _ (hpasses.mpr ⟨?_, by omega, fun _ _ ↦ by omega⟩) htracks
      obtain ⟨depth, hat, -, hallowed⟩ := hlast.stands
      by_contra hroom
      rw [hat.stackPos, Bool.not_eq_true] at hroom
      exact queued_of_tooDeep hat _ hallowed hroom hzero
  | queued front d hds hfront hlast hreturns hqueued hresponse hrc =>
    refine .queued _ hresponse (hrc.trans ?_)
    rw [passes_iff_silent hds hfront (.inr hqueued)]
    exact ⟨fun hboth ↦ ⟨hboth.1, hboth.2, fun _ hzero ↦ absurd hzero hqueued⟩,
      fun hsilent ↦ ⟨hsilent.room, hsilent.few⟩⟩

theorem rounds_of_response (fuel : ℕ) (buffer : Bytes) (h : s.httpResponse ≠ []) :
    rounds env fuel buffer s = [] := by
  have hlen : s.httpResponse.length ≠ 0 := by simpa using h
  cases fuel with
  | zero => rfl
  | succ fuel => rw [rounds, if_neg fun hboth ↦ hlen hboth.2]

theorem loop_ok_iff_passes (hexpat : ReportsNesting env.expat) (fuel : ℕ) (h : Tracks env.expat r s)
    (hs' : xmlLoop env fuel buffer s = some s') :
    s'.rc = .ok ↔ ∀ round ∈ rounds env fuel buffer s, round.Passes env := by
  induction fuel generalizing r s buffer with
  | zero =>
    obtain rfl := Option.some.inj hs'
    exact iff_of_true h.stands.rc (by simp [rounds])
  | succ fuel ih =>
    rw [xmlLoop_succ] at hs'
    rw [rounds]
    split at hs'
    · rename_i hrun
      rw [if_pos hrun, List.forall_mem_cons]
      have hcoded := coded hexpat h buffer
      generalize turn env buffer s = next at hcoded hs' ⊢
      cases hcoded with
      | aborted => cases hs'
      | left hrc =>
        obtain rfl := Option.some.inj hs'
        rw [hrc]
        simp
      | ended offset hpasses htracks =>
        dsimp only at hs' ⊢
        split at hs'
        · rename_i hinside
          rw [if_pos hinside, ih htracks hs', and_iff_right hpasses]
        · cases hs'
      | @queued offset s₁ hresponse hrc =>
        dsimp only at hs' ⊢
        split at hs'
        · rename_i hinside
          have hreset : (zzResetXmlHandler s₁).httpResponse ≠ [] := hresponse
          rw [xmlLoop_of_response _ _ hreset] at hs'
          obtain rfl := Option.some.inj hs'
          rw [if_pos hinside, rounds_of_response _ _ hreset, ← hrc]
          simp [zzResetXmlHandler]
        · cases hs'
    · rename_i hrun
      obtain rfl := Option.some.inj hs'
      rw [if_neg hrun]
      exact iff_of_true h.stands.rc (by simp)

end Turns

def chunkRounds (env : Env) (buffer : Bytes) (session : ZzSession ZzXmlSession) : List Round :=
  rounds env buffer.length buffer (enterXmlChunk env session)

end N2Kafka.Decoder.XmlCodes
