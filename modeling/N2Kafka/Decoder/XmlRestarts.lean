import N2Kafka.Decoder.XmlErrors

namespace N2Kafka.Decoder.XmlRestarts

open Lib.CString Decoder.DecoderApi Decoder.Expat Decoder.ZzDecoder Decoder.ZzParserXml
open Decoder.XmlTranslation Decoder.XmlOffsets Decoder.XmlNesting Decoder.XmlAllocations
open Decoder.XmlErrors

/-- A root ends in this call of a handler, or it queues an error; and it comes back. -/
structure Stops (env : Env) (d : Delivery) : Prop extends d.Returns env where
  cause : EndsRoot d.before.stackPos d.token.event ∨ d.queued env ≠ 0

/-- Behind the place where a root ends first, or an error is queued, the chunk has as many bytes as
expat was given in earlier chunks since its last reset. -/
def Fits (env : Env) (buffer : Bytes) (s : Parsing) : Prop :=
  buffer ≠ [] → s.httpResponse = [] → ∀ d ∈ turnDeliveries env buffer s, Stops env d →
    ∀ k ≤ buffer.length, d.token.stop.byte = s.expatHandler.fed.flatten.length + k →
      s.expatHandler.fed.flatten.length ≤ buffer.length - k

def FitsAll : List Call → ZzSession ZzXmlSession → Prop
  | [], _ => True
  | c :: cs, session => Fits c.env c.buffer (enterXmlChunk c.env session) ∧
      ∀ processed, processXmlBuffer c.env c.buffer session = some processed →
        FitsAll cs { processed.session with kafkaMsgs := .initializer }

section Turns

variable {env : Env} {d : Delivery} {r : Reader} {s s₁ : Parsing} {buffer : Bytes}

theorem not_stops_of_runs (h : d.Runs env) : ¬ Stops env d := by
  obtain ⟨⟨depth, hat, herror, hallowed⟩, hquiet, s', hs', hrun⟩ := h
  obtain ⟨-, hroot, -, -⟩ := Delivery.Stands.runs hat herror hallowed hs' hrun
  rintro ⟨-, hends | hqueued⟩
  · rw [hat.stackPos] at hends
    exact hroot hends
  · exact hqueued hquiet

/-- The restarts of a chunk stay inside it if the first one does: from there on, the parser starts
afresh. -/
theorem contained_iff_first (hexpat : CountsBytes env.expat) {offset : ℤ} (hpos : 0 < offset)
    (hne : buffer ≠ []) (hresponse : s.httpResponse = [])
    (hturn : turn env buffer s = .restart offset s₁) :
    Contained buffer.length (restarts env buffer.length buffer s) ↔ offset ≤ buffer.length := by
  obtain ⟨fuel, hfuel⟩ := Nat.exists_eq_succ_of_ne_zero (List.length_pos_iff.mpr hne).ne'
  rw [hfuel, restarts, if_pos ⟨by omega, by simp [hresponse]⟩, hturn, ← hfuel]
  dsimp only
  constructor
  · exact fun hcontained ↦ (hcontained.inside _ (.head _)).2
  · intro hle
    rw [if_pos ⟨by omega, hle⟩]
    exact contained_cons hpos hle (contained_fresh hexpat fuel _ rfl)

theorem contained_of_left (hturn : ∀ offset s₁, turn env buffer s ≠ .restart offset s₁) :
    Contained buffer.length (restarts env buffer.length buffer s) := by
  cases hfuel : buffer.length with
  | zero => exact contained_nil _
  | succ fuel =>
    rw [restarts]
    split
    · cases hnext : turn env buffer s with
      | aborted => exact contained_nil _
      | left s₁ => exact contained_nil _
      | restart offset s₁ => exact absurd hnext (hturn offset s₁)
    · exact contained_nil _

theorem contained_iff_fits_last (hexpat : CountsBytes env.expat) {front : List Delivery}
    (hne : buffer ≠ []) (hresponse : s.httpResponse = [])
    (hds : turnDeliveries env buffer s = front ++ [d]) (hfront : ∀ d ∈ front, d.Runs env)
    (hlast : d.Last env buffer.length (env.expat.parse s.expatHandler.fed buffer).tokens)
    (hstops : Stops env d) (hturn : turn env buffer s = .restart d.token.stop.byte s₁) :
    Contained buffer.length (restarts env buffer.length buffer s) ↔ Fits env buffer s := by
  obtain ⟨hpos, k, hk, hbyte⟩ := hexpat.token _ _ d.token hlast.mem
  rw [contained_iff_first hexpat hpos hne hresponse hturn]
  constructor
  · intro hle _ _ d' hd' hstops' k' hk' hbyte'
    rw [hds] at hd'
    obtain hd' | hd' := List.mem_append.mp hd'
    · exact absurd hstops' (not_stops_of_runs (hfront d' hd'))
    · rw [List.mem_singleton.mp hd'] at hbyte'
      omega
  · intro hfits
    have hroom := hfits hne hresponse d (by simp [hds]) hstops k hk hbyte
    omega

theorem contained_iff_fits (hexpat : CountsBytes env.expat) (hnesting : ReportsNesting env.expat)
    (h : Tracks env.expat r s) (buffer : Bytes) :
    Contained buffer.length (restarts env buffer.length buffer s) ↔ Fits env buffer s := by
  by_cases hne : buffer = []
  · rw [hne]
    exact iff_of_true (contained_nil _) fun hne _ ↦ absurd rfl hne
  have hends := ends hnesting h buffer
  generalize hturn : turn env buffer s = next at hends
  cases hends with
  | accepted hruns | wrong hruns =>
    refine iff_of_true (contained_of_left (by simp [hturn])) fun _ _ d hd hstops ↦ ?_
    exact absurd hstops (not_stops_of_runs (hruns d hd))
  | stuck front d hds hfront hlast hnone =>
    refine iff_of_true (contained_of_left (by simp [hturn])) fun _ _ d' hd' hstops ↦ ?_
    rw [hds] at hd'
    obtain hd' | hd' := List.mem_append.mp hd'
    · exact absurd hstops (not_stops_of_runs (hfront d' hd'))
    · rw [List.mem_singleton.mp hd'] at hstops
      obtain ⟨s', hs'⟩ := (hlast.stands.returns_iff env).mpr hstops.toReturns
      cases hnone.symm.trans hs'
  | root front d hds hfront hlast hreturns hroot hzero hlost hended =>
    have hbyte : ¬ d.token.stop.byte ≤ 0 := by
      have hpos := (hexpat.token _ _ d.token hlast.mem).1
      omega
    obtain ⟨s', rfl, -⟩ := hended hbyte
    exact contained_iff_fits_last hexpat hne h.stands.response hds hfront hlast
      ⟨hreturns, .inl hroot⟩ hturn
  | queued front d hds hfront hlast hreturns hqueued =>
    exact contained_iff_fits_last hexpat hne h.stands.response hds hfront hlast
      ⟨hreturns, .inr hqueued⟩ hturn

end Turns

theorem restarts_of_response {env : Env} {buffer : Bytes} {s : Parsing} (h : s.httpResponse ≠ []) :
    restarts env buffer.length buffer s = [] := by
  have hlen : s.httpResponse.length ≠ 0 := by simpa using h
  cases buffer.length with
  | zero => rfl
  | succ fuel => rw [restarts, if_neg fun hboth ↦ hlen hboth.2]

theorem runRestarts_iff_fitsAll {expat : Library} (hexpat : CountsBytes expat)
    (hnesting : ReportsNesting expat) {cs : List Call} (hcs : ∀ c ∈ cs, c.env.expat = expat)
    {session : ZzSession ZzXmlSession} (h : Reachable expat session) :
    (∀ r ∈ runRestarts cs session, Contained r.1 r.2) ↔ FitsAll cs session := by
  induction cs generalizing session with
  | nil => simp [runRestarts, FitsAll]
  | cons c cs ih =>
    have henv := hcs c (.head _)
    have hchunk : Contained (chunkRestarts c session).1 (chunkRestarts c session).2 ↔
        Fits c.env c.buffer (enterXmlChunk c.env session) := by
      by_cases hresponse : session.httpResponse = []
      · obtain ⟨r, htracks⟩ := h.tracks hnesting hresponse c.env
        rw [← henv] at hexpat hnesting htracks
        exact contained_iff_fits hexpat hnesting htracks c.buffer
      · have hentered : (enterXmlChunk c.env session).httpResponse ≠ [] := hresponse
        rw [chunkRestarts, restarts_of_response hentered]
        exact iff_of_true (contained_nil _) fun _ hnil ↦ absurd hnil hresponse
    rw [runRestarts, FitsAll, List.forall_mem_cons, hchunk]
    apply and_congr_right
    intro _
    cases hp : processXmlBuffer c.env c.buffer session with
    | none => simp
    | some processed =>
      simp only [Option.some.injEq, forall_eq']
      exact ih (fun c' hc' ↦ hcs c' (.tail _ hc')) (.chunk h c.env henv c.buffer hp)

/-- Over every run on one session: the offsets stay inside their chunks exactly if every chunk fits.
The loop ends in any case. -/
theorem offsets_contained_iff (expat : Library) (hexpat : CountsBytes expat)
    (hnesting : ReportsNesting expat) (cs : List Call) (hcs : ∀ c ∈ cs, c.env.expat = expat) :
    ((∀ r ∈ runRestarts cs newZzSessionXml, Contained r.1 r.2) ↔ FitsAll cs newZzSessionXml) ∧
      ∀ c ∈ cs, ∀ session, LiveSession session → ∀ fuel ≥ c.buffer.length,
        xmlLoop c.env fuel c.buffer (enterXmlChunk c.env session) =
          xmlLoop c.env c.buffer.length c.buffer (enterXmlChunk c.env session) := by
  refine ⟨runRestarts_iff_fitsAll hexpat hnesting hcs .new, ?_⟩
  intro c hc session hs fuel hfuel
  rw [← hcs c hc] at hexpat
  exact xmlLoop_fuel hexpat hs hfuel le_rfl

def strictEnv : Env := { plainEnv with expat := strictExpat }

/-- The third chunk has room for the three bytes of the second one behind the root that ends in it. -/
theorem fitsAll_padded :
    FitsAll [⟨strictEnv, ascii "<a></a> <b></b>"⟩, ⟨strictEnv, ascii "<c>"⟩,
      ⟨strictEnv, ascii "</c>   "⟩] newZzSessionXml := by
  have hrun : runRestarts [⟨strictEnv, ascii "<a></a> <b></b>"⟩, ⟨strictEnv, ascii "<c>"⟩,
      ⟨strictEnv, ascii "</c>   "⟩] newZzSessionXml =
    [(15, [⟨7, 15⟩, ⟨8, 8⟩]), (3, []), (7, [⟨7, 7⟩])] := by decide
  apply (offsets_contained_iff strictExpat countsBytes_strict reportsNesting_strict _ ?_).1.mp
  · rw [hrun]
    simpa using ⟨⟨by simp [Restart.Inside], by simp⟩, ⟨by simp, by simp⟩,
      ⟨by simp [Restart.Inside], by simp⟩⟩
  · simp [strictEnv]

/-- The root element that ends in the second chunk began in the first: the index is 7, the chunk has
4 bytes. -/
theorem split_root_leaves_chunk :
    runRestarts [⟨strictEnv, ascii "<a>"⟩, ⟨strictEnv, ascii "</a>"⟩] newZzSessionXml =
        [(3, []), (4, [⟨7, 4⟩])] ∧
      ¬ ∀ r ∈ runRestarts [⟨strictEnv, ascii "<a>"⟩, ⟨strictEnv, ascii "</a>"⟩] newZzSessionXml,
        Contained r.1 r.2 := by
  have hrun : runRestarts [⟨strictEnv, ascii "<a>"⟩, ⟨strictEnv, ascii "</a>"⟩] newZzSessionXml =
      [(3, []), (4, [⟨7, 4⟩])] := by decide
  refine ⟨hrun, fun h ↦ ?_⟩
  rw [hrun] at h
  have hinside := (h (4, [⟨7, 4⟩]) (by simp)).inside ⟨7, 4⟩ (.head _)
  exact absurd hinside.2 (by decide)

end N2Kafka.Decoder.XmlRestarts
