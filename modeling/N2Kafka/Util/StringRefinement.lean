import N2Kafka.Lib.Transition
import N2Kafka.Util.GrowableString

namespace N2Kafka.Util.GrowableString

open Lib Lib.CString

def stringAppendString (served : Bool) (s : Str) (data : CStr) : Option (ℤ × Str) :=
  stringAppend served s data.1

inductive Op
  | append (data : Bytes)
  | appendString (data : CStr)
  | popBack

structure Call where
  op : Op
  served : Bool

/-- What a call returns (nothing, taken for 0, in the case of `string_pop_back`), and the string
behind it. There is no result if the call is undefined or fails an assertion. -/
def Call.result (s : Str) : Call → Option (ℤ × Str)
  | ⟨.append data, served⟩ => stringAppend served s data
  | ⟨.appendString data, served⟩ => stringAppendString served s data
  | ⟨.popBack, _⟩ => (stringPopBack s).map (0, ·)

def Call.step (c : Call) (s : Str) : Option Str := (c.result s).map Prod.snd

/-- What an operation is for: the string as a list of bytes. -/
def Op.apply : Op → Bytes → Bytes
  | .append data, bytes => bytes ++ data
  | .appendString data, bytes => bytes ++ data.1
  | .popBack, bytes => bytes.dropLast

/-- The sizes up to which `next_pow2` is defined, and the assertion of `string_pop_back`. -/
def Op.InBounds (s : Str) : Op → Prop
  | .append data => s.size + data.length ≤ 2 ^ 31
  | .appendString data => s.size + data.1.length ≤ 2 ^ 31
  | .popBack => 0 < s.size

/-- Every call finds a string that it may be called with. -/
def Within : Str → List Call → Prop
  | _, [] => True
  | s, c :: cs => c.op.InBounds s ∧ ∀ s', c.step s = some s' → Within s' cs

def Call.refused (s : Str) : Call → Bool
  | ⟨.append data, served⟩ => (stringGrow served s data.length).any Growth.failed
  | ⟨.appendString data, served⟩ => (stringGrow served s data.1.length).any Growth.failed
  | ⟨.popBack, _⟩ => false

def succeeded : Str → List Call → List Op
  | _, [] => []
  | s, c :: cs =>
    match c.result s with
    | none => []
    | some (rc, s') => if rc = 0 then c.op :: succeeded s' cs else succeeded s' cs

/-- The block is as long as `string_allocated` says, or longer, and what it says is enough. -/
def Roomy (s : Str) : Prop :=
  ∃ a, stringAllocated s = some a ∧ s.size ≤ a ∧ a ≤ s.block.length

/-- A call does what the operation is for, or it says that it could not and leaves the string. -/
inductive Effect (s : Str) (c : Call) : ℤ → Str → Prop
  | done {s' : Str} (contents : s'.contents = c.op.apply s.contents) : Effect s c 0 s'
  | failed {s' : Str} (refused : c.refused s = true) (size : s'.size = s.size)
    (contents : s'.contents = s.contents) : Effect s c (-1) s'

theorem Valid.roomy {s : Str} {a : ℕ} (h : Valid s a) : Roomy s :=
  ⟨a, h.allocated, h.size_le, h.le_block⟩

theorem Valid.initializer : Valid .initializer 0 := ⟨rfl, le_rfl, le_rfl⟩

theorem refused_of_stringAppend {s s' : Str} {a : ℕ} (hs : Valid s a) {served : Bool} {data : Bytes}
    (hmax : s.size + data.length ≤ 2 ^ 31) (h : stringAppend served s data = some (-1, s')) :
    (stringGrow served s data.length).any Growth.failed = true := by
  obtain ⟨p, hp⟩ := exists_nextPow2 hmax
  obtain ⟨g, hgrow, hg⟩ := stringGrow_grown served hs.allocated hp
  rw [hgrow]
  cases hg with
  | refused _ _ => exact Option.any_some
  | served _ hserved =>
    obtain ⟨rc, s₁, happend, -, ⟨rfl, -⟩ | ⟨rfl, hfalse, -⟩⟩ := stringAppend_spec hs served hmax
    · rw [happend] at h
      cases h
    · rw [hfalse] at hserved
      cases hserved
  | enough hle =>
    obtain ⟨g', hgrow', hg'⟩ := stringGrow_grown true hs.allocated hp
    obtain ⟨rc, s₁, happend, -, ⟨rfl, -⟩ | ⟨rfl, hfalse, -⟩⟩ := stringAppend_spec hs true hmax
    · have hsame : g' = ⟨a, false, s⟩ := by
        cases hg' with
        | enough _ => rfl
        | served hlt _ => omega
        | refused hlt _ => omega
      unfold stringAppend at h happend
      rw [hgrow', hsame] at happend
      rw [hgrow, happend] at h
      cases h
    · cases hfalse

theorem stringAppend_effect {s : Str} {a : ℕ} (hs : Valid s a) (c : Call) {data : Bytes}
    (hmax : s.size + data.length ≤ 2 ^ 31) (happly : c.op.apply s.contents = s.contents ++ data)
    (hrefused : c.refused s = (stringGrow c.served s data.length).any Growth.failed) :
    ∃ rc s', stringAppend c.served s data = some (rc, s') ∧ (∃ a', Valid s' a') ∧
      Effect s c rc s' := by
  obtain ⟨rc, s', h, hvalid, ⟨rfl, happended, -⟩ | ⟨rfl, -, rfl⟩⟩ :=
    stringAppend_spec hs c.served hmax
  · refine ⟨0, s', h, hvalid, .done ?_⟩
    rw [happly, happended.contents]
  · refine ⟨-1, s', h, hvalid, .failed ?_ rfl rfl⟩
    rw [hrefused]
    exact refused_of_stringAppend hs hmax h

theorem Call.result_effect {s : Str} {a : ℕ} (hs : Valid s a) (c : Call) (hc : c.op.InBounds s) :
    ∃ rc s', c.result s = some (rc, s') ∧ (∃ a', Valid s' a') ∧ Effect s c rc s' := by
  obtain ⟨op, served⟩ := c
  cases op with
  | append data => exact stringAppend_effect hs ⟨.append data, served⟩ hc rfl rfl
  | appendString data => exact stringAppend_effect hs ⟨.appendString data, served⟩ hc rfl rfl
  | popBack =>
    have hpos : 0 < s.size := hc
    have hbuf : s.buf ≠ none := by
      intro hbuf
      have := (hs.of_none hbuf).2
      omega
    have hsize := hs.size_le
    have hblock := hs.le_block
    obtain ⟨s', hwrite⟩ : ∃ s', ({ s with size := s.size - 1 } : Str).write (s.size - 1) [0] =
        some s' := by
      refine exists_write hbuf ?_
      show s.size - 1 + 1 ≤ s.block.length
      omega
    have hpop : stringPopBack s = some s' := by
      unfold stringPopBack
      rw [if_neg (not_or.mpr ⟨hbuf, by omega⟩)]
      exact hwrite
    obtain ⟨hvalid, hcontents⟩ := stringPopBack_valid hs hpop
    refine ⟨0, s', ?_, hvalid, .done hcontents⟩
    show (stringPopBack s).map (0, ·) = _
    rw [hpop]
    rfl

theorem succeeded_cons {s s' : Str} {c : Call} {rc : ℤ} (h : c.result s = some (rc, s'))
    (cs : List Call) :
    succeeded s (c :: cs) = if rc = 0 then c.op :: succeeded s' cs else succeeded s' cs := by
  rw [succeeded, h]

theorem Within.of_append {calls rest : List Call} {s : Str} (h : Within s (calls ++ rest)) :
    Within s calls := by
  induction calls generalizing s with
  | nil => trivial
  | cons c cs ih => exact ⟨h.1, fun s' hs' ↦ ih (h.2 s' hs')⟩

theorem Within.next {calls : List Call} {c : Call} {rest : List Call} {s s' : Str}
    (h : Within s (calls ++ c :: rest)) (hr : Transition.run Call.step calls s = some s') :
    c.op.InBounds s' := by
  induction calls generalizing s with
  | nil =>
    cases hr
    exact h.1
  | cons d cs ih =>
    obtain ⟨t, ht, hr⟩ := Option.bind_eq_some_iff.mp hr
    exact ih (h.2 t ht) hr

theorem run_valid {calls : List Call} {s : Str} {a : ℕ} (hs : Valid s a) (h : Within s calls) :
    ∃ s', Transition.run Call.step calls s = some s' ∧ (∃ a', Valid s' a') ∧
      s'.contents = (succeeded s calls).foldl (fun bytes op ↦ op.apply bytes) s.contents := by
  induction calls generalizing s a with
  | nil => exact ⟨s, rfl, ⟨a, hs⟩, rfl⟩
  | cons c cs ih =>
    obtain ⟨rc, s₁, hresult, ⟨a₁, hvalid⟩, heffect⟩ := c.result_effect hs h.1
    have hstep : c.step s = some s₁ := by
      unfold Call.step
      rw [hresult]
      rfl
    obtain ⟨s', hrun, hvalid', hcontents⟩ := ih hvalid (h.2 s₁ hstep)
    refine ⟨s', ?_, hvalid', ?_⟩
    · rw [Transition.run, hstep]
      exact hrun
    · rw [hcontents, succeeded_cons hresult]
      cases heffect with
      | done hdone => rw [if_pos rfl, List.foldl_cons, hdone]
      | failed _ _ hsame => rw [if_neg (by decide), hsame]

/-- Whatever the reallocations answer, a run on an empty string is defined, leaves a block that is
long enough, and has the contents that the successful operations make of an empty list. Each of its
calls has the effect of its operation, or had a reallocation refused and leaves the string. -/
theorem run_refines (calls : List Call) (h : Within .initializer calls) :
    (∃ s, Transition.run Call.step calls .initializer = some s ∧ Roomy s ∧
      s.contents.length = s.size ∧
      s.contents = (succeeded .initializer calls).foldl (fun bytes op ↦ op.apply bytes) []) ∧
    ∀ before c after, calls = before ++ c :: after →
      ∃ s rc s', Transition.run Call.step before .initializer = some s ∧
        c.result s = some (rc, s') ∧ Roomy s' ∧ Effect s c rc s' := by
  constructor
  · obtain ⟨s, hrun, ⟨a, hs⟩, hcontents⟩ := run_valid .initializer h
    exact ⟨s, hrun, hs.roomy, hs.contents_length, hcontents⟩
  · intro before c after hcalls
    rw [hcalls] at h
    obtain ⟨s, hrun, ⟨a, hs⟩, -⟩ := run_valid .initializer h.of_append
    obtain ⟨rc, s', hresult, ⟨a', hs'⟩, heffect⟩ := c.result_effect hs (h.next hrun)
    exact ⟨s, rc, s', hrun, hresult, hs'.roomy, heffect⟩

def refusedThenServed : List Call :=
  [⟨.append [97], false⟩, ⟨.appendString (lit "bc"), true⟩, ⟨.popBack, false⟩]

theorem within_refusedThenServed : Within .initializer refusedThenServed := by
  have happly : (Op.appendString (lit "bc")).apply [] = [98, 99] := by decide
  refine ⟨by show 1 ≤ 2 ^ 31; omega, ?_⟩
  intro s₁ hs₁
  obtain rfl : Str.initializer = s₁ := Option.some.inj hs₁
  have hbounds : (Op.appendString (lit "bc")).InBounds .initializer := by
    show 0 + ((Op.appendString (lit "bc")).apply []).length ≤ 2 ^ 31
    rw [happly]
    show 2 ≤ 2 ^ 31
    omega
  refine ⟨hbounds, ?_⟩
  intro s₂ hs₂
  obtain ⟨rc, s', hresult, ⟨a, hvalid⟩, heffect⟩ :=
    Call.result_effect .initializer ⟨.appendString (lit "bc"), true⟩ hbounds
  have hstep : Call.step ⟨.appendString (lit "bc"), true⟩ .initializer = some s' :=
    congrArg (Option.map Prod.snd) hresult
  obtain rfl : s' = s₂ := Option.some.inj (hstep.symm.trans hs₂)
  refine ⟨?_, fun _ _ ↦ trivial⟩
  cases heffect with
  | done hcontents =>
    have hlength := hvalid.contents_length
    rw [hcontents] at hlength
    show 0 < s'.size
    rw [← hlength]
    show 0 < ((Op.appendString (lit "bc")).apply []).length
    rw [happly]
    decide
  | failed hrefused _ _ => cases hrefused

theorem run_refines_refused_then_served : ∃ s,
    Transition.run Call.step refusedThenServed .initializer = some s ∧ Roomy s := by
  obtain ⟨⟨s, hrun, hroomy, -⟩, -⟩ := run_refines refusedThenServed within_refusedThenServed
  exact ⟨s, hrun, hroomy⟩

end N2Kafka.Util.GrowableString
