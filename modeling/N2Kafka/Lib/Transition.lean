import Mathlib.Data.List.Infix
import Mathlib.Data.List.Induction

namespace N2Kafka.Lib.Transition

variable {σ α : Type*}

/-- States that the enabled actions lead to, in any order and number. -/
inductive Reachable (step : α → σ → Option σ) (init : σ) : σ → Prop
  | start : Reachable step init init
  | next {s s' : σ} (a : α) (h : Reachable step init s) (hs : step a s = some s') :
      Reachable step init s'

theorem Reachable.invariant {step : α → σ → Option σ} {init s : σ} (h : Reachable step init s)
    {P : σ → Prop} (hinit : P init) (hstep : ∀ a s s', P s → step a s = some s' → P s') : P s := by
  induction h with
  | start => exact hinit
  | next a _ hs ih => exact hstep a _ _ ih hs

def run (step : α → σ → Option σ) : List α → σ → Option σ
  | [], s => some s
  | a :: as, s => (step a s).bind (run step as)

theorem reachable_of_run {step : α → σ → Option σ} {init s s' : σ} (h : Reachable step init s)
    (as : List α) (hr : run step as s = some s') : Reachable step init s' := by
  induction as generalizing s with
  | nil =>
    cases hr
    exact h
  | cons a as ih =>
    obtain ⟨t, ht, hr⟩ := Option.bind_eq_some_iff.mp hr
    exact ih (.next a h ht) hr

theorem run_append (step : α → σ → Option σ) (as bs : List α) (s : σ) :
    run step (as ++ bs) s = (run step as s).bind (run step bs) := by
  induction as generalizing s with
  | nil => rfl
  | cons a as ih =>
    simp only [List.cons_append, run, Option.bind_assoc]
    exact congrArg _ (funext ih)

theorem run_concat {step : α → σ → Option σ} {as : List α} {a : α} {s t : σ} :
    run step (as ++ [a]) s = some t ↔ ∃ m, run step as s = some m ∧ step a m = some t := by
  simp [run_append, run, Option.bind_eq_some_iff]

theorem run_invariant {step : α → σ → Option σ} {init : σ} {M : List α → σ → Prop}
    (hinit : M [] init)
    (hstep : ∀ as a s s', M as s → step a s = some s' → M (as ++ [a]) s')
    (as : List α) (s : σ) (hr : run step as init = some s) : M as s := by
  induction as using List.reverseRecOn generalizing s with
  | nil =>
    cases hr
    exact hinit
  | append_singleton as a ih =>
    obtain ⟨m, hm, hs⟩ := run_concat.mp hr
    exact hstep as a m s (ih m hm) hs

def Throughout (step : α → σ → Option σ) (init : σ) (P : σ → Prop) (as : List α) : Prop :=
  ∀ before t, before <+: as → run step before init = some t → P t

/-- When one step keeps `P` exactly if it is allowed after the actions before it, a run keeps `P`
throughout exactly if each of its steps is allowed. -/
theorem throughout_iff {step : α → σ → Option σ} {init : σ} {P : σ → Prop}
    {Allowed : List α → α → Prop} (hinit : P init)
    (hstep : ∀ before a s s', run step before init = some s → P s → step a s = some s' →
      (P s' ↔ Allowed before a))
    {as : List α} {s : σ} (hr : run step as init = some s) :
    Throughout step init P as ↔ ∀ before a, before ++ [a] <+: as → Allowed before a := by
  constructor
  · intro h before a hp
    obtain ⟨rest, rfl⟩ := hp
    rw [run_append] at hr
    obtain ⟨t, ht, -⟩ := Option.bind_eq_some_iff.mp hr
    obtain ⟨m, hm, hs⟩ := run_concat.mp ht
    have hPm : P m := h before m ⟨[a] ++ rest, by simp⟩ hm
    exact (hstep before a m t hm hPm hs).mp (h (before ++ [a]) t ⟨rest, rfl⟩ ht)
  · intro h before t hp ht
    induction before using List.reverseRecOn generalizing t with
    | nil =>
      cases ht
      exact hinit
    | append_singleton before a ih =>
      obtain ⟨m, hm, hs⟩ := run_concat.mp ht
      have hPm : P m := ih m ((List.prefix_append before [a]).trans hp) hm
      exact (hstep before a m t hm hPm hs).mpr (h before a hp)

theorem forall_concat_prefix {P : List α → α → Prop} {as : List α} {b : α} :
    (∀ before a, before ++ [a] <+: as ++ [b] → P before a) ↔
      (∀ before a, before ++ [a] <+: as → P before a) ∧ P as b := by
  simp only [List.prefix_concat_iff]
  constructor
  · intro h
    refine ⟨fun before a hp ↦ h before a (.inr hp), h as b (.inl rfl)⟩
  · intro ⟨h, hb⟩ before a hp
    cases hp with
    | inl he =>
      obtain ⟨hbefore, ha⟩ := List.append_inj' he rfl
      rw [hbefore, List.singleton_inj.mp ha]
      exact hb
    | inr hp => exact h before a hp

theorem take_of_concat_prefix {before as : List α} {a : α} (h : before ++ [a] <+: as) :
    before = as.take before.length ∧ as[before.length]? = some a := by
  obtain ⟨rest, rfl⟩ := h
  constructor
  · simp [List.append_assoc]
  · simp

end N2Kafka.Lib.Transition
