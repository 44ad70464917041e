import Mathlib.Algebra.Group.Basic
import Mathlib.Algebra.Group.Hom.Defs
import Mathlib.Algebra.Group.Nat.Defs
import NearLink.Run

/-!
# What the steps of a run bring, all together

A flow adds up what the steps say, in any monoid: numbers, or the items that leave a system.
-/

namespace NearLink

variable {σ α M N : Type*} {step : σ → α → Option σ}

section Flow

variable [AddMonoid M] (step)

/-- The sum of what `f` says of the steps of a run. -/
def flow (f : σ → α → M) : σ → List α → M
  | _, [] => 0
  | s, a :: as => f s a + ((step s a).map fun t => flow f t as).getD 0

variable {step}

theorem flow_cons {f : σ → α → M} {s t : σ} {a : α} (h : step s a = some t) (as : List α) :
    flow step f s (a :: as) = f s a + flow step f t as := by
  rw [flow, h]
  rfl

/-- What every step under `ok` preserves when its share is added holds after a run under `ok` with
the whole flow. -/
theorem run_flow_under {f : σ → α → M} {Inv : M → σ → Prop} {ok : σ → α → Prop}
    (hstep : ∀ m s a t, Inv m s → ok s a → step s a = some t → Inv (m + f s a) t) {m : M} {s t : σ}
    {as : List α} (hs : Inv m s) (hok : Meets step ok s as) (hrun : run step s as = some t) :
    Inv (m + flow step f s as) t := by
  induction as generalizing m s with
  | nil =>
    obtain rfl := Option.some.inj hrun
    rw [flow, add_zero]
    exact hs
  | cons a as ih =>
    cases h : step s a with
    | none => simp [run, h] at hrun
    | some u =>
      rw [run_cons h] at hrun
      rw [flow_cons h, ← add_assoc]
      exact ih (hstep m s a u hs hok.1 h) (hok.2 u h) hrun

theorem run_flow {f : σ → α → M} {Inv : M → σ → Prop}
    (hstep : ∀ m s a t, Inv m s → step s a = some t → Inv (m + f s a) t) {m : M} {s t : σ}
    {as : List α} (hs : Inv m s) (hrun : run step s as = some t) :
    Inv (m + flow step f s as) t :=
  run_flow_under (fun m s a t h _ => hstep m s a t h) hs (meets_true s as) hrun

theorem flow_eq_zero {f : σ → α → M} {ok : σ → α → Prop} (hzero : ∀ s a, ok s a → f s a = 0)
    {s : σ} {as : List α} (hok : Meets step ok s as) : flow step f s as = 0 := by
  induction as generalizing s with
  | nil => rfl
  | cons a as ih =>
    rw [flow, hzero s a hok.1, zero_add]
    cases h : step s a with
    | none => rfl
    | some t => exact ih (hok.2 t h)

end Flow

theorem flow_add [AddCommMonoid M] (f g : σ → α → M) (s : σ) (as : List α) :
    flow step (fun s a => f s a + g s a) s as = flow step f s as + flow step g s as := by
  induction as generalizing s with
  | nil => exact (add_zero 0).symm
  | cons a as ih =>
    simp only [flow]
    cases step s a with
    | none => simp
    | some t => simp only [Option.map_some, Option.getD_some, ih t, add_add_add_comm]

theorem map_flow [AddMonoid M] [AddMonoid N] (φ : M →+ N) (f : σ → α → M) (s : σ) (as : List α) :
    φ (flow step f s as) = flow step (fun s a => φ (f s a)) s as := by
  induction as generalizing s with
  | nil => exact map_zero φ
  | cons a as ih =>
    rw [flow, flow, map_add]
    cases step s a with
    | none => exact congrArg _ (map_zero φ)
    | some t => exact congrArg _ (ih t)

end NearLink
