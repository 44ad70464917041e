import Mathlib.Data.List.Basic

/-!
# Machines that read one input at a time

A machine reads an input, moves, and emits an output or nothing.
-/

namespace NearLink

variable {σ τ α β : Type*}

/-- All inputs, one after another, with all outputs. -/
def emitAll (f : σ → α → σ × Option β) : σ → List α → σ × List β
  | s, [] => (s, [])
  | s, a :: as => ((emitAll f (f s a).1 as).1, (f s a).2.toList ++ (emitAll f (f s a).1 as).2)

theorem emitAll_append (f : σ → α → σ × Option β) (s : σ) (as bs : List α) :
    emitAll f s (as ++ bs) =
      ((emitAll f (emitAll f s as).1 bs).1,
        (emitAll f s as).2 ++ (emitAll f (emitAll f s as).1 bs).2) := by
  induction as generalizing s with
  | nil => rfl
  | cons a as ih => simp only [List.cons_append, emitAll, ih, List.append_assoc]

/-- A machine that moves in step with another one emits the same outputs. -/
theorem emitAll_simulates {f : σ → α → σ × Option β} {g : τ → α → τ × Option β}
    {R : σ → τ → Prop} (hstep : ∀ s t a, R s t → R (f s a).1 (g t a).1 ∧ (f s a).2 = (g t a).2)
    {s : σ} {t : τ} (h : R s t) (as : List α) :
    R (emitAll f s as).1 (emitAll g t as).1 ∧ (emitAll f s as).2 = (emitAll g t as).2 := by
  induction as generalizing s t with
  | nil => exact ⟨h, rfl⟩
  | cons a as ih =>
    obtain ⟨hnext, hout⟩ := hstep s t a h
    obtain ⟨hlast, houts⟩ := ih hnext
    exact ⟨hlast, by rw [emitAll, emitAll, hout, houts]⟩

def emitChunks (f : σ → α → σ × Option β) : σ → List (List α) → σ × List β
  | s, [] => (s, [])
  | s, c :: cs =>
    ((emitChunks f (emitAll f s c).1 cs).1,
      (emitAll f s c).2 ++ (emitChunks f (emitAll f s c).1 cs).2)

/-- **The chunks do not matter.** -/
theorem emitChunks_eq (f : σ → α → σ × Option β) (s : σ) (cs : List (List α)) :
    emitChunks f s cs = emitAll f s cs.flatten := by
  induction cs generalizing s with
  | nil => rfl
  | cons c cs ih => rw [emitChunks, ih, List.flatten_cons, emitAll_append]

end NearLink
