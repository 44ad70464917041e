import NearLink.Run

/-!
# Programs that call their surroundings

A program makes one call after another, and each answer decides how it goes on. A contract says, in
the terms of a state that the program does not see, what the surroundings ask of a call and how
they may answer.
-/

namespace NearLink

/-- A program over the calls `ι`. The answer to `op` is a `ρ op`. -/
inductive Prog (ι : Type) (ρ : ι → Type) (α : Type)
  | ret (a : α)
  | call (op : ι) (k : ρ op → Prog ι ρ α)

abbrev Called (ι : Type) (ρ : ι → Type) : Type := (op : ι) × ρ op

variable {ι : Type} {ρ : ι → Type} {α β σ : Type}

namespace Prog

def bind : Prog ι ρ α → (α → Prog ι ρ β) → Prog ι ρ β
  | .ret a, f => f a
  | .call op k, f => .call op fun r => (k r).bind f

instance : Monad (Prog ι ρ) where
  pure := .ret
  bind := bind

def ask (op : ι) : Prog ι ρ (ρ op) := .call op .ret

/-- With these answers the program makes these calls and returns `a`. -/
inductive Runs : Prog ι ρ α → List (Called ι ρ) → α → Prop
  | ret (a : α) : Runs (.ret a) [] a
  | call {op : ι} {k : ρ op → Prog ι ρ α} {r : ρ op} {trace : List (Called ι ρ)} {a : α}
      (h : Runs (k r) trace a) : Runs (.call op k) (⟨op, r⟩ :: trace) a

/-- The calls that the program makes when `f` answers them. -/
def trace (f : (op : ι) → ρ op) : Prog ι ρ α → List (Called ι ρ)
  | .ret _ => []
  | .call op k => ⟨op, f op⟩ :: trace f (k (f op))

def result (f : (op : ι) → ρ op) : Prog ι ρ α → α
  | .ret a => a
  | .call op k => result f (k (f op))

theorem runs_trace (f : (op : ι) → ρ op) (p : Prog ι ρ α) : p.Runs (p.trace f) (p.result f) := by
  induction p with
  | ret a => exact .ret a
  | call op k ih => exact .call (ih (f op))

theorem Runs.split {p : Prog ι ρ α} {f : α → Prog ι ρ β} {calls : List (Called ι ρ)} {b : β}
    (h : Runs (p >>= f) calls b) :
    ∃ before after a, calls = before ++ after ∧ Runs p before a ∧ Runs (f a) after b := by
  induction p generalizing calls with
  | ret a => exact ⟨[], calls, a, rfl, .ret a, h⟩
  | call op k ih =>
    cases h with
    | call h =>
      obtain ⟨before, after, a, rfl, hp, hf⟩ := ih _ h
      exact ⟨_ :: before, after, a, rfl, .call hp, hf⟩

end Prog

/-! ## Contracts -/

structure Contract (ι : Type) (ρ : ι → Type) (σ : Type) where
  /-- what a caller has to see to -/
  asks : σ → ι → Prop
  /-- what can be answered -/
  gives : σ → (op : ι) → ρ op → Prop
  next : σ → (op : ι) → ρ op → σ

namespace Contract

variable (C : Contract ι ρ σ)

def step (s : σ) (c : Called ι ρ) : Option σ := some (C.next s c.1 c.2)

/-- Every answer is one that the surroundings can give. -/
abbrev Gives : σ → List (Called ι ρ) → Prop := Meets C.step fun s c => C.gives s c.1 c.2

/-- Every call is one that the surroundings accept. -/
abbrev Asks : σ → List (Called ι ρ) → Prop := Meets C.step fun s c => C.asks s c.1

/-- Whatever is answered, every call is accepted, and `Q` holds in the end. -/
def Safe : Prog ι ρ α → σ → (α → σ → Prop) → Prop
  | .ret a, s, Q => Q a s
  | .call op k, s, Q => C.asks s op ∧ ∀ r, C.gives s op r → Safe (k r) (C.next s op r) Q

variable {C}

theorem safe_pure {a : α} {s : σ} {Q : α → σ → Prop} :
    C.Safe (pure a : Prog ι ρ α) s Q ↔ Q a s := Iff.rfl

theorem safe_bind {p : Prog ι ρ α} {f : α → Prog ι ρ β} {s : σ} {Q : β → σ → Prop} :
    C.Safe (p >>= f) s Q ↔ C.Safe p s fun a t => C.Safe (f a) t Q := by
  induction p generalizing s with
  | ret a => exact Iff.rfl
  | call op k ih => exact and_congr_right fun _ => forall_congr' fun r => imp_congr_right fun _ => ih r

theorem Safe.mono {p : Prog ι ρ α} {s : σ} {Q Q' : α → σ → Prop} (h : C.Safe p s Q)
    (himp : ∀ a t, Q a t → Q' a t) : C.Safe p s Q' := by
  induction p generalizing s with
  | ret a => exact himp a s h
  | call op k ih => exact ⟨h.1, fun r hr => ih r (h.2 r hr)⟩

/-- **A safe program keeps the contract in every run.** -/
theorem Safe.sound {p : Prog ι ρ α} {s : σ} {Q : α → σ → Prop} (h : C.Safe p s Q)
    {trace : List (Called ι ρ)} {a : α} (hrun : p.Runs trace a) (hgives : C.Gives s trace) :
    C.Asks s trace ∧ ∃ t, run C.step s trace = some t ∧ Q a t := by
  induction hrun generalizing s with
  | ret a => exact ⟨trivial, s, rfl, h⟩
  | @call op k r trace a _ ih =>
    obtain ⟨hasks, hnext⟩ := h
    obtain ⟨hall, t, ht, hQ⟩ := ih (hnext r hgives.1) (hgives.2 _ rfl)
    refine ⟨⟨hasks, fun u hu => ?_⟩, t, ht, hQ⟩
    obtain rfl := Option.some.inj hu
    exact hall

end Contract

end NearLink
