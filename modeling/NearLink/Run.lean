import Mathlib.Data.List.Induction

/-! # Runs of a system that takes one action after another -/

namespace NearLink

/-! ## What is picked from a history -/

section Picked

variable {β γ : Type*} (f : β → Option γ)

theorem filterMap_split (before : List β) (e : β) (after : List β) :
    (before ++ e :: after).filterMap f =
      before.filterMap f ++ ((f e).toList ++ after.filterMap f) := by
  rw [List.filterMap_append, List.filterMap_cons]
  cases f e <;> rfl

theorem filterMap_snoc (before : List β) (e : β) :
    (before ++ [e]).filterMap f = before.filterMap f ++ (f e).toList := by
  rw [filterMap_split, List.filterMap_nil, List.append_nil]

end Picked

/-! ## Runs -/

variable {σ α : Type*} (step : σ → α → Option σ)

/-- The state after the actions, if each of them can be taken. -/
def run : σ → List α → Option σ
  | s, [] => some s
  | s, a :: as => (step s a).bind fun t => run t as

/-- Every action is taken in a state that meets `ok` for it. -/
def Meets (ok : σ → α → Prop) : σ → List α → Prop
  | _, [] => True
  | s, a :: as => ok s a ∧ ∀ t, step s a = some t → Meets ok t as

variable {step}

instance decidableMeets {ok : σ → α → Prop} [∀ s a, Decidable (ok s a)] :
    ∀ s as, Decidable (Meets step ok s as)
  | _, [] => .isTrue trivial
  | s, a :: as =>
    match h : step s a with
    | none => decidable_of_iff (ok s a) (by simp [Meets, h])
    | some t =>
      have : Decidable (Meets step ok t as) := decidableMeets t as
      decidable_of_iff (ok s a ∧ Meets step ok t as) (by simp [Meets, h])

@[simp] theorem run_nil (s : σ) : run step s [] = some s := rfl

theorem run_cons {s t : σ} {a : α} (h : step s a = some t) (as : List α) :
    run step s (a :: as) = run step t as := by
  rw [run, h]
  rfl

theorem run_append (s : σ) (as bs : List α) :
    run step s (as ++ bs) = (run step s as).bind fun t => run step t bs := by
  induction as generalizing s with
  | nil => rfl
  | cons a as ih =>
    rw [List.cons_append, run, run]
    cases step s a with
    | none => rfl
    | some t => exact ih t

theorem exists_run (htotal : ∀ s a, step s a ≠ none) (s : σ) (as : List α) :
    ∃ t, run step s as = some t := by
  induction as generalizing s with
  | nil => exact ⟨s, rfl⟩
  | cons a as ih =>
    obtain ⟨u, hu⟩ := Option.ne_none_iff_exists'.mp (htotal s a)
    obtain ⟨t, ht⟩ := ih u
    exact ⟨t, by rw [run_cons hu, ht]⟩

theorem run_snoc {s t : σ} {as : List α} {a : α} :
    run step s (as ++ [a]) = some t ↔ ∃ u, run step s as = some u ∧ step u a = some t := by
  simp only [run_append, run, Option.bind_eq_some_iff, Option.some.injEq, exists_eq_right]

/-- What holds at first, and after one more step of what has happened, holds after every run. -/
theorem run_records {β : Type*} {act : β → α} (Inv : List β → σ → Prop)
    (hstep : ∀ events e s t, Inv events s → step s (act e) = some t → Inv (events ++ [e]) t)
    {s t : σ} {events : List β} (hs : Inv [] s) (hrun : run step s (events.map act) = some t) :
    Inv events t := by
  induction events using List.reverseRecOn generalizing t with
  | nil => obtain rfl := Option.some.inj hrun; exact hs
  | append_singleton events e ih =>
    rw [List.map_append, List.map_cons, List.map_nil, run_snoc] at hrun
    obtain ⟨u, hbefore, hlast⟩ := hrun
    exact hstep events e u t (ih hbefore) hlast

/-- What every step under `ok` preserves holds after every run under `ok`. -/
theorem run_invariant {Inv : σ → Prop} {ok : σ → α → Prop}
    (hstep : ∀ s a t, Inv s → ok s a → step s a = some t → Inv t) {s t : σ} {as : List α}
    (hs : Inv s) (hok : Meets step ok s as) (hrun : run step s as = some t) : Inv t := by
  induction as generalizing s with
  | nil => obtain rfl := Option.some.inj hrun; exact hs
  | cons a as ih =>
    cases h : step s a with
    | none => simp [run, h] at hrun
    | some u =>
      rw [run_cons h] at hrun
      exact ih (hstep s a u hs hok.1 h) (hok.2 u h) hrun

theorem meets_true (s : σ) (as : List α) : Meets step (fun _ _ => True) s as := by
  induction as generalizing s with
  | nil => trivial
  | cons a as ih => exact ⟨trivial, fun t _ => ih t⟩

theorem run_preserves {Inv : σ → Prop} (hstep : ∀ s a t, Inv s → step s a = some t → Inv t)
    {s t : σ} {as : List α} (hs : Inv s) (hrun : run step s as = some t) : Inv t :=
  run_invariant (fun s a t hs _ h => hstep s a t hs h) hs (meets_true s as) hrun

theorem meets_snoc {ok : σ → α → Prop} {s t : σ} {as : List α} (a : α)
    (hrun : run step s as = some t) :
    Meets step ok s (as ++ [a]) ↔ Meets step ok s as ∧ ok t a := by
  induction as generalizing s with
  | nil =>
    obtain rfl := Option.some.inj hrun
    simp [Meets]
  | cons b as ih =>
    cases h : step s b with
    | none => simp [run, h] at hrun
    | some u =>
      rw [run_cons h] at hrun
      simp only [List.cons_append, Meets, h, Option.some.injEq, forall_eq', ih hrun, and_assoc]

/-- Under an invariant, one condition on the steps can stand for another. -/
theorem meets_congr {Inv : σ → Prop} {ok ok' : σ → α → Prop}
    (hstep : ∀ s a t, Inv s → step s a = some t → Inv t) (hok : ∀ s a, Inv s → (ok s a ↔ ok' s a))
    {s : σ} (hs : Inv s) (as : List α) : Meets step ok s as ↔ Meets step ok' s as := by
  induction as generalizing s with
  | nil => exact Iff.rfl
  | cons a as ih =>
    refine and_congr (hok s a hs) (forall_congr' fun t => forall_congr' fun ht => ?_)
    exact ih (hstep s a t hs ht)

theorem Meets.at_split {ok : σ → α → Prop} {s t : σ} {a : α} {before after : List α}
    (h : Meets step ok s (before ++ a :: after)) (hrun : run step s before = some t) : ok t a := by
  induction before generalizing s with
  | nil => obtain rfl := Option.some.inj hrun; exact h.1
  | cons b before ih =>
    cases hb : step s b with
    | none => simp [run, hb] at hrun
    | some u =>
      rw [run_cons hb] at hrun
      exact ih (h.2 u hb) hrun

theorem meets_iff_splits {ok : σ → α → Prop} {s : σ} {as : List α} :
    Meets step ok s as ↔ ∀ before a after t, as = before ++ a :: after →
      run step s before = some t → ok t a := by
  constructor
  · rintro h before a after t rfl hrun
    exact h.at_split hrun
  · intro h
    induction as generalizing s with
    | nil => trivial
    | cons a as ih =>
      refine ⟨h [] a as s rfl rfl, fun t ht => ih fun before b after u hsplit hrun => ?_⟩
      apply h (a :: before) b after u (by rw [hsplit, List.cons_append])
      rw [run_cons ht, hrun]

theorem Meets.of_append {ok : σ → α → Prop} {s : σ} {as bs : List α}
    (h : Meets step ok s (as ++ bs)) : Meets step ok s as := by
  induction as generalizing s with
  | nil => trivial
  | cons a as ih => exact ⟨h.1, fun t ht => ih (h.2 t ht)⟩

theorem Meets.mono {ok ok' : σ → α → Prop} {s : σ} {as : List α} (h : Meets step ok s as)
    (himp : ∀ s a, ok s a → ok' s a) : Meets step ok' s as := by
  rw [meets_iff_splits] at h ⊢
  exact fun before a after t hsplit hrun => himp t a (h before a after t hsplit hrun)

/-- If `ok` says exactly which steps preserve a property, the property holds after every part of
a run exactly when every step meets `ok`. -/
theorem always_iff_meets {P : σ → Prop} {ok : σ → α → Prop}
    (hstep : ∀ s a t, P s → step s a = some t → (P t ↔ ok s a))
    (hstuck : ∀ s a, step s a = none → ok s a) {s : σ} (hs : P s) (as : List α) :
    (∀ k t, run step s (as.take k) = some t → P t) ↔ Meets step ok s as := by
  induction as generalizing s with
  | nil =>
    refine ⟨fun _ => trivial, fun _ k t hrun => ?_⟩
    rw [List.take_nil] at hrun
    obtain rfl := Option.some.inj hrun
    exact hs
  | cons a as ih =>
    cases h : step s a with
    | none =>
      refine ⟨fun _ => ⟨hstuck s a h, by simp [h]⟩, fun _ k t hrun => ?_⟩
      cases k with
      | zero => obtain rfl := Option.some.inj hrun; exact hs
      | succ k => simp [run, h] at hrun
    | some u =>
      constructor
      · intro hall
        have hu : P u := hall 1 u (by rw [List.take_succ_cons, List.take_zero, run_cons h, run_nil])
        refine ⟨(hstep s a u hs h).mp hu, fun t ht => ?_⟩
        obtain rfl := Option.some.inj (h.symm.trans ht)
        refine (ih hu).mp fun k t hrun => hall (k + 1) t ?_
        rw [List.take_succ_cons, run_cons h, hrun]
      · rintro ⟨hok, hrest⟩ k t hrun
        have hu : P u := (hstep s a u hs h).mpr hok
        cases k with
        | zero => obtain rfl := Option.some.inj hrun; exact hs
        | succ k =>
          rw [List.take_succ_cons, run_cons h] at hrun
          exact (ih hu).mpr (hrest u h) k t hrun

/-- Where `Inv` lets some action of a kind bring a measure down until it is 0, a run of such
actions brings it down to 0. -/
theorem exists_run_to_zero {Inv : σ → Prop} {kind : α → Prop} {measure : σ → Nat}
    (hstep : ∀ s, Inv s → measure s ≠ 0 →
      ∃ a t, kind a ∧ step s a = some t ∧ Inv t ∧ measure t < measure s) {s : σ} (hs : Inv s) :
    ∃ as t, (∀ a ∈ as, kind a) ∧ run step s as = some t ∧ Inv t ∧ measure t = 0 := by
  by_cases hzero : measure s = 0
  · exact ⟨[], s, List.forall_mem_nil _, rfl, hs, hzero⟩
  · obtain ⟨a, u, ha, hu, hinv, hlt⟩ := hstep s hs hzero
    obtain ⟨as, t, has, ht, hdone⟩ := exists_run_to_zero hstep hinv
    exact ⟨a :: as, t, List.forall_mem_cons.mpr ⟨ha, has⟩, (run_cons hu as).trans ht, hdone⟩
termination_by measure s

end NearLink
