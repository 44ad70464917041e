import Mathlib.Data.List.Basic

/-!
# Scanners that may stop in the middle of an item

A scanner looks at the input it has not read yet and either waits for more, skips one item
or emits an output. What it decides must stay the decision when more input arrives. Then it
does not matter how the input is cut into chunks.
-/

namespace NearLink

inductive Move (β : Type*)
  | wait
  | skip
  | emit (size : Nat) (out : β)
  deriving DecidableEq, Repr

structure Scanner (α β : Type*) where
  look : List α → Move β
  look_skip : ∀ {s}, look s = .skip → s ≠ []
  look_emit : ∀ {s k o}, look s = .emit k o → 0 < k ∧ k ≤ s.length
  stable : ∀ {s m} (t : List α), look s = m → m ≠ .wait → look (s ++ t) = m

namespace Scanner

variable {α β : Type*} (sc : Scanner α β)

def scanFuel : Nat → List α → List β × List α
  | 0, s => ([], s)
  | n + 1, s =>
    match sc.look s with
    | .wait => ([], s)
    | .skip => scanFuel n (s.drop 1)
    | .emit k o => (o :: (scanFuel n (s.drop k)).1, (scanFuel n (s.drop k)).2)

/-- The outputs of a scan from left to right, and the input that is left when it waits. -/
def scan (s : List α) : List β × List α := sc.scanFuel s.length s

/-! ## One step of a scan -/

theorem scanFuel_nil (n : Nat) : sc.scanFuel n [] = ([], []) := by
  cases n with
  | zero => rfl
  | succ n =>
    unfold scanFuel
    split
    · rfl
    · rename_i h; exact absurd rfl (sc.look_skip h)
    · rename_i k o h
      have := sc.look_emit h
      simp at this
      omega

theorem scanFuel_eq_scan (n : Nat) (s : List α) (h : s.length ≤ n) : sc.scanFuel n s = sc.scan s := by
  induction n using Nat.strongRecOn generalizing s with
  | _ n ih =>
    match n, s with
    | n, [] => rw [scanFuel_nil, scan, scanFuel_nil]
    | 0, _ :: _ => simp at h
    | n + 1, a :: s =>
      have hs : s.length ≤ n := by simpa using h
      rw [scan, List.length_cons, scanFuel, scanFuel]
      cases hl : sc.look (a :: s) with
      | wait => rfl
      | skip =>
        simp only [List.drop_succ_cons, List.drop_zero]
        rw [ih n (by omega) s hs]
        exact rfl
      | emit k o =>
        have hk := sc.look_emit hl
        have hlen : ((a :: s).drop k).length ≤ s.length := by simp at hk ⊢; omega
        simp only
        rw [ih n (by omega) _ (Nat.le_trans hlen hs)]
        rcases Nat.eq_or_lt_of_le hs with he | hlt
        · rw [he, ih n (by omega) _ (Nat.le_trans hlen hs)]
        · rw [ih s.length (by omega) _ hlen]

variable {sc} in
theorem scan_wait {s : List α} (h : sc.look s = .wait) : sc.scan s = ([], s) := by
  cases s with
  | nil => rfl
  | cons a s => rw [scan, List.length_cons, scanFuel, h]

variable {sc} in
theorem scan_skip {s : List α} (h : sc.look s = .skip) : sc.scan s = sc.scan (s.drop 1) := by
  cases s with
  | nil => exact absurd rfl (sc.look_skip h)
  | cons a s =>
    rw [scan, List.length_cons, scanFuel, h]
    exact sc.scanFuel_eq_scan _ _ (by simp)

variable {sc} in
theorem scan_emit {s : List α} {k : Nat} {o : β} (h : sc.look s = .emit k o) :
    sc.scan s = (o :: (sc.scan (s.drop k)).1, (sc.scan (s.drop k)).2) := by
  have hk := sc.look_emit h
  cases s with
  | nil => simp at hk; omega
  | cons a s =>
    rw [scan, List.length_cons, scanFuel, h]
    simp only
    rw [sc.scanFuel_eq_scan _ _ (by simp at hk ⊢; omega)]

theorem induction {P : List α → Prop} (wait : ∀ s, sc.look s = .wait → P s)
    (skip : ∀ s, sc.look s = .skip → P (s.drop 1) → P s)
    (emit : ∀ s k o, sc.look s = .emit k o → P (s.drop k) → P s) (s : List α) : P s := by
  induction hn : s.length using Nat.strongRecOn generalizing s with
  | _ n ih =>
    cases hl : sc.look s with
    | wait => exact wait s hl
    | skip =>
      have := List.length_pos_of_ne_nil (sc.look_skip hl)
      exact skip s hl (ih _ (by simp; omega) _ rfl)
    | emit k o =>
      have := sc.look_emit hl
      exact emit s k o hl (ih _ (by simp; omega) _ rfl)

/-! ## Input in two parts -/

variable {sc} in
theorem drop_append_of_skip {s : List α} (h : sc.look s = .skip) (t : List α) :
    (s ++ t).drop 1 = s.drop 1 ++ t := by
  rw [List.drop_append_of_le_length (List.length_pos_of_ne_nil (sc.look_skip h))]

variable {sc} in
theorem drop_append_of_emit {s : List α} {k : Nat} {o : β} (h : sc.look s = .emit k o)
    (t : List α) : (s ++ t).drop k = s.drop k ++ t := by
  rw [List.drop_append_of_le_length (sc.look_emit h).2]

/-- What is left of the first part is scanned again, in front of the second. -/
theorem scan_append (s t : List α) :
    sc.scan (s ++ t) =
      ((sc.scan s).1 ++ (sc.scan ((sc.scan s).2 ++ t)).1, (sc.scan ((sc.scan s).2 ++ t)).2) := by
  induction s using sc.induction with
  | wait s h => rw [scan_wait h]; rfl
  | skip s h ih =>
    rw [scan_skip (sc.stable t h (by simp)), drop_append_of_skip h, ih, scan_skip h]
  | emit s k o h ih =>
    rw [scan_emit (sc.stable t h (by simp)), drop_append_of_emit h, ih, scan_emit h]
    rfl

theorem look_residue (s : List α) : sc.look (sc.scan s).2 = .wait := by
  induction s using sc.induction with
  | wait s h => rw [scan_wait h]; exact h
  | skip s h ih => rw [scan_skip h]; exact ih
  | emit s k o h ih => rw [scan_emit h]; exact ih

/-! ## Input in chunks -/

/-- Scans chunk after chunk, each behind the residue `r` of the chunks before. -/
def feed : List α → List (List α) → List β × List α
  | r, [] => ([], r)
  | r, c :: cs => ((sc.scan (r ++ c)).1 ++ (feed (sc.scan (r ++ c)).2 cs).1,
      (feed (sc.scan (r ++ c)).2 cs).2)

/-- **However the input is cut, the scan of the whole gives the same outputs and residue.** -/
theorem feed_eq_scan (r : List α) (cs : List (List α)) (h : sc.look r = .wait) :
    sc.feed r cs = sc.scan (r ++ cs.flatten) := by
  induction cs generalizing r with
  | nil => simp [feed, scan_wait h]
  | cons c cs ih =>
    rw [feed, ih _ (sc.look_residue _), List.flatten_cons, ← List.append_assoc, sc.scan_append (r ++ c)]

/-! ## What a scan looks at -/

def trailFuel : Nat → List α → List (List α)
  | 0, s => [s]
  | n + 1, s =>
    s :: match sc.look s with
      | .wait => []
      | .skip => trailFuel n (s.drop 1)
      | .emit k _ => trailFuel n (s.drop k)

/-- The unread input at every move of a scan. -/
def trail (s : List α) : List (List α) := sc.trailFuel s.length s

theorem trailFuel_nil (n : Nat) : sc.trailFuel n [] = [[]] := by
  cases n with
  | zero => rfl
  | succ n =>
    unfold trailFuel
    cases h : sc.look [] with
    | wait => rfl
    | skip => exact absurd rfl (sc.look_skip h)
    | emit k o =>
      have hk := sc.look_emit h
      rw [List.length_nil] at hk
      omega

theorem trailFuel_eq_trail (n : Nat) (s : List α) (h : s.length ≤ n) :
    sc.trailFuel n s = sc.trail s := by
  induction n using Nat.strongRecOn generalizing s with
  | _ n ih =>
    match n, s with
    | n, [] => rw [trailFuel_nil, trail, trailFuel_nil]
    | 0, _ :: _ => simp at h
    | n + 1, a :: s =>
      have hs : s.length ≤ n := by simpa using h
      rw [trail, List.length_cons, trailFuel, trailFuel]
      cases hl : sc.look (a :: s) with
      | wait => rfl
      | skip =>
        simp only [List.drop_succ_cons, List.drop_zero]
        rw [ih n (by omega) s hs]
        rfl
      | emit k o =>
        have hk := sc.look_emit hl
        have hlen : ((a :: s).drop k).length ≤ s.length := by
          rw [List.length_cons] at hk
          rw [List.length_drop, List.length_cons]
          omega
        simp only
        rw [ih n (by omega) _ (Nat.le_trans hlen hs)]
        rcases Nat.eq_or_lt_of_le hs with he | hlt
        · rw [he, ih n (by omega) _ (Nat.le_trans hlen hs)]
        · rw [ih s.length (by omega) _ hlen]

variable {sc} in
theorem trail_wait {s : List α} (h : sc.look s = .wait) : sc.trail s = [s] := by
  cases s with
  | nil => rfl
  | cons a s => rw [trail, List.length_cons, trailFuel, h]

variable {sc} in
theorem trail_skip {s : List α} (h : sc.look s = .skip) :
    sc.trail s = s :: sc.trail (s.drop 1) := by
  cases s with
  | nil => exact absurd rfl (sc.look_skip h)
  | cons a s =>
    rw [trail, List.length_cons, trailFuel, h]
    exact congrArg _ (sc.trailFuel_eq_trail _ _ (by simp))

variable {sc} in
theorem trail_emit {s : List α} {k : Nat} {o : β} (h : sc.look s = .emit k o) :
    sc.trail s = s :: sc.trail (s.drop k) := by
  have hk := sc.look_emit h
  cases s with
  | nil =>
    rw [List.length_nil] at hk
    omega
  | cons a s =>
    rw [trail, List.length_cons, trailFuel, h]
    refine congrArg _ (sc.trailFuel_eq_trail _ _ ?_)
    rw [List.length_drop, List.length_cons]
    omega

theorem mem_trail_self (s : List α) : s ∈ sc.trail s := by
  cases hl : sc.look s with
  | wait => rw [trail_wait hl]; exact List.mem_cons_self
  | skip => rw [trail_skip hl]; exact List.mem_cons_self
  | emit k o => rw [trail_emit hl]; exact List.mem_cons_self

/-! ## A property of all that a scan looks at -/

/-- `P` holds of the unread input at every move of the scan of `s`. -/
inductive Along (P : List α → Prop) : List α → Prop
  | wait {s} : P s → sc.look s = .wait → Along P s
  | skip {s} : P s → sc.look s = .skip → Along P (s.drop 1) → Along P s
  | emit {s k o} : P s → sc.look s = .emit k o → Along P (s.drop k) → Along P s

variable {sc} {P : List α → Prop}

theorem Along.of_suffix {s : List α} (h : ∀ v, v <:+ s → P v) : sc.Along P s := by
  induction s using sc.induction with
  | wait s hl => exact .wait (h s List.suffix_rfl) hl
  | skip s hl ih =>
    exact .skip (h s List.suffix_rfl) hl (ih fun v hv => h v (hv.trans (List.drop_suffix 1 s)))
  | emit s k o hl ih =>
    exact .emit (h s List.suffix_rfl) hl (ih fun v hv => h v (hv.trans (List.drop_suffix k s)))

theorem Along.head {s : List α} (h : sc.Along P s) : P s := by
  cases h <;> assumption

theorem Along.of_skip {s : List α} (h : sc.Along P s) (hl : sc.look s = .skip) :
    sc.Along P (s.drop 1) := by
  cases h <;> simp_all

theorem Along.of_emit {s : List α} {k : Nat} {o : β} (h : sc.Along P s)
    (hl : sc.look s = .emit k o) : sc.Along P (s.drop k) := by
  cases h <;> simp_all

theorem Along.of_append (hP : ∀ v t, P (v ++ t) → P v) (s t : List α) (h : sc.Along P (s ++ t)) :
    sc.Along P s ∧ sc.Along P ((sc.scan s).2 ++ t) := by
  induction s using sc.induction with
  | wait s hl =>
    rw [scan_wait hl]
    exact ⟨.wait (hP s t h.head) hl, h⟩
  | skip s hl ih =>
    have hrest := h.of_skip (sc.stable t hl (by simp))
    rw [drop_append_of_skip hl] at hrest
    rw [scan_skip hl]
    exact ⟨.skip (hP s t h.head) hl (ih hrest).1, (ih hrest).2⟩
  | emit s k o hl ih =>
    have hrest := h.of_emit (sc.stable t hl (by simp))
    rw [drop_append_of_emit hl] at hrest
    rw [scan_emit hl]
    exact ⟨.emit (hP s t h.head) hl (ih hrest).1, (ih hrest).2⟩

end Scanner

end NearLink
