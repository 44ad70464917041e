import Mathlib.Data.List.Chain
import Mathlib.Order.Interval.Finset.Nat
import NearLink.Bytes

/-!
# Frames that carry their number modulo 65536

A sender numbers its frames without end. What a receiver can tell about missing frames depends
on the numbers that arrive and on their order.
-/

namespace NearLink

/-- What is numbered from 0 on is found under its number. -/
theorem getElem?_of_numbered {α : Type*} {number : α → Nat} {l : List α}
    (h : l.map number = List.range' 0 l.length) {a : α} (ha : a ∈ l) : l[number a]? = some a := by
  obtain ⟨i, hi⟩ := List.getElem?_of_mem ha
  have hlt := (List.getElem?_eq_some_iff.mp hi).1
  have hnumber := congrArg (fun l : List Nat => l[i]?) h
  simp only [List.getElem?_map, hi, Option.map_some, List.getElem?_range' hlt] at hnumber
  have hsame : number a = i := by simpa using hnumber
  rw [hsame, hi]

theorem getD_lt_getD {ns : List Nat} (hinc : ns.Pairwise (· < ·)) {i j : Nat} (hij : i < j)
    (hj : j < ns.length) : ns.getD i 0 < ns.getD j 0 := by
  rw [List.getD_eq_getElem _ _ (hij.trans hj), List.getD_eq_getElem _ _ hj]
  exact List.pairwise_iff_getElem.mp hinc i j (hij.trans hj) hj hij

/-- How far a number is ahead of the expected one, in 16 bits. -/
def gap16 (recvSeq expectedSeq : Nat) : Nat := u16 (65536 + recvSeq - expectedSeq)

theorem gap16_ahead {m n : Nat} (h : m < n) (hlt : n - m ≤ 65536) :
    gap16 (u16 n) (u16 (m + 1)) = n - m - 1 := by
  unfold gap16 u16
  omega

theorem gap16_behind {m n : Nat} (h : n ≤ m) (hlt : m - n < 65536) :
    gap16 (u16 n) (u16 (m + 1)) = 65535 - (m - n) := by
  unfold gap16 u16
  omega

/-! ## Missing numbers -/

/-- How many numbers between the first and the last one did not arrive. -/
def missing (ns : List Nat) : Nat :=
  ((Finset.Ioo (ns.headD 0) (ns.getLastD 0)).filter (· ∉ ns)).card

theorem missing_snoc {ns : List Nat} {m n : Nat} (hlast : ns.getLast? = some m)
    (hinc : ns.Pairwise (· < ·)) (hmn : m < n) :
    missing (ns ++ [n]) = missing ns + (n - m - 1) := by
  obtain ⟨init, rfl⟩ := List.getLast?_eq_some_iff.mp hlast
  have hle : ∀ x ∈ init ++ [m], x ≤ m := by
    intro x hx
    rcases List.mem_append.mp hx with hinit | hm
    · exact ((List.pairwise_append.mp hinc).2.2 x hinit m (by simp)).le
    · exact (List.mem_singleton.mp hm).le
  have hhead : (init ++ [m]).headD 0 ≤ m := by
    cases init with
    | nil => simp
    | cons a init => exact hle a (by simp)
  have hfirst : (init ++ [m] ++ [n]).headD 0 = (init ++ [m]).headD 0 := by
    cases init <;> rfl
  have hsplit : (Finset.Ioo ((init ++ [m]).headD 0) n).filter (· ∉ init ++ [m] ++ [n]) =
      (Finset.Ioo ((init ++ [m]).headD 0) m).filter (· ∉ init ++ [m]) ∪ Finset.Ioo m n := by
    ext x
    simp only [Finset.mem_filter, Finset.mem_Ioo, Finset.mem_union, List.mem_append,
      List.mem_singleton, not_or] at hle ⊢
    constructor
    · rintro ⟨⟨hlo, hhi⟩, ⟨hinit, hxm⟩, -⟩
      rcases Nat.lt_or_ge x m with hlt | hge
      · exact Or.inl ⟨⟨hlo, hlt⟩, hinit, hxm⟩
      · exact Or.inr ⟨by omega, hhi⟩
    · rintro (⟨⟨hlo, hhi⟩, hinit, hxm⟩ | ⟨hlo, hhi⟩)
      · exact ⟨⟨hlo, by omega⟩, ⟨hinit, hxm⟩, by omega⟩
      · refine ⟨⟨by omega, hhi⟩, ⟨fun hx => ?_, by omega⟩, by omega⟩
        have := hle x (Or.inl hx)
        omega
  have hdisj : Disjoint ((Finset.Ioo ((init ++ [m]).headD 0) m).filter (· ∉ init ++ [m]))
      (Finset.Ioo m n) := by
    rw [Finset.disjoint_left]
    intro x hx hx'
    simp only [Finset.mem_filter, Finset.mem_Ioo] at hx hx'
    omega
  simp only [missing, hfirst, List.getLastD_concat, hsplit, Finset.card_union_of_disjoint hdisj,
    Nat.card_Ioo]

/-- Between the first and the last of the numbers. -/
def Between (ns : List Nat) (n : Nat) : Prop := ns.headD 0 < n ∧ n < ns.getLastD 0

instance (ns : List Nat) (n : Nat) : Decidable (Between ns n) :=
  inferInstanceAs (Decidable (_ ∧ _))

theorem missing_add {ns : List Nat} (h : ns.Nodup) :
    missing ns + (ns.filter fun n => Between ns n).length = ns.getLastD 0 - ns.headD 0 - 1 := by
  have harrived : (Finset.Ioo (ns.headD 0) (ns.getLastD 0)).filter (· ∈ ns) =
      (ns.filter fun n => Between ns n).toFinset := by
    ext n
    simp only [Finset.mem_filter, Finset.mem_Ioo, List.mem_toFinset, List.mem_filter, Between,
      decide_eq_true_eq, and_comm]
  have hall := Finset.card_filter_add_card_filter_not (s := Finset.Ioo (ns.headD 0) (ns.getLastD 0))
    (· ∈ ns)
  rw [harrived, List.toFinset_card_of_nodup (h.filter _), Nat.card_Ioo] at hall
  rw [missing, Nat.add_comm]
  exact hall

theorem last_mem {m : Nat} {rest : List Nat} : (m :: rest).getLastD 0 ∈ m :: rest := by
  rw [List.getLastD_cons]
  exact List.getLastD_mem_cons

theorem filter_between_range' {ns : List Nat} {first len : Nat}
    (h : ∀ n ∈ ns, first ≤ n ∧ n < first + len) :
    ((List.range' first len).filter fun n => Between ns n).length =
      ns.getLastD 0 - ns.headD 0 - 1 := by
  have hset : ((List.range' first len).filter fun n => Between ns n).toFinset =
      Finset.Ioo (ns.headD 0) (ns.getLastD 0) := by
    ext n
    simp only [List.mem_toFinset, List.mem_filter, List.mem_range'_1, decide_eq_true_eq,
      Finset.mem_Ioo]
    refine ⟨fun hn => hn.2, fun hn => ⟨?_, hn⟩⟩
    cases ns with
    | nil => exact absurd (hn.1.trans hn.2) (Nat.lt_irrefl _)
    | cons m rest =>
      have hhead := h m List.mem_cons_self
      have hlast := h _ last_mem
      rw [List.headD_cons] at hn
      omega
  have hnodup := (List.nodup_range' (s := first) (n := len)).filter fun n => Between ns n
  rw [← List.toFinset_card_of_nodup hnodup, hset, Nat.card_Ioo]

/-- Going up, what is between the ends of a part is in this part. -/
theorem filter_between_append {before ns after : List Nat}
    (h : (before ++ ns ++ after).Pairwise (· < ·)) :
    ((before ++ ns ++ after).filter fun n => Between ns n) = ns.filter fun n => Between ns n := by
  cases ns with
  | nil =>
    have hnone : ∀ n, ¬ Between [] n := fun n hn => absurd (hn.1.trans hn.2) (Nat.lt_irrefl _)
    simp [hnone]
  | cons m rest =>
    obtain ⟨hfront, -, hbehind⟩ := List.pairwise_append.mp h
    obtain ⟨-, -, hbefore⟩ := List.pairwise_append.mp hfront
    have hnobefore : (before.filter fun n => Between (m :: rest) n) = [] := by
      rw [List.filter_eq_nil_iff]
      intro n hn hin
      have hlt := hbefore n hn m List.mem_cons_self
      exact absurd ((of_decide_eq_true hin).1.trans hlt) (Nat.lt_irrefl _)
    have hnobehind : (after.filter fun n => Between (m :: rest) n) = [] := by
      rw [List.filter_eq_nil_iff]
      intro n hn hin
      have hlt := hbehind _ (List.mem_append_right before last_mem) n hn
      exact absurd ((of_decide_eq_true hin).2.trans hlt) (Nat.lt_irrefl _)
    rw [List.filter_append, List.filter_append, hnobefore, hnobehind, List.nil_append, List.append_nil]

/-! ## What a receiver counts -/

/-- The gaps of at most `limit` numbers, as the wrapped numbers show them. The numbers are given
newest first. -/
def countedGaps (limit : Nat) : List Nat → Nat
  | n :: m :: older =>
    (if gap16 (u16 n) (u16 (m + 1)) ≤ limit then gap16 (u16 n) (u16 (m + 1)) else 0) +
      countedGaps limit (m :: older)
  | _ => 0

/-- **In order, the counted gaps are the missing numbers.** -/
theorem countedGaps_eq_missing {limit : Nat} (hlimit : limit ≤ 65535) {ns : List Nat}
    (h : ns.IsChain fun m n => m < n ∧ n - m - 1 ≤ limit) :
    countedGaps limit ns.reverse = missing ns := by
  induction ns using List.reverseRecOn with
  | nil => simp [countedGaps, missing]
  | append_singleton ns n ih =>
    cases hlast : ns.getLast? with
    | none =>
      obtain rfl := List.getLast?_eq_none_iff.mp hlast
      simp [countedGaps, missing]
    | some m =>
      obtain ⟨hns, -, hstep⟩ := List.isChain_append.mp h
      obtain ⟨hmn, hgap⟩ := hstep m hlast n rfl
      have hinc : ns.Pairwise (· < ·) := List.isChain_iff_pairwise.mp (hns.imp fun _ _ h => h.1)
      rw [missing_snoc hlast hinc hmn, ← ih hns]
      obtain ⟨init, rfl⟩ := List.getLast?_eq_some_iff.mp hlast
      simp only [List.reverse_append, List.reverse_cons, List.reverse_nil, List.nil_append,
        List.cons_append, countedGaps, gap16_ahead hmn (show n - m ≤ 65536 by omega), if_pos hgap]
      omega

theorem isChain_ahead {near : Nat → Nat → Prop} {ns : List Nat} (hinc : ns.Pairwise (· < ·))
    (hnear : ns.IsChain near) : ns.IsChain fun m n => m < n ∧ near m n := by
  have hchain := List.isChain_iff_pairwise.mpr hinc
  rw [List.isChain_iff_getElem] at hchain hnear ⊢
  exact fun i hi => ⟨hchain i hi, hnear i hi⟩

/-! ## Numbers that arrive late or twice -/

/-- The numbers that some frame jumped over before they had arrived. The numbers are given newest
first. -/
def jumpedOver : List Nat → Finset Nat
  | n :: m :: older => (Finset.Ioo m n).filter (· ∉ older) ∪ jumpedOver (m :: older)
  | _ => ∅

/-- No jump over at most `limit` numbers passes a number that had arrived or had been jumped over
before. -/
def FreshJumps (limit : Nat) : List Nat → Prop
  | n :: m :: older =>
    (n - m - 1 ≤ limit → ∀ x ∈ Finset.Ioo m n, x ∉ older ∧ x ∉ jumpedOver (m :: older)) ∧
      FreshJumps limit (m :: older)
  | _ => True

instance decidableFreshJumps (limit : Nat) : ∀ ns, Decidable (FreshJumps limit ns)
  | [] => .isTrue trivial
  | [_] => .isTrue trivial
  | _ :: m :: older =>
    have := decidableFreshJumps limit (m :: older)
    inferInstanceAs (Decidable (_ ∧ FreshJumps limit (m :: older)))

/-- The numbers lie in a window of fewer than 32768 consecutive ones. -/
def InWindow (low : Nat) (ns : List Nat) : Prop := ∀ n ∈ ns, low ≤ n ∧ n < low + 32767

instance (low : Nat) (ns : List Nat) : Decidable (InWindow low ns) :=
  inferInstanceAs (Decidable (∀ n ∈ ns, low ≤ n ∧ n < low + 32767))

/-- A jump back is never counted. -/
theorem countedGaps_cons {limit low n m : Nat} {older : List Nat} (hlimit : limit < 32768)
    (hwin : InWindow low (n :: m :: older)) :
    countedGaps limit (n :: m :: older) =
      (if n - m - 1 ≤ limit then n - m - 1 else 0) + countedGaps limit (m :: older) := by
  have hn := hwin n (by simp)
  have hm := hwin m (by simp)
  rw [countedGaps]
  rcases Nat.lt_or_ge m n with hmn | hnm
  · rw [gap16_ahead hmn (by omega)]
  · rw [gap16_behind hnm (by omega), if_neg (by omega), if_pos (by omega)]
    omega

theorem card_jumpedOver_cons {n m : Nat} {older : List Nat}
    (hfresh : ∀ x ∈ Finset.Ioo m n, x ∉ older ∧ x ∉ jumpedOver (m :: older)) :
    (jumpedOver (n :: m :: older)).card = n - m - 1 + (jumpedOver (m :: older)).card := by
  have hall : (Finset.Ioo m n).filter (· ∉ older) = Finset.Ioo m n :=
    Finset.filter_true_of_mem fun x hx => (hfresh x hx).1
  have hdisj : Disjoint (Finset.Ioo m n) (jumpedOver (m :: older)) :=
    Finset.disjoint_left.mpr fun x hx => (hfresh x hx).2
  rw [jumpedOver, hall, Finset.card_union_of_disjoint hdisj, Nat.card_Ioo]

theorem jumpedOver_subset {low high : Nat} {ns : List Nat} (h : ∀ n ∈ ns, low ≤ n ∧ n < high) :
    jumpedOver ns ⊆ Finset.Ico low high := by
  induction ns with
  | nil => exact Finset.empty_subset _
  | cons n ns ih =>
    cases ns with
    | nil => exact Finset.empty_subset _
    | cons m older =>
      have hn := h n (by simp)
      have hm := h m (by simp)
      refine Finset.union_subset ?_ (ih fun x hx => h x (List.mem_cons_of_mem n hx))
      intro x hx
      simp only [Finset.mem_filter, Finset.mem_Ioo, Finset.mem_Ico] at hx ⊢
      omega

/-- Going up, a jump passes over new numbers only. -/
theorem countedGaps_of_increasing {limit : Nat} (hlimit : limit ≤ 65535) {ns : List Nat}
    (h : ns.IsChain fun n m => m < n ∧ n - m - 1 ≤ limit) :
    countedGaps limit ns = (jumpedOver ns).card := by
  induction ns with
  | nil => rfl
  | cons n ns ih =>
    cases ns with
    | nil => rfl
    | cons m older =>
      obtain ⟨⟨hmn, hgap⟩, hrest⟩ := List.isChain_cons_cons.mp h
      have hold : ∀ x ∈ m :: older, 0 ≤ x ∧ x < m + 1 := by
        have hdown : (m :: older).Pairwise (· > ·) :=
          List.isChain_iff_pairwise.mp (hrest.imp fun _ _ h => h.1)
        intro x hx
        rcases List.mem_cons.mp hx with rfl | hx
        · omega
        · have := (List.pairwise_cons.mp hdown).1 x hx
          omega
      have hfresh : ∀ x ∈ Finset.Ioo m n, x ∉ older ∧ x ∉ jumpedOver (m :: older) := by
        intro x hx
        have hm := (Finset.mem_Ioo.mp hx).1
        refine ⟨fun holder => ?_, fun hjumped => ?_⟩
        · have := hold x (List.mem_cons_of_mem m holder)
          omega
        · have := Finset.mem_Ico.mp (jumpedOver_subset hold hjumped)
          omega
      rw [countedGaps, gap16_ahead hmn (by omega), if_pos hgap, card_jumpedOver_cons hfresh, ih hrest]

/-- **Fresh jumps count no number twice, and none that arrives.** -/
theorem countedGaps_le_jumpedOver {limit low : Nat} (hlimit : limit < 32768) {ns : List Nat}
    (hwin : InWindow low ns) (hfresh : FreshJumps limit ns) :
    countedGaps limit ns ≤ (jumpedOver ns).card := by
  induction ns with
  | nil => exact Nat.zero_le _
  | cons n ns ih =>
    cases ns with
    | nil => exact Nat.zero_le _
    | cons m older =>
      obtain ⟨hnow, hbefore⟩ := hfresh
      have hrest := ih (fun x hx => hwin x (List.mem_cons_of_mem n hx)) hbefore
      rw [countedGaps_cons hlimit hwin]
      split_ifs with hgap
      · rw [card_jumpedOver_cons (hnow hgap)]
        omega
      · have hsub : jumpedOver (m :: older) ⊆ jumpedOver (n :: m :: older) :=
          Finset.subset_union_right
        have hcard := Finset.card_le_card hsub
        omega

theorem countedGaps_eq_jumpedOver {limit low : Nat} (hlimit : limit < 32768) {ns : List Nat}
    (hwin : InWindow low ns) (hfresh : FreshJumps limit ns)
    (hshort : ns.IsChain fun b a => b - a - 1 ≤ limit) :
    countedGaps limit ns = (jumpedOver ns).card := by
  induction ns with
  | nil => rfl
  | cons n ns ih =>
    cases ns with
    | nil => rfl
    | cons m older =>
      obtain ⟨hgap, hrest⟩ := List.isChain_cons_cons.mp hshort
      rw [countedGaps_cons hlimit hwin, if_pos hgap, card_jumpedOver_cons (hfresh.1 hgap),
        ih (fun x hx => hwin x (List.mem_cons_of_mem n hx)) hfresh.2 hrest]

/-- While no jump is too long to be counted, the first jump that is not fresh counts too much. -/
theorem jumpedOver_lt_countedGaps {limit low n m : Nat} {older : List Nat} (hlimit : limit < 32768)
    (hwin : InWindow low (n :: m :: older)) (hfresh : FreshJumps limit (m :: older))
    (hshort : (n :: m :: older).IsChain fun b a => b - a - 1 ≤ limit)
    (hstale : ¬ FreshJumps limit (n :: m :: older)) :
    (jumpedOver (n :: m :: older)).card < countedGaps limit (n :: m :: older) := by
  obtain ⟨hgap, hrest⟩ := List.isChain_cons_cons.mp hshort
  have hbefore := countedGaps_eq_jumpedOver hlimit
    (fun x hx => hwin x (List.mem_cons_of_mem n hx)) hfresh hrest
  rw [countedGaps_cons hlimit hwin, if_pos hgap, hbefore]
  -- Some number of the jump is among the others already.
  obtain ⟨x, hx, hold⟩ : ∃ x ∈ Finset.Ioo m n, x ∈ older ∨ x ∈ jumpedOver (m :: older) := by
    by_contra hnone
    push Not at hnone
    exact hstale ⟨fun _ => hnone, hfresh⟩
  have hsub : jumpedOver (n :: m :: older) ⊆ (Finset.Ioo m n).erase x ∪ jumpedOver (m :: older) := by
    intro y hy
    simp only [jumpedOver, Finset.mem_union, Finset.mem_filter, Finset.mem_erase] at hy ⊢
    rcases hy with ⟨hin, hnew⟩ | hy
    · by_cases hyx : y = x
      · rcases hold with hold | hold
        · exact absurd (hyx ▸ hold) hnew
        · exact Or.inr (hyx ▸ hold)
      · exact Or.inl ⟨hyx, hin⟩
    · exact Or.inr hy
  have hcard := (Finset.card_le_card hsub).trans (Finset.card_union_le _ _)
  have herase := Finset.card_erase_lt_of_mem hx
  rw [Nat.card_Ioo] at herase
  omega

end NearLink
