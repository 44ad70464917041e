import Mathlib.Data.List.Infix
import Mathlib.Data.List.TakeWhile
import Mathlib.Tactic.SplitIfs

/-!
# Strings that end with a terminator

The memory is what is there from the pointer on. A string function does not know how much of it
belongs to the caller, so each one comes with the number of cells that it has to read.
-/

namespace NearLink.CString

variable {α : Type*} [DecidableEq α] (nul : α)

/-- The string at the front of the memory, without its terminator. -/
def str (mem : List α) : List α := mem.takeWhile (· ≠ nul)

def strlen (mem : List α) : Nat := (str nul mem).length

/-- `strlen` reads the terminator too. Without one it runs off the memory. -/
def strlenReads (mem : List α) : Nat := strlen nul mem + 1

/-- The place of the first match. -/
def strstr (needle : List α) : List α → Option Nat
  | [] => none
  | a :: mem =>
    if needle <+: a :: mem then some 0
    else if a = nul then none
    else (strstr needle mem).map (· + 1)

/-- `strstr` reads to the end of the first match, or the terminator when there is none. -/
def strstrReads (needle : List α) : List α → Nat
  | [] => 1
  | a :: mem =>
    if needle <+: a :: mem then needle.length
    else if a = nul then 1
    else 1 + strstrReads needle mem

variable {nul}

/-! ## The string -/

theorem str_front (mem : List α) : str nul mem <+: mem := List.takeWhile_prefix _

theorem nul_notMem_str (mem : List α) : nul ∉ str nul mem := by
  intro h
  have hne := List.mem_takeWhile_imp h
  simp at hne

theorem str_eq_self {mem : List α} (h : nul ∉ mem) : str nul mem = mem := by
  rw [str, List.takeWhile_eq_self_iff]
  intro a ha
  rw [decide_eq_true_eq]
  rintro rfl
  exact h ha

theorem str_take (mem : List α) (n : Nat) : str nul (mem.take n) = (str nul mem).take n :=
  List.take_takeWhile.symm

theorem str_append {mem : List α} (h : nul ∈ mem) (after : List α) :
    str nul (mem ++ after) = str nul mem := by
  rw [str, str, List.takeWhile_append, if_neg]
  intro hlen
  have hall : str nul mem = mem := (str_front mem).eq_of_length hlen
  exact nul_notMem_str mem (hall ▸ h)

theorem str_eq_of_mem_take {mem : List α} {n : Nat} (h : nul ∈ mem.take n) :
    str nul mem = str nul (mem.take n) := by
  conv_lhs => rw [← List.take_append_drop n mem]
  exact str_append h _

theorem str_cons_of_ne {a : α} (h : a ≠ nul) (mem : List α) :
    str nul (a :: mem) = a :: str nul mem := List.takeWhile_cons_of_pos (by simpa using h)

theorem prefix_str_iff {needle : List α} (h : nul ∉ needle) (mem : List α) :
    needle <+: str nul mem ↔ needle <+: mem := by
  constructor
  · exact fun hp => hp.trans (str_front mem)
  · rintro ⟨after, rfl⟩
    rw [str, List.takeWhile_append_of_pos fun a ha => by
      rw [decide_eq_true_eq]; rintro rfl; exact h ha]
    exact List.prefix_append _ _

theorem strlenReads_le_iff {mem : List α} {n : Nat} (hn : n ≤ mem.length) :
    strlenReads nul mem ≤ n ↔ nul ∈ mem.take n := by
  unfold strlenReads strlen
  constructor
  · intro hlt
    by_contra hno
    have hself := str_eq_self hno
    rw [str_take] at hself
    have hlen := congrArg List.length hself
    rw [List.length_take, List.length_take] at hlen
    omega
  · intro hmem
    by_contra hge
    have hself : str nul (mem.take n) = mem.take n := by
      rw [str_take]
      apply List.IsPrefix.eq_of_length ((str_front mem).take n)
      rw [List.length_take, List.length_take]
      omega
    exact nul_notMem_str (mem.take n) (hself ▸ hmem)

/-! ## The search -/

section Search

variable {needle : List α}

theorem strstr_isSome_iff (hnul : nul ∉ needle) (hne : needle ≠ []) (mem : List α) :
    (strstr nul needle mem).isSome = true ↔ needle <:+: str nul mem := by
  induction mem with
  | nil => simp [strstr, str, hne]
  | cons a mem ih =>
    unfold strstr
    split_ifs with hmatch hend
    · exact iff_of_true rfl ((prefix_str_iff hnul _).mpr hmatch).isInfix
    · simp [hend, str, hne]
    · have hfirst : ¬ needle <+: a :: str nul mem := by
        rwa [← str_cons_of_ne hend, prefix_str_iff hnul]
      rw [Option.isSome_map, ih, str_cons_of_ne hend, List.infix_cons_iff, or_iff_right hfirst]

/-- The search stays in the first `n` cells when it ends there: with a match or the terminator. -/
theorem strstrReads_le_iff (hnul : nul ∉ needle) (hne : needle ≠ []) {mem : List α} {n : Nat}
    (hn : n ≤ mem.length) :
    strstrReads nul needle mem ≤ n ↔
      needle <:+: str nul (mem.take n) ∨ nul ∈ mem.take n := by
  induction mem generalizing n with
  | nil =>
    obtain rfl := Nat.le_zero.mp hn
    simp [strstrReads, str, hne]
  | cons a mem ih =>
    cases n with
    | zero =>
      have hpos := List.length_pos_iff.mpr hne
      refine iff_of_false ?_ (by simp [str, hne])
      unfold strstrReads
      split_ifs <;> omega
    | succ n =>
      unfold strstrReads
      split_ifs with hmatch hend
      · -- The match is at the front.
        constructor
        · intro hlen
          refine Or.inl (List.IsPrefix.isInfix ?_)
          rw [prefix_str_iff hnul, List.prefix_take_iff]
          exact ⟨hmatch, hlen⟩
        · rintro (hin | hmem)
          · have hlen := hin.length_le.trans (str_front _).length_le
            rw [List.length_take] at hlen
            omega
          · by_contra hlt
            have hcut : (a :: mem).take (n + 1) <+: needle :=
              List.prefix_of_prefix_length_le (List.take_prefix _ _) hmatch (by
                rw [List.length_take]; omega)
            exact hnul (hcut.subset hmem)
      · simp [hend]
      · rw [List.take_succ_cons]
        have hfirst : ¬ needle <+: a :: str nul (mem.take n) := by
          rw [← str_cons_of_ne hend, prefix_str_iff hnul]
          exact fun hp => hmatch (hp.trans (List.take_prefix (n + 1) (a :: mem)))
        rw [str_cons_of_ne hend, List.infix_cons_iff, or_iff_right hfirst, List.mem_cons,
          or_iff_right (Ne.symm hend), ← ih (Nat.le_of_succ_le_succ hn)]
        omega

end Search

end NearLink.CString
