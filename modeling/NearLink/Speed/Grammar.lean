import NearLink.Speed.ClientProofs

/-!
# What the throughput client takes for a frame

The address of the tail is computed in 16 bits. For two lengths near 65536 the tail is looked for
in the header and the number.
-/

namespace NearLink.Speed.Client

/-- The input begins with a frame, and all of the frame is there. -/
def Framed (v : List Byte) : Prop := Headed v ∧ 8 + declared v ≤ v.length ∧ Tailed v

instance (v : List Byte) : Decidable (Framed v) :=
  inferInstanceAs (Decidable (Headed v ∧ 8 + declared v ≤ v.length ∧ Tailed v))

/-- The address of the tail wraps to a place where a tail can stand: to the second header byte and
the number, or to the number. -/
def TailWraps (v : List Byte) : Prop :=
  8 ≤ v.length ∧ Headed v ∧
    (declared v = 65531 ∧ v.getD 2 0 = 0xAA ∨
      declared v = 65532 ∧ v.getD 2 0 = 0x55 ∧ v.getD 3 0 = 0xAA)

instance (v : List Byte) : Decidable (TailWraps v) :=
  inferInstanceAs (Decidable (8 ≤ v.length ∧ Headed v ∧
    (declared v = 65531 ∧ v.getD 2 0 = 0xAA ∨
      declared v = 65532 ∧ v.getD 2 0 = 0x55 ∧ v.getD 3 0 = 0xAA)))

/-- The callback changes `g_total_rx_pkts`, `g_lost_pkts` or `g_expect_seq`. -/
def Updates (accept : Bool) (buf : List Byte) (c : Client) : Prop :=
  ¬ KeepsCounters c (sleSpeedNotificationCb accept (some buf) c)

/-! ## The words of a notification -/

theorem word_header_iff {buf : List Byte} (h : 2 ≤ buf.length) :
    word buf 0 = frameHeader ↔ Headed buf := pair_at_iff h 0xAA 0x55

theorem word_tail_iff {buf : List Byte} {i : Nat} (h : i + 2 ≤ buf.length) :
    word buf i = frameTail ↔ [0x55, 0xAA] <+: buf.drop i := pair_at_iff h 0x55 0xAA

theorem recognised_isSome_iff (buf : List Byte) :
    (recognised buf).isSome = true ↔
      8 ≤ buf.length ∧ Headed buf ∧ u16 (6 + declared buf) + 2 ≤ buf.length ∧
        [0x55, 0xAA] <+: buf.drop (u16 (6 + declared buf)) := by
  have hdecl : word buf 4 = declared buf := rfl
  unfold recognised
  by_cases h8 : 8 ≤ buf.length
  swap
  · rw [if_neg (by rw [frameHdrSize_val]; omega)]
    simp [h8]
  rw [if_pos (by rw [frameHdrSize_val]; omega)]
  simp only [hdecl, word_header_iff (show 2 ≤ buf.length by omega)]
  by_cases hfits : u16 (6 + declared buf) + 2 ≤ buf.length
  · simp only [if_pos hfits, word_tail_iff hfits]
    split_ifs with h
    · simp [h8, h, hfits]
    · simpa [h8, hfits] using h
  · have hzero : ¬ (Headed buf ∧ (0 : Nat) = frameTail) := by
      rintro ⟨-, h⟩
      exact absurd h (by decide)
    simp only [if_neg hfits, if_neg hzero]
    simp [hfits]

/-- From 65530 on the tail is looked for in the first seven bytes, which the header and the length
fill but for the number. -/
theorem wrapped_tail_iff {buf : List Byte} (h8 : 8 ≤ buf.length) (hh : Headed buf)
    (hbig : 65530 ≤ declared buf) :
    [0x55, 0xAA] <+: buf.drop (u16 (6 + declared buf)) ↔
      (declared buf = 65531 ∧ buf.getD 2 0 = 0xAA ∨
        declared buf = 65532 ∧ buf.getD 2 0 = 0x55 ∧ buf.getD 3 0 = 0xAA) := by
  match buf, h8 with
  | a :: b :: s :: t :: l :: m :: x :: y :: rest, _ =>
    obtain ⟨rfl, rfl⟩ : 0xAA = a ∧ 0x55 = b := by simpa [Headed, List.cons_prefix_cons] using hh
    have hdecl : declared (0xAA :: 0x55 :: s :: t :: l :: m :: x :: y :: rest) = le16 l m := rfl
    rw [hdecl] at hbig ⊢
    have hl := l.toNat_lt
    have hm := m.toNat_lt
    have hword : l.toNat + 256 * m.toNat = le16 l m := rfl
    obtain ⟨j, hj, hlt⟩ : ∃ j, le16 l m = 65530 + j ∧ j < 6 := ⟨le16 l m - 65530, by omega, by omega⟩
    have hoffset : u16 (6 + le16 l m) = j := by
      rw [hj, u16]
      omega
    have hlow : l = UInt8.ofNat (250 + j) := by
      apply UInt8.toNat_inj.mp
      simp only [UInt8.toNat_ofNat', Nat.reducePow]
      omega
    have hmax : m = 0xFF := UInt8.toNat_inj.mp (show m.toNat = 255 by omega)
    rw [hoffset, hj, hlow, hmax]
    rcases (by omega : j = 0 ∨ j = 1 ∨ j = 2 ∨ j = 3 ∨ j = 4 ∨ j = 5) with
      rfl | rfl | rfl | rfl | rfl | rfl <;> simp [List.cons_prefix_cons, eq_comm]

/-- Besides frames, the check takes what has its tail in the header or the number. -/
theorem recognised_iff {buf : List Byte} (hlen : buf.length ≤ 65535) :
    (recognised buf).isSome = true ↔ Framed buf ∨ TailWraps buf := by
  rw [recognised_isSome_iff, Framed, TailWraps]
  have hword : declared buf < 65536 := le16_lt _ _
  rcases Nat.lt_or_ge (declared buf) 65530 with hsmall | hbig
  · have hoffset : u16 (6 + declared buf) = 6 + declared buf := u16_of_lt (by omega)
    rw [hoffset]
    constructor
    · rintro ⟨h8, hh, hfits, htail⟩
      exact Or.inl ⟨hh, by omega, htail⟩
    · rintro (⟨hh, hfits, htail⟩ | ⟨-, -, ⟨hdecl, -⟩ | ⟨hdecl, -⟩⟩)
      · exact ⟨by omega, hh, by omega, htail⟩
      · omega
      · omega
  · have hoffset : u16 (6 + declared buf) ≤ 5 := by
      unfold u16
      omega
    constructor
    · rintro ⟨h8, hh, -, htail⟩
      exact Or.inr ⟨h8, hh, (wrapped_tail_iff h8 hh hbig).mp htail⟩
    · rintro (⟨-, hfits, -⟩ | ⟨h8, hh, hnumber⟩)
      · omega
      · exact ⟨h8, hh, by omega, (wrapped_tail_iff h8 hh hbig).mpr hnumber⟩

theorem updates_iff (accept : Bool) {buf : List Byte} (hpos : 1 ≤ buf.length) (c : Client) :
    Updates accept buf c ↔ (recognised buf).isSome = true := by
  cases hseq : recognised buf with
  | some seq =>
    refine iff_of_true (fun hkeeps => ?_) rfl
    have htotal := hkeeps.total
    rw [notification_recognised hseq, (forward_keeps accept buf _).1.total, (countFrame_keeps seq c).1,
      u32] at htotal
    omega
  | none =>
    refine iff_of_false (fun hupdates => hupdates ?_) (by simp)
    simp only [sleSpeedNotificationCb, if_neg (show ¬ buf.length = 0 by omega), hseq]
    exact (forward_keeps accept buf c).1

/-- **The counters change for frames only, exactly when the address of the tail does not wrap to a
tail.** -/
theorem grammar_iff (accept : Bool) {buf : List Byte} (hpos : 1 ≤ buf.length)
    (hlen : buf.length ≤ 65535) (c : Client) :
    (Updates accept buf c ↔ Framed buf) ↔ ¬ TailWraps buf := by
  rw [updates_iff accept hpos c, recognised_iff hlen]
  have hlong : TailWraps buf → ¬ Framed buf := by
    rintro ⟨-, -, ⟨hdecl, -⟩ | ⟨hdecl, -⟩⟩ ⟨-, hfits, -⟩
    · omega
    · omega
  constructor
  · intro h hwraps
    exact hlong hwraps (h.mp (Or.inr hwraps))
  · intro hwraps
    exact or_iff_left hwraps

/-- A frame with a byte behind it. -/
theorem grammar_padded_frame :
    Updates true [0xAA, 0x55, 7, 0, 1, 0, 9, 0x55, 0xAA, 3] (start 1 true) ↔
      Framed [0xAA, 0x55, 7, 0, 1, 0, 9, 0x55, 0xAA, 3] :=
  (grammar_iff true (by decide) (by decide) (start 1 true)).mpr (by decide)

/-- A header with the length 65531, whose tail is found at its second byte. -/
def tailInHeader : List Byte := [0xAA, 0x55, 0xAA, 0, 0xFB, 0xFF, 0, 0]

theorem header_taken_for_tail :
    ¬ ∀ accept (buf : List Byte) c, 1 ≤ buf.length → buf.length ≤ 65535 →
      (Updates accept buf c ↔ Framed buf) := by
  intro h
  have hupdates : Updates true tailInHeader (start 1 true) :=
    (updates_iff true (by decide) _).mpr (by decide)
  exact absurd ((h true tailInHeader (start 1 true) (by decide) (by decide)).mp hupdates) (by decide)

end NearLink.Speed.Client
