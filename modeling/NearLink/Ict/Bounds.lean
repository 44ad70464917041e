import NearLink.Ict.Frames

/-!
# Where the byte parser writes, and how long it stays in a frame

One of the writes checks the index. For the others, the part of a frame that the parser holds
bounds it, and this part cannot grow for ever either.
-/

namespace NearLink.Ict

/-- The place where `FrameParseByte` puts the byte, if it keeps it. -/
def writeIndex (p : Parser) (byte : Byte) : Option Nat :=
  match p.parseState with
  | .waitHeaderLow => if byte = 0xAA then some 0 else none
  | .waitHeaderHigh => if byte = 0x55 then some p.frameIdx else if byte = 0xAA then some 0 else none
  | .readPayload => if p.frameIdx < frameBufSize then some p.frameIdx else none
  | _ => some p.frameIdx

/-- Only this place changes. -/
theorem frameParseByte_frameBuf (p : Parser) (byte : Byte) :
    ((frameParseByte p byte).1.frameBuf, (frameParseByte p byte).1.frameIdx) =
      match writeIndex p byte with
      | some i => (p.frameBuf.write i [byte], u16 (i + 1))
      | none => (p.frameBuf, p.frameIdx) := by
  unfold frameParseByte writeIndex
  cases p.parseState with
  | waitHeaderLow => dsimp only; split_ifs <;> rfl
  | waitHeaderHigh => dsimp only; split_ifs <;> rfl
  | readPayload => dsimp only; split_ifs <;> rfl
  | _ => rfl

theorem writeIndex_cases {p : Parser} {byte : Byte} {i : Nat} (hi : writeIndex p byte = some i) :
    i = 0 ∨ i = p.frameIdx ∧ p.parseState ≠ .waitHeaderLow := by
  unfold writeIndex at hi
  cases hstate : p.parseState with
  | waitHeaderLow =>
    simp only [hstate, Option.ite_none_right_eq_some] at hi
    exact Or.inl (Option.some.inj hi.2).symm
  | waitHeaderHigh =>
    simp only [hstate] at hi
    split_ifs at hi
    · exact Or.inr ⟨(Option.some.inj hi).symm, nofun⟩
    · exact Or.inl (Option.some.inj hi).symm
  | readPayload =>
    simp only [hstate, Option.ite_none_right_eq_some] at hi
    exact Or.inr ⟨(Option.some.inj hi.2).symm, nofun⟩
  | _ =>
    simp only [hstate] at hi
    exact Or.inr ⟨(Option.some.inj hi).symm, nofun⟩

/-- What keeps the writes in `g_frameBuf` and the index right. -/
structure IndexInvariant (p : Parser) : Prop where
  inside : ∀ byte, ∀ i ∈ writeIndex p byte, i < frameBufSize
  payload : p.parseState = .readPayload →
    p.frameIdx = 6 + p.payloadRecv ∧ p.payloadRecv < p.payloadLen ∧ p.payloadLen ≤ 1024
  kept : p.parseState = .readPayload → ∀ byte, writeIndex p byte = some p.frameIdx
  complete : ∀ byte, (frameParseByte p byte).2 = true →
    (frameParseByte p byte).1.frameIdx = (frameParseByte p byte).1.payloadLen + 8

/-! ## The part bounds the index -/

theorem stateOf_short {part : List Byte} (h : part.length < 6) :
    stateOf part ≠ .readPayload ∧ stateOf part ≠ .waitTailHigh := by
  unfold stateOf
  split
  case h_7 hlen => omega
  all_goals exact ⟨nofun, nofun⟩

theorem stateOf_body_iff {part : List Byte} :
    (stateOf part = .readPayload ↔ 6 ≤ part.length ∧ part.length < 6 + declared part) ∧
      (stateOf part = .waitTailHigh ↔ 6 ≤ part.length ∧ 6 + declared part < part.length) := by
  by_cases h6 : 6 ≤ part.length
  · rw [stateOf_body h6]
    split_ifs <;> simp <;> omega
  · obtain ⟨hpay, htail⟩ := stateOf_short (show part.length < 6 by omega)
    exact ⟨iff_of_false hpay fun h => h6 h.1, iff_of_false htail fun h => h6 h.1⟩

section

variable {p : Parser} {part : List Byte}

theorem Tracks.frameIdx_le (h : Tracks p part) (hstate : p.parseState ≠ .waitHeaderLow) :
    p.frameIdx = part.length ∧ part.length ≤ 1031 := by
  have hne : part ≠ [] := by
    rintro rfl
    exact hstate h.state
  exact ⟨(h.buf hne).1, h.whole.length_le⟩

theorem Tracks.writeIndex_lt (h : Tracks p part) {byte : Byte} {i : Nat}
    (hi : writeIndex p byte = some i) : i < frameBufSize := by
  rw [frameBufSize_val]
  rcases writeIndex_cases hi with rfl | ⟨rfl, hstate⟩
  · decide
  · obtain ⟨hidx, hle⟩ := h.frameIdx_le hstate
    omega

theorem Tracks.payload_index (h : Tracks p part) (hstate : p.parseState = .readPayload) :
    p.frameIdx = 6 + p.payloadRecv ∧ p.payloadRecv < p.payloadLen ∧ p.payloadLen ≤ 1024 := by
  obtain ⟨h6, hlt⟩ := stateOf_body_iff.1.mp (h.state.symm.trans hstate)
  have hidx := (h.frameIdx_le (by rw [hstate]; nofun)).1
  have hmax := (h.whole.2 h6).2.1
  rw [h.recv h6, h.len (by omega)]
  omega

theorem Tracks.complete_index (h : Tracks p part) {byte : Byte}
    (hdone : (frameParseByte p byte).2 = true) :
    (frameParseByte p byte).1.frameIdx = (frameParseByte p byte).1.payloadLen + 8 := by
  have hstate := waitTailHigh_of_done hdone
  obtain ⟨h6, hlt⟩ := stateOf_body_iff.2.mp (h.state.symm.trans hstate)
  obtain ⟨hidx, hle⟩ := h.frameIdx_le (by rw [hstate]; nofun)
  have hend := (h.whole.2 h6).2.2.1
  have hlen := h.len (by omega)
  simp only [frameParseByte, hstate, Parser.push, hidx, hlen]
  rw [u16_of_lt (by omega)]
  omega

theorem Tracks.indexInvariant (h : Tracks p part) : IndexInvariant p := by
  refine ⟨fun byte i => h.writeIndex_lt, h.payload_index, ?_, fun byte => h.complete_index⟩
  intro hstate byte
  obtain ⟨hidx, hlt, hmax⟩ := h.payload_index hstate
  unfold writeIndex
  rw [hstate]
  exact if_pos (by rw [frameBufSize_val]; omega)

end

/-- **Every write is inside the buffer**, no payload byte is left out, and the index is the length of
the frame when a frame is complete. -/
theorem index_invariant (feeds : List Feed) : IndexInvariant (Fed.start.feedAll feeds).parser := by
  obtain ⟨part, htracks, -⟩ := Fed.feedAll_fresh feeds
  exact htracks.indexInvariant

/-! ## How long a frame lasts -/

/-- The parser looks for a header. -/
def LooksForHeader (p : Parser) : Prop :=
  p.parseState = .waitHeaderLow ∨ p.parseState = .waitHeaderHigh

theorem Tracks.looksForHeader {p : Parser} {part : List Byte} (h : Tracks p part)
    (hlen : part.length ≤ 1) : LooksForHeader p := by
  rw [LooksForHeader, h.state]
  match part, hlen with
  | [], _ => exact Or.inl rfl
  | [_], _ => exact Or.inr rfl

theorem grow_grows (part : List Byte) (b : Byte) :
    (grow 1 1024 part b).1 = part ++ [b] ∨ (grow 1 1024 part b).1.length ≤ 1 := by
  unfold grow
  split_ifs
  · exact Or.inr (Nat.zero_le 1)
  · exact Or.inr (Nat.zero_le 1)
  · exact Or.inl rfl
  · exact Or.inr (Nat.le_refl 1)
  · exact Or.inr (Nat.zero_le 1)

theorem Tracks.header_within {p : Parser} {part : List Byte} (h : Tracks p part) (bytes : List Byte)
    (hlong : 1032 ≤ part.length + bytes.length) :
    ∃ k, 1 ≤ k ∧ k ≤ bytes.length ∧ LooksForHeader (frameParseBytes p (bytes.take k)).1 := by
  -- What the longest part still lacks is the measure: a byte that breaks nothing takes one off.
  induction bytes generalizing p part with
  | nil =>
    have hmax := h.whole.length_le
    rw [List.length_nil] at hlong
    omega
  | cons b bytes ih =>
    have hnext := (frameParseByte_follows h b).1
    rw [List.length_cons] at hlong ⊢
    rcases grow_grows part b with hgrown | hbroken
    · rw [hgrown] at hnext
      obtain ⟨k, -, hk, hlooks⟩ := ih hnext (by rw [List.length_append, List.length_singleton]; omega)
      exact ⟨k + 1, by omega, by omega, hlooks⟩
    · exact ⟨1, Nat.le_refl 1, by omega, hnext.looksForHeader hbroken⟩

/-- **No 1031 bytes keep the parser from looking for a header.** -/
theorem header_within_frame (feeds : List Feed) {bytes : List Byte} (hlen : bytes.length = 1031) :
    ∃ k, 1 ≤ k ∧ k ≤ 1031 ∧
      LooksForHeader (frameParseBytes (Fed.start.feedAll feeds).parser (bytes.take k)).1 := by
  obtain ⟨part, htracks, -⟩ := Fed.feedAll_fresh feeds
  match bytes, hlen with
  | b :: bytes, hlen =>
    rcases Nat.eq_zero_or_pos part.length with hzero | hpos
    · -- Outside a frame, the first byte is enough.
      obtain rfl := List.eq_nil_of_length_eq_zero hzero
      refine ⟨1, Nat.le_refl 1, by decide, ?_⟩
      apply (frameParseByte_follows htracks b).1.looksForHeader
      rcases grow_grows [] b with hgrown | hbroken
      · rw [hgrown]
        exact Nat.le_refl 1
      · exact hbroken
    · rw [← hlen]
      exact htracks.header_within (b :: bytes) (by omega)

/-- A header with the longest length, and then only zeros. -/
theorem header_within_longest :
    ∃ k, 1 ≤ k ∧ k ≤ 1031 ∧ LooksForHeader (frameParseBytes
      (Fed.start.feedAll [.byte 0xAA, .byte 0x55, .byte 0, .byte 0, .byte 0, .byte 4]).parser
      ((List.replicate 1031 0).take k)).1 :=
  header_within_frame _ List.length_replicate

end NearLink.Ict
