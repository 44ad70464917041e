import NearLink.Ict.Frames

/-!
# When a frame begins where another one breaks

A header byte that breaks a frame begins the next one in one state of the parser only.
-/

namespace NearLink.Ict

/-- The payload length that the byte completes. -/
def lengthWith (p : Parser) (byte : Byte) : Nat := u16 (p.payloadLen ||| byte.toNat <<< 8)

/-- The byte makes `FrameParseByte` give up the frame that it is building: a second header byte, a
length, or a tail byte is wrong. -/
def GivesUp (p : Parser) (byte : Byte) : Prop :=
  (p.parseState = .waitHeaderHigh ∧ byte ≠ 0x55) ∨
    (p.parseState = .readLenHigh ∧
      (lengthWith p byte > audioChunkSamples * 2 ∨ lengthWith p byte = 0)) ∨
    (p.parseState = .waitTailLow ∧ byte ≠ 0x55) ∨ (p.parseState = .waitTailHigh ∧ byte ≠ 0xAA)

instance (p : Parser) (byte : Byte) : Decidable (GivesUp p byte) :=
  inferInstanceAs (Decidable ((p.parseState = .waitHeaderHigh ∧ byte ≠ 0x55) ∨
    (p.parseState = .readLenHigh ∧
      (lengthWith p byte > audioChunkSamples * 2 ∨ lengthWith p byte = 0)) ∨
    (p.parseState = .waitTailLow ∧ byte ≠ 0x55) ∨ (p.parseState = .waitTailHigh ∧ byte ≠ 0xAA)))

/-- Outside a header, the parser then waits for a first header byte, also if it has just read one. -/
theorem givesUp_idle {p : Parser} (h : GivesUp p 0xAA) (hstate : p.parseState ≠ .waitHeaderHigh) :
    (frameParseEmit p 0xAA).2 = none ∧ (frameParseEmit p 0xAA).1.parseState = .waitHeaderLow := by
  rcases h with ⟨hs, -⟩ | ⟨hs, hlen⟩ | ⟨hs, hlow⟩ | ⟨-, hhigh⟩
  · exact absurd hs hstate
  · unfold lengthWith at hlen
    simp only [frameParseEmit, frameParseByte, hs, if_pos hlen, Bool.false_eq_true, if_false,
      and_self]
  · simp only [frameParseEmit, frameParseByte, hs, if_neg hlow, Bool.false_eq_true, if_false,
      and_self]
  · exact absurd rfl hhigh

theorem frameParseBytes_length {p : Parser} (h : p.parseState = .waitHeaderLow) {data v : List Byte}
    (hv : v ∈ (frameParseBytes p data).2) : v.length ≤ data.length := by
  rw [frameParseBytes_grow (Tracks.idle h)] at hv
  simpa using emitAll_grow_length partial_nil hv

/-- **A frame whose first byte breaks another frame is completed exactly when the other one broke
in its header.** -/
theorem resync_iff (feeds : List Feed) (f : Frame 1 1024)
    (hbreak : GivesUp (Fed.start.feedAll feeds).parser 0xAA) :
    f.encode ∈ (frameParseBytes (Fed.start.feedAll feeds).parser f.encode).2 ↔
      (Fed.start.feedAll feeds).parser.parseState = .waitHeaderHigh := by
  obtain ⟨part, htracks, -⟩ := Fed.feedAll_fresh feeds
  constructor
  · intro hmem
    by_contra hstate
    obtain ⟨hnone, hidle⟩ := givesUp_idle hbreak hstate
    obtain ⟨rest, hrest⟩ : ∃ rest, f.encode = 0xAA :: rest := ⟨_, rfl⟩
    rw [frameParseBytes, hrest, emitAll, hnone] at hmem
    -- Too few bytes of the frame are left.
    have hle := frameParseBytes_length hidle hmem
    rw [List.length_cons] at hle
    omega
  · intro hstate
    obtain rfl : part = [0xAA] := by
      have hone : part.length = 1 := length_of_waitHeaderHigh (htracks.state.symm.trans hstate)
      obtain ⟨a, rfl⟩ := List.length_eq_one_iff.mp hone
      have hhead := htracks.whole.1
      simp only [List.take_succ_cons, List.take_nil, List.cons_prefix_cons] at hhead
      rw [hhead.1]
    rw [frameParseBytes_grow htracks, emitAll_grow_encode f (by decide) (Or.inr rfl)]
    exact List.mem_singleton_self _

def nine : Frame 1 1024 := ⟨7, [9], by decide, by decide, by decide⟩

/-- The second AA begins a frame. -/
theorem resync_in_header :
    nine.encode ∈
      (frameParseBytes (Fed.start.feedAll [.byte 3, .byte 0xAA]).parser nine.encode).2 :=
  (resync_iff [.byte 3, .byte 0xAA] nine (by decide +kernel)).mpr rfl

/-- A frame of one payload byte without its tail. -/
def tailless : List Feed :=
  [.byte 0xAA, .byte 0x55, .byte 0, .byte 0, .byte 1, .byte 0, .byte 9]

theorem resync_fails_in_tail :
    ¬ ∀ (feeds : List Feed) (f : Frame 1 1024), GivesUp (Fed.start.feedAll feeds).parser 0xAA →
      f.encode ∈ (frameParseBytes (Fed.start.feedAll feeds).parser f.encode).2 := by
  intro h
  exact absurd (h tailless nine (by decide +kernel)) (by decide +kernel)

end NearLink.Ict
