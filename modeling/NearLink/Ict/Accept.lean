import NearLink.Ict.ClientProofs

/-!
# What the ict_sle client takes for a frame

The header is read at the front of the buffer and the tail at its end. The length field decides
only what is written, after the frame was counted.
-/

namespace NearLink.Ict

def Counts (data : List Byte) (c : Client) : Prop :=
  (processFrame data c).totalRecvPktCount ≠ c.totalRecvPktCount

/-- What a call of `ProcessFrame` should do. -/
structure AcceptsExactly (data : List Byte) (c : Client) : Prop where
  counted : Counts data c ↔ ∃ f : Frame 1 65535, f.encode = data
  written : ∀ f : Frame 1 65535, f.encode = data →
    (processFrame data c).written = c.written ++ [f.payload]
  rejected : ¬ Counts data c → processFrame data c = c

/-- The checks pass, but the length field is 0 or does not fit the buffer. -/
def Mislabelled (data : List Byte) : Prop :=
  ¬ Rejected data ∧ (declared data = 0 ∨ declared data + 8 ≠ data.length)

instance (data : List Byte) : Decidable (Mislabelled data) :=
  inferInstanceAs (Decidable (¬ Rejected data ∧
    (declared data = 0 ∨ declared data + 8 ≠ data.length)))

/-! ## The checks and the frames -/

theorem counts_iff (data : List Byte) (c : Client) : Counts data c ↔ ¬ Rejected data := by
  constructor
  · intro hcounts hrej
    exact hcounts (congrArg Client.totalRecvPktCount (processFrame_rejected hrej c))
  · intro hok
    rw [Counts, processFrame_total hok, u32]
    omega

theorem not_rejected_iff {data : List Byte} (h8 : 8 ≤ data.length) :
    ¬ Rejected data ↔ Headed data ∧ [0x55, 0xAA] <+: data.drop (data.length - 2) := by
  have hhead : word data 0 = Client.audioFrameHeader ↔ Headed data := by
    rw [word_eq]
    exact pair_at_iff (by omega) 0xAA 0x55
  have htail : word data (data.length - 2) = Client.audioFrameTail ↔
      [0x55, 0xAA] <+: data.drop (data.length - 2) := by
    rw [word_eq]
    exact pair_at_iff (by omega) 0x55 0xAA
  have hlong : ¬ data.length < Client.audioFrameOverhead := by
    unfold Client.audioFrameOverhead
    omega
  rw [Rejected, ← hhead, ← htail]
  push Not
  exact and_iff_right (by omega)

theorem frame_iff (data : List Byte) :
    (∃ f : Frame 1 65535, f.encode = data) ↔
      ¬ Rejected data ∧ declared data ≠ 0 ∧ declared data + 8 = data.length := by
  constructor
  · rintro ⟨f, rfl⟩
    have hpos := f.lo_le
    have hlen := f.encode_length
    have hdecl := declared_encode f [] (by decide)
    rw [List.append_nil] at hdecl
    exact ⟨not_rejected f, by omega, by omega⟩
  · rintro ⟨hok, hpos, hlen⟩
    rw [not_rejected_iff (by omega), show data.length - 2 = 6 + declared data by omega] at hok
    obtain ⟨hhead, htail⟩ := hok
    have hword : declared data < 65536 := le16_lt _ _
    have hlook : frameLook (8 + 65535) data = .emit (8 + declared data) data := by
      have hskip : ¬ (¬ Headed data ∨ 8 + 65535 < 8 + declared data) := by
        rintro (h | h)
        · exact h hhead
        · omega
      have hmove : ¬ ¬ Tailed data := not_not_intro htail
      rw [frameLook, if_neg (by omega), if_neg hskip, if_neg (by omega), if_neg hmove,
        List.take_of_length_le (by omega)]
    obtain ⟨f, hf⟩ := frame_of_look hlook
    have hf1 : 1 ≤ f.payload.length := by
      have hflen := f.encode_length
      rw [hf] at hflen
      omega
    exact ⟨⟨f.seq, f.payload, f.seq_lt, hf1, f.le_hi⟩, hf⟩

/-! ## The condition -/

/-- **The client accepts exactly the frames, except that it counts a buffer whose length field is
wrong.** -/
theorem accepts_exactly_iff (data : List Byte) (c : Client) :
    AcceptsExactly data c ↔ ¬ Mislabelled data := by
  constructor
  · rintro h ⟨hok, hlabel⟩
    obtain ⟨-, hpos, hlen⟩ := (frame_iff data).mp (h.counted.mp ((counts_iff data c).mpr hok))
    rcases hlabel with h0 | hne
    · exact hpos h0
    · exact hne hlen
  · intro hlabel
    refine ⟨?_, ?_, ?_⟩
    · rw [counts_iff, frame_iff]
      refine ⟨fun hok => ⟨hok, ?_, ?_⟩, And.left⟩
      · exact fun h0 => hlabel ⟨hok, Or.inl h0⟩
      · by_contra hne
        exact hlabel ⟨hok, Or.inr hne⟩
    · rintro f rfl
      rw [processFrame_spec f (by decide), if_pos (show 0 < f.payload.length from f.lo_le)]
    · intro hrej
      rw [counts_iff, not_not] at hrej
      exact processFrame_rejected hrej c

/-- A frame that lost four of its five payload bytes on the way. -/
def truncated : List Byte := [0xAA, 0x55, 7, 0, 5, 0, 9, 0x55, 0xAA]

theorem truncated_counted : ¬ ∀ (data : List Byte) (c : Client), AcceptsExactly data c := by
  intro h
  have hcounts : Counts truncated Client.start := (counts_iff _ _).mpr (by decide)
  have hframe := (frame_iff truncated).mp ((h truncated Client.start).counted.mp hcounts)
  exact absurd hframe.2.2 (by decide)

end NearLink.Ict
