import NearLink.Ict.ParserProofs

/-!
# The frames that the byte parser completes

Whatever is fed, a completed frame is a frame and was just fed. Whatever noise lies between
them, frames are completed.
-/

namespace NearLink.Ict

/-! ## Soundness -/

/-- What happens to the parser: a byte, or the reset at a disconnection. -/
inductive Feed
  | byte (b : Byte)
  | disconnect
  deriving DecidableEq, Repr

/-- The parser, with the bytes fed since the last reset and after the last completed frame. -/
structure Fed where
  parser : Parser
  fresh : List Byte

def Fed.start : Fed := ⟨.start, []⟩

def Fed.feed (s : Fed) : Feed → Fed
  | .byte b =>
    let r := frameParseByte s.parser b
    ⟨r.1, if r.2 then [] else s.fresh ++ [b]⟩
  | .disconnect => ⟨s.parser.reset, []⟩

def Fed.feedAll (s : Fed) (feeds : List Feed) : Fed := feeds.foldl Fed.feed s

theorem waitTailHigh_of_done {p : Parser} {b : Byte} (h : (frameParseByte p b).2 = true) :
    p.parseState = .waitTailHigh := by
  cases hstate : p.parseState with
  | waitTailHigh => rfl
  | waitHeaderLow => simp only [frameParseByte, hstate] at h; split at h <;> cases h
  | waitHeaderHigh => simp only [frameParseByte, hstate] at h; split_ifs at h
  | _ => simp only [frameParseByte, hstate] at h; cases h

theorem frameParseByte_complete {p : Parser} {b : Byte} (h : (frameParseByte p b).2 = true) :
    (frameParseByte p b).1.frameSeq = p.frameSeq ∧
      (frameParseByte p b).1.payloadLen = p.payloadLen := by
  simp only [frameParseByte, waitTailHigh_of_done h]
  exact ⟨rfl, rfl⟩

/-- The part that the parser holds was fed since the last reset or frame. -/
def Fed.Fresh (s : Fed) : Prop := ∃ part, Tracks s.parser part ∧ part <:+ s.fresh

theorem Fed.Fresh.feed {s : Fed} (h : s.Fresh) (e : Feed) : (s.feed e).Fresh := by
  cases e with
  | disconnect => exact ⟨[], .idle rfl, List.nil_suffix⟩
  | byte b =>
    obtain ⟨part, htracks, hsuffix⟩ := h
    obtain ⟨hnext, hout⟩ := frameParseByte_follows htracks b
    refine ⟨(grow 1 1024 part b).1, hnext, ?_⟩
    simp only [Fed.feed]
    split_ifs with hdone
    · rw [frameParseEmit, if_pos hdone] at hout
      rw [(grow_emit htracks.whole hout.symm).1]
    · exact (grow_suffix part b).trans ((List.suffix_append_inj_of_length_eq rfl).mpr ⟨hsuffix, rfl⟩)

theorem Fed.feedAll_fresh (feeds : List Feed) : (Fed.start.feedAll feeds).Fresh := by
  induction feeds using List.reverseRecOn with
  | nil => exact ⟨[], .idle rfl, List.nil_suffix⟩
  | append_singleton feeds e ih =>
    rw [Fed.feedAll, List.foldl_append]
    exact ih.feed e

/-- **What the parser completes is a frame, and all of it was fed since the last reset and after
the last completed frame.** -/
theorem completed_is_frame (feeds : List Feed) (b : Byte)
    (hdone : (frameParseByte (Fed.start.feedAll feeds).parser b).2 = true) :
    ∃ f : Frame 1 1024,
      (frameParseByte (Fed.start.feedAll feeds).parser b).1.frame = f.encode ∧
        f.encode <:+ (Fed.start.feedAll feeds).fresh ++ [b] ∧
        f.seq = (frameParseByte (Fed.start.feedAll feeds).parser b).1.frameSeq ∧
        f.payload.length = (frameParseByte (Fed.start.feedAll feeds).parser b).1.payloadLen := by
  obtain ⟨part, htracks, hsuffix⟩ := Fed.feedAll_fresh feeds
  obtain ⟨-, hout⟩ := frameParseByte_follows htracks b
  rw [frameParseEmit, if_pos hdone] at hout
  obtain ⟨-, h6, hpart, f, hf, hlen, hseq⟩ := grow_emit htracks.whole hout.symm
  obtain ⟨hsame, hsame'⟩ := frameParseByte_complete hdone
  refine ⟨f, hf.symm, ?_, ?_, ?_⟩
  · rw [hf, hpart]
    exact (List.suffix_append_inj_of_length_eq rfl).mpr ⟨hsuffix, rfl⟩
  · rw [hsame, hseq, htracks.seq (by omega)]
  · rw [hsame', hlen, htracks.len (by omega)]

/-- A header that a disconnection cuts off, then a frame of one payload byte but its last byte. -/
def cutHeader : List Feed :=
  [.byte 0xAA, .byte 0x55, .disconnect, .byte 0xAA, .byte 0x55, .byte 7, .byte 0, .byte 1, .byte 0,
    .byte 9, .byte 0x55]

theorem completed_is_frame_cut_header :
    ∃ f : Frame 1 1024, (frameParseByte (Fed.start.feedAll cutHeader).parser 0xAA).1.frame = f.encode ∧
      f.encode <:+ (Fed.start.feedAll cutHeader).fresh ++ [0xAA] := by
  obtain ⟨f, hf, hsuffix, -⟩ := completed_is_frame cutHeader 0xAA (by decide +kernel)
  exact ⟨f, hf, hsuffix⟩

/-! ## Completeness -/

/-- **Every frame of a stream is completed**, at its last byte, and nothing else is. -/
theorem callbacks_complete_stream {p : Parser} (h : p.parseState = .waitHeaderLow)
    (items : List (Gap × Frame 1 1024)) (tail : Gap) (chunks : List (List Byte))
    (hstream : chunks.flatten = stream items tail) :
    (emitChunks frameParseEmit p chunks).2 = items.map (fun i => i.2.encode) ∧
      ∀ n, (frameParseBytes p ((stream items tail).take n)).2 = endedBy n items := by
  have hprefix : ∀ n, (frameParseBytes p ((stream items tail).take n)).2 = endedBy n items := by
    intro n
    rw [frameParseBytes_grow (Tracks.idle h)]
    exact emitAll_grow_stream (by decide) items tail n
  refine ⟨?_, hprefix⟩
  have hall := hprefix (stream items tail).length
  rw [List.take_length, endedBy_all] at hall
  rw [emitChunks_eq, hstream]
  exact hall

/-- What a long frame may have left in the globals. -/
def leftover : Parser := ⟨Block.fill _ 0xAA, 1031, 1024, 1024, 77, .waitHeaderLow⟩

/-- Noise that ends in `0xAA`, then a frame that carries a header. -/
theorem callbacks_complete_header_inside :
    (emitChunks frameParseEmit leftover
        [[3, 0xAA, 0xAA], [0x55, 1, 0, 2, 0, 0xAA, 0x55, 0x55], [0xAA]]).2 =
      [[0xAA, 0x55, 1, 0, 2, 0, 0xAA, 0x55, 0x55, 0xAA]] :=
  (callbacks_complete_stream rfl
    [(⟨[3, 0xAA], by decide⟩, ⟨1, [0xAA, 0x55], by decide, by decide, by decide⟩)] ⟨[], by decide⟩
    [[3, 0xAA, 0xAA], [0x55, 1, 0, 2, 0, 0xAA, 0x55, 0x55], [0xAA]] (by decide)).1

end NearLink.Ict
