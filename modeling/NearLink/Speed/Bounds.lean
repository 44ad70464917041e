import Mathlib.Data.List.Chain
import NearLink.Speed.Reassembly

/-!
# Where the extraction loop reads

The frame length is computed in 16 bits, the address of the tail is not. A length of 65528 or more
passes both guards and puts the tail outside the buffer.
-/

namespace NearLink.Speed

/-! ## The loop with its reads -/

def Access.Within (a : Access) (len : Nat) : Prop := a.off + a.size ≤ len

instance (a : Access) (len : Nat) : Decidable (a.Within len) :=
  inferInstanceAs (Decidable (a.off + a.size ≤ len))

/-- All that an iteration reads. An accepted frame is copied if there is a queue. -/
def iterReads (uartQueueId : Nat) (outside : Nat → Byte) (buf : Block Byte reassembleBufSize)
    (len pos : Nat) : List Access :=
  (extractIterReads outside buf len pos).2 ++
    match extractIter outside buf len pos with
    | .frame total => if uartQueueId ≠ 0 then [⟨pos, total⟩] else []
    | .skip | .stop => []

variable (uartQueueId : Nat) (outside : Nat → Byte) (buf : Block Byte reassembleBufSize)
  {len pos : Nat}

/-- Where an iteration of the loop begins. -/
structure Visit where
  iter : Nat
  pos : Nat
  deriving DecidableEq, Repr

def loopVisits (outside : Nat → Nat → Byte) (buf : Block Byte reassembleBufSize) (len : Nat) :
    (fuel k pos : Nat) → List Visit
  | 0, _, _ => []
  | fuel + 1, k, pos =>
    ⟨k, pos⟩ :: match extractIter (outside k) buf len pos with
      | .stop => []
      | .skip => loopVisits outside buf len fuel (k + 1) (u16 (pos + 1))
      | .frame total => loopVisits outside buf len fuel (k + 1) (u16 (pos + total))

/-- What the loop reads within `fuel` iterations. -/
def loopReads (uartQueueId : Nat) (outside : Nat → Nat → Byte) (buf : Block Byte reassembleBufSize)
    (len fuel k pos : Nat) : List Access :=
  (loopVisits outside buf len fuel k pos).flatMap fun v =>
    iterReads uartQueueId (outside v.iter) buf len v.pos

/-! ## One iteration -/

/-- The header at the front declares a length that wraps, and the loop looks at it. -/
def Wraps (v : List Byte) : Prop := Headed v ∧ 8 ≤ v.length ∧ 65528 ≤ declared v

instance (v : List Byte) : Decidable (Wraps v) :=
  inferInstanceAs (Decidable (Headed v ∧ 8 ≤ v.length ∧ 65528 ≤ declared v))

theorem extractIter_unwrapped (hlen : len ≤ 6000) (h : ¬ Wraps (window buf len pos)) :
    extractIter outside buf len pos =
      Iter.ofMove (frameLook uartQueueBufSize (window buf len pos)) := by
  refine extractIter_spec outside buf hlen fun hh h8 => ?_
  by_contra hbig
  exact h ⟨hh, h8, by omega⟩

theorem Wraps.pos_le (hlen : len ≤ 6000) (h : Wraps (window buf len pos)) : pos + 8 ≤ len := by
  have h8 := h.2.1
  rw [window_length buf pos hlen] at h8
  omega

/-- The wrapped length is below 8, and the tail is read beyond the buffer. -/
theorem extractIterReads_wraps (hlen : len ≤ 6000) (h : Wraps (window buf len pos)) :
    extractIterReads outside buf len pos =
      (if read16 outside buf (pos + 6 + declared (window buf len pos)) ≠ audioTail then .skip
        else .frame (declared (window buf len pos) - 65528),
        [⟨pos, 2⟩, ⟨pos + 4, 2⟩, ⟨pos + 6 + declared (window buf len pos), 2⟩]) := by
  have h8 := h.pos_le buf hlen
  obtain ⟨hh, -, hbig⟩ := h
  have hword : declared (window buf len pos) < 65536 := le16_lt _ _
  have htotal : u16 (6 + declared (window buf len pos) + 2) =
      declared (window buf len pos) - 65528 := by
    unfold u16
    omega
  have hhdr : ¬ read16 outside buf pos ≠ audioHeader :=
    not_not.mpr ((read16_header outside buf hlen h8).mpr hh)
  simp only [extractIterReads, audioFrameMinLen_val, uartQueueBufSize_val, if_pos h8, if_neg hhdr,
    read16_declared outside buf hlen h8, htotal]
  rw [if_neg (by omega), if_neg (by omega), if_neg (by omega)]

theorem extractIterReads_unwrapped (hlen : len ≤ 6000) (h : ¬ Wraps (window buf len pos)) :
    ∀ a ∈ (extractIterReads outside buf len pos).2, a.Within len := by
  by_cases h8 : pos + 8 ≤ len
  swap
  · simp [extractIterReads, h8]
  have htotal : read16 outside buf pos = audioHeader →
      u16 (6 + declared (window buf len pos) + 2) = 8 + declared (window buf len pos) := by
    intro hh
    have hlt : declared (window buf len pos) < 65528 := by
      by_contra hbig
      refine h ⟨(read16_header outside buf hlen h8).mp hh, ?_, by omega⟩
      rw [window_length buf pos hlen]
      omega
    rw [u16_of_lt (by omega)]
    omega
  simp only [extractIterReads, audioFrameMinLen_val, if_pos h8,
    read16_declared outside buf hlen h8]
  split_ifs with hh h6 hbig hmore <;>
    simp only [List.forall_mem_cons, List.not_mem_nil, IsEmpty.forall_iff, implies_true, and_true,
      Access.Within]
  -- Once the header is there, the guards hold for the true length.
  · omega
  all_goals
    have := htotal (not_not.mp hh)
    omega

theorem iterReads_unwrapped (hlen : len ≤ 6000) (h : ¬ Wraps (window buf len pos)) :
    ∀ a ∈ iterReads uartQueueId outside buf len pos, a.Within len := by
  intro a ha
  rcases List.mem_append.mp ha with ha | ha
  · exact extractIterReads_unwrapped outside buf hlen h a ha
  · cases hiter : extractIter outside buf len pos with
    | stop => simp [hiter] at ha
    | skip => simp [hiter] at ha
    | frame total =>
      obtain ⟨-, rfl⟩ : uartQueueId ≠ 0 ∧ a = ⟨pos, total⟩ := by simpa [hiter] using ha
      exact (extractIter_frame outside buf hiter).2.1

/-! ## The reads of the loop -/

theorem loopReads_succ (outside : Nat → Nat → Byte) (len fuel k pos : Nat) :
    loopReads uartQueueId outside buf len (fuel + 1) k pos =
      iterReads uartQueueId (outside k) buf len pos ++
        match extractIter (outside k) buf len pos with
        | .stop => []
        | .skip => loopReads uartQueueId outside buf len fuel (k + 1) (u16 (pos + 1))
        | .frame total =>
          loopReads uartQueueId outside buf len fuel (k + 1) (u16 (pos + total)) := by
  simp only [loopReads, loopVisits, List.flatMap_cons]
  cases extractIter (outside k) buf len pos <;> rfl

theorem loopReads_next (outside : Nat → Nat → Byte) {k next : Nat}
    (hnow : ∀ a ∈ iterReads uartQueueId (outside k) buf len pos, a.Within len)
    (hnext : ∀ fuel, loopReads uartQueueId outside buf len (fuel + 1) k pos =
      iterReads uartQueueId (outside k) buf len pos ++
        loopReads uartQueueId outside buf len fuel (k + 1) next) :
    (∀ fuel, ∀ a ∈ loopReads uartQueueId outside buf len fuel k pos, a.Within len) ↔
      ∀ fuel, ∀ a ∈ loopReads uartQueueId outside buf len fuel (k + 1) next, a.Within len := by
  constructor
  · intro hall fuel a ha
    apply hall (fuel + 1) a
    rw [hnext]
    exact List.mem_append_right _ ha
  · intro hall fuel a ha
    cases fuel with
    | zero => cases ha
    | succ fuel =>
      rw [hnext] at ha
      rcases List.mem_append.mp ha with ha | ha
      · exact hnow a ha
      · exact hall fuel a ha

/-- The loop reads outside the received bytes as soon as it comes to a length that wraps. -/
theorem loopReads_within_iff (outside : Nat → Nat → Byte) (hlen : len ≤ 6000) (k pos : Nat) :
    (∀ fuel, ∀ a ∈ loopReads uartQueueId outside buf len fuel k pos, a.Within len) ↔
      ∀ v ∈ (frameScanner uartQueueBufSize).trail (window buf len pos), ¬ Wraps v := by
  by_cases hwraps : Wraps (window buf len pos)
  · refine iff_of_false (fun hall => ?_) fun hall =>
      hall _ ((frameScanner uartQueueBufSize).mem_trail_self _) hwraps
    have hmem : (⟨pos + 6 + declared (window buf len pos), 2⟩ : Access) ∈
        loopReads uartQueueId outside buf len 1 k pos := by
      rw [loopReads_succ, iterReads, extractIterReads_wraps (outside k) buf hlen hwraps]
      exact List.mem_append_left _ (List.mem_append_left _ (by simp))
    have hin : pos + 6 + declared (window buf len pos) + 2 ≤ len := hall 1 _ hmem
    have hbig := hwraps.2.2
    omega
  have hnow := iterReads_unwrapped uartQueueId (outside k) buf hlen hwraps
  have hiter := extractIter_unwrapped (outside k) buf hlen hwraps
  cases hlook : frameLook uartQueueBufSize (window buf len pos) with
  | wait =>
    rw [Scanner.trail_wait hlook]
    refine iff_of_true (fun fuel a ha => ?_) fun v hv => List.mem_singleton.mp hv ▸ hwraps
    cases fuel with
    | zero => cases ha
    | succ fuel =>
      rw [loopReads_succ, extractIter_of_wait _ buf hiter hlook] at ha
      simp only [List.append_nil] at ha
      exact hnow a ha
  | skip =>
    obtain ⟨hskip, h8, hnext⟩ := extractIter_of_skip _ buf hlen hiter hlook
    have hreads : ∀ fuel, loopReads uartQueueId outside buf len (fuel + 1) k pos =
        iterReads uartQueueId (outside k) buf len pos ++
          loopReads uartQueueId outside buf len fuel (k + 1) (pos + 1) := by
      intro fuel
      simp only [loopReads_succ, hskip, hnext]
    rw [Scanner.trail_skip hlook, window_drop, List.forall_mem_cons, and_iff_right hwraps,
      loopReads_next uartQueueId buf outside hnow hreads]
    exact loopReads_within_iff outside hlen (k + 1) (pos + 1)
  | emit total out =>
    obtain ⟨hframe, htotal, -, hle, hnext⟩ := extractIter_of_emit _ buf hlen hiter hlook
    have hreads : ∀ fuel, loopReads uartQueueId outside buf len (fuel + 1) k pos =
        iterReads uartQueueId (outside k) buf len pos ++
          loopReads uartQueueId outside buf len fuel (k + 1) (pos + total) := by
      intro fuel
      simp only [loopReads_succ, hframe, hnext]
    rw [Scanner.trail_emit hlook, window_drop, List.forall_mem_cons, and_iff_right hwraps,
      loopReads_next uartQueueId buf outside hnow hreads]
    exact loopReads_within_iff outside hlen (k + 1) (pos + total)
termination_by len - pos

/-! ## The reads of a callback -/

/-- Whatever the loop of the callback reads lies in the received bytes. -/
def InBounds (uartQueueId : Nat) (c : Call) (rx : Rx) : Prop :=
  ∀ overflowed r, loopStart c rx = .reached overflowed r → ∀ fuel,
    ∀ a ∈ loopReads uartQueueId c.outside r.reassembleBuf r.reassembleLen fuel 0 0,
      a.Within r.reassembleLen

theorem loopStart_chunk {rx : Rx} (hwait : rx.Waiting) {c : Call} (hc : c.Chunk) :
    loopStart c rx = .reached false (appended rx c.bytes) := by
  obtain ⟨h1, hmax⟩ := hc
  have hlen := hwait.len_le
  have hmax' : c.bytes.length ≤ 1500 := hmax
  exact loopStart_fits (List.ne_nil_of_length_pos h1) (by omega)

/-- **A callback reads the received bytes only, exactly when its loop comes to no header whose
length wraps.** -/
theorem reads_in_bounds_iff {fuel uartQueueId : Nat} {calls : List Call} {c : Call}
    (hret : ∀ o ∈ (runCalls fuel uartQueueId Rx.start calls).2, o.returned = true)
    (hc : c.Chunk) :
    InBounds uartQueueId c (runCalls fuel uartQueueId Rx.start calls).1 ↔
      ∀ v ∈ (frameScanner uartQueueBufSize).trail
        ((runCalls fuel uartQueueId Rx.start calls).1.received ++ c.bytes), ¬ Wraps v := by
  have hwait := runCalls_waiting calls (.of_empty rfl) hret
  have hlen := hwait.len_le
  have hmax : c.bytes.length ≤ 1500 := hc.2
  have hfit : (runCalls fuel uartQueueId Rx.start calls).1.reassembleLen + c.bytes.length ≤ 6000 := by
    omega
  rw [← appended_received hfit]
  refine Iff.trans ?_ (loopReads_within_iff uartQueueId
    (appended (runCalls fuel uartQueueId Rx.start calls).1 c.bytes).reassembleBuf c.outside hfit 0 0)
  rw [InBounds, loopStart_chunk hwait hc]
  constructor
  · intro hall
    exact hall false _ rfl
  · intro hall overflowed r hr
    obtain ⟨-, rfl⟩ := LoopStart.reached.inj hr
    exact hall

/-- A frame behind the rest of a broken one. -/
theorem reads_in_bounds_broken_frame :
    InBounds 1 (.ok [0, 0xAA, 0x55, 2, 0, 1, 0, 7, 0x55, 0xAA])
      (runCalls 6001 1 Rx.start [.ok [0xAA, 0x55, 1, 0, 2, 0, 9]]).1 :=
  (reads_in_bounds_iff (by decide +kernel) (by decide)).mpr (by decide +kernel)

/-- A header with the length 65535. -/
def wrapped : List Byte := [0xAA, 0x55, 0, 0, 0xFF, 0xFF, 0, 0]

theorem reads_outside_wrapped :
    ¬ ∀ fuel uartQueueId calls c,
      (∀ o ∈ (runCalls fuel uartQueueId Rx.start calls).2, o.returned = true) → c.Chunk →
      InBounds uartQueueId c (runCalls fuel uartQueueId Rx.start calls).1 := by
  intro h
  have hin := h 1 1 [] (.ok wrapped) (by simp [runCalls]) (by decide) false _
    (loopStart_chunk (.of_empty rfl) (by decide)) 1 ⟨65541, 2⟩ (by decide +kernel)
  exact absurd hin (by decide +kernel)

end NearLink.Speed
