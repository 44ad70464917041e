import NearLink.Frame
import NearLink.Machine

/-!
# A recogniser for frames

What a byte parser is for: it holds the part of a frame that it has seen, and gives the part up
when the next byte cannot continue it.
-/

namespace NearLink

variable {lo hi : Nat}

def Partial (lo hi : Nat) (v : List Byte) : Prop :=
  v.take 2 <+: [0xAA, 0x55] ∧
    (6 ≤ v.length → lo ≤ declared v ∧ declared v ≤ hi ∧ v.length < 8 + declared v ∧
      (v.length = 7 + declared v → v.getLast? = some 0x55))

instance (lo hi : Nat) (v : List Byte) : Decidable (Partial lo hi v) :=
  inferInstanceAs (Decidable (v.take 2 <+: [0xAA, 0x55] ∧
    (6 ≤ v.length → lo ≤ declared v ∧ declared v ≤ hi ∧ v.length < 8 + declared v ∧
      (v.length = 7 + declared v → v.getLast? = some 0x55))))

/-- The part that is left after one more byte, and the frame that the byte makes whole. A part
that breaks is dropped together with the byte, unless it is the first byte of a header and the
byte is so too. -/
def grow (lo hi : Nat) (part : List Byte) (b : Byte) : List Byte × Option (List Byte) :=
  if 6 ≤ part.length ∧ part.length = 7 + declared part then
    ([], if b = 0xAA then some (part ++ [b]) else none)
  else if Partial lo hi (part ++ [b]) then (part ++ [b], none)
  else if part.length = 1 ∧ b = 0xAA then ([0xAA], none)
  else ([], none)

theorem partial_nil : Partial lo hi [] := ⟨by simp, by simp⟩

theorem partial_first : Partial lo hi [0xAA] := ⟨by simp, by simp⟩

theorem Partial.length_le {part : List Byte} (h : Partial lo hi part) :
    part.length ≤ 7 + hi := by
  by_cases h6 : 6 ≤ part.length
  · obtain ⟨-, hhi, hlt, -⟩ := h.2 h6
    omega
  · omega

theorem partial_grow (lo hi : Nat) (part : List Byte) (b : Byte) :
    Partial lo hi (grow lo hi part b).1 := by
  unfold grow
  split_ifs with hend hb hpart hfirst
  · exact partial_nil
  · exact partial_nil
  · exact hpart
  · exact partial_first
  · exact partial_nil

theorem grow_suffix (part : List Byte) (b : Byte) : (grow lo hi part b).1 <:+ part ++ [b] := by
  unfold grow
  split_ifs with hend hb hpart hfirst
  · exact List.nil_suffix
  · exact List.nil_suffix
  · exact List.suffix_refl _
  · rw [hfirst.2]; exact List.suffix_append _ _
  · exact List.nil_suffix

/-! ## How a part grows -/

theorem grow_short {part : List Byte} (h : Partial lo hi part) (h2 : 2 ≤ part.length)
    (h5 : part.length < 5) (b : Byte) : grow lo hi part b = (part ++ [b], none) := by
  have hpart : Partial lo hi (part ++ [b]) := by
    refine ⟨by rw [List.take_append_of_le_length h2]; exact h.1, fun h6 => ?_⟩
    rw [List.length_append, List.length_singleton] at h6
    omega
  rw [grow, if_neg (by omega), if_pos hpart]

theorem grow_length {part : List Byte} (h : Partial lo hi part) (h5 : part.length = 5) (b : Byte) :
    grow lo hi part b =
      if lo ≤ declared (part ++ [b]) ∧ declared (part ++ [b]) ≤ hi then (part ++ [b], none)
      else ([], none) := by
  have hpart : Partial lo hi (part ++ [b]) ↔
      lo ≤ declared (part ++ [b]) ∧ declared (part ++ [b]) ≤ hi := by
    constructor
    · intro hp
      obtain ⟨hlo, hhi, -⟩ := hp.2 (by simp [h5])
      exact ⟨hlo, hhi⟩
    · rintro ⟨hlo, hhi⟩
      refine ⟨by rw [List.take_append_of_le_length (by omega)]; exact h.1, fun _ => ⟨hlo, hhi, ?_, ?_⟩⟩
      · simp [h5]; omega
      · simp [h5]; omega
  rw [grow, if_neg (by omega)]
  simp only [hpart, if_neg (show ¬ (part.length = 1 ∧ b = 0xAA) by omega)]

/-- From the length on, only the first byte of the tail is looked at. -/
theorem grow_body {part : List Byte} (h : Partial lo hi part) (h6 : 6 ≤ part.length)
    (hend : part.length < 7 + declared part) (b : Byte) :
    grow lo hi part b =
      if part.length = 6 + declared part → b = 0x55 then (part ++ [b], none) else ([], none) := by
  obtain ⟨hlo, hhi, -, -⟩ := h.2 h6
  have hdecl := declared_append h6 [b]
  have hpart : Partial lo hi (part ++ [b]) ↔ (part.length = 6 + declared part → b = 0x55) := by
    rw [Partial, hdecl, List.take_append_of_le_length (by omega), List.length_append,
      List.length_singleton, List.getLast?_concat]
    constructor
    · rintro ⟨-, hall⟩ hlast
      exact Option.some.inj ((hall (by omega)).2.2.2 (by omega))
    · intro hlast
      exact ⟨h.1, fun _ => ⟨hlo, hhi, by omega, fun heq => by rw [hlast (by omega)]⟩⟩
  rw [grow, if_neg (by omega)]
  simp only [hpart, if_neg (show ¬ (part.length = 1 ∧ b = 0xAA) by omega)]

theorem grow_end (lo hi : Nat) {part : List Byte} (h6 : 6 ≤ part.length)
    (hend : part.length = 7 + declared part) (b : Byte) :
    grow lo hi part b = ([], if b = 0xAA then some (part ++ [b]) else none) := by
  rw [grow, if_pos ⟨h6, hend⟩]

/-! ## What is emitted is a frame -/

theorem Partial.encode {part : List Byte} (h : Partial lo hi part) (h6 : 6 ≤ part.length)
    (hlen : part.length = 7 + declared part) :
    ∃ f : Frame lo hi, f.encode = part ++ [0xAA] ∧ f.payload.length = declared part ∧
      f.seq = le16 (part.getD 2 0) (part.getD 3 0) := by
  obtain ⟨hlo, hhi, -, hlast⟩ := h.2 h6
  have hlast := hlast hlen
  match part, h6 with
  | a :: b :: s :: t :: l :: m :: rest, _ =>
    obtain ⟨rfl, rfl⟩ : a = 0xAA ∧ b = 0x55 := by
      have := h.1
      simpa [List.cons_prefix_cons] using this
    have hdecl : declared (0xAA :: 0x55 :: s :: t :: l :: m :: rest) = le16 l m := rfl
    rw [hdecl] at hlo hhi hlen ⊢
    simp only [List.length_cons] at hlen
    obtain ⟨pl, rfl⟩ : ∃ pl, rest = pl ++ [0x55] := by
      have hne : rest ≠ [] := List.ne_nil_of_length_pos (by omega)
      refine ⟨rest.dropLast, ?_⟩
      have hget : rest.getLast? = some 0x55 := by
        simpa [List.getLast?_cons, List.getLast?_eq_some_getLast hne] using hlast
      rw [List.getLast?_eq_some_getLast hne] at hget
      rw [← Option.some.inj hget, List.dropLast_append_getLast]
    have hpl : pl.length = le16 l m := by
      simp only [List.length_append, List.length_singleton] at hlen
      omega
    refine ⟨⟨le16 s t, pl, le16_lt s t, by omega, by omega⟩, ?_, hpl, rfl⟩
    simp [Frame.encode, hpl, loByte_le16, hiByte_le16]

theorem grow_emit {part v : List Byte} {b : Byte} (h : Partial lo hi part)
    (hv : (grow lo hi part b).2 = some v) :
    (grow lo hi part b).1 = [] ∧ 6 ≤ part.length ∧ v = part ++ [b] ∧
      ∃ f : Frame lo hi, f.encode = v ∧ f.payload.length = declared part ∧
        f.seq = le16 (part.getD 2 0) (part.getD 3 0) := by
  unfold grow at hv ⊢
  split_ifs at hv with hend hb
  obtain rfl := Option.some.inj hv
  obtain ⟨f, hf⟩ := h.encode hend.1 hend.2
  rw [if_pos hend, hb]
  exact ⟨rfl, hend.1, rfl, f, hf⟩

/-- An emitted frame is no longer than what was held and read. -/
theorem emitAll_grow_length {part bs v : List Byte} (hpart : Partial lo hi part)
    (hv : v ∈ (emitAll (grow lo hi) part bs).2) : v.length ≤ part.length + bs.length := by
  induction bs generalizing part with
  | nil => cases hv
  | cons b bs ih =>
    rw [emitAll, List.mem_append, Option.mem_toList] at hv
    rw [List.length_cons]
    rcases hv with hnow | hlater
    · obtain ⟨-, -, rfl, -⟩ := grow_emit hpart hnow
      rw [List.length_append, List.length_singleton]
      omega
    · have hrest := ih (partial_grow lo hi part b) hlater
      have hgrown := (show (grow lo hi part b).1 <:+ part ++ [b] from grow_suffix part b).length_le
      rw [List.length_append, List.length_singleton] at hgrown
      omega

/-! ## Every frame is emitted -/

theorem partial_of_cut {f : Frame lo hi} {v : List Byte} (h : v <+: f.encode)
    (hlt : v.length < f.encode.length) (h16 : hi < 65536) : Partial lo hi v := by
  obtain ⟨t, ht⟩ := h
  have hlen := f.encode_length
  refine ⟨?_, fun h6 => ?_⟩
  · have hpre : v.take 2 <+: f.encode.take 2 := by
      rw [← ht]
      exact (List.prefix_append v t).take 2
    simpa [Frame.encode] using hpre
  · have hdecl : declared v = f.payload.length := by
      rw [← declared_append h6 t, ht, ← declared_encode f [] h16, List.append_nil]
    refine ⟨by rw [hdecl]; exact f.lo_le, by rw [hdecl]; exact f.le_hi, by omega, fun hall => ?_⟩
    have hv : v = f.encode.take (7 + f.payload.length) := by
      rw [← ht, List.take_append_of_le_length (by omega), List.take_of_length_le (by omega)]
    rw [hv, Nat.add_comm]
    simp [Frame.encode, List.take_append, List.getLast?_cons]

theorem emitAll_grow_frame {f : Frame lo hi} (h16 : hi < 65536) (part bs : List Byte)
    (h : part ++ bs <+: f.encode) (hlt : (part ++ bs).length < f.encode.length) :
    emitAll (grow lo hi) part bs = (part ++ bs, []) := by
  induction bs generalizing part with
  | nil => simp [emitAll]
  | cons b bs ih =>
    have hpre : part ++ [b] <+: f.encode :=
      List.IsPrefix.trans ⟨bs, by simp⟩ h
    have hshort : (part ++ [b]).length < f.encode.length := by
      simp only [List.length_append, List.length_cons, List.length_nil] at hlt ⊢
      omega
    have hlen := f.encode_length
    have hcut : ¬ (6 ≤ part.length ∧ part.length = 7 + declared part) := by
      rintro ⟨h6, hend⟩
      obtain ⟨t, ht⟩ := h
      have hdecl : declared part = f.payload.length := by
        rw [← declared_append h6 (b :: bs ++ t), ← List.append_assoc, ht, ← declared_encode f [] h16,
          List.append_nil]
      simp only [List.length_append, List.length_singleton] at hshort
      omega
    have hstep : grow lo hi part b = (part ++ [b], none) := by
      rw [grow, if_neg hcut, if_pos (partial_of_cut hpre hshort h16)]
    have hrest := ih (part ++ [b]) (by simpa using h) (by simpa using hlt)
    rw [emitAll, hstep, hrest]
    simp

/-- At most the first byte of a header is held. -/
def Idle (part : List Byte) : Prop := part = [] ∨ part = [0xAA]

theorem grow_idle {part : List Byte} (h : Idle part) : grow lo hi part 0xAA = ([0xAA], none) := by
  rcases h with rfl | rfl <;> simp [grow, Partial, declared]

theorem emitAll_grow_cut {f : Frame lo hi} {part p : List Byte} (h16 : hi < 65536)
    (hidle : Idle part) (hp : p <+: f.encode) (hlt : p.length < f.encode.length) :
    (emitAll (grow lo hi) part p).2 = [] := by
  cases p with
  | nil => rfl
  | cons b p =>
    obtain rfl : b = 0xAA := by
      simp only [Frame.encode, List.cons_prefix_cons] at hp
      exact hp.1
    rw [emitAll, grow_idle hidle, emitAll_grow_frame h16 [0xAA] p hp hlt]
    rfl

theorem emitAll_grow_encode (f : Frame lo hi) {part : List Byte} (h16 : hi < 65536)
    (hidle : Idle part) : emitAll (grow lo hi) part f.encode = ([], [f.encode]) := by
  have hlen := f.encode_length
  obtain ⟨mid, hmid⟩ : ∃ mid, f.encode = (0xAA :: mid) ++ [0xAA] :=
    ⟨0x55 :: loByte f.seq :: hiByte f.seq :: loByte f.payload.length :: hiByte f.payload.length ::
      (f.payload ++ [0x55]), by simp [Frame.encode]⟩
  have hpre : [0xAA] ++ mid <+: f.encode := by rw [hmid]; exact List.prefix_append _ _
  have hlt : ([0xAA] ++ mid).length < f.encode.length := by rw [hmid]; simp
  have hdecl : declared (0xAA :: mid) = f.payload.length := by
    rw [← declared_append (t := [0xAA]) (by rw [hmid] at hlen; simp at hlen ⊢; omega), ← hmid,
      ← declared_encode f [] h16, List.append_nil]
  rw [hmid] at hlen
  simp only [List.length_append, List.length_cons, List.length_nil] at hlen
  have hlast : grow lo hi (0xAA :: mid) 0xAA = ([], some ((0xAA :: mid) ++ [0xAA])) := by
    rw [grow, if_pos ⟨by simp; omega, by rw [hdecl]; simp; omega⟩, if_pos rfl]
  have hopen : emitAll (grow lo hi) part (0xAA :: mid) = (0xAA :: mid, []) := by
    rw [emitAll, grow_idle hidle, emitAll_grow_frame h16 [0xAA] mid hpre hlt]
    rfl
  rw [hmid, emitAll_append, hopen, emitAll, hlast]
  rfl

/-- Noise is not emitted, and leaves nothing behind but a last AA. -/
theorem emitAll_grow_noise {part g : List Byte} (hidle : Idle part)
    (hg : ¬ [0xAA, 0x55] <:+: part ++ g) :
    Idle (emitAll (grow lo hi) part g).1 ∧ (emitAll (grow lo hi) part g).2 = [] := by
  induction g generalizing part with
  | nil => exact ⟨hidle, rfl⟩
  | cons b g ih =>
    by_cases hb : b = 0xAA
    · have hrest : ¬ [0xAA, 0x55] <:+: [0xAA] ++ g := by
        intro hin
        refine hg (hin.trans (List.IsSuffix.isInfix ⟨part, ?_⟩))
        rw [hb, List.singleton_append]
      rw [emitAll, hb, grow_idle hidle]
      exact ih (Or.inr rfl) hrest
    · have hstep : grow lo hi part b = ([], none) := by
        rcases hidle with rfl | rfl
        · simp [grow, Partial, hb]
        · have h55 : b ≠ 0x55 := by
            rintro rfl
            exact hg ⟨[], g, by simp⟩
          simp [grow, Partial, declared, hb, h55, List.cons_prefix_cons]
      have hrest : ¬ [0xAA, 0x55] <:+: [] ++ g := by
        intro hin
        refine hg (hin.trans (List.IsSuffix.isInfix ⟨part ++ [b], by simp⟩))
      rw [emitAll, hstep]
      exact ih (Or.inl rfl) hrest

/-- **After any number of bytes of a stream, the frames that are complete have been emitted.** -/
theorem emitAll_grow_stream (h16 : hi < 65536) (items : List (Gap × Frame lo hi)) (tail : Gap)
    (n : Nat) : (emitAll (grow lo hi) [] ((stream items tail).take n)).2 = endedBy n items := by
  induction items generalizing n with
  | nil =>
    have hquiet : (emitAll (grow lo hi) [] (tail.bytes.take n)).2 = [] :=
      (emitAll_grow_noise (Or.inl rfl) (Gap.take tail.noise n)).2
    simpa [stream, endedBy] using hquiet
  | cons p rest ih =>
    obtain ⟨g, f⟩ := p
    have hlen := f.encode_length
    have hnoise : Idle (emitAll (grow lo hi) [] (g.bytes.take n)).1 ∧
        (emitAll (grow lo hi) [] (g.bytes.take n)).2 = [] :=
      emitAll_grow_noise (Or.inl rfl) (Gap.take g.noise n)
    rw [stream_cons, endedBy, List.take_append, List.take_append, emitAll_append]
    simp only [hnoise.2, List.nil_append]
    split
    · rename_i hend
      rw [List.take_of_length_le (show f.encode.length ≤ n - g.bytes.length by omega), emitAll_append,
        emitAll_grow_encode f h16 hnoise.1, ih, Nat.sub_sub]
      rfl
    · rename_i hcut
      have hrest : n - g.bytes.length - f.encode.length = 0 := by omega
      have hpart : (f.encode.take (n - g.bytes.length)).length < f.encode.length := by
        rw [List.length_take]; omega
      rw [hrest, List.take_zero, List.append_nil]
      exact emitAll_grow_cut h16 hnoise.1 (List.take_prefix _ _) hpart

end NearLink
