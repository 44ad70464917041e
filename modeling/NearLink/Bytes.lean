import Mathlib.Data.List.GetD

/-!
# Bytes, little-endian words and memory blocks

The fixed-size arrays of the C sources are `Block`s: a list that carries its own size.
-/

namespace NearLink

abbrev Byte := UInt8

/-- Assignment to a `uint16_t`. -/
def u16 (n : Nat) : Nat := n % 65536

/-- Assignment to a `uint32_t`. -/
def u32 (n : Nat) : Nat := n % 4294967296

theorem u16_of_lt {n : Nat} (h : n < 65536) : u16 n = n := Nat.mod_eq_of_lt h

/-! ## Words in memory order -/

/-- The `uint16_t` that two bytes in memory hold. -/
def le16 (lo hi : Byte) : Nat := lo.toNat + 256 * hi.toNat

def loByte (n : Nat) : Byte := UInt8.ofNat n
def hiByte (n : Nat) : Byte := UInt8.ofNat (n / 256)

theorem le16_lt (lo hi : Byte) : le16 lo hi < 65536 := by
  have := lo.toNat_lt
  have := hi.toNat_lt
  unfold le16
  omega

theorem le16_lo_hi {n : Nat} (h : n < 65536) : le16 (loByte n) (hiByte n) = n := by
  simp only [le16, loByte, hiByte, UInt8.toNat_ofNat', Nat.reducePow]
  omega

theorem loByte_le16 (lo hi : Byte) : loByte (le16 lo hi) = lo := by
  have := lo.toNat_lt
  apply UInt8.toNat_inj.mp
  simp only [loByte, le16, UInt8.toNat_ofNat', Nat.reducePow]
  omega

theorem hiByte_le16 (lo hi : Byte) : hiByte (le16 lo hi) = hi := by
  have := lo.toNat_lt
  have := hi.toNat_lt
  apply UInt8.toNat_inj.mp
  simp only [hiByte, le16, UInt8.toNat_ofNat', Nat.reducePow]
  omega

theorem le16_inj {a b c d : Byte} : le16 a b = le16 c d ↔ a = c ∧ b = d := by
  constructor
  · intro h
    have := a.toNat_lt
    have := c.toNat_lt
    simp only [le16] at h
    exact ⟨UInt8.toNat_inj.mp (by omega), UInt8.toNat_inj.mp (by omega)⟩
  · rintro ⟨rfl, rfl⟩; rfl

/-- `lo | (hi << 8)` builds the same word. -/
theorem or_shift_eq_le16 (lo hi : Byte) : u16 (lo.toNat ||| hi.toNat <<< 8) = le16 lo hi := by
  have hlo : lo.toNat < 2 ^ 8 := lo.toNat_lt
  rw [Nat.or_comm, ← Nat.shiftLeft_add_eq_or_of_lt hlo, Nat.shiftLeft_eq, u16_of_lt]
  · simp only [le16]; omega
  · have := hi.toNat_lt
    omega

/-! ## Blocks -/

structure Block (α : Type*) (n : Nat) where
  cells : List α
  size : cells.length = n
  deriving DecidableEq, Repr

namespace Block

variable {α : Type*} {n : Nat}

attribute [simp] Block.size

def fill (n : Nat) (a : α) : Block α n := ⟨List.replicate n a, List.length_replicate⟩

/-- Copies `src` to the cells from `off` on. What would fall outside the block is dropped. -/
def write (b : Block α n) (off : Nat) (src : List α) : Block α n where
  cells := b.cells.take off ++ src.take (n - off) ++ b.cells.drop (off + src.length)
  size := by simp; omega

/-- The cell at `i`, or `outside i` when the block has no such cell. -/
def read (outside : Nat → α) (b : Block α n) (i : Nat) : α := b.cells.getD i (outside i)

def slice (b : Block α n) (off len : Nat) : List α := (b.cells.drop off).take len

theorem eq_of_cells {a b : Block α n} (h : a.cells = b.cells) : a = b := by
  cases a
  cases b
  cases h
  rfl

theorem write_cells (b : Block α n) {off : Nat} {src : List α} (h : off + src.length ≤ n) :
    (b.write off src).cells = b.cells.take off ++ src ++ b.cells.drop (off + src.length) := by
  have hsrc : src.take (n - off) = src := List.take_of_length_le (by omega)
  simp only [write, hsrc]

theorem take_write (b : Block α n) (off : Nat) (src : List α) (h : off + src.length ≤ n) :
    (b.write off src).cells.take (off + src.length) = b.cells.take off ++ src := by
  have hlen : (b.cells.take off ++ src).length = off + src.length := by
    rw [List.length_append, List.length_take, size]
    omega
  rw [write_cells b h, List.take_left' hlen]

theorem write_write (b : Block α n) {off : Nat} {xs ys : List α}
    (h : off + xs.length + ys.length ≤ n) :
    (b.write off xs).write (off + xs.length) ys = b.write off (xs ++ ys) := by
  have hlen : (b.cells.take off ++ xs).length = off + xs.length := by
    rw [List.length_append, List.length_take, size]
    omega
  have hback : (b.write off xs).cells.drop (off + xs.length + ys.length) =
      b.cells.drop (off + (xs ++ ys).length) := by
    rw [write_cells b (by omega), ← List.drop_drop, List.drop_left' hlen, List.drop_drop,
      List.length_append, Nat.add_assoc]
  apply eq_of_cells
  rw [write_cells _ h, take_write b off xs (by omega), hback,
    write_cells b (by rw [List.length_append]; omega), List.append_assoc (b.cells.take off)]

theorem read_eq_getD {outside : Nat → α} {b : Block α n} {len i : Nat} (a : α) (hi : i < len)
    (hlen : len ≤ n) : b.read outside i = (b.cells.take len).getD i a := by
  have h1 : i < b.cells.length := by simp; omega
  have h2 : i < (b.cells.take len).length := by simp; omega
  rw [read, List.getD_eq_getElem _ _ h1, List.getD_eq_getElem _ _ h2, List.getElem_take]

theorem slice_eq {b : Block α n} {off k len : Nat} (h : off + k ≤ len) :
    b.slice off k = ((b.cells.take len).drop off).take k := by
  rw [slice, List.drop_take, List.take_take, Nat.min_eq_left (by omega)]

theorem slice_length {b : Block α n} {off k : Nat} (h : off + k ≤ n) :
    (b.slice off k).length = k := by
  simp [slice]; omega

end Block

/-- `memcpy_s` of the secure C library: a copy that does not fit clears the destination and fails. -/
def memcpyS {n : Nat} (dest : Block Byte n) (off destMax : Nat) (src : List Byte) :
    Block Byte n × Bool :=
  if destMax = 0 then (dest, false)
  else if destMax < src.length then (dest.write off (List.replicate destMax 0), false)
  else (dest.write off src, true)

theorem memcpyS_ok {n : Nat} (dest : Block Byte n) (off : Nat) {destMax : Nat} {src : List Byte}
    (hpos : 0 < destMax) (hfit : src.length ≤ destMax) :
    memcpyS dest off destMax src = (dest.write off src, true) := by
  rw [memcpyS, if_neg (by omega), if_neg (by omega)]

end NearLink
