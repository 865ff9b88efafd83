import MySystem.Machine.Gate
import Mathlib.Tactic.IntervalCases

/-!
# Segment descriptors

A segment descriptor is eight bytes in memory, over which its base and its limit
are scattered. Here are its fields, the parts of a register that the fields are
moved through, and what `lsl` makes of the limit.
-/

namespace Machine

namespace Word

/-- The lowest byte, such as `dl` of `edx`. -/
def lowByte (w : Word) : Byte := w.extractLsb' 0 8

/-- The byte above it, such as `dh`. -/
def highByte (w : Word) : Byte := w.extractLsb' 8 8

def setLowByte (w : Word) (v : Byte) : Word := w.extractLsb' 8 24 ++ v

def setHighByte (w : Word) (v : Byte) : Word := w.extractLsb' 16 16 ++ v ++ w.extractLsb' 0 8

def setLow (w : Word) (v : Half) : Word := w.extractLsb' 16 16 ++ v

theorem rotateRight_sixteen (w : Word) : w.rotateRight 16 = low w ++ high w := by
  apply BitVec.eq_of_getLsbD_eq
  intro i hi
  have hi' : i < 32 := hi
  simp only [BitVec.getLsbD_rotateRight, BitVec.getLsbD_append, low, high,
    BitVec.getLsbD_extractLsb']
  obtain h | h := Nat.lt_or_ge i 16
  · simp [h]
  · simp [Nat.not_lt.mpr h, hi']
    omega

/-- A part of a part. -/
theorem extract_extract {n : Nat} (v : BitVec n) {i j k l : Nat} (h : k + l ≤ j) :
    (v.extractLsb' i j).extractLsb' k l = v.extractLsb' (i + k) l := by
  apply BitVec.eq_of_getLsbD_eq
  intro b hb
  have hinner : k + b < j := by omega
  simp only [BitVec.getLsbD_extractLsb', hb, hinner, decide_true, Bool.true_and, Nat.add_assoc]

/-! Each part of a register keeps the others. -/

@[simp] theorem lowByte_setLowByte (w : Word) (v : Byte) : lowByte (setLowByte w v) = v :=
  BitVec.extractLsb'_append_eq_right

@[simp] theorem highByte_setLowByte (w : Word) (v : Byte) :
    highByte (setLowByte w v) = highByte w := by
  rw [highByte, setLowByte, BitVec.extractLsb'_append_eq_of_le (by decide),
    extract_extract w (by decide)]
  rfl

@[simp] theorem highByte_setHighByte (w : Word) (v : Byte) : highByte (setHighByte w v) = v := by
  rw [highByte, setHighByte, BitVec.extractLsb'_append_eq_of_le (by decide)]
  exact BitVec.extractLsb'_append_eq_right

@[simp] theorem lowByte_setHighByte (w : Word) (v : Byte) :
    lowByte (setHighByte w v) = lowByte w := BitVec.extractLsb'_append_eq_right

@[simp] theorem lowByte_rotateRight (w : Word) :
    lowByte (w.rotateRight 16) = w.extractLsb' 16 8 := by
  rw [lowByte, rotateRight_sixteen, BitVec.extractLsb'_append_eq_of_add_le (by decide), high,
    extract_extract w (by decide)]

@[simp] theorem highByte_rotateRight (w : Word) :
    highByte (w.rotateRight 16) = w.extractLsb' 24 8 := by
  rw [highByte, rotateRight_sixteen, BitVec.extractLsb'_append_eq_of_add_le (by decide), high,
    extract_extract w (by decide)]

theorem highByte_append_lowByte (w : Word) : highByte w ++ lowByte w = low w :=
  BitVec.extractLsb'_append_extractLsb'_eq_extractLsb' rfl

theorem toNat_setHighByte (w : Word) (v : Byte) :
    (setHighByte w v).toNat = w.toNat / 65536 * 65536 + v.toNat * 256 + w.toNat % 256 := by
  have hv := v.isLt
  have hlow : (w.extractLsb' 0 8).toNat < 2 ^ 8 := (w.extractLsb' 0 8).isLt
  rw [setHighByte, BitVec.toNat_append, BitVec.toNat_append, ← Nat.shiftLeft_add_eq_or_of_lt hv,
    ← Nat.shiftLeft_add_eq_or_of_lt hlow]
  simp only [BitVec.extractLsb'_toNat, Nat.shiftLeft_eq, Nat.shiftRight_eq_div_pow]
  omega

/-- A word from its bytes and its lower half. -/
theorem append_low (w : Word) :
    w.extractLsb' 24 8 ++ w.extractLsb' 16 8 ++ low w = w := by
  have hhigh : w.extractLsb' 24 8 ++ w.extractLsb' 16 8 = high w :=
    BitVec.extractLsb'_append_extractLsb'_eq_extractLsb' rfl
  rw [hhigh]
  exact high_append_low w

end Word

/-- The fields of a segment descriptor. -/
@[ext] structure SegmentDescriptor where
  base : Word
  limit : BitVec 20
  /-- The type, the privilege level and the present bit. -/
  access : Byte
  flags : BitVec 4

/-- The last byte of the segment, as `lsl` loads it: the limit counts pages if the
highest flag says so. -/
def SegmentDescriptor.lsl (d : SegmentDescriptor) : Word :=
  if d.flags.getLsbD 3 then d.limit.setWidth 32 <<< 12 ||| 0xfff else d.limit.setWidth 32

theorem SegmentDescriptor.lsl_pages {d : SegmentDescriptor} (h : d.flags.getLsbD 3 = true) :
    d.lsl = Word.of (4096 * d.limit.toNat + 4095) := by
  have := d.limit.isLt
  have hshift : (d.limit.setWidth 32 <<< 12).toNat = d.limit.toNat <<< 12 := by
    rw [BitVec.toNat_shiftLeft, BitVec.toNat_setWidth, Nat.mod_eq_of_lt (by omega),
      Nat.shiftLeft_eq, Nat.mod_eq_of_lt (by omega), Nat.shiftLeft_eq]
  rw [lsl, if_pos h]
  apply BitVec.eq_of_toNat_eq
  rw [BitVec.toNat_or, hshift, Word.toNat_of (by omega)]
  calc d.limit.toNat <<< 12 ||| 4095 = d.limit.toNat <<< 12 + 4095 :=
        (Nat.shiftLeft_add_eq_or_of_lt (by decide) _).symm
    _ = 4096 * d.limit.toNat + 4095 := by
        rw [Nat.shiftLeft_eq]
        omega

namespace Memory

/-- The segment descriptor at an address. -/
def segment (m : Memory) (a : Word) : SegmentDescriptor where
  base := m.bytes (a + 7) ++ m.bytes (a + 4) ++ m.load16 (a + 2)
  limit := (m.bytes (a + 6)).extractLsb' 0 4 ++ m.load16 a
  access := m.bytes (a + 5)
  flags := (m.bytes (a + 6)).extractLsb' 4 4

variable {m m' : Memory} {a : Word}

/-- The eight bytes from the fields. -/
theorem bytes_segment (m : Memory) (a : Word) :
    m.bytes a = (m.segment a).limit.extractLsb' 0 8 ∧
      m.bytes (a + 1) = (m.segment a).limit.extractLsb' 8 8 ∧
      m.bytes (a + 2) = (m.segment a).base.extractLsb' 0 8 ∧
      m.bytes (a + 3) = (m.segment a).base.extractLsb' 8 8 ∧
      m.bytes (a + 4) = (m.segment a).base.extractLsb' 16 8 ∧
      m.bytes (a + 5) = (m.segment a).access ∧
      m.bytes (a + 6) = (m.segment a).flags ++ (m.segment a).limit.extractLsb' 16 4 ∧
      m.bytes (a + 7) = (m.segment a).base.extractLsb' 24 8 := by
  have hthree : a + 2 + 1 = a + 3 := BitVec.add_assoc a 2 1
  have hshared : (m.bytes (a + 6)).extractLsb' 4 4 ++ (m.bytes (a + 6)).extractLsb' 0 4 =
      m.bytes (a + 6) := BitVec.extractLsb'_append_extractLsb'
  have hbase : (m.segment a).base =
      m.bytes (a + 7) ++ m.bytes (a + 4) ++ (m.bytes (a + 3) ++ m.bytes (a + 2)) := by
    rw [segment, load16, hthree]
  have hlimit : (m.segment a).limit =
      (m.bytes (a + 6)).extractLsb' 0 4 ++ (m.bytes (a + 1) ++ m.bytes a) := rfl
  rw [hbase, hlimit]
  refine ⟨?_, ?_, ?_, ?_, ?_, rfl, ?_, ?_⟩
  · rw [BitVec.extractLsb'_append_eq_of_add_le (by decide)]
    exact BitVec.extractLsb'_append_eq_right.symm
  · rw [BitVec.extractLsb'_append_eq_of_add_le (by decide)]
    exact BitVec.extractLsb'_append_eq_left.symm
  · rw [BitVec.extractLsb'_append_eq_of_add_le (by decide)]
    exact BitVec.extractLsb'_append_eq_right.symm
  · rw [BitVec.extractLsb'_append_eq_of_add_le (by decide)]
    exact BitVec.extractLsb'_append_eq_left.symm
  · rw [BitVec.extractLsb'_append_eq_of_le (by decide)]
    exact BitVec.extractLsb'_append_eq_right.symm
  · rw [BitVec.extractLsb'_append_eq_left]
    exact hshared.symm
  · rw [BitVec.extractLsb'_append_eq_of_le (by decide)]
    exact BitVec.extractLsb'_append_eq_left.symm

theorem highest_byte_segment (m : Memory) (a : Word) :
    m.bytes (a + 7) = (m.segment a).base.extractLsb' 24 8 :=
  (bytes_segment m a).2.2.2.2.2.2.2

/-- Memories with the same descriptor are the same if they are the same elsewhere. -/
theorem bytes_eq_of_segment (h : m.segment a = m'.segment a)
    (helse : ∀ c, 8 ≤ (c - a).toNat → m.bytes c = m'.bytes c) : m.bytes = m'.bytes := by
  obtain ⟨h0, h1, h2, h3, h4, h5, h6, h7⟩ := bytes_segment m a
  obtain ⟨h0', h1', h2', h3', h4', h5', h6', h7'⟩ := bytes_segment m' a
  rw [h] at h0 h1 h2 h3 h4 h5 h6 h7
  funext c
  obtain hfar | hnear := Nat.lt_or_ge 7 (c - a).toNat
  · exact helse c hfar
  · have hc : c = a + Word.of (c - a).toNat := by
      rw [Word.of_toNat, BitVec.add_comm]
      exact (BitVec.sub_add_cancel c a).symm
    rw [hc]
    generalize (c - a).toNat = k at hnear ⊢
    interval_cases k
    · rw [show a + Word.of 0 = a from BitVec.add_zero a]
      exact h0.trans h0'.symm
    · exact h1.trans h1'.symm
    · exact h2.trans h2'.symm
    · exact h3.trans h3'.symm
    · exact h4.trans h4'.symm
    · exact h5.trans h5'.symm
    · exact h6.trans h6'.symm
    · exact h7.trans h7'.symm

end Memory

end Machine
