import MySystem.Segment.Macros

/-!
# `_set_seg_desc`

The macro of `asm/system.h` that puts a segment descriptor together. It stores
the two words of the descriptor in the order opposite to that of `_get_base`, of
the table in `head.asm` and of the processor.
-/

namespace MySystem

open Machine

/-- The word stored first. -/
def segDescWord (type dpl base limit : Word) : Word :=
  base &&& 0xff000000 ||| (base &&& 0x00ff0000) >>> 16 ||| limit &&& 0xf0000 ||| dpl <<< 13 |||
    0x00408000 ||| type <<< 8

/-- The word stored behind it. -/
def segDescWord' (base limit : Word) : Word :=
  (base &&& 0x0000ffff) <<< 16 ||| limit &&& 0x0ffff

def _setSegDesc (m : Memory) (gateAddr type dpl base limit : Word) : Memory :=
  let m := m.store32 gateAddr (segDescWord type dpl base limit)
  m.store32 (gateAddr + 4) (segDescWord' base limit)

variable (type : BitVec 5) (dpl : BitVec 2) (base : Word) (limit : BitVec 20)

/-! ## The two words -/

/-- The upper half of the word stored first. -/
def describedHigh : Half := base.extractLsb' 24 8 ++ 4#4 ++ limit.extractLsb' 16 4

def describedLow : Half := (1#1 ++ dpl ++ type : Byte) ++ base.extractLsb' 16 8

theorem segDescWord_eq :
    segDescWord (type.setWidth 32) (dpl.setWidth 32) base (limit.setWidth 32) =
      describedHigh base limit ++ describedLow type dpl base := by
  rw [segDescWord, describedHigh, describedLow]
  apply BitVec.eq_of_getLsbD_eq
  intro i hi
  have hi' : i < 32 := hi
  simp only [BitVec.getLsbD_or, BitVec.getLsbD_and, BitVec.getLsbD_ushiftRight,
    BitVec.getLsbD_shiftLeft, BitVec.getLsbD_append, BitVec.getLsbD_setWidth,
    BitVec.getLsbD_extractLsb']
  interval_cases i <;> simp

theorem segDescWord'_eq :
    segDescWord' base (limit.setWidth 32) = Word.low base ++ limit.extractLsb' 0 16 := by
  rw [segDescWord', Word.low]
  apply BitVec.eq_of_getLsbD_eq
  intro i hi
  have hi' : i < 32 := hi
  simp only [BitVec.getLsbD_or, BitVec.getLsbD_and, BitVec.getLsbD_shiftLeft,
    BitVec.getLsbD_append, BitVec.getLsbD_setWidth, BitVec.getLsbD_extractLsb']
  interval_cases i <;> simp

/-! ## How they are read -/

variable (ops : BaseOperands) (edx : Word)

/-- The descriptor at `a` is what the arguments describe, as the processor and an
expansion of `_get_base` read it and as `head.asm` lays out its table. -/
structure Describes (m : Memory) (a : Word) : Prop where
  segment_base : (m.segment a).base = base
  segment_limit : (m.segment a).limit = limit
  segment_access : (m.segment a).access = 1#1 ++ dpl ++ type
  get_base : _getBase ops edx m = base
  first_word : m.load32 a = Word.low base ++ limit.extractLsb' 0 16

variable (m : Memory) (a : Word)

/-- The memory with the words in the order in which they are read. -/
def describedMemory : Memory :=
  (m.store32 a (Word.low base ++ limit.extractLsb' 0 16)).store32 (a + 4)
    (describedHigh base limit ++ describedLow type dpl base)

theorem segment_store32_store32 (low high : Word) :
    ((m.store32 a low).store32 (a + 4) high).segment a =
      { base := high.extractLsb' 24 8 ++ high.extractLsb' 0 8 ++ Word.high low
        limit := high.extractLsb' 16 4 ++ Word.low low
        access := high.extractLsb' 8 8
        flags := high.extractLsb' 20 4 } := by
  have hhigh : low.extractLsb' 24 8 ++ low.extractLsb' 16 8 = Word.high low :=
    BitVec.extractLsb'_append_extractLsb'_eq_extractLsb' rfl
  have hlow : low.extractLsb' 8 8 ++ low.extractLsb' 0 8 = Word.low low :=
    BitVec.extractLsb'_append_extractLsb'_eq_extractLsb' rfl
  ext1
  all_goals simp [Memory.segment, Memory.store32, Memory.store8, Memory.load16, BitVec.add_assoc]
  case base => rw [hhigh]
  case limit => rw [hlow, Word.extract_extract high (by decide)]
  case flags => exact Word.extract_extract high (by decide)

/-- The parts of the word stored first. -/
theorem described_parts :
    let word : Word := describedHigh base limit ++ describedLow type dpl base
    word.extractLsb' 24 8 = base.extractLsb' 24 8 ∧ word.extractLsb' 0 8 = base.extractLsb' 16 8 ∧
      word.extractLsb' 16 4 = limit.extractLsb' 16 4 ∧
      word.extractLsb' 8 8 = 1#1 ++ dpl ++ type := by
  refine ⟨?_, ?_, ?_, ?_⟩
  · rw [BitVec.extractLsb'_append_eq_of_le (by decide), describedHigh,
      BitVec.extractLsb'_append_eq_of_le (by decide)]
    exact BitVec.extractLsb'_append_eq_left
  · rw [BitVec.extractLsb'_append_eq_of_add_le (by decide), describedLow]
    exact BitVec.extractLsb'_append_eq_right
  · rw [BitVec.extractLsb'_append_eq_of_le (by decide), describedHigh]
    exact BitVec.extractLsb'_append_eq_right
  · rw [BitVec.extractLsb'_append_eq_of_add_le (by decide), describedLow]
    exact BitVec.extractLsb'_append_eq_left

theorem segment_describedMemory :
    (describedMemory type dpl base limit m a).segment a =
      { base := base
        limit := limit
        access := 1#1 ++ dpl ++ type
        flags := (describedHigh base limit ++
          describedLow type dpl base : Word).extractLsb' 20 4 } := by
  obtain ⟨hbase, hmiddle, hlimit, haccess⟩ := described_parts type dpl base limit
  have hwhole : limit.extractLsb' 16 4 ++ limit.extractLsb' 0 16 = limit :=
    BitVec.extractLsb'_append_extractLsb'
  rw [describedMemory, segment_store32_store32, Word.high_append, Word.low_append, hbase, hmiddle,
    hlimit, haccess, hwhole, Word.append_low]

theorem first_word_describedMemory :
    (describedMemory type dpl base limit m a).load32 a =
      Word.low base ++ limit.extractLsb' 0 16 := by
  rw [describedMemory, Memory.load32_store32_of_le _ _ (by bv_omega) (by bv_omega),
    Memory.load32_store32_same]

variable {ops edx a}

/-- The words are in the right order exactly if they are the same; `_get_base` has to find
its operands besides. -/
theorem set_seg_desc_describes_iff (h : ops.At edx a) :
    Describes type dpl base limit ops edx
        (_setSegDesc m a (type.setWidth 32) (dpl.setWidth 32) base (limit.setWidth 32)) a ↔
      (Word.low base = base.extractLsb' 24 8 ++ 4#4 ++ limit.extractLsb' 16 4 ∧
        limit.extractLsb' 0 16 = 1#1 ++ dpl ++ type ++ base.extractLsb' 16 8) ∧
        ops.Finds edx base (describedMemory type dpl base limit m a) := by
  have hsegment := segment_describedMemory type dpl base limit m a
  have hfinds := getBase_eq_iff h (congrArg SegmentDescriptor.base hsegment)
  have hsame : Word.low base = describedHigh base limit →
      limit.extractLsb' 0 16 = describedLow type dpl base →
        _setSegDesc m a (type.setWidth 32) (dpl.setWidth 32) base (limit.setWidth 32) =
          describedMemory type dpl base limit m a := by
    intro hhalf hhalf'
    rw [_setSegDesc, segDescWord_eq, segDescWord'_eq, describedMemory, hhalf, hhalf']
  constructor
  · intro hdescribes
    have hwords := hdescribes.first_word
    rw [_setSegDesc, segDescWord_eq, segDescWord'_eq,
      Memory.load32_store32_of_le _ _ (by bv_omega) (by bv_omega),
      Memory.load32_store32_same] at hwords
    have hhalf := congrArg Word.high hwords
    have hhalf' := congrArg Word.low hwords
    rw [Word.high_append, Word.high_append] at hhalf
    rw [Word.low_append, Word.low_append] at hhalf'
    refine ⟨⟨hhalf.symm, hhalf'.symm⟩, ?_⟩
    rw [← hfinds, ← hsame hhalf.symm hhalf'.symm]
    exact hdescribes.get_base
  · rintro ⟨⟨hhalf, hhalf'⟩, hfound⟩
    rw [hsame hhalf hhalf']
    exact {
      segment_base := congrArg _ hsegment
      segment_limit := congrArg _ hsegment
      segment_access := congrArg _ hsegment
      get_base := hfinds.mpr hfound
      first_word := first_word_describedMemory type dpl base limit m a }

/-- A base and a limit for which the words are the same. -/
theorem set_seg_desc_describes_iff_same :
    Describes 0x1a 0 0x40 0x09a00 (.fixed 0x5cb8) 0
      (_setSegDesc ⟨fun _ => 0, []⟩ 0x5cb8 0x1a 0 0x40 0x09a00) 0x5cb8 :=
  (set_seg_desc_describes_iff 0x1a 0 0x40 0x09a00 ⟨fun _ => 0, []⟩
    ⟨by decide, by decide, by decide⟩).mpr ⟨⟨by decide, by decide⟩, ⟨by decide, by decide⟩⟩

/-- A code segment of 4 GB at 0, as `head.asm` has it, with the words exchanged. -/
theorem set_seg_desc_exchanged :
    ¬ Describes 0x1a 0 0 0xfffff (.fixed 0) 0
        (_setSegDesc ⟨fun _ => 0, []⟩ 0 0x1a 0 0 0xfffff) 0 ∧
      ((_setSegDesc ⟨fun _ => 0, []⟩ 0 0x1a 0 0 0xfffff).segment 0).limit = 0x09a00 := by
  constructor
  · intro h
    exact absurd h.segment_limit (by decide)
  · decide

end MySystem
