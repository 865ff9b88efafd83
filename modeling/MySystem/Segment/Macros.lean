import MySystem.Machine.Segment

/-!
# The descriptor macros

The macros of `linux/sched.h` that read and write the base and the limit of a
descriptor, and the one of `asm/system.h` for the descriptors of a task, as
sequences of register and memory moves.

The macros that write get their value in a register, which the compiler then
keeps free of anything else. `_get_base` only has `edx` for its result, and does
not say that it writes it before it has read all operands, so that the compiler
may use `edx` for the address of an operand as well.
-/

namespace MySystem

open Machine

/-- `edx` holds the base. -/
def _setBase (m : Memory) (addr base : Word) : Memory :=
  let m := m.store16 (addr + 2) (Word.low base)
  let edx := base.rotateRight 16
  let m := m.store8 (addr + 4) (Word.lowByte edx)
  m.store8 (addr + 7) (Word.highByte edx)

/-- `edx` holds the limit. -/
def _setLimit (m : Memory) (addr limit : Word) : Memory :=
  let m := m.store16 addr (Word.low limit)
  let edx := limit.rotateRight 16
  let edx := Word.setHighByte edx (m.bytes (addr + 6))
  let edx := Word.setHighByte edx (Word.highByte edx &&& 0xf0)
  let edx := Word.setLowByte edx (Word.lowByte edx ||| Word.highByte edx)
  m.store8 (addr + 6) (Word.lowByte edx)

def setBase (m : Memory) (ldt base : Word) : Memory := _setBase m ldt base

/-- The limit is that of an `unsigned long`, in bytes. -/
def setLimit (m : Memory) (ldt limit : Word) : Memory := _setLimit m ldt ((limit - 1) >>> 12)

/-- An operand in memory: the part of its address that is fixed as long as no register
but `edx` is written, and how often `edx` is added, as base and as scaled index. -/
structure Operand where
  rest : Word
  edx : Fin 10

def Operand.addr (o : Operand) (edx : Word) : Word := o.rest + Word.of o.edx * edx

/-- The operands that the compiler chose for an expansion of `_get_base`. -/
structure BaseOperands where
  low : Operand
  middle : Operand
  high : Operand

namespace BaseOperands

/-- At the entry, with `edx` as it is then, they are those of the descriptor at `a`. -/
structure At (ops : BaseOperands) (edx a : Word) : Prop where
  low : ops.low.addr edx = a + 2
  middle : ops.middle.addr edx = a + 4
  high : ops.high.addr edx = a + 7

/-- No register but `edx` is written, so these do not move. -/
def fixed (a : Word) : BaseOperands := ⟨⟨a + 2, 0⟩, ⟨a + 4, 0⟩, ⟨a + 7, 0⟩⟩

/-- The middle byte is found through `edx`, as unoptimised code has it. -/
def throughEdx (a : Word) : BaseOperands := ⟨⟨a + 2, 0⟩, ⟨0, 1⟩, ⟨a + 7, 0⟩⟩

end BaseOperands

/-- Each operand is read with `edx` as the instructions before have left it. -/
def _getBase (ops : BaseOperands) (edx : Word) (m : Memory) : Word :=
  let edx := Word.setHighByte edx (m.bytes (ops.high.addr edx))
  let edx := Word.setLowByte edx (m.bytes (ops.middle.addr edx))
  let edx := edx <<< 16
  Word.setLow edx (m.load16 (ops.low.addr edx))

def getBase (ops : BaseOperands) (edx : Word) (m : Memory) : Word := _getBase ops edx m

/-- The descriptor of the segment is at `addr`. -/
def getLimit (m : Memory) (addr : Word) : Word := (m.segment addr).lsl + 1

/-- `eax` holds the address. -/
def _setTssldtDesc (m : Memory) (n addr : Word) (type : Byte) : Memory :=
  let m := m.store16 n 104
  let m := m.store16 (n + 2) (Word.low addr)
  let eax := addr.rotateRight 16
  let m := m.store8 (n + 4) (Word.lowByte eax)
  let m := m.store8 (n + 5) type
  let m := m.store8 (n + 6) 0x00
  m.store8 (n + 7) (Word.highByte eax)

def setTssDesc (m : Memory) (n addr : Word) : Memory := _setTssldtDesc m n addr 0x89

def setLdtDesc (m : Memory) (n addr : Word) : Memory := _setTssldtDesc m n addr 0x82

variable (m : Memory) (a b L : Word)

/-! ## What the macros write -/

theorem half_bytes (v : Half) : v.extractLsb' 8 8 ++ v.extractLsb' 0 8 = v :=
  BitVec.extractLsb'_append_extractLsb'

theorem segment_setBase : (setBase m a b).segment a = { m.segment a with base := b } := by
  ext1
  all_goals simp [setBase, _setBase, Memory.segment, Memory.store16, Memory.store8, Memory.load16,
    BitVec.add_assoc]
  rw [half_bytes]
  exact Word.append_low b

theorem segment_setTssldtDesc (type : Byte) :
    (_setTssldtDesc m a b type).segment a = ⟨b, 104, type, 0⟩ := by
  ext1
  all_goals simp [_setTssldtDesc, Memory.segment, Memory.store16, Memory.store8, Memory.load16,
    BitVec.add_assoc]
  rw [half_bytes]
  exact Word.append_low b

/-- The byte that the limit shares with the flags. -/
theorem limit_or_flags {limit : Word} (h : limit.toNat < 2 ^ 20) (v : Byte) :
    limit.extractLsb' 16 8 ||| v &&& 240#8 = v.extractLsb' 4 4 ++ limit.extractLsb' 16 4 := by
  have hnone : limit.extractLsb' 20 4 = 0#4 := by
    apply BitVec.eq_of_toNat_eq
    rw [BitVec.extractLsb'_toNat, Nat.shiftRight_eq_div_pow, Nat.div_eq_of_lt h]
    rfl
  have hlimit : limit.extractLsb' 20 4 ++ limit.extractLsb' 16 4 = limit.extractLsb' 16 8 :=
    BitVec.extractLsb'_append_extractLsb'_eq_extractLsb' rfl
  have hbyte : v.extractLsb' 4 4 ++ v.extractLsb' 0 4 = v := BitVec.extractLsb'_append_extractLsb'
  have hflags : v &&& 240#8 = v.extractLsb' 4 4 ++ 0#4 := by
    calc v &&& 240#8 = (v.extractLsb' 4 4 ++ v.extractLsb' 0 4) &&& (15#4 ++ 0#4) :=
          congrArg (· &&& 240#8) hbyte.symm
      _ = (v.extractLsb' 4 4 &&& 15#4) ++ (v.extractLsb' 0 4 &&& 0#4) := BitVec.and_append
      _ = v.extractLsb' 4 4 ++ 0#4 := by
          congr 1
          · exact BitVec.and_allOnes
          · exact BitVec.and_zero
  rw [← hlimit, hnone, hflags, BitVec.or_append, BitVec.zero_or, BitVec.or_zero]

theorem segment_setPages {limit : Word} (h : limit.toNat < 2 ^ 20) :
    (_setLimit m a limit).segment a = { m.segment a with limit := limit.setWidth 20 } := by
  ext1
  all_goals simp [_setLimit, Memory.segment, Memory.store16, Memory.store8, Memory.load16,
    BitVec.add_assoc]
  · have hlow : limit.extractLsb' 16 4 ++ Word.low limit = limit.extractLsb' 0 20 :=
      BitVec.extractLsb'_append_extractLsb'_eq_extractLsb' rfl
    rw [half_bytes, limit_or_flags h, BitVec.extractLsb'_append_eq_right, hlow]
    exact (BitVec.setWidth_eq_extractLsb' (by decide)).symm
  · rw [limit_or_flags h]
    exact BitVec.extractLsb'_append_eq_left

theorem segment_setLimit :
    (setLimit m a L).segment a = { m.segment a with limit := ((L - 1) >>> 12).setWidth 20 } := by
  apply segment_setPages
  have := (L - 1).isLt
  rw [BitVec.toNat_ushiftRight, Nat.shiftRight_eq_div_pow]
  omega

/-! ## What `_get_base` reads -/

/-- With the bytes of `base` in `edx` as far as they have been read, the operands left are the
others. -/
structure BaseOperands.Finds (ops : BaseOperands) (edx base : Word) (m : Memory) : Prop where
  middle : m.bytes (ops.middle.addr (Word.setHighByte edx (base.extractLsb' 24 8))) =
    base.extractLsb' 16 8
  low : m.load16 (ops.low.addr (Word.high base ++ (0 : Half))) = Word.low base

theorem getBase_eq_append (ops : BaseOperands) (edx : Word) (m : Memory) :
    let high := m.bytes (ops.high.addr edx)
    let middle := m.bytes (ops.middle.addr (Word.setHighByte edx high))
    getBase ops edx m =
      high ++ middle ++ m.load16 (ops.low.addr (high ++ middle ++ (0 : Half) : Word)) := by
  intro high middle
  have hbytes : Word.low (Word.setLowByte (Word.setHighByte edx high) middle) = high ++ middle := by
    rw [← Word.highByte_append_lowByte, Word.highByte_setLowByte, Word.highByte_setHighByte,
      Word.lowByte_setLowByte]
  have hshift : Word.setLowByte (Word.setHighByte edx high) middle <<< 16 =
      (high ++ middle ++ (0 : Half) : Word) := by
    rw [Word.shiftLeft_sixteen, hbytes]
  change Word.setLow (Word.setLowByte (Word.setHighByte edx high) middle <<< 16) (m.load16
    (ops.low.addr (Word.setLowByte (Word.setHighByte edx high) middle <<< 16))) = _
  rw [hshift, Word.setLow]
  exact congrArg (· ++ _) BitVec.extractLsb'_append_eq_left

variable {m a}

/-- What is read is the base at `a` exactly if every operand is still found. -/
theorem getBase_eq_iff {ops : BaseOperands} {edx base : Word} (h : ops.At edx a)
    (hbase : (m.segment a).base = base) :
    getBase ops edx m = base ↔ ops.Finds edx base m := by
  have hhalf : base.extractLsb' 24 8 ++ base.extractLsb' 16 8 = Word.high base :=
    BitVec.extractLsb'_append_extractLsb'_eq_extractLsb' rfl
  have hhigh : m.bytes (ops.high.addr edx) = base.extractLsb' 24 8 := by
    rw [h.high, Memory.highest_byte_segment, hbase]
  rw [getBase_eq_append, hhigh]
  constructor
  · intro h
    have hmiddle : m.bytes (ops.middle.addr (Word.setHighByte edx (base.extractLsb' 24 8))) =
        base.extractLsb' 16 8 := by
      have hparts := congrArg (fun w : Word => w.extractLsb' 16 8) h
      rw [← hparts, BitVec.extractLsb'_append_eq_of_le (by decide)]
      exact BitVec.extractLsb'_append_eq_right.symm
    refine ⟨hmiddle, ?_⟩
    have hlow := congrArg Word.low h
    rwa [Word.low_append, hmiddle, hhalf] at hlow
  · rintro ⟨hmiddle, hlow⟩
    rw [hmiddle, hhalf, hlow]
    exact Word.high_append_low base

theorem getBase_fixed {ops : BaseOperands} {edx : Word} (h : ops.At edx a)
    (hmiddle : ops.middle.edx = 0) (hlow : ops.low.edx = 0) :
    getBase ops edx m = (m.segment a).base := by
  have hfixed : ∀ {o : Operand}, o.edx = 0 → ∀ v, o.addr v = o.addr edx := by
    intro o ho v
    have hnone : ∀ v : Word, Word.of (o.edx : Fin 10) * v = 0 := by
      intro v
      rw [ho]
      exact BitVec.zero_mul
    rw [Operand.addr, Operand.addr, hnone, hnone]
  rw [getBase_eq_append, hfixed hmiddle, hfixed hlow, h.high, h.middle, h.low]
  rfl

/-! ## What they leave alone -/

theorem bytes_store16 (v : Half) {c : Word} (h : c ≠ a) (h' : c ≠ a + 1) :
    (m.store16 a v).bytes c = m.bytes c :=
  (Memory.store8_bytes_ne _ _ h').trans (Memory.store8_bytes_ne _ _ h)

theorem bytes_setBase (m : Memory) {c : Word} (h : 8 ≤ (c - a).toNat) :
    (setBase m a b).bytes c = m.bytes c := by
  rw [setBase, _setBase, Memory.store8_bytes_ne _ _ (by bv_omega),
    Memory.store8_bytes_ne _ _ (by bv_omega), bytes_store16 _ (by bv_omega) (by bv_omega)]

theorem bytes_setLimit (m : Memory) {c : Word} (h : 8 ≤ (c - a).toNat) :
    (setLimit m a L).bytes c = m.bytes c := by
  rw [setLimit, _setLimit, Memory.store8_bytes_ne _ _ (by bv_omega),
    bytes_store16 _ (by bv_omega) (by bv_omega)]

theorem bytes_setTssldtDesc (m : Memory) (type : Byte) {c : Word} (h : 8 ≤ (c - a).toNat) :
    (_setTssldtDesc m a b type).bytes c = m.bytes c := by
  rw [_setTssldtDesc, Memory.store8_bytes_ne _ _ (by bv_omega),
    Memory.store8_bytes_ne _ _ (by bv_omega), Memory.store8_bytes_ne _ _ (by bv_omega),
    Memory.store8_bytes_ne _ _ (by bv_omega), bytes_store16 _ (by bv_omega) (by bv_omega),
    bytes_store16 _ (by bv_omega) (by bv_omega)]

/-! ## The laws -/

theorem limit_setLimit {L : Word} (hL : 1 ≤ L.toNat) :
    ((setLimit m a L).segment a).limit.toNat = (L.toNat - 1) / 4096 := by
  have hless : (L - 1).toNat = L.toNat - 1 := BitVec.toNat_sub_of_le hL
  have := L.isLt
  rw [segment_setLimit]
  show (((L - 1) >>> 12).setWidth 20).toNat = _
  rw [BitVec.toNat_setWidth, BitVec.toNat_ushiftRight, hless, Nat.shiftRight_eq_div_pow,
    Nat.mod_eq_of_lt (by omega)]

/-- The bytes of the pages that `L` bytes take up. -/
theorem getLimit_setLimit {L : Word} (hL : 1 ≤ L.toNat)
    (hpages : (m.segment a).flags.getLsbD 3 = true) :
    getLimit (setLimit m a L) a = Word.of ((L.toNat + 4095) / 4096 * 4096) := by
  have hkept : ((setLimit m a L).segment a).flags.getLsbD 3 = true := by
    rw [segment_setLimit]
    exact hpages
  rw [getLimit, SegmentDescriptor.lsl_pages hkept, limit_setLimit hL]
  refine (Word.of_add_of _ 1).trans (congrArg Word.of ?_)
  omega

/-- Base and limit are written independently. -/
theorem setBase_setLimit_comm :
    (setLimit (setBase m a b) a L).bytes = (setBase (setLimit m a L) a b).bytes := by
  apply Memory.bytes_eq_of_segment
  · rw [segment_setLimit, segment_setBase, segment_setBase, segment_setLimit]
  · intro c hc
    rw [bytes_setLimit L _ hc, bytes_setBase b _ hc, bytes_setBase b _ hc, bytes_setLimit L _ hc]

theorem setBase_setBase (b' : Word) :
    (setBase (setBase m a b') a b).bytes = (setBase m a b).bytes := by
  apply Memory.bytes_eq_of_segment
  · rw [segment_setBase, segment_setBase, segment_setBase]
  · intro c hc
    rw [bytes_setBase b _ hc, bytes_setBase b' _ hc, bytes_setBase b _ hc]

theorem setLimit_setLimit (L' : Word) :
    (setLimit (setLimit m a L') a L).bytes = (setLimit m a L).bytes := by
  apply Memory.bytes_eq_of_segment
  · rw [segment_setLimit, segment_setLimit, segment_setLimit]
  · intro c hc
    rw [bytes_setLimit L _ hc, bytes_setLimit L' _ hc, bytes_setLimit L _ hc]

/-! ## Operands that stray

`dh` is written before the middle byte is read, and the shift comes before the two low
bytes: an operand whose address contains `edx` is then looked for elsewhere. -/

/-- With another byte in `dh`, `edx` is one page of 256 bytes away. -/
theorem setHighByte_strays (edx : Word) :
    ∃ t : Byte, Word.setHighByte edx t = edx + 256 ∨ Word.setHighByte edx t = edx - 256 := by
  have := edx.isLt
  obtain hless | hlast := Nat.lt_or_ge (edx.toNat / 256 % 256) 255
  · refine ⟨BitVec.ofNat 8 (edx.toNat / 256 % 256 + 1), .inl (BitVec.eq_of_toNat_eq ?_)⟩
    rw [Word.toNat_setHighByte, BitVec.toNat_ofNat, BitVec.toNat_add]
    change _ = (edx.toNat + 256) % 4294967296
    omega
  · refine ⟨254, .inr (BitVec.eq_of_toNat_eq ?_)⟩
    rw [Word.toNat_setHighByte, BitVec.toNat_sub]
    change _ + 254 * 256 + _ = (4294967296 - 256 + edx.toNat) % 4294967296
    omega

theorem Operand.toNat_of_mul (o : Operand) (v : Word) :
    (Word.of o.edx * v : Word).toNat = o.edx * v.toNat % 2 ^ 32 := by
  have := o.edx.isLt
  rw [BitVec.toNat_mul, Word.toNat_of (by omega)]

/-- Written as the middle byte, `dh` takes an operand that contains `edx` out of the
descriptor. -/
theorem Operand.strays_dh {o : Operand} {edx : Word} (h : o.addr edx = a + 4) (ho : o.edx ≠ 0) :
    ∃ t, 8 ≤ (o.addr (Word.setHighByte edx t) - a).toNat := by
  have hpos : 0 < (o.edx : Nat) := Fin.pos_iff_ne_zero.mpr ho
  have hten := o.edx.isLt
  have hoff : (Word.of o.edx * 256 : Word).toNat = o.edx * 256 :=
    (o.toNat_of_mul 256).trans (Nat.mod_eq_of_lt (show (o.edx : Nat) * 256 < 2 ^ 32 by omega))
  obtain ⟨t, ht⟩ := setHighByte_strays edx
  rw [Operand.addr] at h
  refine ⟨t, ?_⟩
  obtain ht | ht := ht
  · rw [ht, Operand.addr, BitVec.mul_add]
    bv_omega
  · rw [ht, Operand.addr, BitVec.mul_sub]
    bv_omega

/-- The shift takes it out of the descriptor for one of two halves. -/
theorem Operand.strays_shl {o : Operand} (ho : o.edx ≠ 0) (a : Word) :
    ∃ high : Half, 8 ≤ (o.addr (high ++ (0 : Half)) - a).toNat := by
  have hpos : 0 < (o.edx : Nat) := Fin.pos_iff_ne_zero.mpr ho
  have hten := o.edx.isLt
  have hoff : (Word.of o.edx * 65536 : Word).toNat = o.edx * 65536 :=
    (o.toNat_of_mul 65536).trans (Nat.mod_eq_of_lt (show (o.edx : Nat) * 65536 < 2 ^ 32 by omega))
  obtain hnear | hfar := Nat.lt_or_ge (o.rest - a).toNat 8
  · refine ⟨1, ?_⟩
    change 8 ≤ (o.rest + Word.of o.edx * 65536 - a).toNat
    bv_omega
  · refine ⟨0, ?_⟩
    change 8 ≤ (o.rest + Word.of o.edx * 0#32 - a).toNat
    rwa [BitVec.mul_zero, BitVec.add_zero]

/-- Read through an operand that strays, some base is not what was written. -/
theorem getBase_strays {ops : BaseOperands} {edx : Word} (h : ops.At edx a)
    (hstray : ops.middle.edx ≠ 0 ∨ ops.low.edx ≠ 0) :
    ∃ b, getBase ops edx (setBase ⟨fun _ => 0, []⟩ a b) ≠ b := by
  have hzero : ∀ (b : Word) {c : Word}, 8 ≤ (c - a).toNat →
      (setBase ⟨fun _ => 0, []⟩ a b).bytes c = 0 := fun b {_} hc => bytes_setBase b _ hc
  have hfinds : ∀ b : Word, getBase ops edx (setBase ⟨fun _ => 0, []⟩ a b) = b →
      ops.Finds edx b (setBase ⟨fun _ => 0, []⟩ a b) := fun b =>
    (getBase_eq_iff h (congrArg _ (segment_setBase _ a b))).mp
  obtain hmiddle | hlow := hstray
  · obtain ⟨t, ht⟩ := ops.middle.strays_dh h.middle hmiddle
    have htop : (t ++ (0xff : Byte) ++ (0 : Half) : Word).extractLsb' 24 8 = t := by
      rw [BitVec.extractLsb'_append_eq_of_le (by decide)]
      exact BitVec.extractLsb'_append_eq_left
    have hnext : (t ++ (0xff : Byte) ++ (0 : Half) : Word).extractLsb' 16 8 = 0xff := by
      rw [BitVec.extractLsb'_append_eq_of_le (by decide)]
      exact BitVec.extractLsb'_append_eq_right
    refine ⟨t ++ (0xff : Byte) ++ (0 : Half), ?_⟩
    intro hread
    have hmiss := (hfinds _ hread).middle
    rw [htop, hnext, hzero _ ht] at hmiss
    exact absurd hmiss (by decide)
  · obtain ⟨high, hhigh⟩ := ops.low.strays_shl hlow a
    refine ⟨high ++ (0xffff : Half), ?_⟩
    intro hread
    have hmiss := (hfinds _ hread).low
    rw [Word.high_append, Word.low_append] at hmiss
    have hbyte := congrArg (BitVec.extractLsb' 0 8) hmiss
    rw [Memory.load16, BitVec.extractLsb'_append_eq_right, hzero _ hhigh] at hbyte
    exact absurd hbyte (by decide)

/-! ## Agreement -/

/-- What one macro writes at `a` another one reads, and each leaves the fields of the
others alone; `_get_base` is expanded with the operands `ops`. -/
structure MacrosAgree (ops : BaseOperands) (edx a : Word) : Prop where
  getBase_setBase : ∀ m b, getBase ops edx (setBase m a b) = b
  limit_setLimit : ∀ (m : Memory) {L : Word}, 1 ≤ L.toNat →
    ((setLimit m a L).segment a).limit.toNat = (L.toNat - 1) / 4096
  getLimit_setLimit : ∀ (m : Memory) {L : Word}, 1 ≤ L.toNat →
    (m.segment a).flags.getLsbD 3 = true →
      getLimit (setLimit m a L) a = Word.of ((L.toNat + 4095) / 4096 * 4096)
  setBase_keeps : ∀ m b, (setBase m a b).segment a = { m.segment a with base := b }
  setLimit_keeps : ∀ m L, ∃ limit,
    (setLimit m a L).segment a = { m.segment a with limit := limit }
  comm : ∀ m b L, (setLimit (setBase m a b) a L).bytes = (setBase (setLimit m a L) a b).bytes
  setBase_absorbs : ∀ m b b', (setBase (setBase m a b') a b).bytes = (setBase m a b).bytes
  setLimit_absorbs : ∀ m L L', (setLimit (setLimit m a L') a L).bytes = (setLimit m a L).bytes
  setTssldtDesc : ∀ m addr type,
    (_setTssldtDesc m a addr type).segment a = ⟨addr, 104, type, 0⟩ ∧
      getBase ops edx (_setTssldtDesc m a addr type) = addr
  elsewhere : ∀ (m : Memory) {c : Word}, 8 ≤ (c - a).toNat →
    (∀ b, (setBase m a b).bytes c = m.bytes c) ∧ (∀ L, (setLimit m a L).bytes c = m.bytes c) ∧
      ∀ addr type, (_setTssldtDesc m a addr type).bytes c = m.bytes c

/-- The macros agree exactly if `_get_base` finds neither the middle byte nor the two low
ones through the register that it writes. -/
theorem segment_macros_agree_iff {ops : BaseOperands} {edx : Word} (h : ops.At edx a) :
    MacrosAgree ops edx a ↔ ops.middle.edx = 0 ∧ ops.low.edx = 0 := by
  constructor
  · intro hagree
    by_contra hstray
    obtain ⟨b, hb⟩ := getBase_strays h (not_and_or.mp hstray)
    exact hb (hagree.getBase_setBase _ b)
  · rintro ⟨hmiddle, hlow⟩
    exact {
      getBase_setBase := by
        intro m b
        rw [getBase_fixed h hmiddle hlow, segment_setBase]
      limit_setLimit := fun _ {_} hL => limit_setLimit hL
      getLimit_setLimit := fun _ {_} hL hpages => getLimit_setLimit hL hpages
      setBase_keeps := fun m b => segment_setBase m a b
      setLimit_keeps := fun m L => ⟨_, segment_setLimit m a L⟩
      comm := fun _ b L => setBase_setLimit_comm b L
      setBase_absorbs := fun _ b b' => setBase_setBase b b'
      setLimit_absorbs := fun _ L L' => setLimit_setLimit L L'
      setTssldtDesc := by
        intro m addr type
        refine ⟨segment_setTssldtDesc m a addr type, ?_⟩
        rw [getBase_fixed h hmiddle hlow, segment_setTssldtDesc]
      elsewhere := fun m {_} hc => ⟨fun b => bytes_setBase b m hc, fun L => bytes_setLimit L m hc,
        fun addr type => bytes_setTssldtDesc addr m type hc⟩ }

theorem segment_macros_agree_iff_fixed : MacrosAgree (.fixed 0x5c9e) 0x5ca2 0x5c9e :=
  (segment_macros_agree_iff ⟨by decide, by decide, by decide⟩).mpr ⟨rfl, rfl⟩

/-- With the address of the middle byte in `edx`, as unoptimised code has it. -/
theorem get_base_misses_middle :
    (BaseOperands.throughEdx 0x1000).At 0x1004 0x1000 ∧
      getBase (.throughEdx 0x1000) 0x1004 (setBase ⟨fun _ => 0, []⟩ 0x1000 0xdeadbeef) =
        0xde00beef ∧
      ¬ MacrosAgree (.throughEdx 0x1000) 0x1004 0x1000 := by
  refine ⟨⟨by decide, by decide, by decide⟩, by decide, ?_⟩
  intro hagree
  exact absurd (hagree.getBase_setBase ⟨fun _ => 0, []⟩ 0xdeadbeef) (by decide)

end MySystem
