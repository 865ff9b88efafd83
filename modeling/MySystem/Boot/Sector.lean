import MySystem.Boot.Disk
import MySystem.Machine.Startup

/-!
# The start of the boot sector

The firmware has loaded the boot sector at 0x7c00. It copies itself to 0x90000,
goes on there with a stack of its own, and prints a message before it reads
anything (`Boot.Disk`).
-/

namespace MySystem

open Machine

/-- The labels of `boot/bootSect.asm` in front of the reads. -/
inductive SectorLabel where
  /-- Where the firmware enters. -/
  | mbr
  | go
  /-- The code here is followed in `bootSect`. -/
  | read_setup
  deriving DecidableEq

/-- Offsets in the boot sector that nothing else is known of. -/
structure SectorSymbols where
  go : Half
  msg : Half
  pgdt : Half

def BOOTSEG : Half := 0x07c0

def sectorCode (sym : SectorSymbols) : SectorLabel → List (StartOp SectorLabel)
  | .mbr => [
      .real (.movLow .eax BOOTSEG),
      .real (.movSeg .ds .eax),
      .real (.movLow .eax INITSEG),
      .real (.movSeg .es .eax),
      .real (.movLow .ecx 512),
      .real (.xorLow .esi .esi),
      .real (.xorLow .edi .edi),
      .repMovsb,
      .jmpFar INITSEG sym.go]
  | .go => [
      .movCs .eax,
      .real (.movSeg .ds .eax),
      .real (.movSeg .es .eax),
      .real (.movLow .edx 0xfef4),
      .movSs .eax,
      .movSp .edx,
      .movHigh .eax 0x03,
      .clearHigh .ebx,
      .int 0x10,
      .real (.movLow .ecx (sym.pgdt - sym.msg)),
      .real (.movLow .edx 0x1004),
      .real (.movLow .ebx 0x0007),
      .real (.movLow .ebp sym.msg),
      .real (.movLow .eax 0x1301),
      .int 0x10]
  | .read_setup => []

def sectorNext : SectorLabel → SectorLabel
  | .go => .read_setup
  | l => l

def sector (sym : SectorSymbols) : StartCode SectorLabel where
  code := sectorCode sym
  next := sectorNext

variable {D : Type} (sym : SectorSymbols) (lay : Offsets SectorLabel) (b : Board D) (dev : Device D)

/-! ## The copy -/

/-- `k` bytes of the boot sector are copied. -/
structure Copied (m : Memory) (k : Nat) (c : RealMode D) : Prop where
  direction : c.direction = false
  ds : c.ds = BOOTSEG
  es : c.es = INITSEG
  esi : c.half .esi = BitVec.ofNat 16 k
  edi : c.half .edi = BitVec.ofNat 16 k
  bytes : ∀ i, i < k → c.mem.byteAt (0x90000 + i) = m.byteAt (0x7c00 + i)
  writes : Memory.Writes 0x90000 0x90200 m c.mem

theorem Copied.turn {m : Memory} {k : Nat} (hk : k < 512) {c : RealMode D} (h : Copied m k c) :
    Copied m (k + 1) c.moveByte := by
  have hnext : BitVec.ofNat 16 k + 1 = BitVec.ofNat 16 (k + 1) := (BitVec.ofNat_add k 1).symm
  have hk' : (BitVec.ofNat 16 k).toNat = k := by
    rw [BitVec.toNat_ofNat, Nat.mod_eq_of_lt (by omega)]
  have hsrc : linear c.ds (c.half .esi).toNat = Word.of (0x7c00 + k) := by
    rw [h.ds, h.esi, hk']
    rfl
  have hdst : linear c.es (c.half .edi).toNat = Word.of (0x90000 + k) := by
    rw [h.es, h.edi, hk']
    rfl
  have hmem : c.moveByte.mem = c.mem.store8 (Word.of (0x90000 + k)) (m.byteAt (0x7c00 + k)) := by
    have hread : c.mem.bytes (Word.of (0x7c00 + k)) = m.byteAt (0x7c00 + k) := by
      apply h.writes.frame
      rw [Word.toNat_of (by omega)]
      omega
    rw [← hread, ← hsrc, ← hdst]
    rfl
  refine ⟨h.direction, h.ds, h.es, ?_, ?_, ?_, h.writes.trans ?_⟩
  · rw [← hnext, ← h.esi, RealMode.moveByte, h.direction]
    exact RealMode.setWidth_half _ _
  · rw [← hnext, ← h.edi, RealMode.moveByte, h.direction]
    exact RealMode.setWidth_half _ _
  · intro i hi
    rw [hmem, Memory.byteAt_store8 _ _ (by omega) (by omega)]
    by_cases hlast : i = k
    · rw [if_pos (by omega), hlast]
    · rw [if_neg (by omega), h.bytes i (by omega)]
  · rw [hmem]
    apply Memory.Writes.store8
    all_goals rw [Word.toNat_of (by omega)]; omega

/-- The rest of the bytes. -/
theorem Copied.turns {m : Memory} (n : Nat) {k : Nat} (hk : k + n ≤ 512) {c : RealMode D}
    (h : Copied m k c) : Copied m (k + n) (RealMode.moveBytes n c) := by
  induction n generalizing k c with
  | zero => exact h
  | succ n ih =>
      have hrest := ih (by omega) (h.turn (by omega))
      rwa [Nat.add_assoc, Nat.add_comm 1] at hrest

/-- The boot sector goes on in its copy. -/
theorem mbr_leaves {c : Startup D} (hup : c.direction = false) :
    ∃ d, (sector sym).exec lay b dev .mbr (sectorCode sym .mbr) c = .far INITSEG sym.go d ∧
      (∀ i, i < 512 → d.mem.byteAt (0x90000 + i) = c.mem.byteAt (0x7c00 + i)) ∧
      Memory.Writes 0x90000 0x90200 c.mem d.mem ∧ d.cr0 = c.cr0 := by
  obtain ⟨d, hexec, hcopied, hcount, hcr0⟩ : ∃ d : Startup D,
      (sector sym).exec lay b dev .mbr (sectorCode sym .mbr) c =
        (sector sym).exec lay b dev .mbr ((sectorCode sym .mbr).drop 7) d ∧
      Copied c.mem 0 d.toRealMode ∧ d.half .ecx = 512 ∧ d.cr0 = c.cr0 := by
    refine ⟨_, rfl, ⟨?_, ?_, ?_, ?_, ?_, ?_, ?_⟩, ?_, rfl⟩
    · exact (Cpu.direction_setStatus _ _).trans ((Cpu.direction_setStatus _ _).trans hup)
    · exact RealMode.half_setHalf c.toRealMode .eax BOOTSEG
    · simp [StartOp.step, Startup.onReal, RealOp.step, Cpu.setReg, Cpu.setSeg, Cpu.setStatus]
    · exact (RealMode.setWidth_half _ _).trans BitVec.xor_self
    · exact (RealMode.setWidth_half _ _).trans BitVec.xor_self
    · exact fun _ hi => absurd hi (Nat.not_lt_zero _)
    · exact .refl ..
    · exact RealMode.setWidth_half _ _
  have hall := hcopied.turns 512 (Nat.le_refl _)
  have hcount' : (d.half .ecx).toNat = 512 := by
    rw [hcount]
    rfl
  have hmoved : (StartOp.repMovsb : StartOp SectorLabel).step b dev d =
      { d with toRealMode := (RealMode.moveBytes 512 d.toRealMode).setHalf .ecx 0 } := by
    rw [StartOp.step, Startup.onReal, hcount']
  have hjump : (sector sym).exec lay b dev .mbr ((sectorCode sym .mbr).drop 7) d =
      .far INITSEG sym.go ((StartOp.repMovsb : StartOp SectorLabel).step b dev d) := rfl
  rw [hmoved] at hjump
  generalize RealMode.moveBytes 512 d.toRealMode = e at hall hjump
  exact ⟨_, hexec.trans hjump, fun i hi => hall.bytes i (by omega), hall.writes, hcr0⟩

/-! ## The message -/

/-- The segments are those of the copy, and the stack is far above it. -/
theorem go_stack {c : Startup D} (hcs : c.cs = INITSEG) :
    ∃ d : Startup D,
      (sector sym).exec lay b dev .go (sectorCode sym .go) c =
        (sector sym).exec lay b dev .go ((sectorCode sym .go).drop 6) d ∧
      d.ss = INITSEG ∧ d.sp = 0xfef4 ∧ d.cr0 = c.cr0 ∧ d.mem = c.mem := by
  refine ⟨_, rfl, ?_, ?_, rfl, rfl⟩
  · simp [StartOp.step, Startup.onReal, RealOp.step, RealMode.half, RealMode.setWidth_half,
      Cpu.reg, Cpu.setReg, Cpu.setSeg, hcs]
  · simp [StartOp.step, Startup.onReal, RealOp.step, RealMode.half, RealMode.setWidth_half,
      Cpu.reg, Cpu.setReg, Cpu.setSeg]

/-- The firmware prints, and `setup` is read next. -/
theorem go_exec (hb : b.Obeys) {c : Startup D} (hcs : c.cs = INITSEG) :
    ∃ d, (sector sym).exec lay b dev .go (sectorCode sym .go) c =
        .goto (StartCode.enter lay d .read_setup) ∧
      d.ss = INITSEG ∧ d.sp = 0xfef4 ∧ d.cr0 = c.cr0 ∧
      Memory.AgreeOn 0x500 0x9f000 c.mem d.mem := by
  obtain ⟨e, hstack, hss, hsp, hcr0, hmem⟩ := go_stack sym lay b dev hcs
  -- the registers before the first and the second call
  let f : RealMode D := ((e.toRealMode.setHigh .eax 0x03).setHigh .ebx 0).setStatus
    (Cpu.logicStatus (0 : Byte))
  let f' : RealMode D := (((((b.int 0x10 f).setHalf .ecx (sym.pgdt - sym.msg)).setHalf
    .edx 0x1004).setHalf .ebx 0x0007).setHalf .ebp sym.msg).setHalf .eax 0x1301
  have hcalls : (sector sym).exec lay b dev .go ((sectorCode sym .go).drop 6) e =
      .goto (StartCode.enter lay { e with toRealMode := b.int 0x10 f' } .read_setup) := rfl
  refine ⟨_, hstack.trans hcalls, ?_, ?_, hcr0, ?_⟩
  · exact (hb.ss 0x10 f').trans ((hb.ss 0x10 f).trans hss)
  · have hesp : (b.int 0x10 f').esp = e.esp := (hb.esp 0x10 f').trans (hb.esp 0x10 f)
    rw [← hsp]
    exact congrArg (BitVec.setWidth 16) hesp
  · rw [← hmem]
    exact (hb.mem 0x10 f).trans (hb.mem 0x10 f')

end MySystem
