import MySystem.Console.Driver
import MySystem.Machine.Processor

/-!
# The assembly statements of the console

The statements in `scrup` and `scrdown` that move and erase rows, instruction by
instruction. With their operands in the registers they leave the memory that
`Console.Driver` gives; those of `scrdown` also leave the direction flag set.
-/

namespace MySystem

open Machine

variable {L : Type} (addr : L → Word)

/-- `video_num_columns` stands for its address. -/
def scrupMove (video_num_columns : Word) : List (Op L) := [
  .cld,
  .repMovsl,
  .loadAt .ecx video_num_columns,
  .repStosw]

def scrupClear : List (Op L) := [
  .cld,
  .repStosw]

def scrdownMove (video_num_columns : Word) : List (Op L) := [
  .std,
  .repMovsl,
  .addImm .edi 2,
  .loadAt .ecx video_num_columns,
  .repStosw]

/-! ## What they do to memory -/

theorem stride_cld (c : Processor) (n : Word) : (Op.cld.step addr c).stride n = n := by
  have hcleared : (Op.cld.step addr c).direction = false := Op.direction_step addr c .cld
  rw [Cpu.stride, hcleared]
  rfl

theorem stride_std (c : Processor) (n : Word) : (Op.std.step addr c).stride n = -n := by
  have hset : (Op.std.step addr c).direction = true := Op.direction_step addr c .std
  rw [Cpu.stride, hset]
  rfl

/-- The last instruction erases in the direction of the statement. -/
theorem repStosw_mem {c d : Processor} (hdirection : d.direction = c.direction) :
    (Op.repStosw.step addr d).mem =
      Memory.repStosw (c.stride 2) (d.eax.setWidth 16) d.ecx.toNat d.edi d.mem := by
  have hstride : d.stride 2 = c.stride 2 := by rw [Cpu.stride, Cpu.stride, hdirection]
  rw [← hstride]
  rfl

theorem scrupMove_mem (a : Word) (c : Processor) :
    (Op.run addr (scrupMove a) c).mem =
      let (m, edi) := Memory.repMovsl 4 c.ecx.toNat c.esi c.edi c.mem
      Memory.repStosw 2 (c.eax.setWidth 16) (m.load32 a).toNat edi m := by
  have hkept : ∀ d, ((Op.loadAt .ecx a).step addr (Op.repMovsl.step addr d)).direction =
      d.direction := fun d =>
    (Op.direction_step addr _ (.loadAt .ecx a)).trans (Op.direction_step addr d .repMovsl)
  refine (repStosw_mem addr (hkept _)).trans ?_
  rw [stride_cld, ← stride_cld addr c 4]
  rfl

theorem scrupClear_mem (c : Processor) :
    (Op.run addr scrupClear c).mem =
      Memory.repStosw 2 (c.eax.setWidth 16) c.ecx.toNat c.edi c.mem := by
  refine (repStosw_mem addr rfl).trans ?_
  rw [stride_cld]
  rfl

theorem scrdownMove_mem (a : Word) (c : Processor) :
    (Op.run addr (scrdownMove a) c).mem =
      let (m, edi) := Memory.repMovsl (-4) c.ecx.toNat c.esi c.edi c.mem
      Memory.repStosw (-2) (c.eax.setWidth 16) (m.load32 a).toNat (edi + 2) m := by
  have hkept : ∀ d, ((Op.loadAt .ecx a).step addr
      ((Op.addImm .edi 2).step addr (Op.repMovsl.step addr d))).direction = d.direction := fun d =>
    ((Op.direction_step addr _ (.loadAt .ecx a)).trans
      (Op.direction_step addr _ (.addImm .edi 2))).trans (Op.direction_step addr d .repMovsl)
  refine (repStosw_mem addr (hkept _)).trans ?_
  rw [stride_std, ← stride_std addr c 4]
  rfl

/-! ## The driver's view -/

/-- The processor when a statement begins: the console's memory, and the operands
`"a"`, `"c"`, `"D"` and `"S"` in their registers. -/
structure Operands (k : Console) (eax : Half) (ecx edi esi : Word) (c : Processor) : Prop where
  mem : c.mem = k.mem
  eax : c.eax.setWidth 16 = eax
  ecx : c.ecx = ecx
  edi : c.edi = edi
  esi : c.esi = esi

variable {k : Console} {c : Processor} {currcons : Nat} {a : Word}

/-- The statement of a rewind, unless it overwrites the number of columns. -/
theorem scrupRewind_stores
    (h : Operands k (k.vcCons currcons).videoEraseChar
      (((k.videoNumLines - 1) * k.videoNumColumns) >>> 1) (k.vcCons currcons).videoMemStart
      (k.vcCons currcons).origin c)
    (hcolumns : (Memory.repMovsl 4 c.ecx.toNat c.esi c.edi c.mem).1.load32 a = k.videoNumColumns) :
    (Op.run addr (scrupMove a) c).mem = (scrupRewind currcons k).mem := by
  refine (scrupMove_mem addr a c).trans ?_
  dsimp only
  rw [hcolumns, h.mem, h.eax, h.ecx, h.edi, h.esi]
  rfl

theorem scrupErase_mem
    (h : Operands k (k.vcCons currcons).videoEraseChar k.videoNumColumns
      ((k.vcCons currcons).scrEnd - k.videoSizeRow) c.esi c) :
    (Op.run addr scrupClear c).mem = (scrupErase currcons k).mem := by
  refine (scrupClear_mem addr c).trans ?_
  rw [h.mem, h.eax, h.ecx, h.edi]
  rfl

theorem scrupRegion_mem
    (h : Operands k (k.vcCons currcons).videoEraseChar
      ((((k.vcCons currcons).bottom - (k.vcCons currcons).top - 1) * k.videoNumColumns) >>> 1)
      ((k.vcCons currcons).origin + k.videoSizeRow * (k.vcCons currcons).top)
      ((k.vcCons currcons).origin + k.videoSizeRow * ((k.vcCons currcons).top + 1)) c)
    (hcolumns : (Memory.repMovsl 4 c.ecx.toNat c.esi c.edi c.mem).1.load32 a = k.videoNumColumns) :
    (Op.run addr (scrupMove a) c).mem = (scrupRegion currcons k).mem := by
  refine (scrupMove_mem addr a c).trans ?_
  dsimp only
  rw [hcolumns, h.mem, h.eax, h.ecx, h.edi, h.esi]
  rfl

theorem scrdownRegion_mem
    (h : Operands k (k.vcCons currcons).videoEraseChar
      ((((k.vcCons currcons).bottom - (k.vcCons currcons).top - 1) * k.videoNumColumns) >>> 1)
      ((k.vcCons currcons).origin + k.videoSizeRow * (k.vcCons currcons).bottom - 4)
      ((k.vcCons currcons).origin + k.videoSizeRow * ((k.vcCons currcons).bottom - 1) - 4) c)
    (hcolumns :
      (Memory.repMovsl (-4) c.ecx.toNat c.esi c.edi c.mem).1.load32 a = k.videoNumColumns) :
    (Op.run addr (scrdownMove a) c).mem = (scrdownRegion currcons k).mem := by
  refine (scrdownMove_mem addr a c).trans ?_
  dsimp only
  rw [hcolumns, h.mem, h.eax, h.ecx, h.edi, h.esi]
  rfl

end MySystem
