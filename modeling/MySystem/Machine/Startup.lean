import MySystem.Machine.Segment
import MySystem.Machine.RealMode

/-!
# Start-up code

What the first code after power-on uses beyond `Machine.RealMode`: calls of the
firmware, the high halves of the byte registers, string moves of bytes, ports
named in the instruction, the coprocessor's status, and the registers that the
switch to protected mode concerns. The firmware, the answers of the ports and the
coprocessor belong to the board.
-/

namespace Machine

/-- The processor with the system registers of the switch to protected mode. -/
structure Startup (D : Type) extends RealMode D where
  cr0 : Word
  gdtr : TableReg
  idtr : TableReg

/-- What is around the processor. A port's answer may depend on the bytes sent so
far; `fstsw` gives the new `ax` for the old one. -/
structure Board (D : Type) where
  int : Byte → RealMode D → RealMode D
  inPort : Byte → List (Byte × Byte) → Byte
  fstsw : Half → Half

@[simp] theorem Cpu.interrupt_setStatus (c : Cpu) (s : Cpu.Status) :
    (c.setStatus s).eflags.getLsbD 9 = c.eflags.getLsbD 9 := by
  simp only [setStatus, getLsbD_withBit _ _ (show 9 < 32 by decide)]
  rfl

namespace RealMode

variable {D : Type}

/-- `ah` for `eax`, and so on. -/
def high (c : RealMode D) (r : Reg) : Byte := Word.highByte (c.reg r)

def setHigh (c : RealMode D) (r : Reg) (v : Byte) : RealMode D :=
  c.setReg r (Word.setHighByte (c.reg r) v)

/-- One turn of `rep movsb`. -/
def moveByte (c : RealMode D) : RealMode D :=
  let step : Half := if c.direction then -1 else 1
  let v := c.mem.bytes (linear c.ds (c.half .esi).toNat)
  (({ c with mem := c.mem.store8 (linear c.es (c.half .edi).toNat) v } : RealMode D).setHalf .esi
    (c.half .esi + step)).setHalf .edi (c.half .edi + step)

def moveBytes : Nat → RealMode D → RealMode D
  | 0, c => c
  | n + 1, c => moveBytes n c.moveByte

end RealMode

/-- A firmware call gives back the segments and the stack pointer, and leaves the
memory between its own data and the stack to the program. -/
structure Board.Obeys {D : Type} (b : Board D) : Prop where
  cs : ∀ n c, (b.int n c).cs = c.cs
  ss : ∀ n c, (b.int n c).ss = c.ss
  esp : ∀ n c, (b.int n c).esp = c.esp
  ds : ∀ n c, (b.int n c).ds = c.ds
  mem : ∀ n c, Memory.AgreeOn 0x500 0x9f000 c.mem (b.int n c).mem

/-- Instructions of start-up code. -/
inductive StartOp (L : Type) where
  /-- One of `RealOp` that passes control on. -/
  | real (op : RealOp Empty)
  /-- `mov ah, v` for `eax`, and so on. -/
  | movHigh (r : Reg) (v : Byte)
  /-- `xor bh, bh` for `ebx`. -/
  | clearHigh (r : Reg)
  /-- `mov r, cs` -/
  | movCs (r : Reg)
  /-- `mov ss, r` -/
  | movSs (r : Reg)
  /-- `mov sp, r` -/
  | movSp (r : Reg)
  /-- `mov [offset], r` with the low half of `r`. -/
  | storeAt (offset : Half) (r : Reg)
  | int (n : Byte)
  | cli
  | repMovsb
  /-- `out port, al` -/
  | outImm (port : Byte)
  /-- `in al, port` -/
  | inImm (port : Byte)
  | andImm (r : Reg) (v : Word)
  | orImm (r : Reg) (v : Word)
  | xorImm (r : Reg) (v : Word)
  /-- `mov r, cr0` -/
  | movFromCr0 (r : Reg)
  /-- `mov cr0, r` -/
  | movToCr0 (r : Reg)
  | lgdt (offset : Half)
  | lidt (offset : Half)
  | fninit
  /-- `fstsw ax` -/
  | fstsw
  | lmsw (r : Reg)
  | jz (l : L)
  | call (l : L)
  | ret
  | jmpFar (s offset : Half)

/-- A table register as 16-bit code loads it: the base has 24 bits. -/
def Memory.table (m : Memory) (s offset : Half) : TableReg where
  limit := m.load16 (linear s offset.toNat)
  base := (m.bytes (linear s (offset.toNat + 4)) ++
    m.load16 (linear s (offset.toNat + 2))).setWidth 32

namespace Startup

variable {D : Type}

def onReal (f : RealMode D → RealMode D) (c : Startup D) : Startup D :=
  { c with toRealMode := f c.toRealMode }

/-- `lmsw` writes the four lowest bits of `cr0` and never clears the first. -/
def loadStatus (cr0 : Word) (v : Half) : Word :=
  (cr0 &&& 0xfffffff1) ||| ((v &&& 0xf).setWidth 32)

end Startup

namespace StartOp

variable {L D : Type} (b : Board D) (dev : Device D)

/-- Instructions that pass control to the one after them; the others are in
`StartCode.exec`. -/
def step (c : Startup D) : StartOp L → Startup D
  | .real op => c.onReal fun r => op.step dev r
  | .movHigh r v => c.onReal fun c => c.setHigh r v
  | .clearHigh r => c.onReal fun c => (c.setHigh r 0).setStatus (Cpu.logicStatus (0 : Byte))
  | .movCs r => c.onReal fun c => c.setHalf r c.cs
  | .movSs r => { c with ss := c.half r }
  | .movSp r => c.onReal fun c => c.setSp (c.half r)
  | .storeAt offset r =>
      { c with mem := c.mem.store16 (linear c.ds offset.toNat) (c.half r) }
  | .int n => c.onReal (b.int n)
  | .cli => { c with eflags := Cpu.withBit c.eflags 9 false }
  | .repMovsb => c.onReal fun c => (RealMode.moveBytes (c.half .ecx).toNat c).setHalf .ecx 0
  | .outImm port => { c with ports := (port, c.byte .eax) :: c.ports }
  | .inImm port => c.onReal fun c => c.setByte .eax (b.inPort port c.ports)
  | .andImm r v =>
      c.onReal fun c => (c.setReg r (c.reg r &&& v)).setStatus (Cpu.logicStatus (c.reg r &&& v))
  | .orImm r v =>
      c.onReal fun c => (c.setReg r (c.reg r ||| v)).setStatus (Cpu.logicStatus (c.reg r ||| v))
  | .xorImm r v =>
      c.onReal fun c => (c.setReg r (c.reg r ^^^ v)).setStatus (Cpu.logicStatus (c.reg r ^^^ v))
  | .movFromCr0 r => c.onReal fun d => d.setReg r c.cr0
  | .movToCr0 r => { c with cr0 := c.reg r }
  | .lgdt offset => { c with gdtr := c.mem.table c.ds offset }
  | .lidt offset => { c with idtr := c.mem.table c.ds offset }
  | .fninit => c
  | .fstsw => c.onReal fun c => c.setHalf .eax (b.fstsw (c.half .eax))
  | .lmsw r => { c with cr0 := Startup.loadStatus c.cr0 (c.half r) }
  | _ => c

end StartOp

/-- How control leaves a labelled stretch of start-up code. -/
inductive StartOutcome (D : Type) where
  | goto (c : Startup D)
  /-- To another segment. -/
  | far (s offset : Half) (c : Startup D)

/-- Labelled start-up code: the code behind each label, and the label after it. -/
structure StartCode (L : Type) where
  code : L → List (StartOp L)
  next : L → L

namespace StartCode

variable {L D : Type} (p : StartCode L) (lay : Offsets L) (b : Board D) (dev : Device D)

def enter (c : Startup D) (l : L) : Startup D :=
  c.onReal fun c => RealCode.enter lay c l

/-- The instructions left of the code behind label `l`. -/
def exec (l : L) : List (StartOp L) → Startup D → StartOutcome D
  | [], c => .goto (enter lay c (p.next l))
  | .jz l' :: is, c => if c.zero then .goto (enter lay c l') else exec l is c
  | .call l' :: _, c =>
      .goto (enter lay (c.onReal fun c => c.pushHalf (lay.addr (p.next l))) l')
  | .ret :: _, c =>
      .goto (c.onReal fun c => { c.setSp (c.sp + 2) with eip := c.topHalf.setWidth 32 })
  | .jmpFar s offset :: _, c => .far s offset c
  | i :: is, c => exec l is (i.step b dev c)

/-- One labelled stretch. -/
def Stretch (c c' : Startup D) : Prop :=
  ∃ l, c.eip = (lay.addr l).setWidth 32 ∧ p.exec lay b dev l (p.code l) c = .goto c'

/-- Stretches one after the other. -/
def Runs : Startup D → Startup D → Prop := Relation.ReflTransGen (p.Stretch lay b dev)

/-- Stretches, the last of which leaves the segment. -/
def Leaves (c : Startup D) (s offset : Half) (r : Startup D) : Prop :=
  ∃ d l, p.Runs lay b dev c d ∧ d.eip = (lay.addr l).setWidth 32 ∧
    p.exec lay b dev l (p.code l) d = .far s offset r

variable {p lay b dev} {c d d' : Startup D}

/-- A stretch has one outcome only. -/
theorem Stretch.unique (h : p.Stretch lay b dev c d) (h' : p.Stretch lay b dev c d') : d = d' := by
  obtain ⟨l, heip, hexec⟩ := h
  obtain ⟨l', heip', hexec'⟩ := h'
  obtain rfl : l = l' := RealCode.addr_inj (heip.symm.trans heip')
  injection hexec.symm.trans hexec'

/-- The label of code that is followed elsewhere need not be passed. -/
theorem Runs.avoid {l : L} (hcode : p.code l = []) (hnext : p.next l = l)
    (h : p.Runs lay b dev c d) :
    Relation.ReflTransGen (fun c d => c.eip ≠ (lay.addr l).setWidth 32 ∧ p.Stretch lay b dev c d)
      c d := by
  induction h with
  | refl => exact .refl
  | @tail d e _ hstretch ih =>
      by_cases hat : d.eip = (lay.addr l).setWidth 32
      · have hstays : p.Stretch lay b dev d (enter lay d l) := by
          refine ⟨l, hat, ?_⟩
          rw [hcode, exec, hnext]
        have hsame : enter lay d l = d := by
          rw [enter, Startup.onReal, RealCode.enter, ← hat]
        rw [← hstays.unique hstretch, hsame]
        exact ih
      · exact ih.tail ⟨hat, hstretch⟩

end StartCode

/-- As `StartCode.Runs.avoid`. -/
theorem RealCode.Runs.avoid {L D : Type} {p : RealCode L} {lay : Offsets L} {dev : Device D}
    {c d : RealMode D} {l : L} (hcode : p.code l = []) (hnext : p.next l = l)
    (h : p.Runs lay dev c d) :
    Relation.ReflTransGen (fun c d => c.eip ≠ (lay.addr l).setWidth 32 ∧ p.Stretch lay dev c d)
      c d := by
  induction h with
  | refl => exact .refl
  | @tail d e _ hstretch ih =>
      by_cases hat : d.eip = (lay.addr l).setWidth 32
      · have hstays : p.Stretch lay dev d (enter lay d l) := by
          refine ⟨l, hat, ?_⟩
          rw [hcode, exec, hnext]
        have hsame : enter lay d l = d := by rw [enter, ← hat]
        rw [← hstays.unique hstretch, hsame]
        exact ih
      · exact ih.tail ⟨hat, hstretch⟩

end Machine
