import MySystem.Machine.Processor

/-!
# Real mode

The processor before it is switched to protected mode: a segment register times
16 is added to an offset of 16 bits, and the stack pointer, the loop counter and
the string pointers are the low halves of their registers. Devices answer to the
port instructions.
-/

namespace Machine

/-- A device with states in `D`. -/
structure Device (D : Type) where
  out : Half → Byte → D → D
  inByte : Half → D → Byte × D
  inWord : Half → D → Half × D

/-- The processor and the device it talks to. -/
structure RealMode (D : Type) extends Cpu where
  device : D

/-- The offsets of the labels in the code segment, no two the same. -/
structure Offsets (L : Type) where
  addr : L → Half
  label? : Half → Option L
  label_addr : ∀ l, label? (addr l) = some l

/-- The address of an offset in a segment. -/
def linear (s : Half) (offset : Nat) : Word := Word.of (16 * s.toNat + offset)

@[simp] theorem Cpu.seg_setReg (c : Cpu) (r : Reg) (v : Word) (s : Seg) :
    (c.setReg r v).seg s = c.seg s := by
  cases r <;> cases s <;> rfl

namespace RealMode

variable {D : Type}

def setReg (c : RealMode D) (r : Reg) (v : Word) : RealMode D :=
  { c with toCpu := c.toCpu.setReg r v }

def setSeg (c : RealMode D) (s : Seg) (v : Half) : RealMode D :=
  { c with toCpu := c.toCpu.setSeg s v }

def setStatus (c : RealMode D) (s : Cpu.Status) : RealMode D :=
  { c with toCpu := c.toCpu.setStatus s }

/-- `ax` for `eax`, and so on. -/
def half (c : RealMode D) (r : Reg) : Half := (c.reg r).setWidth 16

def setHalf (c : RealMode D) (r : Reg) (v : Half) : RealMode D :=
  c.setReg r ((c.reg r).extractLsb' 16 16 ++ v)

/-- `al` for `eax`, and so on. -/
def byte (c : RealMode D) (r : Reg) : Byte := (c.reg r).setWidth 8

def setByte (c : RealMode D) (r : Reg) (v : Byte) : RealMode D :=
  c.setReg r ((c.reg r).extractLsb' 8 24 ++ v)

def sp (c : RealMode D) : Half := c.esp.setWidth 16

def setSp (c : RealMode D) (v : Half) : RealMode D :=
  { c with esp := c.esp.extractLsb' 16 16 ++ v }

def push (c : RealMode D) (v : Word) : RealMode D :=
  { c.setSp (c.sp - 4) with mem := c.mem.store32 (linear c.ss (c.sp - 4).toNat) v }

def pushHalf (c : RealMode D) (v : Half) : RealMode D :=
  { c.setSp (c.sp - 2) with mem := c.mem.store16 (linear c.ss (c.sp - 2).toNat) v }

def top (c : RealMode D) : Word := c.mem.load32 (linear c.ss c.sp.toNat)

def topHalf (c : RealMode D) : Half := c.mem.load16 (linear c.ss c.sp.toNat)

/-- One turn of `rep movsw`. -/
def moveWord (c : RealMode D) : RealMode D :=
  let step : Half := if c.direction then -2 else 2
  let v := c.mem.load16 (linear c.ds (c.half .esi).toNat)
  (({ c with mem := c.mem.store16 (linear c.es (c.half .edi).toNat) v } : RealMode D).setHalf .esi
    (c.half .esi + step)).setHalf .edi (c.half .edi + step)

def moveWords : Nat → RealMode D → RealMode D
  | 0, c => c
  | n + 1, c => moveWords n c.moveWord

/-! ### Halves and bytes -/

theorem setWidth_half (a b : Half) : (a ++ b : Word).setWidth 16 = b := by
  rw [BitVec.setWidth_append, dif_pos (by decide)]
  exact BitVec.setWidth_eq b

theorem setWidth_byte (a : BitVec 24) (b : Byte) : (a ++ b : Word).setWidth 8 = b := by
  rw [BitVec.setWidth_append, dif_pos (by decide)]
  exact BitVec.setWidth_eq b

@[simp] theorem setReg_toCpu (c : RealMode D) (r : Reg) (v : Word) :
    (c.setReg r v).toCpu = c.toCpu.setReg r v := rfl

@[simp] theorem setSeg_toCpu (c : RealMode D) (s : Seg) (v : Half) :
    (c.setSeg s v).toCpu = c.toCpu.setSeg s v := rfl

@[simp] theorem setStatus_toCpu (c : RealMode D) (s : Cpu.Status) :
    (c.setStatus s).toCpu = c.toCpu.setStatus s := rfl

@[simp] theorem half_setHalf (c : RealMode D) (r : Reg) (v : Half) :
    (c.setHalf r v).half r = v := by
  simp [half, setHalf, setWidth_half]

@[simp] theorem byte_setByte (c : RealMode D) (r : Reg) (v : Byte) :
    (c.setByte r v).byte r = v := by
  simp [byte, setByte, setWidth_byte]

@[simp] theorem half_setStatus (c : RealMode D) (s : Cpu.Status) (r : Reg) :
    (c.setStatus s).half r = c.half r := by
  simp [half]

@[simp] theorem byte_setStatus (c : RealMode D) (s : Cpu.Status) (r : Reg) :
    (c.setStatus s).byte r = c.byte r := by
  simp [byte]

@[simp] theorem setHalf_toCpu (c : RealMode D) (r : Reg) (v : Half) :
    (c.setHalf r v).toCpu = c.toCpu.setReg r ((c.reg r).extractLsb' 16 16 ++ v) := rfl

@[simp] theorem setByte_toCpu (c : RealMode D) (r : Reg) (v : Byte) :
    (c.setByte r v).toCpu = c.toCpu.setReg r ((c.reg r).extractLsb' 8 24 ++ v) := rfl

theorem half_setHalf_ne (c : RealMode D) {r r' : Reg} (v : Half) (h : r' ≠ r) :
    (c.setHalf r v).half r' = c.half r' := by
  simp [half, h]

theorem half_setByte_ne (c : RealMode D) {r r' : Reg} (v : Byte) (h : r' ≠ r) :
    (c.setByte r v).half r' = c.half r' := by
  simp [half, h]

theorem byte_setHalf_ne (c : RealMode D) {r r' : Reg} (v : Half) (h : r' ≠ r) :
    (c.setHalf r v).byte r' = c.byte r' := by
  simp [byte, h]

theorem byte_setByte_ne (c : RealMode D) {r r' : Reg} (v : Byte) (h : r' ≠ r) :
    (c.setByte r v).byte r' = c.byte r' := by
  simp [byte, h]

@[simp] theorem reg_push (c : RealMode D) (v : Word) (r : Reg) : (c.push v).reg r = c.reg r := by
  cases r <;> rfl

@[simp] theorem sp_push (c : RealMode D) (v : Word) : (c.push v).sp = c.sp - 4 :=
  setWidth_half _ _

@[simp] theorem sp_setReg (c : RealMode D) (r : Reg) (v : Word) : (c.setReg r v).sp = c.sp := by
  simp [sp]

@[simp] theorem reg_setSp (c : RealMode D) (v : Half) (r : Reg) : (c.setSp v).reg r = c.reg r := by
  cases r <;> rfl

@[simp] theorem seg_push (c : RealMode D) (v : Word) (r : Seg) : (c.push v).seg r = c.seg r := by
  cases r <;> rfl

@[simp] theorem ss_push (c : RealMode D) (v : Word) : (c.push v).ss = c.ss := rfl

@[simp] theorem device_push (c : RealMode D) (v : Word) : (c.push v).device = c.device := rfl

@[simp] theorem mem_push (c : RealMode D) (v : Word) :
    (c.push v).mem = c.mem.store32 (linear c.ss (c.sp - 4).toNat) v := rfl

@[simp] theorem setSp_toCpu (c : RealMode D) (v : Half) :
    (c.setSp v).toCpu = { c.toCpu with esp := c.esp.extractLsb' 16 16 ++ v } := rfl

@[simp] theorem sp_setSp (c : RealMode D) (v : Half) : (c.setSp v).sp = v := setWidth_half _ v

end RealMode

/-- Instructions of 16-bit code. `Low` and `Byte` name the low half and the low
byte of a register. -/
inductive RealOp (L : Type) where
  | push (r : Reg)
  | pop (r : Reg)
  | movImm (r : Reg) (v : Word)
  | movLow (r : Reg) (v : Half)
  | movByte (r : Reg) (v : Byte)
  | movSeg (s : Seg) (r : Reg)
  /-- `mov [r], r'` with the low half of `r'`. -/
  | storeLow (r r' : Reg)
  | inc (r : Reg)
  | incLow (r : Reg)
  | addImm (r : Reg) (v : Word)
  | addLow (r : Reg) (v : Half)
  | andByte (r : Reg) (v : Byte)
  | orByte (r : Reg) (v : Byte)
  | xorLow (r r' : Reg)
  | cmpByte (r : Reg) (v : Byte)
  | cmpLow (r : Reg) (v : Half)
  /-- `shr r, cl` -/
  | shrCl (r : Reg)
  | cld
  | repMovsw
  /-- `out dx, al` -/
  | out
  /-- `in al, dx` -/
  | inByte
  /-- `in ax, dx` -/
  | inWord
  | jmp (l : L)
  | jz (l : L)
  | jnz (l : L)
  | loop (l : L)
  | call (l : L)
  | ret
  | jmpFar (s offset : Half)

namespace RealOp

variable {L D : Type} (dev : Device D)

/-- Instructions that pass control to the one after them; the others are in
`RealCode.exec`. -/
def step (c : RealMode D) : RealOp L → RealMode D
  | .push r => c.push (c.reg r)
  | .pop r => (c.setSp (c.sp + 4)).setReg r c.top
  | .movImm r v => c.setReg r v
  | .movLow r v => c.setHalf r v
  | .movByte r v => c.setByte r v
  | .movSeg s r => c.setSeg s (c.half r)
  | .storeLow r r' => { c with mem := c.mem.store16 (linear c.ds (c.reg r).toNat) (c.half r') }
  | .inc r => (c.setReg r (c.reg r + 1)).setStatus (c.countStatus (Cpu.addStatus (c.reg r) 1))
  | .incLow r => (c.setHalf r (c.half r + 1)).setStatus (c.countStatus (Cpu.addStatus (c.half r) 1))
  | .addImm r v => (c.setReg r (c.reg r + v)).setStatus (Cpu.addStatus (c.reg r) v)
  | .addLow r v => (c.setHalf r (c.half r + v)).setStatus (Cpu.addStatus (c.half r) v)
  | .andByte r v => (c.setByte r (c.byte r &&& v)).setStatus (Cpu.logicStatus (c.byte r &&& v))
  | .orByte r v => (c.setByte r (c.byte r ||| v)).setStatus (Cpu.logicStatus (c.byte r ||| v))
  | .xorLow r r' =>
      (c.setHalf r (c.half r ^^^ c.half r')).setStatus (Cpu.logicStatus (c.half r ^^^ c.half r'))
  | .cmpByte r v => c.setStatus (Cpu.subStatus (c.byte r) v)
  | .cmpLow r v => c.setStatus (Cpu.subStatus (c.half r) v)
  | .shrCl r =>
      let n := (c.byte .ecx).toNat % 32
      let v := c.reg r >>> n
      if n = 0 then c
      else (c.setReg r v).setStatus { Cpu.logicStatus v with cf := (c.reg r).getLsbD (n - 1) }
  | .cld => { c with eflags := Cpu.withBit c.eflags 10 false }
  | .repMovsw => (RealMode.moveWords (c.half .ecx).toNat c).setHalf .ecx 0
  | .out => { c with device := dev.out (c.half .edx) (c.byte .eax) c.device }
  | .inByte =>
      let (v, d) := dev.inByte (c.half .edx) c.device
      ({ c with device := d } : RealMode D).setByte .eax v
  | .inWord =>
      let (v, d) := dev.inWord (c.half .edx) c.device
      ({ c with device := d } : RealMode D).setHalf .eax v
  | _ => c

end RealOp

/-- How control leaves a labelled stretch of 16-bit code. -/
inductive RealOutcome (D : Type) where
  | goto (c : RealMode D)
  /-- To another segment. -/
  | far (s offset : Half) (c : RealMode D)
  /-- An operand beyond the end of its segment. -/
  | fault

/-- Labelled 16-bit code: the code behind each label, and the label after it. -/
structure RealCode (L : Type) where
  code : L → List (RealOp L)
  next : L → L

namespace RealCode

variable {L D : Type} (p : RealCode L) (lay : Offsets L) (dev : Device D)

def enter (c : RealMode D) (l : L) : RealMode D := { c with eip := (lay.addr l).setWidth 32 }

/-- The instructions left of the code behind label `l`. -/
def exec (l : L) : List (RealOp L) → RealMode D → RealOutcome D
  | [], c => .goto (enter lay c (p.next l))
  | .jmp l' :: _, c => .goto (enter lay c l')
  | .jz l' :: is, c => if c.zero then .goto (enter lay c l') else exec l is c
  | .jnz l' :: is, c => if c.zero then exec l is c else .goto (enter lay c l')
  | .loop l' :: is, c =>
      let d := c.setHalf .ecx (c.half .ecx - 1)
      if d.half .ecx = 0 then exec l is d else .goto (enter lay d l')
  | .call l' :: _, c => .goto (enter lay (c.pushHalf (lay.addr (p.next l))) l')
  | .ret :: _, c => .goto { c.setSp (c.sp + 2) with eip := c.topHalf.setWidth 32 }
  | .jmpFar s offset :: _, c => .far s offset c
  | .storeLow r r' :: is, c =>
      if c.reg r ≤ 0xfffe then exec l is ((RealOp.storeLow r r' : RealOp L).step dev c) else .fault
  | i :: is, c => exec l is (i.step dev c)

/-- One labelled stretch. -/
def Stretch (c c' : RealMode D) : Prop :=
  ∃ l, c.eip = (lay.addr l).setWidth 32 ∧ p.exec lay dev l (p.code l) c = .goto c'

/-- Stretches one after the other. -/
def Runs : RealMode D → RealMode D → Prop := Relation.ReflTransGen (p.Stretch lay dev)

/-- Stretches, the last of which leaves the segment. -/
def Leaves (c : RealMode D) (s offset : Half) (r : RealMode D) : Prop :=
  ∃ d l, p.Runs lay dev c d ∧ d.eip = (lay.addr l).setWidth 32 ∧
    p.exec lay dev l (p.code l) d = .far s offset r

variable {p lay dev} {c d d' r r' : RealMode D}

theorem addr_inj {l l' : L} (h : ((lay.addr l).setWidth 32 : Word) = (lay.addr l').setWidth 32) :
    l = l' := by
  have haddr : lay.addr l = lay.addr l' := by
    apply BitVec.eq_of_toNat_eq
    have hnat := congrArg BitVec.toNat h
    rwa [BitVec.toNat_setWidth_of_le (by decide), BitVec.toNat_setWidth_of_le (by decide)] at hnat
  have hlabel := congrArg lay.label? haddr
  rw [lay.label_addr, lay.label_addr] at hlabel
  exact Option.some.inj hlabel

/-- A stretch has one outcome only. -/
theorem Stretch.unique (h : p.Stretch lay dev c d) (h' : p.Stretch lay dev c d') : d = d' := by
  obtain ⟨l, heip, hexec⟩ := h
  obtain ⟨l', heip', hexec'⟩ := h'
  obtain rfl : l = l' := addr_inj (heip.symm.trans heip')
  injection hexec.symm.trans hexec'

/-- From the state in which code leaves its segment no run goes on. -/
private theorem eq_of_runs {l : L} {s offset : Half} (heip : d.eip = (lay.addr l).setWidth 32)
    (hexec : p.exec lay dev l (p.code l) d = .far s offset r) (hruns : p.Runs lay dev d d') :
    d' = d := by
  rcases hruns.cases_head with rfl | ⟨e, ⟨l', heip', hexec'⟩, -⟩
  · rfl
  · obtain rfl : l = l' := addr_inj (heip.symm.trans heip')
    cases hexec.symm.trans hexec'

/-- However it runs, code leaves its segment in one state only. -/
theorem Leaves.unique {s offset s' offset' : Half} (h : p.Leaves lay dev c s offset r)
    (h' : p.Leaves lay dev c s' offset' r') : s = s' ∧ offset = offset' ∧ r = r' := by
  obtain ⟨d, l, hruns, heip, hexec⟩ := h
  obtain ⟨d', l', hruns', heip', hexec'⟩ := h'
  have honce : Relator.RightUnique (p.Stretch lay dev) := fun _ _ _ => Stretch.unique
  have hsame : d = d' := by
    rcases hruns.total_of_right_unique honce hruns' with hon | hon
    · exact (eq_of_runs heip hexec hon).symm
    · exact eq_of_runs heip' hexec' hon
  subst hsame
  obtain rfl : l = l' := addr_inj (heip.symm.trans heip')
  injection hexec.symm.trans hexec' with hs ho hr
  exact ⟨hs, ho, hr⟩

end RealCode

end Machine
