import MySystem.Machine.Code
import Mathlib.Logic.Relation

/-!
# The whole processor

What start-up code and library routines use beyond `Machine.Cpu`: the control
and table registers, operands in memory, the direction flag and the string
instructions whose pointers step as it says. A program is laid out in labelled
stretches as in `Machine.Code`; here control also comes back from a call, so a
run is a chain of stretches (`Runs`).

There is no `gs`: nothing reads it.
-/

namespace Machine

/-- GDTR or IDTR. -/
structure TableReg where
  limit : Half
  base : Word

/-- The processor with its system registers. -/
structure Processor extends Cpu where
  cr0 : Word
  cr3 : Word
  gdtr : TableReg
  idtr : TableReg
  /-- The addresses `scasb` has read, newest first. -/
  scanned : List Word

namespace Cpu

/-- The direction flag. -/
def direction (c : Cpu) : Bool := c.eflags.getLsbD 10

def sign (c : Cpu) : Bool := c.eflags.getLsbD 7

def overflow (c : Cpu) : Bool := c.eflags.getLsbD 11

/-- How far a string instruction steps its pointers. -/
def stride (c : Cpu) (size : Word) : Word := if c.direction then -size else size

@[simp] theorem direction_setStatus (c : Cpu) (s : Status) :
    (c.setStatus s).direction = c.direction := by
  simp only [direction, setStatus, getLsbD_withBit _ _ (show 10 < 32 by decide)]
  rfl

@[simp] theorem direction_setReg (c : Cpu) (r : Reg) (v : Word) :
    (c.setReg r v).direction = c.direction := by
  cases r <;> rfl

@[simp] theorem direction_setSeg (c : Cpu) (s : Seg) (v : Half) :
    (c.setSeg s v).direction = c.direction := by
  cases s <;> rfl

@[simp] theorem direction_push (c : Cpu) (v : Word) : (c.push v).direction = c.direction := rfl

@[simp] theorem direction_drop (c : Cpu) : c.drop.direction = c.direction := rfl

theorem zero_setStatus (c : Cpu) (s : Status) : (c.setStatus s).zero = s.zf := by
  simp only [zero, setStatus, getLsbD_withBit _ _ (show 6 < 32 by decide)]
  rfl

theorem sign_setStatus (c : Cpu) (s : Status) : (c.setStatus s).sign = s.sf := by
  simp only [sign, setStatus, getLsbD_withBit _ _ (show 7 < 32 by decide)]
  rfl

theorem overflow_setStatus (c : Cpu) (s : Status) : (c.setStatus s).overflow = s.of := by
  simp only [overflow, setStatus, getLsbD_withBit _ _ (show 11 < 32 by decide)]
  rfl

@[simp] theorem reg_setReg (c : Cpu) (r r' : Reg) (v : Word) :
    (c.setReg r v).reg r' = if r' = r then v else c.reg r' := by
  cases r <;> cases r' <;> rfl

@[simp] theorem reg_setStatus (c : Cpu) (s : Status) (r : Reg) :
    (c.setStatus s).reg r = c.reg r := by
  cases r <;> rfl

@[simp] theorem reg_drop (c : Cpu) (r : Reg) : c.drop.reg r = c.reg r := by
  cases r <;> rfl

@[simp] theorem esp_setReg (c : Cpu) (r : Reg) (v : Word) : (c.setReg r v).esp = c.esp := by
  cases r <;> rfl

@[simp] theorem esp_setStatus (c : Cpu) (s : Status) : (c.setStatus s).esp = c.esp := rfl

@[simp] theorem esp_push (c : Cpu) (v : Word) : (c.push v).esp = c.esp - 4 := rfl

@[simp] theorem esp_drop (c : Cpu) : c.drop.esp = c.esp + 4 := rfl

@[simp] theorem mem_setStatus (c : Cpu) (s : Status) : (c.setStatus s).mem = c.mem := rfl

@[simp] theorem mem_push (c : Cpu) (v : Word) :
    (c.push v).mem = c.mem.store32 (c.esp - 4) v := rfl

/-- The flags after `inc` and `dec`, which leave the carry alone. -/
def countStatus (c : Cpu) (s : Status) : Status := { s with cf := c.carry }

end Cpu

namespace Processor

def setReg (c : Processor) (r : Reg) (v : Word) : Processor :=
  { c with toCpu := c.toCpu.setReg r v }

def setSeg (c : Processor) (s : Seg) (v : Half) : Processor :=
  { c with toCpu := c.toCpu.setSeg s v }

def setStatus (c : Processor) (s : Cpu.Status) : Processor :=
  { c with toCpu := c.toCpu.setStatus s }

def setDirection (c : Processor) (v : Bool) : Processor :=
  { c with eflags := Cpu.withBit c.eflags 10 v }

def setMem (c : Processor) (m : Memory) : Processor := { c with mem := m }

def push (c : Processor) (v : Word) : Processor := { c with toCpu := c.toCpu.push v }

def pushSeg (c : Processor) (s : Seg) : Processor := { c with toCpu := c.toCpu.pushSeg s }

def drop (c : Processor) : Processor := { c with toCpu := c.toCpu.drop }

@[simp] theorem setReg_toCpu (c : Processor) (r : Reg) (v : Word) :
    (c.setReg r v).toCpu = c.toCpu.setReg r v := rfl

@[simp] theorem setStatus_toCpu (c : Processor) (s : Cpu.Status) :
    (c.setStatus s).toCpu = c.toCpu.setStatus s := rfl

@[simp] theorem push_toCpu (c : Processor) (v : Word) : (c.push v).toCpu = c.toCpu.push v := rfl

@[simp] theorem drop_toCpu (c : Processor) : c.drop.toCpu = c.toCpu.drop := rfl

@[simp] theorem reg_setMem (c : Processor) (m : Memory) (r : Reg) :
    (c.setMem m).reg r = c.reg r := by
  cases r <;> rfl

@[simp] theorem esp_setMem (c : Processor) (m : Memory) : (c.setMem m).esp = c.esp := rfl

@[simp] theorem mem_setMem (c : Processor) (m : Memory) : (c.setMem m).mem = m := rfl

@[simp] theorem direction_setMem (c : Processor) (m : Memory) :
    (c.setMem m).direction = c.direction := rfl

/-- One turn of `repne scasb`: the byte at `edi` is compared with `al`. -/
def compareByte (c : Processor) : Processor :=
  ({ c with
    edi := c.edi + c.stride 1
    ecx := c.ecx - 1
    scanned := c.edi :: c.scanned } : Processor).setStatus
      (Cpu.subStatus (c.eax.setWidth 8) (c.mem.bytes c.edi))

/-- `repne scasb` for at most `n` bytes, up to the first one equal to `al`. -/
def scan (c : Processor) : Nat → Processor
  | 0 => c
  | n + 1 =>
      if c.eax.setWidth 8 = c.mem.bytes c.edi then c.compareByte else scan c.compareByte n

@[simp] theorem direction_compareByte (c : Processor) : c.compareByte.direction = c.direction :=
  Cpu.direction_setStatus ..

theorem compareByte_eq {c : Processor} (hdirection : c.direction = false) :
    ∃ eflags, c.compareByte = { c with
      edi := c.edi + 1
      ecx := c.ecx - 1
      scanned := c.edi :: c.scanned
      eflags := eflags } := by
  have hstride : c.stride 1 = 1 := by
    rw [Cpu.stride, hdirection]
    rfl
  rw [compareByte, hstride]
  exact ⟨_, rfl⟩

/-- With the direction flag clear a scan compares `j` bytes upwards: all but the
last of them differ from `al`, and the last one does too only if the scan ran out. -/
theorem scan_up {c : Processor} (hdirection : c.direction = false) (n : Nat) :
    ∃ j eflags, j ≤ n ∧ (0 < n → 0 < j) ∧
      (∀ i, i + 1 < j → c.mem.bytes (c.edi + Word.of i) ≠ c.eax.setWidth 8) ∧
      (j < n → c.mem.bytes (c.edi + Word.of (j - 1)) = c.eax.setWidth 8) ∧
      c.scan n = { c with
        edi := c.edi + Word.of j
        ecx := c.ecx - Word.of j
        scanned := ((List.range j).map fun i => c.edi + Word.of i).reverse ++ c.scanned
        eflags := eflags } := by
  induction n generalizing c with
  | zero =>
      refine ⟨0, c.eflags, Nat.le_refl 0, fun h => absurd h (Nat.lt_irrefl 0), ?_, ?_, ?_⟩
      · intro i hi
        exact absurd hi (Nat.not_lt_zero _)
      · intro h
        exact absurd h (Nat.lt_irrefl 0)
      · have hedi : c.edi + Word.of 0 = c.edi := BitVec.add_zero _
        have hecx : c.ecx - Word.of 0 = c.ecx := BitVec.sub_zero _
        rw [scan, hedi, hecx]
        rfl
  | succ n ih =>
      have hnext : ∀ i, c.edi + 1 + Word.of i = c.edi + Word.of (i + 1) := by
        intro i
        rw [BitVec.add_assoc, Nat.add_comm i, ← Word.of_add_of]
        rfl
      have hzero : c.edi + Word.of 0 = c.edi := BitVec.add_zero _
      obtain ⟨eflags, hcompare⟩ := compareByte_eq hdirection
      have hdirection' := (direction_compareByte c).trans hdirection
      rw [hcompare] at hdirection'
      rw [scan, hcompare]
      by_cases hequal : c.eax.setWidth 8 = c.mem.bytes c.edi
      · rw [if_pos hequal]
        refine ⟨1, eflags, Nat.le_add_left 1 n, fun _ => Nat.one_pos, ?_, ?_, ?_⟩
        · intro i hi
          exact absurd hi (by omega)
        · intro _
          rw [Nat.sub_self, hzero, hequal]
        · rw [List.range_one, List.map_singleton, hzero]
          rfl
      · obtain ⟨j, eflags', hle, hpos, hbefore, hlast, hrest⟩ := ih hdirection'
        rw [if_neg hequal, hrest]
        refine ⟨j + 1, eflags', Nat.succ_le_succ hle, fun _ => Nat.succ_pos j, ?_, ?_, ?_⟩
        · intro i hi
          cases i with
          | zero =>
              rw [hzero]
              exact fun h => hequal h.symm
          | succ i =>
              rw [← hnext]
              exact hbefore i (by omega)
        · intro hlt
          have hback : j - 1 + 1 = j := by omega
          have h := hlast (by omega)
          dsimp only at h
          rw [hnext, hback] at h
          exact h
        · have haddrs : ((List.range (j + 1)).map fun i => c.edi + Word.of i).reverse =
              ((List.range j).map fun i => c.edi + 1 + Word.of i).reverse ++ [c.edi] := by
            rw [List.range_succ_eq_map, List.map_cons, List.map_map, List.reverse_cons, hzero]
            congr 2
            exact List.map_congr_left fun i _ => (hnext i).symm
          have hecx : c.ecx - 1 - Word.of j = c.ecx - Word.of (j + 1) := by
            rw [BitVec.sub_sub, Nat.add_comm j, ← Word.of_add_of]
            rfl
          rw [haddrs, List.append_assoc, List.singleton_append, ← hecx, ← hnext]

end Processor

/-- Instructions with their operands; `[r + disp]` and `[a]` are operands in memory. -/
inductive Op (L : Type) where
  | push (r : Reg)
  | pushSeg (s : Seg)
  | pushImm (v : Word)
  | pushLabel (l : L)
  | pop (r : Reg)
  | mov (r r' : Reg)
  | movImm (r : Reg) (v : Word)
  | movLabel (r : Reg) (l : L)
  | movLow (r : Reg) (v : Half)
  | movSeg (s : Seg) (r : Reg)
  /-- `mov r, esp` -/
  | movEsp (r : Reg)
  /-- `mov r, [r' + disp]` -/
  | load (r r' : Reg) (disp : Word)
  /-- `mov [r + disp], r'` -/
  | store (r : Reg) (disp : Word) (r' : Reg)
  /-- `mov r, [a]` -/
  | loadAt (r : Reg) (a : Word)
  /-- `mov [a], r` -/
  | storeAt (a : Word) (r : Reg)
  /-- `mov dword [a], v` -/
  | storeImm (a v : Word)
  /-- `cmp [a], r` -/
  | cmpAt (a : Word) (r : Reg)
  | inc (r : Reg)
  | dec (r : Reg)
  | not (r : Reg)
  | addImm (r : Reg) (v : Word)
  | subImm (r : Reg) (v : Word)
  | andImm (r : Reg) (v : Word)
  | orImm (r : Reg) (v : Word)
  | or (r r' : Reg)
  /-- `or` of the low halves. -/
  | orLow (r r' : Reg)
  | xor (r r' : Reg)
  | xorAl
  | shl (r : Reg) (n : Nat)
  | cli
  | sti
  | cld
  | std
  | stosd
  | repStosb
  | repStosw
  | repMovsl
  | repneScasb
  | leave
  /-- `lss esp, [a]` -/
  | lss (a : Word)
  | lgdt (a : Word)
  | lidt (a : Word)
  /-- `mov cr0, r` -/
  | movToCr0 (r : Reg)
  /-- `mov r, cr0` -/
  | movFromCr0 (r : Reg)
  /-- `mov cr3, r` -/
  | movToCr3 (r : Reg)
  | jmp (l : L)
  | je (l : L)
  | jne (l : L)
  | jge (l : L)
  | call (l : L)
  | ret
  | iret

namespace Op

variable {L : Type} (addr : L → Word)

/-- Instructions that pass control to the one after them; the others are in
`Routines.exec`. -/
def step (c : Processor) : Op L → Processor
  | .push r => c.push (c.reg r)
  | .pushSeg s => c.pushSeg s
  | .pushImm v => c.push v
  | .pushLabel l => c.push (addr l)
  | .pop r => c.drop.setReg r c.top
  | .mov r r' => c.setReg r (c.reg r')
  | .movImm r v => c.setReg r v
  | .movLabel r l => c.setReg r (addr l)
  | .movLow r v => c.setReg r ((c.reg r).extractLsb' 16 16 ++ v)
  | .movSeg s r => c.setSeg s ((c.reg r).setWidth 16)
  | .movEsp r => c.setReg r c.esp
  | .load r r' disp => c.setReg r (c.mem.load32 (c.reg r' + disp))
  | .store r disp r' => c.setMem (c.mem.store32 (c.reg r + disp) (c.reg r'))
  | .loadAt r a => c.setReg r (c.mem.load32 a)
  | .storeAt a r => c.setMem (c.mem.store32 a (c.reg r))
  | .storeImm a v => c.setMem (c.mem.store32 a v)
  | .cmpAt a r => c.setStatus (Cpu.subStatus (c.mem.load32 a) (c.reg r))
  | .inc r => (c.setReg r (c.reg r + 1)).setStatus (c.countStatus (Cpu.addStatus (c.reg r) 1))
  | .dec r => (c.setReg r (c.reg r - 1)).setStatus (c.countStatus (Cpu.subStatus (c.reg r) 1))
  | .not r => c.setReg r (~~~(c.reg r))
  | .addImm r v => (c.setReg r (c.reg r + v)).setStatus (Cpu.addStatus (c.reg r) v)
  | .subImm r v => (c.setReg r (c.reg r - v)).setStatus (Cpu.subStatus (c.reg r) v)
  | .andImm r v => (c.setReg r (c.reg r &&& v)).setStatus (Cpu.logicStatus (c.reg r &&& v))
  | .orImm r v => (c.setReg r (c.reg r ||| v)).setStatus (Cpu.logicStatus (c.reg r ||| v))
  | .or r r' =>
      (c.setReg r (c.reg r ||| c.reg r')).setStatus (Cpu.logicStatus (c.reg r ||| c.reg r'))
  | .orLow r r' =>
      let low : Half := (c.reg r ||| c.reg r').setWidth 16
      (c.setReg r ((c.reg r).extractLsb' 16 16 ++ low)).setStatus (Cpu.logicStatus low)
  | .xor r r' =>
      (c.setReg r (c.reg r ^^^ c.reg r')).setStatus (Cpu.logicStatus (c.reg r ^^^ c.reg r'))
  | .xorAl =>
      (c.setReg .eax (c.eax.extractLsb' 8 24 ++ (0 : Byte))).setStatus (Cpu.logicStatus (0 : Byte))
  | .shl r n =>
      -- the carry is the last bit shifted out; OF and AF are undefined and cleared
      (c.setReg r (c.reg r <<< n)).setStatus
        { Cpu.logicStatus (c.reg r <<< n) with cf := (c.reg r).getLsbD (32 - n) }
  | .cli => { c with eflags := Cpu.withBit c.eflags 9 false }
  | .sti => { c with eflags := Cpu.withBit c.eflags 9 true }
  | .cld => c.setDirection false
  | .std => c.setDirection true
  | .stosd => (c.setMem (c.mem.store32 c.edi c.eax)).setReg .edi (c.edi + c.stride 4)
  | .repStosb =>
      ((c.setMem (Memory.repStosb (c.stride 1) (c.eax.setWidth 8) c.ecx.toNat c.edi c.mem)).setReg
        .edi (c.edi + c.ecx * c.stride 1)).setReg .ecx 0
  | .repStosw =>
      ((c.setMem (Memory.repStosw (c.stride 2) (c.eax.setWidth 16) c.ecx.toNat c.edi c.mem)).setReg
        .edi (c.edi + c.ecx * c.stride 2)).setReg .ecx 0
  | .repMovsl =>
      let (m, edi) := Memory.repMovsl (c.stride 4) c.ecx.toNat c.esi c.edi c.mem
      (((c.setMem m).setReg .edi edi).setReg .esi (c.esi + c.ecx * c.stride 4)).setReg .ecx 0
  | .repneScasb => c.scan c.ecx.toNat
  | .leave =>
      { c with
        esp := c.ebp + 4
        ebp := c.mem.load32 c.ebp }
  | .lss a =>
      { c with
        esp := c.mem.load32 a
        ss := c.mem.load16 (a + 4) }
  | .lgdt a =>
      { c with
        gdtr.limit := c.mem.load16 a
        gdtr.base := c.mem.load32 (a + 2) }
  | .lidt a =>
      { c with
        idtr.limit := c.mem.load16 a
        idtr.base := c.mem.load32 (a + 2) }
  | .movToCr0 r => { c with cr0 := c.reg r }
  | .movFromCr0 r => c.setReg r c.cr0
  | .movToCr3 r => { c with cr3 := c.reg r }
  | _ => c

/-- The direction flag an instruction sets, if it does. -/
def direction : Op L → Option Bool
  | .cld => some false
  | .std => some true
  | _ => none

theorem direction_scan (c : Processor) (n : Nat) : (c.scan n).direction = c.direction := by
  induction n generalizing c with
  | zero => rfl
  | succ n ih =>
      rw [Processor.scan]
      split
      · exact Processor.direction_compareByte c
      · exact (ih c.compareByte).trans (Processor.direction_compareByte c)

/-- No other instruction touches the direction flag. -/
theorem direction_step (c : Processor) (i : Op L) :
    (i.step addr c).direction = i.direction.getD c.direction := by
  cases i
  case cli => exact (Cpu.getLsbD_withBit _ _ (by decide)).trans (if_neg (by decide))
  case sti => exact (Cpu.getLsbD_withBit _ _ (by decide)).trans (if_neg (by decide))
  case cld => exact (Cpu.getLsbD_withBit _ _ (by decide)).trans (if_pos rfl)
  case std => exact (Cpu.getLsbD_withBit _ _ (by decide)).trans (if_pos rfl)
  case repneScasb => exact direction_scan c _
  case cmpAt => exact Cpu.direction_setStatus ..
  case inc r => exact (Cpu.direction_setStatus ..).trans (Cpu.direction_setReg ..)
  case dec r => exact (Cpu.direction_setStatus ..).trans (Cpu.direction_setReg ..)
  case addImm r v => exact (Cpu.direction_setStatus ..).trans (Cpu.direction_setReg ..)
  case subImm r v => exact (Cpu.direction_setStatus ..).trans (Cpu.direction_setReg ..)
  case andImm r v => exact (Cpu.direction_setStatus ..).trans (Cpu.direction_setReg ..)
  case orImm r v => exact (Cpu.direction_setStatus ..).trans (Cpu.direction_setReg ..)
  case or r r' => exact (Cpu.direction_setStatus ..).trans (Cpu.direction_setReg ..)
  case orLow r r' => exact (Cpu.direction_setStatus ..).trans (Cpu.direction_setReg ..)
  case xor r r' => exact (Cpu.direction_setStatus ..).trans (Cpu.direction_setReg ..)
  case xorAl => exact (Cpu.direction_setStatus ..).trans (Cpu.direction_setReg ..)
  case shl r n => exact (Cpu.direction_setStatus ..).trans (Cpu.direction_setReg ..)
  case pop r => exact Cpu.direction_setReg ..
  case mov r r' => exact Cpu.direction_setReg ..
  case movImm r v => exact Cpu.direction_setReg ..
  case movLabel r l => exact Cpu.direction_setReg ..
  case movLow r v => exact Cpu.direction_setReg ..
  case movSeg s r => exact Cpu.direction_setSeg ..
  case movEsp r => exact Cpu.direction_setReg ..
  case load r r' disp => exact Cpu.direction_setReg ..
  case loadAt r a => exact Cpu.direction_setReg ..
  case not r => exact Cpu.direction_setReg ..
  case movFromCr0 r => exact Cpu.direction_setReg ..
  all_goals rfl

/-- Instructions one after the other, none of which passes control elsewhere. -/
def run (is : List (Op L)) (c : Processor) : Processor := is.foldl (step addr) c

/-- The direction flag after them is the one the last `cld` or `std` sets. -/
theorem direction_run (is : List (Op L)) (c : Processor) :
    (run addr is c).direction = (is.filterMap direction).getLast?.getD c.direction := by
  induction is generalizing c with
  | nil => rfl
  | cons i is ih =>
      rw [run, List.foldl_cons]
      refine (ih (i.step addr c)).trans ?_
      rw [direction_step, List.filterMap_cons]
      cases i.direction with
      | none => rfl
      | some d =>
          rw [List.getLast?_cons]
          rfl

end Op

/-- How control leaves a labelled stretch. -/
inductive Outcome where
  /-- To the code at `eip`. -/
  | goto (c : Processor)
  /-- By an `iret` that took its frame from `frame`. -/
  | resumed (frame : Word) (c : Processor)

/-- Labelled code whose calls come back: the code behind each label, and the
label after that code. -/
structure Routines (L : Type) where
  code : L → List (Op L)
  next : L → L

namespace Routines

variable {L : Type} (p : Routines L) (lay : Layout L)

/-- Control at label `l`. -/
def enter (c : Processor) (l : L) : Processor := { c with eip := lay.addr l }

/-- The instructions left of the code behind label `l`. -/
def exec (l : L) : List (Op L) → Processor → Outcome
  | [], c => .goto (enter lay c (p.next l))
  | .jmp l' :: _, c => .goto (enter lay c l')
  | .je l' :: is, c => if c.zero then .goto (enter lay c l') else exec l is c
  | .jne l' :: is, c => if c.zero then exec l is c else .goto (enter lay c l')
  | .jge l' :: is, c =>
      if c.sign = c.overflow then .goto (enter lay c l') else exec l is c
  | .call l' :: _, c => .goto (enter lay (c.push (lay.addr (p.next l))) l')
  | .ret :: _, c => .goto { c.drop with eip := c.top }
  | .iret :: _, c => .resumed c.esp { c with toCpu := c.iret }
  | i :: is, c => exec l is (i.step lay.addr c)

/-- One labelled stretch. -/
def Stretch (c c' : Processor) : Prop :=
  ∃ l, c.eip = lay.addr l ∧ p.exec lay l (p.code l) c = .goto c'

/-- Stretches one after the other. -/
def Runs : Processor → Processor → Prop := Relation.ReflTransGen (p.Stretch lay)

/-- A run that an `iret` ends, with its frame at `frame`. -/
def Resumes (c : Processor) (frame : Word) (r : Processor) : Prop :=
  ∃ d l, p.Runs lay c d ∧ d.eip = lay.addr l ∧ p.exec lay l (p.code l) d = .resumed frame r

variable {p lay}

theorem addr_inj {l l' : L} (h : lay.addr l = lay.addr l') : l = l' := by
  apply Option.some.inj
  rw [← lay.label_addr l, ← lay.label_addr l', h]

/-- A stretch has one outcome only. -/
theorem Stretch.unique {c d d' : Processor} (h : p.Stretch lay c d) (h' : p.Stretch lay c d') :
    d = d' := by
  obtain ⟨l, heip, hexec⟩ := h
  obtain ⟨l', heip', hexec'⟩ := h'
  obtain rfl : l = l' := addr_inj (heip.symm.trans heip')
  injection hexec.symm.trans hexec'

/-- When the stretch at hand ends in an `iret`, so does every run, and there. -/
theorem resumes_iff {c r r' : Processor} {l : L} {frame frame' : Word} (heip : c.eip = lay.addr l)
    (hexec : p.exec lay l (p.code l) c = .resumed frame r) :
    p.Resumes lay c frame' r' ↔ frame' = frame ∧ r' = r := by
  constructor
  · rintro ⟨d, l', hruns, heip', hexec'⟩
    rcases hruns.cases_head with rfl | ⟨d', ⟨l'', heip'', hexec''⟩, -⟩
    · obtain rfl : l = l' := addr_inj (heip.symm.trans heip')
      injection hexec.symm.trans hexec' with hframe hr
      exact ⟨hframe.symm, hr.symm⟩
    · obtain rfl : l = l'' := addr_inj (heip.symm.trans heip'')
      cases hexec.symm.trans hexec''
  · rintro ⟨rfl, rfl⟩
    exact ⟨c, l, .refl, heip, hexec⟩

end Routines

end Machine
