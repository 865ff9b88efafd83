import MySystem.Boot.Idt
import MySystem.Machine.Segment

/-!
# `trap_init`

The gates that the kernel puts into the interrupt descriptor table after
`setup_idt` has filled it, and what the table says then.
-/

namespace MySystem

open Machine

/-- Memory, and the interrupt masks behind the ports. -/
structure Interrupts where
  mem : Memory
  port : Half → Byte

namespace Interrupts

def outb (k : Interrupts) (value : Byte) (port : Half) : Interrupts :=
  { k with port := Function.update k.port port value }

def inb (k : Interrupts) (port : Half) : Byte := k.port port

end Interrupts

/-- The `short` that is the immediate operand. -/
def gateAttributes (type dpl : Half) : Half := 0x8000 + dpl <<< 13 + type <<< 8

/-- `edx` holds the address, and `eax` the selector in its upper half. -/
def _setGate (m : Memory) (gateAddr : Word) (type dpl : Half) (addr : Word) : Memory :=
  let edx := addr
  let eax := 0x00080000
  let eax := Word.setLow eax (Word.low edx)
  let edx := Word.setLow edx (gateAttributes type dpl)
  let m := m.store32 gateAddr eax
  m.store32 (gateAddr + 4) edx

section

variable (idt : Word) (n : Nat) (addr : Word) (m : Memory)

/-- The address of `idt[n]`. -/
def idtEntry : Word := idt + Word.of (8 * n)

def setTrapGate : Memory := _setGate m (idtEntry idt n) 15 0 addr

def setSystemGate : Memory := _setGate m (idtEntry idt n) 15 3 addr

end

/-- The loop over the vectors from `i` on, with `n` of them left. -/
def setReserved (idt reserved : Word) : Nat → Nat → Memory → Memory
  | 0, _, m => m
  | n + 1, i, m => setReserved idt reserved n (i + 1) (setTrapGate idt i reserved m)

/-- `trap_init`, with the handlers at the addresses `handler`. -/
def trapInit (idt : Word) (handler : Label → Word) (k : Interrupts) : Interrupts :=
  let m := setTrapGate idt 0 (handler (.stub .divide_error)) k.mem
  let m := setTrapGate idt 1 (handler (.stub .debug)) m
  let m := setTrapGate idt 2 (handler (.stub .nmi)) m
  let m := setSystemGate idt 3 (handler (.stub .int3)) m
  let m := setSystemGate idt 4 (handler (.stub .overflow)) m
  let m := setSystemGate idt 5 (handler (.stub .bounds)) m
  let m := setTrapGate idt 6 (handler (.stub .invalid_op)) m
  let m := setTrapGate idt 7 (handler .device_not_available) m
  let m := setTrapGate idt 8 (handler (.stub .double_fault)) m
  let m := setTrapGate idt 9 (handler (.stub .coprocessor_segment_overrun)) m
  let m := setTrapGate idt 10 (handler (.stub .invalid_TSS)) m
  let m := setTrapGate idt 11 (handler (.stub .segment_not_present)) m
  let m := setTrapGate idt 12 (handler (.stub .stack_segment)) m
  let m := setTrapGate idt 13 (handler (.stub .general_protection)) m
  let m := setTrapGate idt 15 (handler (.stub .reserved)) m
  let m := setTrapGate idt 16 (handler .coprocessor_error) m
  let m := setTrapGate idt 17 (handler (.stub .alignment_check)) m
  let m := setReserved idt (handler (.stub .reserved)) 30 18 m
  let m := setTrapGate idt 45 (handler .irq13) m
  let k := { k with mem := m }
  let k := k.outb (k.inb 0x21 &&& 0xfb) 0x21
  let k := k.outb (k.inb 0xa1 &&& 0xdf) 0xa1
  { k with mem := setTrapGate idt 39 (handler .parallel_interrupt) k.mem }

/-! ## The gates -/

/-- A trap gate to an address on the kernel's code segment. -/
def trapGate (dpl : BitVec 2) (addr : Word) : Gate where
  offset := addr
  selector := 8
  attributes := (1#1 ++ dpl ++ 15#5 : Byte) ++ 0#8

theorem setGate_eq (m : Memory) (a : Word) (dpl : BitVec 2) (addr : Word) :
    _setGate m a 15 (dpl.setWidth 16) addr = m.storeGate a (trapGate dpl addr) := by
  have hattributes : ∀ dpl : BitVec 2, gateAttributes 15 (dpl.setWidth 16) =
      (1#1 ++ dpl ++ 15#5 : Byte) ++ 0#8 := by decide
  have hselector : Word.setLow 0x00080000 (Word.low addr) = (trapGate dpl addr).lowWord :=
    congrArg (· ++ Word.low addr) (show (0x00080000 : Word).extractLsb' 16 16 = 8 by decide)
  rw [_setGate, hattributes, hselector]
  rfl

theorem setTrapGate_eq (idt : Word) (n : Nat) (addr : Word) (m : Memory) :
    setTrapGate idt n addr m = Memory.installGates idt [(n, trapGate 0 addr)] m :=
  setGate_eq m (idtEntry idt n) 0 addr

theorem setSystemGate_eq (idt : Word) (n : Nat) (addr : Word) (m : Memory) :
    setSystemGate idt n addr m = Memory.installGates idt [(n, trapGate 3 addr)] m :=
  setGate_eq m (idtEntry idt n) 3 addr

theorem setReserved_eq (idt reserved : Word) (n i : Nat) (m : Memory) :
    setReserved idt reserved n i m =
      Memory.installGates idt ((List.range' i n).map fun v => (v, trapGate 0 reserved)) m := by
  induction n generalizing i m with
  | zero => rfl
  | succ n ih =>
      rw [setReserved, ih, setTrapGate_eq, ← Memory.installGates_append]
      rfl

/-- The privilege level of the gates that `trap_init` sets. -/
def gateDpl (v : Nat) : BitVec 2 := if v = 3 ∨ v = 4 ∨ v = 5 then 3 else 0

/-- The gates in the order in which they are set. -/
def trapGates (handler : Label → Word) : List (Nat × Gate) :=
  trap_init.map fun e => (e.1, trapGate (gateDpl e.1) (handler e.2))

/-- The gates of the loop. -/
theorem trapGates_loop (handler : Label → Word) :
    ((List.range' 18 30).map fun i => (i, Label.stub .reserved)).map
        (fun e => (e.1, trapGate (gateDpl e.1) (handler e.2))) =
      (List.range' 18 30).map fun v => (v, trapGate 0 (handler (.stub .reserved))) := by
  rw [List.map_map]
  refine List.map_congr_left fun v hv => ?_
  have hfrom : 18 ≤ v := (List.mem_range'_1.mp hv).1
  have hdpl : gateDpl v = 0 := if_neg (by omega)
  exact congrArg (fun dpl => (v, trapGate dpl (handler (.stub .reserved)))) hdpl

theorem trapInit_mem (idt : Word) (handler : Label → Word) (k : Interrupts) :
    (trapInit idt handler k).mem = Memory.installGates idt (trapGates handler) k.mem := by
  rw [trapGates, trap_init, List.map_append, List.map_append, trapGates_loop]
  simp only [trapInit, Interrupts.outb, setTrapGate_eq, setSystemGate_eq, setReserved_eq,
    ← Memory.installGates_append]
  simp only [List.map_cons, List.map_nil, gateDpl, List.cons_append, List.nil_append,
    List.append_assoc]
  rfl

/-! ## The table -/

theorem lookup_trapGates (handler : Label → Word) (v : Nat) :
    (trapGates handler).reverse.lookup v =
      (gate v).map fun l => trapGate (gateDpl v) (handler l) := by
  rw [trapGates, gate, ← List.map_reverse]
  generalize trap_init.reverse = entries
  induction entries with
  | nil => rfl
  | cons e entries ih =>
      rw [List.map_cons, List.lookup_cons, List.lookup_cons, ih]
      by_cases hsame : v = e.1
      · rw [beq_iff_eq.mpr hsame, hsame]
        rfl
      · rw [beq_eq_false_iff_ne.mpr hsame]

/-- The handlers as the comments of `trap_init` have them. -/
def documentedHandler : Nat → Option Label
  | 0 => some (.stub .divide_error)
  | 1 => some (.stub .debug)
  | 2 => some (.stub .nmi)
  | 3 => some (.stub .int3)
  | 4 => some (.stub .overflow)
  | 5 => some (.stub .bounds)
  | 6 => some (.stub .invalid_op)
  | 7 => some .device_not_available
  | 8 => some (.stub .double_fault)
  | 9 => some (.stub .coprocessor_segment_overrun)
  | 10 => some (.stub .invalid_TSS)
  | 11 => some (.stub .segment_not_present)
  | 12 => some (.stub .stack_segment)
  | 13 => some (.stub .general_protection)
  | 14 => none
  | 15 => some (.stub .reserved)
  | 16 => some .coprocessor_error
  | 17 => some (.stub .alignment_check)
  | 39 => some .parallel_interrupt
  | 45 => some .irq13
  | v => if v < 48 then some (.stub .reserved) else none

theorem gate_eq_documentedHandler : ∀ v < 256, gate v = documentedHandler v := by decide +kernel

theorem trapGates_vector (handler : Label → Word) : ∀ e ∈ trapGates handler, e.1 < 256 := by
  have hvectors : ∀ e ∈ trap_init, e.1 < 256 := by decide
  intro e he
  obtain ⟨e', he', rfl⟩ := List.mem_map.mp he
  exact hvectors e' he'

theorem trapInit_gate (idt : Word) (handler : Label → Word) (k : Interrupts) {v : Nat}
    (hv : v < 256) :
    (trapInit idt handler k).mem.gate (idt + Word.of (8 * v)) =
      ((documentedHandler v).map fun l => trapGate (gateDpl v) (handler l)).getD
        (k.mem.gate (idt + Word.of (8 * v))) := by
  rw [trapInit_mem, Memory.gate_installGates idt (trapGates_vector handler) _ hv, lookup_trapGates,
    gate_eq_documentedHandler v hv]

theorem trapGate_decodes (dpl : BitVec 2) (addr : Word) :
    (trapGate dpl addr).present = true ∧ (trapGate dpl addr).type = 0xf ∧
      (trapGate dpl addr).dpl = dpl := by
  have hattributes : ∀ dpl : BitVec 2, ((1#1 ++ dpl ++ 15#5 : Byte) ++ 0#8).getLsbD 15 = true ∧
      ((1#1 ++ dpl ++ 15#5 : Byte) ++ 0#8).extractLsb' 8 5 = 0xf ∧
      ((1#1 ++ dpl ++ 15#5 : Byte) ++ 0#8).extractLsb' 13 2 = dpl := by decide
  exact hattributes dpl

theorem ignoreGate_decodes (lay : Layout HeadLabel) :
    (ignoreGate lay).present = true ∧ (ignoreGate lay).type = 0xe ∧ (ignoreGate lay).dpl = 0 := by
  have hattributes : (0x8e00 : Half).getLsbD 15 = true ∧ (0x8e00 : Half).extractLsb' 8 5 = 0xe ∧
      (0x8e00 : Half).extractLsb' 13 2 = 0 := by decide
  exact hattributes

/-- `setup_idt` and then `trap_init` leave the documented gate in every place. They
store to the table and to the twelve bytes that `setup_idt` pushes. -/
theorem idt_documented (sym : HeadSymbols) (lay : Layout HeadLabel)
    (hroom : sym.idt.toNat + 2048 ≤ 2 ^ 32) (handler : Label → Word) (port : Half → Byte)
    (c : Processor) :
    ∃ r, (head sym).Runs lay (Routines.enter lay c .setup_idt) r ∧
      r.esp = c.esp + 4 ∧ r.eip = r.mem.load32 c.esp ∧
      (∀ v < 256, ∀ g, g = (trapInit sym.idt handler ⟨r.mem, port⟩).mem.gate
          (sym.idt + Word.of (8 * v)) →
        g.selector = 8 ∧ g.present = true ∧
          match documentedHandler v with
          | some l => g.offset = handler l ∧ g.type = 0xf ∧ g.dpl = gateDpl v
          | none => g.offset = lay.addr .ignore_int ∧ g.type = 0xe ∧ g.dpl = 0) ∧
      Memory.WritesIn
        (fun a => sym.idt.toNat ≤ a.toNat ∧ a.toNat < sym.idt.toNat + 2048 ∨
          ∃ i, 1 ≤ i ∧ i ≤ 12 ∧ a = c.esp - Word.of i)
        c.mem (trapInit sym.idt handler ⟨r.mem, port⟩).mem := by
  obtain ⟨r, hruns, -, hfilled, -, -, hesp, heip, ebx, ecx, hwrites⟩ :=
    setup_idt_runs sym lay hroom c
  refine ⟨r, hruns, hesp, heip, ?_, ?_⟩
  · intro v hv g hg
    rw [trapInit_gate _ _ _ hv, hfilled v hv] at hg
    rw [hg]
    cases documentedHandler v with
    | none =>
        obtain ⟨hpresent, htype, hdpl⟩ := ignoreGate_decodes lay
        exact ⟨rfl, hpresent, rfl, htype, hdpl⟩
    | some l =>
        obtain ⟨hpresent, htype, hdpl⟩ := trapGate_decodes (gateDpl v) (handler l)
        exact ⟨rfl, hpresent, rfl, htype, hdpl⟩
  · refine (c.toCpu.pushes_writes [lay.addr .setup_idt_1, ebx, ecx] ?_).trans
      ((hwrites.writesIn ?_).trans ?_)
    · intro i hi hi'
      exact Or.inr ⟨i, hi, hi', rfl⟩
    · intro a hlo hhi
      exact Or.inl ⟨hlo, hhi⟩
    · rw [trapInit_mem]
      refine Memory.installGates_writes _ (trapGates_vector handler) _ fun i hi => Or.inl ?_
      rw [BitVec.toNat_add, Word.toNat_of (by omega), Nat.mod_eq_of_lt (by omega)]
      omega

/-- The gate of the parallel port's interrupt, from a table full of anything. -/
theorem idt_documented_parallel :
    ∃ r, (head headSymbols).Runs headLayout
        (Routines.enter headLayout (interruptible 8 0x10) .setup_idt) r ∧
      ((trapInit headSymbols.idt (fun _ => 0x12345678) ⟨r.mem, fun _ => 0xff⟩).mem.gate
        (headSymbols.idt + Word.of (8 * 39))).offset = 0x12345678 := by
  obtain ⟨r, hruns, -, -, hgates, -⟩ := idt_documented headSymbols headLayout (by decide)
    (fun _ => 0x12345678) (fun _ => 0xff) (interruptible 8 0x10)
  exact ⟨r, hruns, (hgates 39 (by decide) _ rfl).2.2.1⟩

end MySystem
