import MySystem.Machine.Cpu

/-!
# Assembly code

A program is given by what stands behind each label, up to the next label, and
by the label that follows. `Layout` is the choice of addresses that assembler
and linker make. Execution runs from label to label until it leaves through a
call or an `iret`; what is called is not part of the program.

A `call` ends the code of its label, so that the place it returns to has a
label and hence an address.
-/

namespace Machine

/-- The instructions of the program, with its labels in `L`. A memory operand
is on the stack: `disp` stands for `[esp + disp]`. -/
inductive Instr (L : Type) where
  | push (r : Reg)
  | pushSeg (s : Seg)
  | pushImm (v : Word)
  | pushLabel (l : L)
  | pop (r : Reg)
  | popSeg (s : Seg)
  | mov (r r' : Reg)
  | movImm (r : Reg) (v : Word)
  | movLow (r : Reg) (v : Half)
  | movSeg (s : Seg) (r : Reg)
  | movAl (v : Byte)
  | xorAl
  | xchg (disp : Word) (r : Reg)
  | lea (r : Reg) (disp : Word)
  | addEsp (v : Word)
  | cmp (r : Reg) (v : Word)
  | cmpByte (disp : Word) (v : Byte)
  | outAl (port : Byte)
  | jmp (l : L)
  | jae (l : L)
  | jne (l : L)
  | call (r : Reg)
  /-- `call [table + r * 4]` -/
  | callTable (table : Word) (r : Reg)
  | ret
  | iret

/-- The addresses of the labels, no two the same. -/
structure Layout (L : Type) where
  addr : L → Word
  label? : Word → Option L
  label_addr : ∀ l, label? (addr l) = some l

/-- The code behind each label and the label after that code. -/
structure Program (L : Type) where
  code : L → List (Instr L)
  next : L → L

/-- How control leaves a stretch of code. -/
inductive Exit where
  /-- To the code at `eip`. -/
  | goto (c : Cpu)
  /-- Into a function, through the memory slot that names it if there is one. -/
  | called (slot : Option Word) (c : Cpu)
  /-- By an `iret` that took its frame from `frame`. -/
  | resumed (frame : Word) (c : Cpu)

namespace Program

variable {L : Type} (p : Program L) (lay : Layout L)

/-- Instructions that pass control to the one after them; the others are in `exec`. -/
def step (c : Cpu) : Instr L → Cpu
  | .push r => c.push (c.reg r)
  | .pushSeg s => c.pushSeg s
  | .pushImm v => c.push v
  | .pushLabel l => c.push (lay.addr l)
  | .pop r => c.drop.setReg r c.top
  | .popSeg s => c.drop.setSeg s (c.top.setWidth 16)
  | .mov r r' => c.setReg r (c.reg r')
  | .movImm r v => c.setReg r v
  | .movLow r v => c.setReg r ((c.reg r).extractLsb' 16 16 ++ v)
  | .movSeg s r => c.setSeg s ((c.reg r).setWidth 16)
  | .movAl v => { c with eax := c.eax.extractLsb' 8 24 ++ v }
  | .xorAl => { c with eax := c.eax.extractLsb' 8 24 ++ (0 : Byte) }.setStatus
      (Cpu.logicStatus (0 : Byte))
  | .xchg disp r =>
      { c with mem := c.mem.store32 (c.esp + disp) (c.reg r) }.setReg r
        (c.mem.load32 (c.esp + disp))
  | .lea r disp => c.setReg r (c.esp + disp)
  | .addEsp v => { c with esp := c.esp + v }.setStatus (Cpu.addStatus c.esp v)
  | .cmp r v => c.setStatus (Cpu.subStatus (c.reg r) v)
  | .cmpByte disp v => c.setStatus (Cpu.subStatus (c.mem.bytes (c.esp + disp)) v)
  | .outAl port => { c with ports := (port, c.eax.setWidth 8) :: c.ports }
  | _ => c

def goto (c : Cpu) (l : L) : Exit := .goto { c with eip := lay.addr l }

/-- The instructions left of the code behind label `l`. -/
def exec (l : L) : List (Instr L) → Cpu → Exit
  | [], c => goto lay c (p.next l)
  | .jmp l' :: _, c => goto lay c l'
  | .jae l' :: is, c => if c.carry then exec l is c else goto lay c l'
  | .jne l' :: is, c => if c.zero then exec l is c else goto lay c l'
  | .call r :: _, c => .called none { c.push (lay.addr (p.next l)) with eip := c.reg r }
  | .callTable table r :: _, c =>
      let slot := table + c.reg r * 4
      .called (some slot) { c.push (lay.addr (p.next l)) with eip := c.mem.load32 slot }
  | .ret :: _, c => .goto { c.drop with eip := c.top }
  | .iret :: _, c => .resumed c.esp c.iret
  | i :: is, c => exec l is (step lay c i)

/-- At most `n` stretches of code from `eip` on. -/
def run : Nat → Cpu → Option Exit
  | 0, _ => none
  | n + 1, c =>
      match lay.label? c.eip with
      | none => none
      | some l =>
          match p.exec lay l (p.code l) c with
          | .goto c => run n c
          | e => some e

/-- The program is left from `c` by `e`. -/
def Leaves (c : Cpu) (e : Exit) : Prop := ∃ n, p.run lay n c = some e

/-! ## Pushes, and pops from a known stack -/

section

variable {p lay} {k : Cpu.KernelStack} {s c : Cpu} {n : Nat} {ws : List Word} {l : L}
  {is : List (Instr L)}

theorem exec_push (r : Reg) : p.exec lay l (.push r :: is) c = p.exec lay l is (c.push (c.reg r)) :=
  rfl

/-- Segment registers pushed in the order `ds`, `es`, `fs`. -/
theorem exec_pushSegs {w : Cpu.Selectors} (hw : w = c.selectorsAt (c.esp - 4)) :
    p.exec lay l (.pushSeg .ds :: .pushSeg .es :: .pushSeg .fs :: is) c =
      p.exec lay l is (c.pushes [w.ds, w.es, w.fs]) :=
  hw ▸ congrArg (p.exec lay l is) (c.pushSegs_eq .ds .es .fs)

theorem exec_pushImm (v : Word) :
    p.exec lay l (.pushImm v :: is) c = p.exec lay l is (c.push v) := rfl

theorem exec_pop {w : Word} (h : Cpu.Framed k s n (w :: ws) c) (r : Reg) :
    p.exec lay l (.pop r :: is) c = p.exec lay l is (c.drop.setReg r w) := by
  rw [← h.top_eq]
  rfl

theorem exec_popSeg {w : Word} (h : Cpu.Framed k s n (w :: ws) c) (r : Seg) :
    p.exec lay l (.popSeg r :: is) c = p.exec lay l is (c.drop.setSeg r (w.setWidth 16)) := by
  rw [← h.top_eq]
  rfl

/-- Segment registers popped in the order `fs`, `es`, `ds`. -/
theorem exec_popSegs {a : Context} {w : Cpu.Selectors} (hw : w.Of a)
    (h : Cpu.Framed k s n (w.fs :: w.es :: w.ds :: ws) c) :
    ∃ d, (∀ (p : Program L) (lay : Layout L) (l : L) (is : List (Instr L)),
        p.exec lay l (.popSeg .fs :: .popSeg .es :: .popSeg .ds :: is) c = p.exec lay l is d) ∧
      Cpu.Framed k s n ws d ∧ d.mem = c.mem ∧
      d.toContext =
        { c.toContext with
          fs := a.fs
          es := a.es
          ds := a.ds
          esp := d.esp } := by
  have hfs := h.drop.setSeg .fs (w.fs.setWidth 16)
  have hes := hfs.drop.setSeg .es (w.es.setWidth 16)
  have hds := hes.drop.setSeg .ds (w.ds.setWidth 16)
  refine ⟨_, ?_, hds, ?_, ?_⟩
  · intro p lay l is
    rw [exec_popSeg h, exec_popSeg hfs, exec_popSeg hes]
  · simp only [Cpu.setSeg_mem, Cpu.drop_mem]
  · simp only [Cpu.setSeg, Cpu.drop, hw.ds, hw.es, hw.fs]

end

/-! ## Runs -/

variable {p lay}

theorem run_succ {n : Nat} {c : Cpu} {e : Exit} (h : p.run lay n c = some e) :
    p.run lay (n + 1) c = some e := by
  induction n generalizing c with
  | zero => cases h
  | succ n ih =>
      rw [run] at h ⊢
      cases hl : lay.label? c.eip with
      | none =>
          rw [hl] at h
          cases h
      | some l =>
          rw [hl] at h
          dsimp only at h ⊢
          cases hexec : p.exec lay l (p.code l) c with
          | goto d =>
              rw [hexec] at h
              exact ih h
          | called slot d =>
              rw [hexec] at h
              exact h
          | resumed frame d =>
              rw [hexec] at h
              exact h

theorem run_mono {n n' : Nat} (hn : n ≤ n') {c : Cpu} {e : Exit} (h : p.run lay n c = some e) :
    p.run lay n' c = some e := by
  induction hn with
  | refl => exact h
  | step _ ih => exact run_succ ih

/-- A program is left in one way only. -/
theorem Leaves.unique {c : Cpu} {e e' : Exit} (h : p.Leaves lay c e) (h' : p.Leaves lay c e') :
    e = e' := by
  obtain ⟨n, hn⟩ := h
  obtain ⟨n', hn'⟩ := h'
  have hrun := run_mono (Nat.le_max_left n n') hn
  have hrun' := run_mono (Nat.le_max_right n n') hn'
  exact Option.some.inj (hrun.symm.trans hrun')

/-- The code behind a label passes control on. -/
theorem Leaves.goto {c d : Cpu} {e : Exit} {l : L} (hl : c.eip = lay.addr l)
    (hexec : p.exec lay l (p.code l) c = .goto d) (h : p.Leaves lay d e) :
    p.Leaves lay c e := by
  obtain ⟨n, hn⟩ := h
  refine ⟨n + 1, ?_⟩
  rw [run, hl, lay.label_addr]
  dsimp only
  rw [hexec]
  exact hn

/-- The code behind a label ends in a call. -/
theorem Leaves.called {c d : Cpu} {slot : Option Word} {l : L} (hl : c.eip = lay.addr l)
    (hexec : p.exec lay l (p.code l) c = .called slot d) : p.Leaves lay c (.called slot d) := by
  refine ⟨1, ?_⟩
  rw [run, hl, lay.label_addr]
  dsimp only
  rw [hexec]

/-- The code behind a label ends in an `iret`. -/
theorem Leaves.resumed {c d : Cpu} {frame : Word} {l : L} (hl : c.eip = lay.addr l)
    (hexec : p.exec lay l (p.code l) c = .resumed frame d) :
    p.Leaves lay c (.resumed frame d) := by
  refine ⟨1, ?_⟩
  rw [run, hl, lay.label_addr]
  dsimp only
  rw [hexec]

/-- A program that leaves the code behind a label is left as from where it goes on. -/
theorem Leaves.of_goto {c d : Cpu} {e : Exit} {l : L} (h : p.Leaves lay c e)
    (hl : c.eip = lay.addr l) (hexec : p.exec lay l (p.code l) c = .goto d) :
    p.Leaves lay d e := by
  obtain ⟨n, hn⟩ := h
  cases n with
  | zero => cases hn
  | succ n =>
      rw [run, hl, lay.label_addr] at hn
      dsimp only at hn
      rw [hexec] at hn
      exact ⟨n, hn⟩

/-! ## What is sent to ports -/

end Program

/-- The bytes sent to ports before control left, newest first. -/
def Exit.ports : Exit → List (Byte × Byte)
  | .goto c => c.ports
  | .called _ c => c.ports
  | .resumed _ c => c.ports

/-- An instruction that sends nothing to a port. -/
def Instr.silent {L : Type} : Instr L → Bool
  | .outAl _ => false
  | _ => true

theorem Cpu.iret_ports (c : Cpu) : c.iret.ports = c.ports := by
  rw [Cpu.iret]
  split <;> rfl

namespace Program

variable {L : Type}

theorem step_ports (lay : Layout L) {i : Instr L} (h : i.silent = true) (c : Cpu) :
    (step lay c i).ports = c.ports := by
  cases i with
  | outAl port => cases h
  | pop r => cases r <;> rfl
  | popSeg s => cases s <;> rfl
  | mov r r' => cases r <;> rfl
  | movImm r v => cases r <;> rfl
  | movLow r v => cases r <;> rfl
  | movSeg s r => cases s <;> rfl
  | xchg disp r => cases r <;> rfl
  | lea r disp => cases r <;> rfl
  | _ => rfl

theorem exec_ports (p : Program L) (lay : Layout L) {is : List (Instr L)}
    (h : ∀ i ∈ is, i.silent = true) (l : L) (c : Cpu) : (p.exec lay l is c).ports = c.ports := by
  induction is generalizing c with
  | nil => rfl
  | cons i is ih =>
      have hi := h i (List.mem_cons_self ..)
      have hrest := fun c => ih (fun j hj => h j (List.mem_cons_of_mem _ hj)) c
      cases i with
      | jae l' =>
          rw [exec]
          split
          · exact hrest c
          · rfl
      | jne l' =>
          rw [exec]
          split
          · exact hrest c
          · rfl
      | iret => exact c.iret_ports
      | jmp => rfl
      | call => rfl
      | callTable => rfl
      | ret => rfl
      | _ => exact (hrest _).trans (step_ports lay hi c)

end Program

end Machine
