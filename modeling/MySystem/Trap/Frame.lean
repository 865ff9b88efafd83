import MySystem.Trap.Entry

/-!
# Entering and leaving a handler

Both prologues build the same frame: the slot of the handler's address, and in
`error_code` the slot of the error code too, are reused for the registers that
were exchanged with them. The epilogue takes it apart and ends in `iret`.
-/

namespace MySystem

open Machine

/-- The kernel as linked and running: addresses, and the kernel's stack. -/
structure System where
  layout : Layout Label
  sym : Symbols
  stack : Cpu.KernelStack

namespace System

variable (sys : System)

/-- Kernel entry code run from `c` is left by `e`. -/
def Leaves (c : Cpu) (e : Exit) : Prop := (entries sys.sym).Leaves sys.layout c e

/-- The processor at the entry `l`, interrupted in `s`. -/
def interrupt (s : Cpu) (l : Label) (code : Option Word) : Cpu :=
  s.deliver sys.stack (sys.layout.addr l) code

/-- The words in which a prologue saves the segment registers, under the other seven. -/
def savedSelectors (s : Cpu) : Cpu.Selectors := s.selectorsAt (s.frameAddress sys.stack - 32)

/-- The label a handler called by a prologue returns to. -/
def returnAddress (x : Exception) : Word := sys.layout.addr (entryNext (prologue x))

end System

/-- The registers as a prologue saves them, the last one pushed first. -/
def savedWords (s : Context) (w : Cpu.Selectors) : List Word :=
  [w.fs, w.es, w.ds, s.ebp, s.esi, s.edi, s.edx, s.ecx, s.ebx, s.eax]

variable {sys : System}

/-! ## The prologues -/

/-- A handler is entered for an interrupt in `s`, with the saved registers over the
frame and the address it returns to on top. -/
structure Entered (sys : System) (s : Cpu) (n : Nat) (x : Exception) (e : Cpu) : Prop where
  eip : e.eip = sys.sym.handler x
  framed : Cpu.Framed sys.stack s n
    (sys.returnAddress x :: savedWords s.toContext (sys.savedSelectors s)) e

theorem stub_exec (sys : System) (x : Exception) (c : Cpu) :
    (entries sys.sym).exec sys.layout (.stub x) (entryCode sys.sym (.stub x)) c =
      .goto { c.push (sys.sym.handler x) with eip := sys.layout.addr (prologue x) } := rfl

/-- `xchg` of a word on the stack. -/
def exchange (c : Cpu) (disp : Word) (r : Reg) : Cpu :=
  { c with mem := c.mem.store32 (c.esp + disp) (c.reg r) }.setReg r (c.mem.load32 (c.esp + disp))

theorem no_error_code_exec (sys : System) (c : Cpu) :
    let d := (exchange c 0 .eax).pushes [c.ebx, c.ecx, c.edx, c.edi, c.esi, c.ebp]
    let f := (((d.pushSeg .ds).pushSeg .es).pushSeg .fs).push
      (sys.layout.addr .no_error_code_return)
    ∃ e, (entries sys.sym).exec sys.layout .no_error_code (entryCode sys.sym .no_error_code) c =
        .called none e ∧
      e.eip = c.mem.load32 (c.esp + 0) ∧ e.cs = f.cs ∧ e.ss = f.ss ∧ e.esp = f.esp ∧
        e.mem = f.mem := by
  intro d f
  refine ⟨_, rfl, rfl, rfl, rfl, rfl, ?_⟩
  rfl

theorem error_code_exec (sys : System) (c : Cpu) :
    let d := (exchange (exchange c 4 .eax) 0 .ebx).pushes [c.ecx, c.edx, c.edi, c.esi, c.ebp]
    let f := (((d.pushSeg .ds).pushSeg .es).pushSeg .fs).push (sys.layout.addr .error_code_return)
    ∃ e, (entries sys.sym).exec sys.layout .error_code (entryCode sys.sym .error_code) c =
        .called none e ∧
      e.eip = (c.mem.store32 (c.esp + 4) c.eax).load32 (c.esp + 0) ∧ e.cs = f.cs ∧
        e.ss = f.ss ∧ e.esp = f.esp ∧ e.mem = f.mem := by
  intro d f
  refine ⟨_, rfl, rfl, rfl, rfl, rfl, ?_⟩
  rfl

/-- The general registers a prologue saves are still those of the interrupted program. -/
theorem savedWords_interrupt (sys : System) (s : Cpu) (l : Label) (code : Option Word)
    (w : Cpu.Selectors) :
    savedWords (sys.interrupt s l code).toContext w = savedWords s.toContext w := by
  rw [System.interrupt, Cpu.deliver_context]
  rfl

theorem interrupt_seg (sys : System) (s : Cpu) (l : Label) (code : Option Word) (r : Seg) :
    (sys.interrupt s l code).seg r = s.seg r := by
  have hcontext := s.deliver_context sys.stack (sys.layout.addr l) code
  have hds := congrArg Context.ds hcontext
  have hes := congrArg Context.es hcontext
  have hfs := congrArg Context.fs hcontext
  cases r with
  | ds => exact hds
  | es => exact hes
  | fs => exact hfs

theorem interrupt_eip (sys : System) (s : Cpu) (l : Label) (code : Option Word) :
    (sys.interrupt s l code).eip = sys.layout.addr l :=
  congrArg Context.eip (s.deliver_context sys.stack (sys.layout.addr l) code)

/-- A prologue saves the registers, the segment registers after the others, and
calls the handler. -/
theorem prologue_saves {s c : Cpu} {n : Nat} (vs : List Word) {ws : List Word}
    (hframed : Cpu.Framed sys.stack s n ws c) (hlen : vs.length + ws.length = 7)
    (hn : n + 64 ≤ 2 ^ 32) (hbelow : Cpu.Below s.mem (12 + 4 * vs.length) c)
    (hwide : c.wideSelectors = s.wideSelectors) (hseg : ∀ r, c.seg r = s.seg r) (ret : Word) :
    let w := sys.savedSelectors s
    Cpu.Framed sys.stack s n (ret :: w.fs :: w.es :: w.ds :: (vs.reverse ++ ws))
      (((((c.pushes vs).pushSeg .ds).pushSeg .es).pushSeg .fs).push ret) := by
  intro w
  have hregisters := hframed.pushes vs (by omega)
  have hbelow' := hbelow.pushes (by omega)
  have hwide' := (c.pushes_wideSelectors vs).trans hwide
  have hseg' := fun r => (c.pushes_seg vs r).trans (hseg r)
  generalize c.pushes vs = d at hregisters hbelow' hwide' hseg' ⊢
  have hwords : Word.of (4 * (vs.reverse ++ ws).length) = 28 := by
    rw [List.length_append, List.length_reverse, hlen]
    rfl
  have hesp : s.frameAddress sys.stack - 32 = d.esp - 4 := by
    rw [hregisters.esp, hwords]
    bv_omega
  have hselectors : w = d.selectorsAt (d.esp - 4) := by
    change s.selectorsAt _ = _
    rw [hesp]
    exact (hbelow'.selectorsAt hwide' hseg' (by bv_omega) (by bv_omega) (by decide)).symm
  have hpushes : ((d.pushSeg .ds).pushSeg .es).pushSeg .fs = d.pushes [w.ds, w.es, w.fs] :=
    hselectors ▸ d.pushSegs_eq .ds .es .fs
  rw [hpushes]
  refine hregisters.pushes [w.ds, w.es, w.fs, ret] ?_
  rw [List.length_append, List.length_reverse]
  change n + 4 * (4 + _) + 20 ≤ 2 ^ 32
  omega

theorem enters_no_error_code (sys : System) (s : Cpu) {n : Nat} (hn : n + 64 ≤ 2 ^ 32)
    {x : Exception} (hx : prologue x = .no_error_code) :
    ∃ e, sys.Leaves (sys.interrupt s (.stub x) none) (.called none e) ∧ Entered sys s n x e := by
  have hframed : Cpu.Framed sys.stack s n [] (sys.interrupt s (.stub x) none) :=
    s.framed_deliver sys.stack (sys.layout.addr (.stub x)) none (by omega)
  have hbelow : Cpu.Below s.mem 40 (sys.interrupt s (.stub x) none) :=
    s.deliver_below sys.stack (sys.layout.addr (.stub x)) none (by decide)
  have hwide := s.deliver_wideSelectors sys.stack (sys.layout.addr (.stub x)) none
  have hseg := interrupt_seg sys s (.stub x) none
  have hsaved := savedWords_interrupt sys s (.stub x) none (sys.savedSelectors s)
  have heip := interrupt_eip sys s (.stub x) none
  change (sys.interrupt s (.stub x) none).wideSelectors = _ at hwide
  generalize sys.interrupt s (.stub x) none = c at hframed hbelow hwide hseg hsaved heip ⊢
  have hgoto := stub_exec sys x c
  rw [hx] at hgoto
  -- the stub pushes the address of the handler, and eax takes its place
  let d : Cpu := { c.push (sys.sym.handler x) with eip := sys.layout.addr .no_error_code }
  have hpushed : Cpu.Framed sys.stack s n [sys.sym.handler x] d :=
    (hframed.pushes [sys.sym.handler x] (by simp; omega)).congr rfl rfl rfl rfl
  have hd : ∀ r, d.seg r = c.seg r := c.push_seg (sys.sym.handler x)
  have hbelow' : Cpu.Below s.mem 36 d := (hbelow.push (by decide) (sys.sym.handler x)).congr rfl rfl
  have hzero : d.esp + 0 = d.esp := BitVec.add_zero _
  have hexchanged : Cpu.Framed sys.stack s n [d.eax] (exchange d 0 .eax) := by
    rw [exchange, hzero]
    exact (hpushed.replace (by simp; omega) d.eax).setReg .eax _
  have hbelow' : Cpu.Below s.mem 36 (exchange d 0 .eax) :=
    (hbelow'.store32 (d := 0) (by decide) d.eax).congr rfl rfl
  obtain ⟨e, hexec, hentry, hcs, hss, hesp, hmem⟩ := no_error_code_exec sys d
  rw [hzero] at hentry
  have hsaves := prologue_saves [d.ebx, d.ecx, d.edx, d.edi, d.esi, d.ebp] hexchanged rfl
    hn hbelow' hwide (fun r => (hd r).trans (hseg r)) (sys.layout.addr .no_error_code_return)
  refine ⟨e, .goto heip hgoto (.called rfl hexec), hentry.trans hpushed.stack.1, ?_⟩
  rw [System.returnAddress, hx, ← hsaved]
  exact hsaves.congr hcs hss hesp hmem

theorem enters_error_code (sys : System) (s : Cpu) {n : Nat} (hn : n + 64 ≤ 2 ^ 32)
    {x : Exception} (hx : prologue x = .error_code) (code : Word) :
    ∃ e, sys.Leaves (sys.interrupt s (.stub x) (some code)) (.called none e) ∧
      Entered sys s n x e := by
  have hframed : Cpu.Framed sys.stack s n [code] (sys.interrupt s (.stub x) (some code)) :=
    s.framed_deliver sys.stack (sys.layout.addr (.stub x)) (some code) (by omega)
  have hbelow : Cpu.Below s.mem 36 (sys.interrupt s (.stub x) (some code)) :=
    s.deliver_below sys.stack (sys.layout.addr (.stub x)) (some code) (by decide)
  have hwide := s.deliver_wideSelectors sys.stack (sys.layout.addr (.stub x)) (some code)
  have hseg := interrupt_seg sys s (.stub x) (some code)
  have hsaved := savedWords_interrupt sys s (.stub x) (some code) (sys.savedSelectors s)
  have heip := interrupt_eip sys s (.stub x) (some code)
  change (sys.interrupt s (.stub x) (some code)).wideSelectors = _ at hwide
  generalize sys.interrupt s (.stub x) (some code) = c at hframed hbelow hwide hseg hsaved heip ⊢
  have hgoto := stub_exec sys x c
  rw [hx] at hgoto
  -- eax takes the place of the error code, ebx that of the handler's address
  let d : Cpu := { c.push (sys.sym.handler x) with eip := sys.layout.addr .error_code }
  have hpushed : Cpu.Framed sys.stack s n [sys.sym.handler x, code] d :=
    (hframed.pushes [sys.sym.handler x] (by simp; omega)).congr rfl rfl rfl rfl
  have hd : ∀ r, d.seg r = c.seg r := c.push_seg (sys.sym.handler x)
  have hbelow' : Cpu.Below s.mem 32 d := (hbelow.push (by decide) (sys.sym.handler x)).congr rfl rfl
  have hzero : d.esp + 0 = d.esp := BitVec.add_zero _
  have hsecond : Cpu.Framed sys.stack s n [sys.sym.handler x, d.eax] (exchange d 4 .eax) :=
    (hpushed.replace_second (by simp; omega) d.eax).setReg .eax _
  have hexchanged : Cpu.Framed sys.stack s n [d.ebx, d.eax] (exchange (exchange d 4 .eax) 0 .ebx) :=
    by
      have hesp : (exchange d 4 .eax).esp + 0 = (exchange d 4 .eax).esp := BitVec.add_zero _
      rw [exchange, hesp]
      exact (hsecond.replace (by simp; omega) d.ebx).setReg .ebx _
  have hbelow' : Cpu.Below s.mem 32 (exchange d 4 .eax) :=
    (hbelow'.store32 (d := 4) (by decide) d.eax).congr rfl rfl
  have hbelow' : Cpu.Below s.mem 32 (exchange (exchange d 4 .eax) 0 .ebx) :=
    (hbelow'.store32 (d := 0) (by decide) d.ebx).congr rfl rfl
  obtain ⟨e, hexec, hentry, hcs, hss, hesp, hmem⟩ := error_code_exec sys d
  rw [hzero] at hentry
  have hsaves := prologue_saves [d.ecx, d.edx, d.edi, d.esi, d.ebp] hexchanged rfl
    hn hbelow' hwide (fun r => (hd r).trans (hseg r)) (sys.layout.addr .error_code_return)
  refine ⟨e, .goto heip hgoto (.called rfl hexec), hentry.trans hsecond.stack.1, ?_⟩
  rw [System.returnAddress, hx, ← hsaved]
  exact hsaves.congr hcs hss hesp hmem

/-- A stub calls its handler with the interrupted registers saved, whatever the
processor pushes on the stub's vectors. -/
theorem stub_enters (sys : System) (s : Cpu) {n : Nat} (hn : n + 64 ≤ 2 ^ 32) {v : Nat}
    {x : Exception} (hgate : gate v = some (.stub x)) (code : Word) :
    ∃ e, sys.Leaves (sys.interrupt s (.stub x) (errorCode v code)) (.called none e) ∧
      Entered sys s n x e := by
  have hx := prologue_of_gate hgate
  rw [prologueFor] at hx
  rw [errorCode]
  by_cases hcode : pushesErrorCode v = true
  · rw [if_pos hcode] at hx ⊢
    exact enters_error_code sys s hn hx code
  · rw [if_neg hcode] at hx ⊢
    exact enters_no_error_code sys s hn hx

/-! ## The epilogue -/

theorem prologue_cases (x : Exception) :
    prologue x = .no_error_code ∨ prologue x = .error_code := by
  cases x <;> simp [prologue]

/-- From where the handler returns to, with the saved registers on the stack,
the interrupted program resumes with all its registers. -/
theorem return_resumes (sys : System) {s r : Cpu} {n : Nat} {x : Exception}
    (heip : r.eip = sys.returnAddress x)
    {w : Cpu.Selectors} (hw : w.Of s.toContext)
    (hframed : Cpu.Framed sys.stack s n (savedWords s.toContext w) r) :
    ∃ s', sys.Leaves r (.resumed (s.frameAddress sys.stack) s') ∧ s'.toContext = s.toContext ∧
      s'.mem = r.mem := by
  have hcode : entryCode sys.sym (entryNext (prologue x)) =
      [.popSeg .fs, .popSeg .es, .popSeg .ds, .pop .ebp, .pop .esi, .pop .edi, .pop .edx,
        .pop .ecx, .pop .ebx, .pop .eax, .iret] := by
    obtain hx | hx := prologue_cases x
    · rw [hx]
      rfl
    · rw [hx]
      rfl
  obtain ⟨d, hsegments, hd, hdmem, hdcontext⟩ := Program.exec_popSegs (L := Label) hw hframed
  have hebp := hd.drop.setReg .ebp s.ebp
  have hesi := hebp.drop.setReg .esi s.esi
  have hedi := hesi.drop.setReg .edi s.edi
  have hedx := hedi.drop.setReg .edx s.edx
  have hecx := hedx.drop.setReg .ecx s.ecx
  have hebx := hecx.drop.setReg .ebx s.ebx
  have heax := hebx.drop.setReg .eax s.eax
  generalize he : (Cpu.drop _).setReg .eax s.eax = e at heax
  have hcontext : e.toContext =
      { s.toContext with
        esp := e.esp
        ss := e.ss
        eip := e.eip
        cs := e.cs
        eflags := e.eflags } := by
    have hds : d.ds = s.ds := by rw [hdcontext]
    have hes : d.es = s.es := by rw [hdcontext]
    have hfs : d.fs = s.fs := by rw [hdcontext]
    simp only [← he, Cpu.setReg, Cpu.drop, hds, hes, hfs]
  have hexec : (entries sys.sym).exec sys.layout (entryNext (prologue x))
      (entryCode sys.sym (entryNext (prologue x))) r = .resumed e.esp e.iret := by
    rw [hcode, hsegments, Program.exec_pop hd, Program.exec_pop hebp, Program.exec_pop hesi,
      Program.exec_pop hedi, Program.exec_pop hedx, Program.exec_pop hecx, Program.exec_pop hebx,
      he]
    rfl
  have hmem : e.mem = r.mem := by
    rw [← he, ← hdmem]
    simp only [Cpu.setReg_mem, Cpu.drop_mem]
  rw [heax.esp_eq] at hexec
  refine ⟨e.iret, .resumed heip hexec, ?_, (Cpu.iret_mem e).trans hmem⟩
  rw [heax.iret, hcontext]

end MySystem
