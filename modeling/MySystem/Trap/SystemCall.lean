import MySystem.Trap.Nesting

/-!
# System calls

`sys_call` checks the call number against `NR_syscalls`, but without the
brackets that would take the contents: the bound in force is the address of the
variable.
-/

namespace MySystem

open Machine

variable {sys : System}

/-! ## Back to the interrupted program -/

/-- All paths lead to `.3`, and only the flags tell them apart. -/
theorem ret_from_sys_call_exec (sys : System) (c : Cpu) :
    ∃ d, (entries sys.sym).exec sys.layout .ret_from_sys_call
        (entryCode sys.sym .ret_from_sys_call) c = .goto d ∧
      d.toContext =
        { c.toContext with
          eip := sys.layout.addr .ret_from_sys_call_3
          eflags := d.eflags } ∧
      d.mem = c.mem := by
  simp only [entryCode, Program.exec]
  split
  · split
    · exact ⟨_, rfl, rfl, rfl⟩
    · exact ⟨_, rfl, rfl, rfl⟩
  · exact ⟨_, rfl, rfl, rfl⟩

/-- The registers `ret_from_sys_call` takes off the stack. -/
def restoredWords (a : Context) (w : Cpu.Selectors) (orig_eax : Word) : List Word :=
  [a.eax, a.ebx, a.ecx, a.edx, orig_eax, w.fs, w.es, w.ds]

theorem ret_from_sys_call_3_exec (sys : System) {s c : Cpu} {n : Nat} {a : Context}
    {w : Cpu.Selectors} (hw : w.Of a) {orig_eax : Word} {ws : List Word}
    (hframed : Cpu.Framed sys.stack s n (restoredWords a w orig_eax ++ ws) c) :
    ∃ d, (entries sys.sym).exec sys.layout .ret_from_sys_call_3
        (entryCode sys.sym .ret_from_sys_call_3) c = .resumed d.esp d.iret ∧
      Cpu.Framed sys.stack s n ws d ∧
      d.toContext =
        { c.toContext with
          eax := a.eax
          ebx := a.ebx
          ecx := a.ecx
          edx := a.edx
          fs := a.fs
          es := a.es
          ds := a.ds
          esp := d.esp
          eflags := d.eflags } := by
  have heax := hframed.drop.setReg .eax a.eax
  have hebx := heax.drop.setReg .ebx a.ebx
  have hecx := hebx.drop.setReg .ecx a.ecx
  have hedx := hecx.drop.setReg .edx a.edx
  generalize he : (Cpu.drop _).setReg .edx a.edx = e at hedx
  -- the slot of the call number is skipped, and the addition sets the flags
  have hskip := hedx.drop.setStatus (Cpu.addStatus e.esp 4)
  generalize hf : Cpu.setStatus _ _ = f at hskip
  obtain ⟨d, hsegments, hd, -, hdcontext⟩ := Program.exec_popSegs (L := Label) hw hskip
  refine ⟨d, ?_, hd, ?_⟩
  · change (entries sys.sym).exec sys.layout .ret_from_sys_call_3 [.pop .eax, .pop .ebx,
      .pop .ecx, .pop .edx, .addEsp 4, .popSeg .fs, .popSeg .es, .popSeg .ds, .iret] c = _
    rw [Program.exec_pop hframed, Program.exec_pop heax, Program.exec_pop hebx,
      Program.exec_pop hecx, he]
    change (entries sys.sym).exec sys.layout .ret_from_sys_call_3 [.popSeg .fs, .popSeg .es,
      .popSeg .ds, .iret] (e.drop.setStatus (Cpu.addStatus e.esp 4)) = _
    rw [hf, hsegments]
    rfl
  · have hregisters : e.toContext =
        { c.toContext with
          eax := a.eax
          ebx := a.ebx
          ecx := a.ecx
          edx := a.edx
          esp := e.esp } := by
      rw [← he]
      rfl
    have hstatus : f.toContext =
        { e.toContext with
          esp := f.esp
          eflags := f.eflags } := by
      rw [← hf]
      rfl
    rw [hdcontext, hstatus, hregisters]

/-- From `ret_from_sys_call`, the registers are taken off the stack and `iret` finds
its frame in what stands over them. -/
theorem ret_from_sys_call_leaves (sys : System) {s c : Cpu} {n : Nat} {a : Context}
    {w : Cpu.Selectors} (hw : w.Of a) {orig_eax : Word} {ws : List Word}
    (heip : c.eip = sys.layout.addr .ret_from_sys_call)
    (hframed : Cpu.Framed sys.stack s n (restoredWords a w orig_eax ++ ws) c) :
    ∃ d, sys.Leaves c (.resumed d.esp d.iret) ∧ Cpu.Framed sys.stack s n ws d ∧
      d.toContext =
        { c.toContext with
          eax := a.eax
          ebx := a.ebx
          ecx := a.ecx
          edx := a.edx
          fs := a.fs
          es := a.es
          ds := a.ds
          esp := d.esp
          eip := d.eip
          eflags := d.eflags } := by
  obtain ⟨c', hgoto, hcontext, hmem⟩ := ret_from_sys_call_exec sys c
  have hcs := congrArg Context.cs hcontext
  have hss := congrArg Context.ss hcontext
  have hesp := congrArg Context.esp hcontext
  obtain ⟨d, hexec, hd, hregisters⟩ :=
    ret_from_sys_call_3_exec sys hw (hframed.congr hcs hss hesp hmem)
  refine ⟨d, .goto heip hgoto (.resumed (congrArg Context.eip hcontext) hexec), hd, ?_⟩
  rw [hregisters, hcontext]

/-- The program interrupted in `s` gets control back from `c`, with `v` in `eax` and
otherwise with its own registers, once the processor's frame is used up. -/
def Resumes (sys : System) (s c : Cpu) (v : Word) : Prop :=
  ∃ s', sys.Leaves c (.resumed (s.frameAddress sys.stack) s') ∧
    s'.toContext = { s.toContext with eax := v }

theorem Resumes.goto {s c d : Cpu} {v : Word} {l : Label} (heip : c.eip = sys.layout.addr l)
    (hexec : (entries sys.sym).exec sys.layout l (entryCode sys.sym l) c = .goto d)
    (h : Resumes sys s d v) : Resumes sys s c v := by
  obtain ⟨s', hleaves, hcontext⟩ := h
  exact ⟨s', .goto heip hexec hleaves, hcontext⟩

/-- With the registers of `s` directly under the frame, `ret_from_sys_call` resumes `s`. -/
theorem ret_from_sys_call_resumes (sys : System) {s c : Cpu} {n : Nat} {w : Cpu.Selectors}
    (hw : w.Of s.toContext) {v orig_eax : Word}
    (heip : c.eip = sys.layout.addr .ret_from_sys_call)
    (hframed : Cpu.Framed sys.stack s n (restoredWords { s.toContext with eax := v } w orig_eax) c)
    (hebp : c.ebp = s.ebp) (hesi : c.esi = s.esi) (hedi : c.edi = s.edi) :
    Resumes sys s c v := by
  have hwords : Cpu.Framed sys.stack s n
      (restoredWords { s.toContext with eax := v } w orig_eax ++ []) c := hframed
  have hcaller : w.Of { s.toContext with eax := v } := ⟨hw.ds, hw.es, hw.fs⟩
  obtain ⟨d, hleaves, hd, hcontext⟩ := ret_from_sys_call_leaves sys hcaller heip hwords
  rw [hd.esp_eq] at hleaves
  refine ⟨d.iret, hleaves, ?_⟩
  rw [hd.iret, hcontext]
  simp only [hebp, hesi, hedi]

/-! ## The call -/

/-- The number of entries in the table, which `NR_syscalls` holds. -/
def tableSize (sys : System) (s : Cpu) : Word := s.mem.load32 sys.sym.NR_syscalls

/-- The address of an entry of the table. -/
def tableSlot (sys : System) (n : Word) : Word := sys.sym.sys_call_table + n * 4

/-- The registers as `sys_call` saves them. -/
def callWords (s : Context) (w : Cpu.Selectors) : List Word :=
  [s.ebx, s.ecx, s.edx, s.eax, w.fs, w.es, w.ds]

/-- The words in which `sys_call` saves the segment registers, right under the frame. -/
def System.callSelectors (sys : System) (s : Cpu) : Cpu.Selectors :=
  let c := sys.interrupt s .sys_call none
  c.selectorsAt (c.esp - 4)

theorem callSelectors_of (sys : System) (s : Cpu) : (sys.callSelectors s).Of s.toContext := by
  have hseg := interrupt_seg sys s .sys_call none
  obtain ⟨hds, hes, hfs⟩ := (sys.interrupt s .sys_call none).selectorsAt_of
    ((sys.interrupt s .sys_call none).esp - 4)
  exact ⟨hds.trans (hseg .ds), hes.trans (hseg .es), hfs.trans (hseg .fs)⟩

/-- The selectors for C code in the kernel, loaded through `edx`. -/
def loadSelectors (c : Cpu) : Cpu :=
  { c with
    edx := 0x17
    ds := 0x10
    es := 0x10
    fs := 0x17 }

theorem loadSelectors_exec (sys : System) (l : Label) (is : List (Instr Label)) (c : Cpu) :
    (entries sys.sym).exec sys.layout l
        (.movImm .edx 0x10 :: .movSeg .ds .edx :: .movSeg .es .edx :: .movImm .edx 0x17 ::
          .movSeg .fs .edx :: is) c =
      (entries sys.sym).exec sys.layout l is (loadSelectors c) := rfl

/-- The comparison is with the address of `NR_syscalls`. -/
theorem check_exec (sys : System) (c : Cpu) :
    let d := c.setStatus (Cpu.subStatus c.eax sys.sym.NR_syscalls)
    (entries sys.sym).exec sys.layout .sys_call
        [.cmp .eax sys.sym.NR_syscalls, .jae .bad_sys_call,
          .callTable sys.sym.sys_call_table .eax] c =
      if c.eax < sys.sym.NR_syscalls then
        .called (some (tableSlot sys c.eax))
          { d.push (sys.layout.addr .sys_call_return) with
            eip := d.mem.load32 (tableSlot sys c.eax) }
      else .goto { d with eip := sys.layout.addr .bad_sys_call } := by
  intro d
  have hcarry : d.carry = decide (c.eax < sys.sym.NR_syscalls) := Cpu.carry_setStatus c _
  change (if d.carry = true then _ else _) = _
  rw [hcarry]
  by_cases hbelow : c.eax < sys.sym.NR_syscalls
  · rw [if_pos hbelow, if_pos (decide_eq_true hbelow)]
    rfl
  · rw [if_neg hbelow, if_neg (by simpa using hbelow)]
    rfl

theorem sys_call_exec (sys : System) (c : Cpu) :
    (entries sys.sym).exec sys.layout .sys_call (entryCode sys.sym .sys_call) c =
      (entries sys.sym).exec sys.layout .sys_call
        [.cmp .eax sys.sym.NR_syscalls, .jae .bad_sys_call,
          .callTable sys.sym.sys_call_table .eax]
        (loadSelectors
          (c.pushes (callWords c.toContext (c.selectorsAt (c.esp - 4))).reverse)) := by
  rw [entryCode, Program.exec_pushSegs rfl]
  simp only [Program.exec_push, Cpu.pushes_reg, Cpu.push_reg]
  exact loadSelectors_exec sys .sys_call _
    (c.pushes (callWords c.toContext (c.selectorsAt (c.esp - 4))).reverse)

/-- Kernel code entered from `s` has pushed `ws`; `eax`, `ebp`, `esi` and `edi` are
still the caller's. -/
structure Saved (sys : System) (s : Cpu) (ws : List Word) (c : Cpu) : Prop where
  eax : c.eax = s.eax
  ebp : c.ebp = s.ebp
  esi : c.esi = s.esi
  edi : c.edi = s.edi
  framed : ∀ n, n + 4 * ws.length + 24 ≤ 2 ^ 32 → Cpu.Framed sys.stack s n ws c

theorem interrupt_saves (sys : System) (s : Cpu) (l : Label) (ws : List Word) :
    Saved sys s ws ((sys.interrupt s l none).pushes ws.reverse) := by
  have hcontext := s.deliver_context sys.stack (sys.layout.addr l) none
  have hpushes := (sys.interrupt s l none).pushes_context ws.reverse
  change (sys.interrupt s l none).toContext = _ at hcontext
  exact {
    eax := by rw [hpushes, hcontext]
    ebp := by rw [hpushes, hcontext]
    esi := by rw [hpushes, hcontext]
    edi := by rw [hpushes, hcontext]
    framed := by
      intro n hn
      have hframe := s.framed_deliver sys.stack (sys.layout.addr l) none (n := n) (by omega)
      have hws := hframe.pushes ws.reverse (by simp; omega)
      rwa [List.reverse_reverse, Option.toList_none, List.append_nil] at hws }

theorem sys_call_checks (sys : System) (s : Cpu) :
    ∃ d, Saved sys s (callWords s.toContext (sys.callSelectors s)) d ∧
      (entries sys.sym).exec sys.layout .sys_call (entryCode sys.sym .sys_call)
          (sys.interrupt s .sys_call none) =
        if s.eax < sys.sym.NR_syscalls then
          .called (some (tableSlot sys s.eax))
            { d.push (sys.layout.addr .sys_call_return) with
              eip := d.mem.load32 (tableSlot sys s.eax) }
        else .goto { d with eip := sys.layout.addr .bad_sys_call } := by
  let w := sys.callSelectors s
  have hwords : callWords (sys.interrupt s .sys_call none).toContext w =
      callWords s.toContext w := by
    rw [System.interrupt, Cpu.deliver_context]
    rfl
  have hexec := sys_call_exec sys (sys.interrupt s .sys_call none)
  have hsaved := interrupt_saves sys s .sys_call (callWords s.toContext w)
  change _ = (entries sys.sym).exec sys.layout .sys_call _ (loadSelectors (Cpu.pushes _
    (callWords (sys.interrupt s .sys_call none).toContext w).reverse)) at hexec
  rw [hwords, check_exec] at hexec
  generalize (sys.interrupt s .sys_call none).pushes (callWords s.toContext w).reverse = d
    at hexec hsaved
  have heax : (loadSelectors d).eax = s.eax := hsaved.eax
  rw [heax] at hexec
  refine ⟨(loadSelectors d).setStatus (Cpu.subStatus s.eax sys.sym.NR_syscalls), ?_, hexec⟩
  exact ⟨heax, hsaved.ebp, hsaved.esi, hsaved.edi,
    fun n hn => (hsaved.framed n hn).congr rfl rfl rfl rfl⟩

/-! ## A call answered -/

/-- Entry `n` of the table is called with the arguments in `ebx`, `ecx` and `edx`, and
what it returns in `eax` is the caller's result. -/
structure Dispatched (sys : System) (s e : Cpu) : Prop where
  leaves : sys.Leaves (sys.interrupt s .sys_call none) (.called (some (tableSlot sys s.eax)) e)
  /-- Unless the table lies in the 64 bytes under the stack, `e` is where it points. -/
  eip : (tableSlot sys s.eax - s.base sys.stack).toNat + 4 ≤ 2 ^ 32 - 64 →
    e.eip = s.mem.load32 (tableSlot sys s.eax)
  arguments : e.mem.Holds (e.esp + 4) [s.ebx, s.ecx, s.edx]
  result : ∀ r, Returned e r → Preserves (28 + 4 * s.frame.length) e r → Resumes sys s r r.eax

/-- What `int 0x80` has to do for a call made in `s`. -/
structure Answers (sys : System) (s : Cpu) : Prop where
  dispatched : s.eax < tableSize sys s → ∃ e, Dispatched sys s e
  refused : ¬ s.eax < tableSize sys s →
    Resumes sys s (sys.interrupt s .sys_call none) (-ENOSYS)

/-- The result is pushed over the words `sys_call` saved, in the place of the registers
that `ret_from_sys_call` restores. -/
theorem sys_call_return_resumes (sys : System) {s r : Cpu}
    (heip : r.eip = sys.layout.addr .sys_call_return)
    (hframed : Cpu.Framed sys.stack s 0 (callWords s.toContext (sys.callSelectors s)) r)
    (hebp : r.ebp = s.ebp) (hesi : r.esi = s.esi) (hedi : r.edi = s.edi) :
    Resumes sys s r r.eax := by
  let d : Cpu := { r.push r.eax with eip := sys.layout.addr .ret_from_sys_call }
  have hpush : Cpu.Framed sys.stack s 0
      (restoredWords { s.toContext with eax := r.eax } (sys.callSelectors s) s.eax) d :=
    (hframed.pushes [r.eax] (by simp [callWords])).congr rfl rfl rfl rfl
  have hresumes := ret_from_sys_call_resumes sys (callSelectors_of sys s) rfl hpush hebp hesi hedi
  exact hresumes.goto heip rfl

theorem sys_call_dispatches (sys : System) {s : Cpu} (hbelow : s.eax < sys.sym.NR_syscalls) :
    ∃ e, Dispatched sys s e := by
  obtain ⟨d, hd, hexec⟩ := sys_call_checks sys s
  rw [if_pos hbelow] at hexec
  have hframed : Cpu.Framed sys.stack s 0
      (sys.layout.addr .sys_call_return :: callWords s.toContext (sys.callSelectors s))
      { d.push (sys.layout.addr .sys_call_return) with
        eip := d.mem.load32 (tableSlot sys s.eax) } :=
    ((hd.framed 0 (by simp [callWords])).pushes [_] (by simp [callWords])).congr rfl rfl rfl rfl
  refine ⟨_, .called (interrupt_eip sys s .sys_call none) hexec, ?_, ?_, ?_⟩
  · intro hoff
    have hagree := (hd.framed (2 ^ 32 - 64) (by simp [callWords])).agree
    exact hagree.load32_of_le hoff (by omega)
  · obtain ⟨-, hebx, hecx, hedx, -⟩ := hframed.stack
    exact ⟨hebx, hecx, hedx, trivial⟩
  · intro r hreturned hpreserves
    have hframe := s.length_frame_le
    have hwords : Cpu.Framed sys.stack s 0 (callWords s.toContext (sys.callSelectors s)) r := by
      refine hframed.returned hreturned (by simp [callWords]) ?_
      have hstack := hpreserves.stack
      rwa [Nat.add_comm, ← Nat.zero_add (4 * _)] at hstack
    have heip : r.eip = sys.layout.addr .sys_call_return :=
      hreturned.eip.trans hframed.top_eq
    exact sys_call_return_resumes sys heip hwords (hpreserves.ebp.trans hd.ebp)
      (hpreserves.esi.trans hd.esi) (hpreserves.edi.trans hd.edi)

theorem sys_call_refuses (sys : System) {s : Cpu} (hbeyond : ¬ s.eax < sys.sym.NR_syscalls) :
    Resumes sys s (sys.interrupt s .sys_call none) (-ENOSYS) := by
  obtain ⟨d, hd, hexec⟩ := sys_call_checks sys s
  rw [if_neg hbeyond] at hexec
  let c : Cpu := { d.push (-ENOSYS) with eip := sys.layout.addr .ret_from_sys_call }
  have hpush : Cpu.Framed sys.stack s 0
      (restoredWords { s.toContext with eax := -ENOSYS } (sys.callSelectors s) s.eax) c :=
    ((hd.framed 0 (by simp [callWords])).pushes [-ENOSYS] (by simp [callWords])).congr
      rfl rfl rfl rfl
  have hresumes := ret_from_sys_call_resumes sys (callSelectors_of sys s) rfl hpush hd.ebp hd.esi
    hd.edi
  have hbad : Resumes sys s { d with eip := sys.layout.addr .bad_sys_call } (-ENOSYS) :=
    hresumes.goto rfl rfl
  exact hbad.goto (interrupt_eip sys s .sys_call none) hexec

/-- A call is answered as it has to be exactly when the two bounds, the contents of
`NR_syscalls` and its address, are on the same side of the number. -/
theorem sys_call_answers_iff (sys : System) (s : Cpu) :
    Answers sys s ↔ (s.eax < tableSize sys s ↔ s.eax < sys.sym.NR_syscalls) := by
  constructor
  · intro hanswers
    constructor
    · intro hsize
      obtain ⟨e, he⟩ := hanswers.dispatched hsize
      by_contra hbeyond
      obtain ⟨s', hleaves, -⟩ := sys_call_refuses sys hbeyond
      cases he.leaves.unique hleaves
    · intro hbelow
      obtain ⟨e, he⟩ := sys_call_dispatches sys hbelow
      by_contra hsize
      obtain ⟨s', hleaves, -⟩ := hanswers.refused hsize
      cases he.leaves.unique hleaves
  · intro hbounds
    constructor
    · intro hsize
      exact sys_call_dispatches sys (hbounds.mp hsize)
    · intro hsize
      exact sys_call_refuses sys fun hbelow => hsize (hbounds.mpr hbelow)

/-- The first number after the table's 87 entries. -/
def callBeyond : Cpu :=
  { interruptedProgram with
    eax := 87
    mem := interruptedProgram.mem.store32 linkedKernel.sym.NR_syscalls 87 }

/-- It is called through the slot behind the table's last entry. -/
theorem sys_call_answers_fails : ¬ Answers linkedKernel callBeyond := by
  intro hanswers
  have hbelow : callBeyond.eax < linkedKernel.sym.NR_syscalls := by decide
  have hbeyond : ¬ callBeyond.eax < tableSize linkedKernel callBeyond := by decide
  obtain ⟨e, he⟩ := sys_call_dispatches linkedKernel hbelow
  obtain ⟨s', hleaves, -⟩ := hanswers.refused hbeyond
  cases he.leaves.unique hleaves

end MySystem
