import MySystem.Trap.SystemCall

/-!
# The coprocessor's entries

`device_not_available` saves the registers, pushes the address of
`ret_from_sys_call` and returns into it. `coprocessor_error` begins the same
way, but its jump is commented out: it runs on into `device_not_available`,
which saves everything a second time, and the first copy is never taken off.
-/

namespace MySystem

open Machine

variable {sys : System}

/-! ## `device_not_available` -/

/-- The registers as they are saved, with -1 in the slot of the call number. -/
def returnWords (c : Cpu) : List Word :=
  restoredWords c.toContext (c.selectorsAt (c.esp - 4)) (-1)

/-- The registers saved, with the address of `ret_from_sys_call` on top. -/
def saveForReturn (sys : System) (c : Cpu) : Cpu :=
  (loadSelectors (c.pushes (returnWords c).reverse)).push (sys.layout.addr .ret_from_sys_call)

theorem saveForReturn_exec (sys : System) (l : Label) (is : List (Instr Label)) (c : Cpu) :
    (entries sys.sym).exec sys.layout l
        (.pushSeg .ds :: .pushSeg .es :: .pushSeg .fs :: .pushImm (-1) :: .push .edx ::
          .push .ecx :: .push .ebx :: .push .eax :: .movImm .edx 0x10 :: .movSeg .ds .edx ::
          .movSeg .es .edx :: .movImm .edx 0x17 :: .movSeg .fs .edx ::
          .pushLabel .ret_from_sys_call :: is) c =
      (entries sys.sym).exec sys.layout l is (saveForReturn sys c) := by
  rw [Program.exec_pushSegs rfl]
  simp only [Program.exec_pushImm, Program.exec_push, Cpu.pushes_reg, Cpu.push_reg]
  exact loadSelectors_exec sys l _ (c.pushes (returnWords c).reverse)

theorem saveForReturn_framed {s c : Cpu} {n : Nat} {ws : List Word}
    (hframed : Cpu.Framed sys.stack s n ws c) (hn : n + 4 * ws.length + 56 ≤ 2 ^ 32) :
    Cpu.Framed sys.stack s n
      (sys.layout.addr .ret_from_sys_call :: returnWords c ++ ws)
      (saveForReturn sys c) := by
  have hsaved := hframed.pushes (returnWords c).reverse
    (by simp [returnWords, restoredWords]; omega)
  rw [List.reverse_reverse] at hsaved
  have hloaded : Cpu.Framed sys.stack s n (returnWords c ++ ws)
      (loadSelectors (c.pushes (returnWords c).reverse)) :=
    hsaved.congr rfl rfl rfl rfl
  exact hloaded.pushes [_] (by simp [returnWords, restoredWords]; omega)

theorem saveForReturn_context (sys : System) (c : Cpu) :
    (saveForReturn sys c).toContext =
      { c.toContext with
        edx := 0x17
        ds := 0x10
        es := 0x10
        fs := 0x17
        esp := (saveForReturn sys c).esp } := by
  have hpushes := c.pushes_context (returnWords c).reverse
  rw [saveForReturn]
  generalize c.pushes (returnWords c).reverse = d at hpushes ⊢
  change { d.toContext with
    edx := 0x17
    ds := 0x10
    es := 0x10
    fs := 0x17
    esp := d.esp - 4 } = _
  rw [hpushes]
  rfl

/-- `device_not_available` gives the registers back, and `iret` finds its frame in what
was on the stack at the entry. -/
theorem device_not_available_leaves (sys : System) {s c : Cpu} {n : Nat} {ws : List Word}
    (heip : c.eip = sys.layout.addr .device_not_available)
    (hframed : Cpu.Framed sys.stack s n ws c) (hn : n + 4 * ws.length + 56 ≤ 2 ^ 32) :
    ∃ d, sys.Leaves c (.resumed d.esp d.iret) ∧ Cpu.Framed sys.stack s n ws d ∧
      d.toContext =
        { c.toContext with
          esp := d.esp
          eip := d.eip
          eflags := d.eflags } := by
  have hsaved := saveForReturn_framed hframed hn
  have hcontext := saveForReturn_context sys c
  have hexec : (entries sys.sym).exec sys.layout .device_not_available
      (entryCode sys.sym .device_not_available) c =
        .goto { (saveForReturn sys c).drop with eip := (saveForReturn sys c).top } :=
    saveForReturn_exec sys .device_not_available [.ret] c
  generalize saveForReturn sys c = e at hsaved hcontext hexec
  have hreturn : Cpu.Framed sys.stack s n (returnWords c ++ ws)
      { e.drop with eip := e.top } := hsaved.drop.congr rfl rfl rfl rfl
  obtain ⟨d, hleaves, hd, hregisters⟩ :=
    ret_from_sys_call_leaves sys (c.selectorsAt_of _) (by exact hsaved.top_eq) hreturn
  refine ⟨d, .goto heip hexec hleaves, hd, ?_⟩
  rw [hregisters]
  change { e.toContext with
    eax := c.eax
    ebx := c.ebx
    ecx := c.ecx
    edx := c.edx
    fs := c.fs
    es := c.es
    ds := c.ds
    esp := d.esp
    eip := d.eip
    eflags := d.eflags } = _
  rw [hcontext]

/-! ## `coprocessor_error` and `irq13` -/

/-- `coprocessor_error` leaves its copy of the registers on the stack, and `iret` takes
it for a frame. -/
theorem coprocessor_error_leaves (sys : System) {s c : Cpu} {n : Nat}
    (heip : c.eip = sys.layout.addr .coprocessor_error)
    (hframed : Cpu.Framed sys.stack s n [] c) (hn : n + 92 ≤ 2 ^ 32) :
    ∃ d, sys.Leaves c (.resumed d.esp d.iret) ∧
      Cpu.Framed sys.stack s n
        (sys.layout.addr .ret_from_sys_call :: returnWords c) d := by
  have hsaved := saveForReturn_framed hframed (by simp; omega)
  rw [List.append_nil] at hsaved
  have hexec : (entries sys.sym).exec sys.layout .coprocessor_error
      (entryCode sys.sym .coprocessor_error) c =
        .goto { saveForReturn sys c with eip := sys.layout.addr .device_not_available } :=
    saveForReturn_exec sys .coprocessor_error [] c
  generalize saveForReturn sys c = e at hsaved hexec
  have hfalls : Cpu.Framed sys.stack s n
      (sys.layout.addr .ret_from_sys_call :: returnWords c)
      { e with eip := sys.layout.addr .device_not_available } := hsaved.congr rfl rfl rfl rfl
  obtain ⟨d, hleaves, hd, -⟩ :=
    device_not_available_leaves sys rfl hfalls (by simp [returnWords, restoredWords]; omega)
  exact ⟨d, .goto heip hexec hleaves, hd⟩

/-- The acknowledgement to both interrupt controllers, which changes `al` and the flags. -/
theorem irq13_exec (sys : System) (c : Cpu) :
    ∃ d : Cpu, (entries sys.sym).exec sys.layout .irq13 (entryCode sys.sym .irq13) c =
        .goto { d with eip := sys.layout.addr .irq13_1 } ∧
      d.cs = c.cs ∧ d.ss = c.ss ∧ d.esp = (c.push c.eax).esp ∧ d.mem = (c.push c.eax).mem :=
  ⟨_, rfl, rfl, rfl, rfl, rfl⟩

/-- `irq13` leaves the stack as it was and goes on as `coprocessor_error`. -/
theorem irq13_leads (sys : System) {s c : Cpu} {n : Nat}
    (heip : c.eip = sys.layout.addr .irq13) (hframed : Cpu.Framed sys.stack s n [] c)
    (hn : n + 24 ≤ 2 ^ 32) :
    ∃ d, d.eip = sys.layout.addr .coprocessor_error ∧ Cpu.Framed sys.stack s n [] d ∧
      ∀ e, sys.Leaves d e → sys.Leaves c e := by
  obtain ⟨d, hexec, hcs, hss, hesp, hmem⟩ := irq13_exec sys c
  have hpush : Cpu.Framed sys.stack s n [c.eax] d :=
    (hframed.pushes [c.eax] (by simp; omega)).congr hcs hss hesp hmem
  let d' : Cpu := { d.drop.setReg .eax d.top with eip := sys.layout.addr .coprocessor_error }
  refine ⟨{ d' with ports := (0xa0, d.eax.setWidth 8) :: d.ports }, rfl, ?_, ?_⟩
  · exact (hpush.drop.setReg .eax d.top).congr rfl rfl rfl rfl
  · intro e hleaves
    have hsecond : sys.Leaves { d with eip := sys.layout.addr .irq13_2 } e :=
      .goto rfl rfl hleaves
    have hfirst : sys.Leaves { d with eip := sys.layout.addr .irq13_1 } e :=
      .goto rfl rfl hsecond
    exact .goto heip hexec hfirst

/-! ## The gates -/

theorem device_not_available_resumes (sys : System) (s : Cpu) :
    Resumes sys s (sys.interrupt s .device_not_available none) s.eax := by
  have hcontext := s.deliver_context sys.stack (sys.layout.addr .device_not_available) none
  have hframe := s.framed_deliver sys.stack (sys.layout.addr .device_not_available) none
    (n := 0) (by decide)
  obtain ⟨d, hleaves, hd, hregisters⟩ := device_not_available_leaves sys
    (interrupt_eip sys s .device_not_available none) hframe (by decide)
  have hd : Cpu.Framed sys.stack s 0 [] d := hd
  rw [hd.esp_eq] at hleaves
  refine ⟨d.iret, hleaves, ?_⟩
  rw [hd.iret, hregisters]
  change { (s.deliver sys.stack (sys.layout.addr .device_not_available) none).toContext with
    esp := s.esp
    ss := s.ss
    eip := s.eip
    cs := s.cs
    eflags := s.eflags } = _
  rw [hcontext]

/-- With words left over it, `iret` does not take the processor's frame. -/
theorem surplus_not_resumes (sys : System) {s c d : Cpu} {n : Nat} {w : Word} {ws : List Word}
    (hleaves : sys.Leaves c (.resumed d.esp d.iret))
    (hframed : Cpu.Framed sys.stack s n (w :: ws) d) (hlen : 4 * ws.length + 4 < 2 ^ 32)
    (v : Word) : ¬ Resumes sys s c v := by
  rintro ⟨s', hresumed, -⟩
  have hexit := hresumed.unique hleaves
  injection hexit with hframe
  have hesp := hframed.esp
  rw [← hframe, List.length_cons] at hesp
  have hzero : Word.of (4 * (ws.length + 1)) = 0 := by bv_omega
  have hvalue := congrArg BitVec.toNat hzero
  rw [Word.toNat_of (by omega)] at hvalue
  change 4 * (ws.length + 1) = 0 at hvalue
  omega

/-- The gates of the coprocessor resume the interrupted program on vector 7 only. -/
theorem coprocessor_gate_resumes_iff (sys : System) (s : Cpu) {v : Nat} {l : Label}
    (hv : v ∈ [7, 16, 45]) (hgate : gate v = some l) :
    Resumes sys s (sys.interrupt s l none) s.eax ↔ v = 7 := by
  have hframed : ∀ l, Cpu.Framed sys.stack s 0 [] (sys.interrupt s l none) := fun l =>
    s.framed_deliver sys.stack (sys.layout.addr l) none (by decide)
  have hentry := fun l => interrupt_eip sys s l none
  rw [List.mem_cons, List.mem_cons, List.mem_singleton] at hv
  obtain rfl | rfl | rfl := hv
  · have hl : l = .device_not_available := Option.some.inj (hgate.symm.trans (by decide))
    subst hl
    exact ⟨fun _ => rfl, fun _ => device_not_available_resumes sys s⟩
  · have hl : l = .coprocessor_error := Option.some.inj (hgate.symm.trans (by decide))
    subst hl
    obtain ⟨d, hleaves, hd⟩ :=
      coprocessor_error_leaves sys (hentry .coprocessor_error) (hframed _) (by decide)
    have hnot := surplus_not_resumes sys hleaves hd (by simp [returnWords, restoredWords]) s.eax
    exact ⟨fun h => absurd h hnot, fun h => absurd h (by decide)⟩
  · have hl : l = .irq13 := Option.some.inj (hgate.symm.trans (by decide))
    subst hl
    obtain ⟨c, heip, hstart, hleads⟩ := irq13_leads sys (hentry .irq13) (hframed _) (by decide)
    obtain ⟨d, hleaves, hd⟩ := coprocessor_error_leaves sys heip hstart (by decide)
    have hnot := surplus_not_resumes sys (hleads _ hleaves) hd
      (by simp [returnWords, restoredWords]) s.eax
    exact ⟨fun h => absurd h hnot, fun h => absurd h (by decide)⟩

/-- For a coprocessor instruction in a running program. -/
theorem coprocessor_gate_resumes_iff_program :
    Resumes linkedKernel interruptedProgram
      (linkedKernel.interrupt interruptedProgram .device_not_available none)
      interruptedProgram.eax ↔ 7 = 7 :=
  coprocessor_gate_resumes_iff linkedKernel interruptedProgram (by decide) (by decide)

/-- The first copy of the registers is still over the frame when `coprocessor_error` is left. -/
theorem coprocessor_error_not_resumed :
    ¬ Resumes linkedKernel interruptedProgram
      (linkedKernel.interrupt interruptedProgram .coprocessor_error none)
      interruptedProgram.eax := by
  have hframed : Cpu.Framed linkedKernel.stack interruptedProgram 0 []
      (linkedKernel.interrupt interruptedProgram .coprocessor_error none) :=
    interruptedProgram.framed_deliver linkedKernel.stack _ none (by decide)
  obtain ⟨d, hleaves, hd⟩ := coprocessor_error_leaves linkedKernel
    (interrupt_eip linkedKernel interruptedProgram .coprocessor_error none) hframed (by decide)
  exact surplus_not_resumes linkedKernel hleaves hd (by simp [returnWords, restoredWords]) _

end MySystem
