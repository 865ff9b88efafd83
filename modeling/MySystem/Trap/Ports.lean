import MySystem.Trap.Coprocessor

/-!
# What the interrupt entries send to ports

Two entries tell the interrupt controllers of the end of an interrupt:
`irq13` both of them, the first one first, and `parallel_interrupt` only the
first. The stub of `reserved`, on all their other vectors, tells neither.
-/

namespace MySystem

open Machine

/-- What an entry sends until control leaves it. -/
def entrySends : Label → List (Byte × Byte)
  | .irq13 => [(0xf0, 0), (0x20, 0x20), (0xa0, 0x20)]
  | .parallel_interrupt => [(0x20, 0x20)]
  | _ => []

/-- However control leaves the code from `c` on, it has then sent `ws`. -/
def Sending (sys : System) (c : Cpu) (ws : List (Byte × Byte)) : Prop :=
  ∀ e, sys.Leaves c e → e.ports = ws.reverse ++ c.ports

variable {sys : System} {c d : Cpu} {l : Label} {ws : List (Byte × Byte)}

theorem Sending.goto (heip : c.eip = sys.layout.addr l)
    (hexec : (entries sys.sym).exec sys.layout l (entryCode sys.sym l) c = .goto d)
    {sent : List (Byte × Byte)} (hports : d.ports = sent.reverse ++ c.ports)
    (h : Sending sys d ws) : Sending sys c (sent ++ ws) := by
  intro e hleaves
  rw [h e (hleaves.of_goto heip hexec), hports, List.reverse_append, List.append_assoc]

/-- The code without an `out`. -/
theorem silent_exec (sys : System) (hl : l ≠ .irq13 ∧ l ≠ .irq13_2 ∧ l ≠ .parallel_interrupt)
    (c : Cpu) :
    ((entries sys.sym).exec sys.layout l (entryCode sys.sym l) c).ports = c.ports := by
  refine Program.exec_ports _ _ ?_ l c
  obtain ⟨hirq13, hirq13_2, hparallel⟩ := hl
  cases l <;> simp_all [entryCode, Instr.silent]

theorem Sending.silent (heip : c.eip = sys.layout.addr l)
    (hl : l ≠ .irq13 ∧ l ≠ .irq13_2 ∧ l ≠ .parallel_interrupt)
    (hexec : (entries sys.sym).exec sys.layout l (entryCode sys.sym l) c = .goto d)
    (h : Sending sys d ws) : Sending sys c ws := by
  have hports := silent_exec sys hl c
  rw [hexec] at hports
  change Sending sys c ([] ++ ws)
  exact Sending.goto heip hexec hports h

/-- Code that sends nothing and is left. -/
theorem Sending.done {e : Exit} (hleaves : sys.Leaves c e) (hports : e.ports = c.ports) :
    Sending sys c [] := by
  intro e' hleaves'
  obtain rfl := hleaves'.unique hleaves
  exact hports

/-! ## The way through the entries -/

theorem ret_from_sys_call_sends (sys : System)
    (heip : c.eip = sys.layout.addr .ret_from_sys_call) : Sending sys c [] := by
  obtain ⟨d, hexec, hcontext, -⟩ := ret_from_sys_call_exec sys c
  have hd : d.eip = sys.layout.addr .ret_from_sys_call_3 := congrArg Context.eip hcontext
  refine .silent heip (by decide) hexec ?_
  exact .done (.resumed hd rfl) (silent_exec sys (l := .ret_from_sys_call_3) (by decide) d)

theorem device_not_available_sends (sys : System)
    (heip : c.eip = sys.layout.addr .device_not_available) : Sending sys c [] := by
  have hexec : (entries sys.sym).exec sys.layout .device_not_available
      (entryCode sys.sym .device_not_available) c =
        .goto { (saveForReturn sys c).drop with eip := (saveForReturn sys c).top } :=
    saveForReturn_exec sys .device_not_available [.ret] c
  refine .silent heip (by decide) hexec ?_
  exact ret_from_sys_call_sends sys (Memory.load32_store32_same ..)

theorem coprocessor_error_sends (sys : System)
    (heip : c.eip = sys.layout.addr .coprocessor_error) : Sending sys c [] := by
  have hexec : (entries sys.sym).exec sys.layout .coprocessor_error
      (entryCode sys.sym .coprocessor_error) c =
        .goto { saveForReturn sys c with eip := sys.layout.addr .device_not_available } :=
    saveForReturn_exec sys .coprocessor_error [] c
  refine .silent heip (by decide) hexec ?_
  exact device_not_available_sends sys rfl

theorem stub_sends (sys : System) {x : Exception} (heip : c.eip = sys.layout.addr (.stub x)) :
    Sending sys c [] := by
  refine .silent heip (by simp) (stub_exec sys x c) ?_
  generalize hd : c.push (sys.sym.handler x) = d
  obtain hx | hx := prologue_cases x
  · rw [hx]
    exact .done (.called rfl rfl) (silent_exec sys (l := .no_error_code) (by decide) _)
  · rw [hx]
    exact .done (.called rfl rfl) (silent_exec sys (l := .error_code) (by decide) _)

/-- Nor is anything sent on the way back from a handler. -/
theorem return_sends (sys : System) {x : Exception} (heip : c.eip = sys.returnAddress x) :
    Sending sys c [] := by
  rw [System.returnAddress] at heip
  obtain hx | hx := prologue_cases x
  · rw [hx] at heip
    exact .done (.resumed heip rfl) (silent_exec sys (l := .no_error_code_return) (by decide) c)
  · rw [hx] at heip
    exact .done (.resumed heip rfl) (silent_exec sys (l := .error_code_return) (by decide) c)

theorem setWidth_al (v : BitVec 24) (al : Byte) : (v ++ al : Word).setWidth 8 = al := by
  apply BitVec.eq_of_getLsbD_eq
  intro i hi
  rw [BitVec.getLsbD_setWidth, BitVec.getLsbD_append]
  simp [hi]

theorem parallel_interrupt_sends (sys : System)
    (heip : c.eip = sys.layout.addr .parallel_interrupt) :
    Sending sys c (entrySends .parallel_interrupt) := by
  intro e hleaves
  obtain rfl := hleaves.unique (Program.Leaves.resumed heip rfl)
  refine (Cpu.iret_ports _).trans ?_
  exact congrArg (fun v : Byte => (0x20, v) :: c.ports) (setWidth_al ..)

/-- `al` holds 0x20 for both controllers. -/
theorem irq13_sends (sys : System) (heip : c.eip = sys.layout.addr .irq13) :
    Sending sys c (entrySends .irq13) := by
  have hexec : ∃ d : Cpu, (entries sys.sym).exec sys.layout .irq13 (entryCode sys.sym .irq13) c =
        .goto { d with eip := sys.layout.addr .irq13_1 } ∧
      d.ports = (0x20, 0x20) :: (0xf0, 0) :: c.ports ∧ d.eax.setWidth 8 = (0x20 : Byte) := by
    refine ⟨_, rfl, ?_, setWidth_al ..⟩
    refine congrArg₂ (fun v w : Byte => (0x20, v) :: (0xf0, w) :: c.ports) ?_ ?_
    · exact setWidth_al ..
    · exact setWidth_al ..
  obtain ⟨d, hexec, hports, hal⟩ := hexec
  change Sending sys c ([(0xf0, 0), (0x20, 0x20)] ++ [(0xa0, 0x20)])
  refine Sending.goto heip hexec hports ?_
  refine .silent (l := .irq13_1) rfl (by decide) rfl ?_
  change Sending sys _ ([(0xa0, 0x20)] ++ [])
  refine Sending.goto (l := .irq13_2) rfl rfl ?_ (coprocessor_error_sends sys rfl)
  exact congrArg (fun v : Byte => (0xa0, v) :: d.ports) hal

/-! ## What a vector's entry sends -/

/-- The labels that `trap_init` puts into gates. -/
def isEntry : Label → Bool
  | .stub _ => true
  | .irq13 => true
  | .coprocessor_error => true
  | .device_not_available => true
  | .parallel_interrupt => true
  | _ => false

theorem isEntry_of_gate {v : Nat} (h : gate v = some l) : isEntry l = true := by
  have hentries : ∀ q ∈ trap_init.reverse, isEntry q.2 = true := by decide
  obtain ⟨before, rest, hgates, -⟩ := List.lookup_eq_some_iff.mp h
  have hmem : (v, l) ∈ trap_init.reverse := by
    rw [hgates]
    exact List.mem_append_right _ (List.mem_cons_self ..)
  exact hentries _ hmem

/-- The interrupt's entry sends `ws`, whatever it interrupts. -/
def Sends (sys : System) (v : Nat) (ws : List (Byte × Byte)) : Prop :=
  ∀ l, gate v = some l → ∀ s, Sending sys (sys.interrupt s l none) ws

theorem sends_entrySends (sys : System) (v : Nat) :
    Sends sys v (((gate v).map entrySends).getD []) := by
  intro l hgate s
  have hentry := isEntry_of_gate hgate
  have heip := interrupt_eip sys s l none
  rw [hgate]
  cases l with
  | stub x => exact stub_sends sys heip
  | irq13 => exact irq13_sends sys heip
  | coprocessor_error => exact coprocessor_error_sends sys heip
  | device_not_available => exact device_not_available_sends sys heip
  | parallel_interrupt => exact parallel_interrupt_sends sys heip
  | _ => cases hentry

/-- Where control does leave the entry, only one thing can have been sent. -/
theorem Sends.unique {v : Nat} {ws ws' : List (Byte × Byte)} (h : Sends sys v ws)
    (h' : Sends sys v ws') (hgate : gate v = some l) {s : Cpu} {e : Exit}
    (hleaves : sys.Leaves (sys.interrupt s l none) e) : ws = ws' := by
  have hports := (h l hgate s e hleaves).symm.trans (h' l hgate s e hleaves)
  exact List.reverse_inj.mp (List.append_cancel_right hports)

theorem parallel_interrupt_leaves (sys : System) (s : Cpu) :
    ∃ e, sys.Leaves (sys.interrupt s .parallel_interrupt none) e :=
  ⟨_, .resumed (interrupt_eip sys s .parallel_interrupt none) rfl⟩

theorem irq13_leaves (sys : System) (s : Cpu) :
    ∃ e, sys.Leaves (sys.interrupt s .irq13 none) e := by
  have hframed : Cpu.Framed sys.stack s 0 [] (sys.interrupt s .irq13 none) :=
    s.framed_deliver sys.stack _ none (by decide)
  obtain ⟨c, heip, hstart, hleads⟩ :=
    irq13_leads sys (interrupt_eip sys s .irq13 none) hframed (by decide)
  obtain ⟨d, hleaves, -⟩ := coprocessor_error_leaves sys heip hstart (by decide)
  exact ⟨_, hleads _ hleaves⟩

theorem reserved_leaves (sys : System) (s : Cpu) :
    ∃ e, sys.Leaves (sys.interrupt s (.stub .reserved) none) e := by
  obtain ⟨e, hleaves, -⟩ := enters_no_error_code sys s (n := 0) (by decide) (x := .reserved) rfl
  exact ⟨_, hleaves⟩

/-- The vectors that the controllers can deliver with only the coprocessor's line open. -/
theorem Sends.irq (sys : System) {owes : Byte → List (Byte × Byte)}
    (howes : ∀ v, Sends sys v.toNat (owes v)) :
    owes 39 = [(0x20, 0x20)] ∧ owes 45 = [(0xf0, 0), (0x20, 0x20), (0xa0, 0x20)] ∧
      owes 47 = [] := by
  refine ⟨?_, ?_, ?_⟩
  · obtain ⟨e, hleaves⟩ := parallel_interrupt_leaves sys interruptedProgram
    exact (howes 39).unique (sends_entrySends sys 39) (by decide) hleaves
  · obtain ⟨e, hleaves⟩ := irq13_leaves sys interruptedProgram
    exact (howes 45).unique (sends_entrySends sys 45) (by decide) hleaves
  · obtain ⟨e, hleaves⟩ := reserved_leaves sys interruptedProgram
    exact (howes 47).unique (sends_entrySends sys 47) (by decide) hleaves

end MySystem
