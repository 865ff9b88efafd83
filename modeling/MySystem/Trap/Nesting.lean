import MySystem.Trap.Frame
import MySystem.Machine.Cdecl

/-!
# Exceptions are transparent

A handler that keeps the calling convention is entered by its stub, may itself
be interrupted by exceptions whose handlers may be interrupted in turn, and in
the end the interrupted program has all its registers back. Interruptions to
depth `d` are served by handlers with interruptions to depth `d - 1`; each of
them is undisturbing, by induction on the depth.
-/

namespace MySystem

open Machine

variable (sys : System) (own : Cpu → Cpu → Prop) (area : Area)

/-- An exception taken in `s` and served, to the `iret` that leads to `s'`. -/
structure Serves (inner : Cpu → Cpu → Prop) (v : Nat) (x : Exception) (code : Word)
    (s s' : Cpu) : Prop where
  gate : gate v = some (.stub x)
  handled : ∃ e r frame,
    sys.Leaves (sys.interrupt s (.stub x) (errorCode v code)) (.called none e) ∧
      Runs own inner e r ∧ Returned e r ∧ sys.Leaves r (.resumed frame s')

/-- The interruptions of a handler, nested to depth `d`: exceptions in the
kernel, taken while there is room on its stack. -/
def Nested : Nat → Cpu → Cpu → Prop
  | 0, _, _ => False
  | d + 1, s, s' =>
      Cpu.privilege s.cs = 0 ∧ area.Room 64 s ∧
        ∃ v x code, Serves sys own (Nested d) v x code s s'

variable {sys own area}

/-- The stack has room for what an interrupt in `s` pushes. -/
structure Accommodates (sys : System) (area : Area) (s : Cpu) (n : Nat) : Prop where
  room : 64 ≤ (s.base sys.stack - area.bottom).toNat
  size : (s.base sys.stack - area.bottom).toNat + n = area.size

/-- A handler stands below the saved registers and the frame. -/
theorem height_entered {s e : Cpu} {n : Nat} (hs : Accommodates sys area s n) {x : Exception}
    (h : Entered sys s n x e) :
    area.height e + 44 + 4 * s.frame.length = (s.base sys.stack - area.bottom).toNat := by
  have hlen := s.length_frame_le
  have hroom := hs.room
  have hesp : e.esp = s.base sys.stack - Word.of (44 + 4 * s.frame.length) := by
    have hframed : e.esp = s.frameAddress sys.stack - Word.of 44 := h.framed.esp
    rw [hframed, s.base_eq, ← Word.of_add_of]
    generalize Word.of (4 * s.frame.length) = above
    bv_omega
  have hof : (Word.of (44 + 4 * s.frame.length)).toNat = 44 + 4 * s.frame.length :=
    Word.toNat_of (by omega)
  rw [Area.height, hesp]
  rw [BitVec.toNat_sub] at hroom
  rw [BitVec.toNat_sub, BitVec.toNat_sub, BitVec.toNat_sub, hof]
  omega

/-- When a handler returns, the saved registers are still on the stack. -/
theorem handler_returns (hcdecl : ∀ x, area.Cdecl own (sys.sym.handler x)) {s e r : Cpu} {n : Nat}
    (hs : Accommodates sys area s n) {x : Exception} (h : Entered sys s n x e)
    (hruns : Runs own area.Undisturbed e r) (hreturned : Returned e r) :
    Cpu.Framed sys.stack s n (savedWords s.toContext (sys.savedSelectors s)) r := by
  have hheight := height_entered hs h
  have hroom := hs.room
  have hsize := hs.size
  have hlt := area.size_lt
  have hpreserves := hcdecl x e r h.eip ⟨Nat.zero_le _, by omega⟩ hruns hreturned
  have hdepth : area.depth e - 4 =
      n + 4 * s.frame.length + 4 * (savedWords s.toContext (sys.savedSelectors s)).length := by
    rw [Area.depth]
    change _ = n + 4 * s.frame.length + 4 * 10
    omega
  have hstack := hpreserves.stack
  rw [hdepth] at hstack
  refine h.framed.returned hreturned ?_ hstack
  change n + 4 * 10 + 20 ≤ 2 ^ 32
  omega

/-- One exception, whose handler is only interrupted by what gives everything back. -/
theorem Serves.undisturbed (hcdecl : ∀ x, area.Cdecl own (sys.sym.handler x))
    {inner : Cpu → Cpu → Prop} (hinner : ∀ c c', inner c c' → area.Undisturbed c c') {s s' : Cpu}
    {n v : Nat} (hs : Accommodates sys area s n) {x : Exception} {code : Word}
    (h : Serves sys own inner v x code s s') :
    s'.toContext = s.toContext ∧ Memory.Agree (s.base sys.stack) n s.mem s'.mem := by
  obtain ⟨hgate, e, r, frame, hleaves, hruns, hreturned, hresumes⟩ := h
  have hlt := area.size_lt
  have hroom := hs.room
  have hsize := hs.size
  obtain ⟨e', hleaves', hentered⟩ := stub_enters sys s (n := n) (by omega) hgate code
  cases hleaves.unique hleaves'
  have hframed := handler_returns hcdecl hs hentered (hruns.mono hinner) hreturned
  have heip : r.eip = sys.returnAddress x := hreturned.eip.trans hentered.framed.top_eq
  obtain ⟨s'', hresumes', hcontext, hmem⟩ := return_resumes sys heip (s.selectorsAt_of _) hframed
  cases hresumes.unique hresumes'
  refine ⟨hcontext, ?_⟩
  rw [hmem]
  exact hframed.agree

/-- Interruptions at any depth give back the registers and the stack. -/
theorem Nested.undisturbed (hcdecl : ∀ x, area.Cdecl own (sys.sym.handler x)) (d : Nat)
    {s s' : Cpu} (h : Nested sys own area d s s') : area.Undisturbed s s' := by
  induction d generalizing s s' with
  | zero => exact absurd h not_false
  | succ d ih =>
      obtain ⟨hlevel, hroom, v, x, code, hserves⟩ := h
      have hbase : s.base sys.stack = s.esp := by rw [Cpu.base, if_pos hlevel]
      have hs : Accommodates sys area s (area.depth s) := by
        rw [Area.depth]
        refine ⟨?_, ?_⟩
        · rw [hbase]
          exact hroom.free
        · rw [hbase]
          exact Nat.add_sub_cancel' hroom.height_le
      obtain ⟨hcontext, hstack⟩ := hserves.undisturbed hcdecl (fun c c' => ih) hs
      rw [hbase] at hstack
      exact ⟨hcontext, hstack⟩

/-- Every stub calls its handler, and when that returns, after interruptions of
any depth, the interrupted program resumes with all its registers, the stack
pointer among them. -/
theorem exception_transparent (sys : System) (own : Cpu → Cpu → Prop) (area : Area)
    (hcdecl : ∀ x, area.Cdecl own (sys.sym.handler x)) (s : Cpu)
    (hbase : s.base sys.stack = area.top) (hroom : 64 ≤ area.size) {v : Nat} {x : Exception}
    (hgate : gate v = some (.stub x)) (code : Word) :
    ∃ e, sys.Leaves (sys.interrupt s (.stub x) (errorCode v code)) (.called none e) ∧
      e.eip = sys.sym.handler x ∧
      ∀ d r, Runs own (Nested sys own area d) e r → Returned e r →
        ∃ s', sys.Leaves r (.resumed (s.frameAddress sys.stack) s') ∧
          s'.toContext = s.toContext := by
  have hlt := area.size_lt
  have hheight : (s.base sys.stack - area.bottom).toNat = area.size := by
    rw [hbase, Area.top, BitVec.add_comm, BitVec.add_sub_cancel, Word.toNat_of hlt]
  have hs : Accommodates sys area s 0 := ⟨hheight ▸ hroom, hheight⟩
  obtain ⟨e, hleaves, hentered⟩ := stub_enters sys s (n := 0) (by omega) hgate code
  refine ⟨e, hleaves, hentered.eip, fun d r hruns hreturned => ?_⟩
  have hframed := handler_returns hcdecl hs hentered
    (hruns.mono fun c c' => Nested.undisturbed hcdecl d) hreturned
  have heip : r.eip = sys.returnAddress x := hreturned.eip.trans hentered.framed.top_eq
  obtain ⟨s', hresumes, hcontext, -⟩ := return_resumes sys heip (s.selectorsAt_of _) hframed
  exact ⟨s', hresumes, hcontext⟩

/-! ## A kernel as linked -/

def labels : List Label :=
  [.stub .divide_error, .stub .debug, .stub .nmi, .stub .int3, .stub .overflow, .stub .bounds,
    .stub .invalid_op, .stub .double_fault, .stub .coprocessor_segment_overrun,
    .stub .invalid_TSS, .stub .segment_not_present, .stub .stack_segment,
    .stub .general_protection, .stub .reserved, .stub .alignment_check, .irq13, .irq13_1,
    .irq13_2, .no_error_code, .no_error_code_return, .error_code, .error_code_return,
    .bad_sys_call, .sys_call, .sys_call_return, .ret_from_sys_call, .ret_from_sys_call_3,
    .coprocessor_error, .device_not_available, .sys_execve, .sys_fork, .parallel_interrupt]

def linkAddress (l : Label) : Word := Word.of (0x10000 + 16 * labels.idxOf l)

/-- Every label in 16 bytes of its own, from 0x10000 on. -/
def linkLayout : Layout Label where
  addr := linkAddress
  label? w := labels.find? fun l => linkAddress l = w
  label_addr := by
    intro l
    cases l with
    | stub x => cases x <;> decide
    | _ => decide

/-- One address for all handlers, and the kernel's data further up. -/
def linkedKernel : System where
  layout := linkLayout
  sym :=
    { handler := fun _ => 0x20000
      NR_syscalls := 0x30000
      sys_call_table := 0x30004 }
  stack :=
    { esp0 := 0x90000
      ss0 := 0x10 }

/-- A function at `entry` that does nothing but return. -/
def returns (entry : Word) (c c' : Cpu) : Prop :=
  c.eip = entry ∧ c.top ≠ entry ∧ c' = { c.drop with eip := c.top }

/-- Such a function before and after its one step. -/
inductive Returning (area : Area) (entry : Word) (e c : Cpu) : Prop where
  | before (context : c.toContext = e.toContext)
      (stack : Memory.Agree e.esp (area.depth e) e.mem c.mem)
  | after (eip : c.eip ≠ entry)
      (context : c.toContext = { e.toContext with eip := c.eip, esp := e.esp + 4 })
      (stack : Memory.Agree (e.esp + 4) (area.depth e - 4) e.mem c.mem)

theorem depth_after (area : Area) {e c : Cpu} (h : c.esp = e.esp + 4) :
    area.depth e - 4 ≤ area.depth c := by
  have hlt := area.size_lt
  rw [Area.depth, Area.depth, Area.height, Area.height, h, BitVec.toNat_sub, BitVec.toNat_sub,
    BitVec.toNat_add]
  change area.size - _ - 4 ≤ area.size - (_ + (_ + 4) % _) % _
  omega

theorem Returning.undisturbed {area : Area} {entry : Word} {e c c' : Cpu}
    (h : Returning area entry e c) (hstep : area.Undisturbed c c') :
    Returning area entry e c' := by
  cases h with
  | before context stack =>
      have hesp : c.esp = e.esp := congrArg Context.esp context
      have hdepth : area.depth c = area.depth e := by rw [Area.depth, Area.height, hesp]; rfl
      have hstack := hstep.stack
      rw [hesp, hdepth] at hstack
      exact .before (hstep.context.trans context) (stack.trans hstack)
  | after eip context stack =>
      have hesp : c.esp = e.esp + 4 := congrArg Context.esp context
      have heip : c'.eip = c.eip := congrArg Context.eip hstep.context
      have hstack := hstep.stack
      rw [hesp] at hstack
      refine .after (heip ▸ eip) (by rw [hstep.context]; exact context) (stack.trans ?_)
      exact fun b hb => hstack b (Nat.lt_of_lt_of_le hb (depth_after area hesp))

theorem Returning.step {area : Area} {entry : Word} {e c c' : Cpu}
    (h : Returning area entry e c) (hstep : returns entry c c') : Returning area entry e c' := by
  obtain ⟨heip, htop, rfl⟩ := hstep
  cases h with
  | before context stack =>
      refine .after htop ?_ ?_
      · change { c.toContext with eip := c.top, esp := c.esp + 4 } = _
        rw [context]
      · intro b hb
        have habove := stack.above (k := 4) (by omega)
          (Nat.le_of_lt (Nat.lt_of_le_of_lt (Nat.sub_le ..) area.size_lt))
        exact habove b hb
  | after eip context stack => exact absurd heip eip

theorem cdecl_returns (area : Area) (entry : Word) : area.Cdecl (returns entry) entry := by
  intro e r heip hroom hruns hreturned
  have hreturning : Returning area entry e r := by
    clear hreturned
    induction hruns with
    | refl => exact .before rfl (Memory.Agree.refl _ _ _)
    | tail _ hstep ih =>
        obtain hown | hinner := hstep
        · exact ih.step hown
        · exact ih.undisturbed hinner
  cases hreturning with
  | before context stack =>
      have hesp : r.esp = e.esp := congrArg Context.esp context
      have habsurd : e.esp = e.esp + 4 := hesp.symm.trans hreturned.esp
      bv_omega
  | after _ context stack =>
      have hebx := congrArg Context.ebx context
      have hesi := congrArg Context.esi context
      have hedi := congrArg Context.edi context
      have hebp := congrArg Context.ebp context
      exact ⟨hebx, hesi, hedi, hebp, stack⟩

/-- A program interrupted with `eip` at 0x1234 and the stack pointer at 0x8000. -/
def interruptedProgram : Cpu where
  eax := 1
  ecx := 2
  edx := 3
  ebx := 4
  ebp := 5
  esi := 6
  edi := 7
  ds := 0x10
  es := 0x10
  fs := 0x17
  esp := 0x8000
  ss := 0x10
  eip := 0x1234
  cs := 8
  eflags := 0x202
  mem := ⟨fun _ => 0, []⟩
  ports := []

/-- A general protection fault in that program, on a stack of 4096 bytes. -/
theorem exception_transparent_fault :
    let sys := linkedKernel
    let area : Area := ⟨0x7000, 0x1000, by decide⟩
    ∃ e, sys.Leaves (sys.interrupt interruptedProgram (.stub .general_protection)
        (errorCode 13 0x18)) (.called none e) ∧
      e.eip = sys.sym.handler .general_protection ∧
      ∀ d r, Runs (returns 0x20000) (Nested sys (returns 0x20000) area d) e r → Returned e r →
        ∃ s', sys.Leaves r (.resumed (interruptedProgram.frameAddress sys.stack) s') ∧
          s'.toContext = interruptedProgram.toContext :=
  exception_transparent linkedKernel (returns 0x20000) ⟨0x7000, 0x1000, by decide⟩
    (fun _ => cdecl_returns _ _) interruptedProgram (by decide) (by decide) (by decide) 0x18

end MySystem
