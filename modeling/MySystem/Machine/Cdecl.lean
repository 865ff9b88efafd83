import MySystem.Machine.Cpu
import Mathlib.Logic.Relation

/-!
# Interruptible C functions

What entry code may assume of a C function it calls. The function's own steps
are any relation; between them the processor may be interrupted, as long as an
interruption gives back every register and the stack (`Area.Undisturbed`). The
calling convention is a contract of such runs (`Area.Cdecl`): when control is
back at the return address, the callee-saved registers and the stack above that
address are as they were at the call.
-/

namespace Machine

/-- Control is back at the return address of a function entered in `e`. -/
structure Returned (e r : Cpu) : Prop where
  eip : r.eip = e.top
  cs : r.cs = e.cs
  ss : r.ss = e.ss
  esp : r.esp = e.esp + 4

/-- What the calling convention asks of a function entered in `e`: the callee-saved
registers, and the `n` bytes above its return address. -/
structure Preserves (n : Nat) (e r : Cpu) : Prop where
  ebx : r.ebx = e.ebx
  esi : r.esi = e.esi
  edi : r.edi = e.edi
  ebp : r.ebp = e.ebp
  stack : Memory.Agree (e.esp + 4) n e.mem r.mem

/-- Steps of `own`, interrupted by steps of `inner`. -/
def Runs (own inner : Cpu → Cpu → Prop) : Cpu → Cpu → Prop :=
  Relation.ReflTransGen fun c c' => own c c' ∨ inner c c'

theorem Runs.mono {own inner inner' : Cpu → Cpu → Prop} (h : ∀ c c', inner c c' → inner' c c')
    {e r : Cpu} (hruns : Runs own inner e r) : Runs own inner' e r :=
  Relation.ReflTransGen.mono (fun c c' => Or.imp_right (h c c')) e r hruns

/-- After its return, the words over the frame of an interrupt are still there. -/
theorem Cpu.Framed.returned {k : Cpu.KernelStack} {s e r : Cpu} {n : Nat} {ret : Word}
    {ws : List Word} (h : Cpu.Framed k s n (ret :: ws) e) (hreturned : Returned e r)
    (hn : n + 4 * ws.length + 20 ≤ 2 ^ 32)
    (hstack : Memory.Agree (e.esp + 4) (n + 4 * s.frame.length + 4 * ws.length) e.mem r.mem) :
    Cpu.Framed k s n ws r := by
  have hlen := s.length_frame_le
  have hdrop := h.drop
  have hesp : r.esp = e.drop.esp := hreturned.esp
  refine ⟨hreturned.cs.trans h.cs, fun hlevel => hreturned.ss.trans (h.ss hlevel),
    hesp.trans hdrop.esp, ?_, h.agree.trans (hdrop.agree_base hn hstack)⟩
  rw [Cpu.Stack, hesp]
  exact hdrop.stack.congr hstack (by rw [List.length_append]; omega) (by omega)

/-- A stack growing down to `bottom`, of `size` bytes. -/
structure Area where
  bottom : Word
  size : Nat
  size_lt : size < 2 ^ 32

namespace Area

variable (area : Area)

/-- Where the stack begins. -/
def top : Word := area.bottom + Word.of area.size

/-- How far above the bottom the stack pointer stands. -/
def height (c : Cpu) : Nat := (c.esp - area.bottom).toNat

/-- The bytes in use. -/
def depth (c : Cpu) : Nat := area.size - area.height c

/-- The stack pointer is on the stack, with `n` bytes free. -/
structure Room (n : Nat) (c : Cpu) : Prop where
  free : n ≤ area.height c
  height_le : area.height c ≤ area.size

/-- An interruption that gives back the registers and the stack. -/
structure Undisturbed (c c' : Cpu) : Prop where
  context : c'.toContext = c.toContext
  stack : Memory.Agree c.esp (area.depth c) c.mem c'.mem

/-- The function at `entry`, with its own steps in `own`, follows the convention. -/
def Cdecl (own : Cpu → Cpu → Prop) (entry : Word) : Prop :=
  ∀ e r, e.eip = entry → area.Room 0 e → Runs own area.Undisturbed e r → Returned e r →
    Preserves (area.depth e - 4) e r

end Area

end Machine
