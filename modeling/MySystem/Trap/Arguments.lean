import MySystem.Trap.Nesting

/-!
# What the handlers receive

The prologues put the address of the slot of `cs`, right above the interrupted
`eip`, in `edi` and the error code in `esi`, but a function compiled for the
i386 takes its parameters from the stack. There it finds the saved registers,
from `fs` on.
-/

namespace MySystem

open Machine

/-- The parameters of `do_X`, as its prototype declares them. -/
def declaredParameters (sys : System) (s : Cpu) (x : Exception) (code : Word) : List Word :=
  [s.frameAddress sys.stack, code] ++
    if x = .int3 then
      [Cpu.selector s.fs, Cpu.selector s.es, Cpu.selector s.ds, s.ebp, s.esi, s.edi, s.edx, s.ecx,
        s.ebx, s.eax]
    else []

/-- A function entered in `e` takes `ws` for its parameters. -/
def Receives (e : Cpu) (ws : List Word) : Prop := e.mem.Holds (e.esp + 4) ws

/-- The condition on the interrupted registers, and on what is in memory above the
slots that hold the selectors, under which the words on the stack are by chance
those declared. -/
structure Coincide (sys : System) (s : Cpu) (x : Exception) (code : Word) : Prop where
  esp : (sys.savedSelectors s).fs = s.frameAddress sys.stack
  error_code : (sys.savedSelectors s).es = code
  registers : x = .int3 →
    [(sys.savedSelectors s).ds, s.ebp, s.esi, s.edi, s.edx, s.ecx, s.ebx, s.eax, s.eip,
      Cpu.selector s.cs] =
    [Cpu.selector s.fs, Cpu.selector s.es, Cpu.selector s.ds, s.ebp, s.esi, s.edi, s.edx, s.ecx,
      s.ebx, s.eax]

/-- Words that stand at one address are the same as far as both reach. -/
theorem holds_prefix_iff {m : Memory} {a : Word} {ws vs : List Word} (h : m.Holds a ws)
    (hlen : vs.length ≤ ws.length) : m.Holds a vs ↔ vs <+: ws := by
  induction vs generalizing a ws with
  | nil => exact ⟨fun _ => List.nil_prefix, fun _ => trivial⟩
  | cons v vs ih =>
      cases ws with
      | nil => exact absurd hlen (Nat.not_succ_le_zero _)
      | cons w ws =>
          rw [List.cons_prefix_cons, Memory.Holds, ih h.2 (Nat.le_of_succ_le_succ hlen), h.1]
          exact and_congr_left fun _ => eq_comm

/-- A handler finds the saved registers and the frame above its return address. -/
theorem handler_receives (sys : System) (s : Cpu) {v : Nat} {x : Exception}
    (hgate : gate v = some (.stub x)) (code : Word) :
    ∃ e, sys.Leaves (sys.interrupt s (.stub x) (errorCode v code)) (.called none e) ∧
      Receives e (savedWords s.toContext (sys.savedSelectors s) ++ s.frame) := by
  obtain ⟨e, hleaves, hentered⟩ := stub_enters sys s (n := 0) (by decide) hgate code
  exact ⟨e, hleaves, hentered.framed.stack.2⟩

theorem declaredParameters_prefix_iff (sys : System) (s : Cpu) (x : Exception) (code : Word) :
    declaredParameters sys s x code <+: savedWords s.toContext (sys.savedSelectors s) ++ s.frame ↔
      Coincide sys s x code := by
  rw [declaredParameters]
  by_cases hx : x = .int3
  · simp only [if_pos hx, savedWords, Cpu.frame, List.cons_append, List.nil_append,
      List.cons_prefix_cons, List.nil_prefix, and_true]
    constructor
    · rintro ⟨hesp, hcode, hregisters⟩
      refine ⟨hesp.symm, hcode.symm, fun _ => ?_⟩
      simp only [hregisters]
    · rintro ⟨hesp, hcode, hregisters⟩
      refine ⟨hesp.symm, hcode.symm, ?_⟩
      simpa [eq_comm] using hregisters hx
  · simp only [if_neg hx, savedWords, List.cons_append, List.nil_append, List.cons_prefix_cons,
      List.nil_prefix, and_true]
    constructor
    · rintro ⟨hesp, hcode⟩
      exact ⟨hesp.symm, hcode.symm, fun h => absurd h hx⟩
    · rintro ⟨hesp, hcode, -⟩
      exact ⟨hesp.symm, hcode.symm⟩

theorem length_declaredParameters_le (sys : System) (s : Cpu) (x : Exception) (code : Word) :
    (declaredParameters sys s x code).length ≤
      (savedWords s.toContext (sys.savedSelectors s) ++ s.frame).length := by
  have hdeclared : (declaredParameters sys s x code).length ≤ 12 := by
    rw [declaredParameters]
    split <;> simp
  refine Nat.le_trans hdeclared ?_
  rw [List.length_append, Cpu.frame, List.length_append]
  change 12 ≤ 10 + (3 + _)
  omega

/-- A handler receives what its prototype declares exactly when the interrupted
state happens to be so. -/
theorem handler_parameters_iff (sys : System) (s : Cpu) {v : Nat} {x : Exception}
    (hgate : gate v = some (.stub x)) (code : Word) :
    (∃ e, sys.Leaves (sys.interrupt s (.stub x) (errorCode v code)) (.called none e) ∧
      Receives e (declaredParameters sys s x ((errorCode v code).getD 0))) ↔
    Coincide sys s x ((errorCode v code).getD 0) := by
  obtain ⟨e, hleaves, hreceives⟩ := handler_receives sys s hgate code
  have hiff := (holds_prefix_iff hreceives (length_declaredParameters_le sys s x _)).trans
    (declaredParameters_prefix_iff sys s x ((errorCode v code).getD 0))
  constructor
  · rintro ⟨e', hleaves', hdeclared⟩
    cases hleaves'.unique hleaves
    exact hiff.mp hdeclared
  · exact fun hcoincide => ⟨e, hleaves, hiff.mpr hcoincide⟩

/-- For a general protection fault with error code 0x18. -/
theorem handler_parameters_iff_fault :
    (∃ e, linkedKernel.Leaves
        (linkedKernel.interrupt interruptedProgram (.stub .general_protection)
          (errorCode 13 0x18)) (.called none e) ∧
      Receives e (declaredParameters linkedKernel interruptedProgram .general_protection
        ((errorCode 13 0x18).getD 0))) ↔
    Coincide linkedKernel interruptedProgram .general_protection ((errorCode 13 0x18).getD 0) :=
  handler_parameters_iff linkedKernel interruptedProgram (by decide) 0x18

/-- There the handler receives `fs` and `es`, not the frame and the code. -/
theorem handler_parameters_fault :
    ¬ ∃ e, linkedKernel.Leaves
        (linkedKernel.interrupt interruptedProgram (.stub .general_protection)
          (errorCode 13 0x18)) (.called none e) ∧
      Receives e (declaredParameters linkedKernel interruptedProgram .general_protection 0x18) := by
  rintro ⟨e, hleaves, hdeclared⟩
  have hgate : gate 13 = some (.stub .general_protection) := by decide
  obtain ⟨e', hleaves', hreceives⟩ :=
    handler_receives linkedKernel interruptedProgram hgate 0x18
  cases hleaves.unique hleaves'
  have hfs : (linkedKernel.savedSelectors interruptedProgram).fs =
      interruptedProgram.frameAddress linkedKernel.stack :=
    hreceives.1.symm.trans hdeclared.1
  revert hfs
  decide

end MySystem
