import MySystem.Boot.Start
import MySystem.Console.Assembly
import MySystem.Lib.Strlen
import MySystem.Trap.Nesting

/-!
# The direction flag in C code

The whole kernel as a transition system: the start, the C functions and the
assembly they run, user programs, and interrupts that enter a C function and
return. Every crossing into C code is recorded with the direction flag. C code
itself is compiled code, which may do anything but change that flag.

The first crossing is into `main`, behind the `std` of `setup_paging`.
-/

namespace MySystem

open Machine

/-! ## Entry code keeps the flag -/

section

variable {L : Type} {p : Program L} {lay : Layout L}

theorem direction_instr (c : Cpu) (i : Instr L) :
    (Program.step lay c i).direction = c.direction := by
  cases i
  case xorAl => exact Cpu.direction_setStatus ..
  case addEsp v => exact Cpu.direction_setStatus ..
  case cmp r v => exact Cpu.direction_setStatus ..
  case cmpByte disp v => exact Cpu.direction_setStatus ..
  case pop r => exact Cpu.direction_setReg ..
  case popSeg s => exact Cpu.direction_setSeg ..
  case mov r r' => exact Cpu.direction_setReg ..
  case movImm r v => exact Cpu.direction_setReg ..
  case movLow r v => exact Cpu.direction_setReg ..
  case movSeg s r => exact Cpu.direction_setSeg ..
  case xchg disp r => exact Cpu.direction_setReg ..
  case lea r disp => exact Cpu.direction_setReg ..
  all_goals rfl

/-- Left other than by an `iret`, with the direction flag `d`. -/
def KeepsDirection (d : Bool) : Exit → Prop
  | .goto c => c.direction = d
  | .called _ c => c.direction = d
  | .resumed _ _ => True

theorem direction_exec (l : L) (is : List (Instr L)) (c : Cpu) :
    KeepsDirection c.direction (p.exec lay l is c) := by
  induction is generalizing c with
  | nil => rfl
  | cons i is ih =>
      have hnext : KeepsDirection c.direction (p.exec lay l is (Program.step lay c i)) := by
        rw [← direction_instr c i]
        exact ih _
      cases i
      case jmp l' => rfl
      case jae l' =>
        rw [Program.exec]
        split
        · exact ih c
        · rfl
      case jne l' =>
        rw [Program.exec]
        split
        · exact ih c
        · rfl
      case call r => rfl
      case callTable table r => rfl
      case ret => rfl
      case iret => trivial
      all_goals exact hnext

theorem direction_leaves {c : Cpu} {e : Exit} (h : p.Leaves lay c e) :
    KeepsDirection c.direction e := by
  obtain ⟨n, hrun⟩ := h
  induction n generalizing c with
  | zero => cases hrun
  | succ n ih =>
      rw [Program.run] at hrun
      cases hl : lay.label? c.eip with
      | none =>
          rw [hl] at hrun
          cases hrun
      | some l =>
          rw [hl] at hrun
          dsimp only at hrun
          have hexec : KeepsDirection c.direction (p.exec lay l (p.code l) c) :=
            direction_exec l (p.code l) c
          cases he : p.exec lay l (p.code l) c with
          | goto d =>
              rw [he] at hrun hexec
              rw [← show d.direction = c.direction from hexec]
              exact ih hrun
          | called slot d =>
              rw [he] at hrun hexec
              cases hrun
              exact hexec
          | resumed frame d =>
              rw [he] at hrun
              cases hrun
              trivial

/-- An interrupt is taken with the flag of the interrupted program. -/
theorem direction_deliver (c : Cpu) (k : Cpu.KernelStack) (entry : Word) (code : Option Word) :
    (c.deliver k entry code).direction = c.direction := by
  have hflags := congrArg Context.eflags (c.deliver_context k entry code)
  rw [Cpu.direction, hflags]
  simp only [Cpu.trapFlags, Cpu.getLsbD_withBit _ _ (show 10 < 32 by decide)]
  rfl

end

/-- So a C function called from an interrupt entry has it too. -/
theorem direction_called (sys : System) {c e : Cpu} {l : Label} {code : Option Word}
    {slot : Option Word} (h : sys.Leaves (sys.interrupt c l code) (.called slot e)) :
    e.direction = c.direction :=
  (direction_leaves h).trans (direction_deliver c _ _ code)

/-! ## The kernel -/

/-- The linked kernel: addresses, and the kernel's stack. -/
structure Image where
  head : HeadSymbols
  start : Layout HeadLabel
  strings : Layout StringLabel
  sys : System
  video_num_columns : Word

/-- The assembly C functions run: the statements of `scrup` and `scrdown`, the
routine of `lib/string.asm`, and statements without effect on the flag. -/
inductive Assembly where
  | scrup_move
  | scrup_clear
  | scrdown_move
  | strlen
  | cli
  | sti
  | quiet (is : List (Op StringLabel)) (h : ∀ i ∈ is, i.direction = none)

/-- Where control crosses into C code. -/
inductive Crossing where
  | main
  | handler
  | system_call
  | back (a : Assembly)

/-- Where control is. -/
inductive Control where
  /-- In `boot/head.asm`. -/
  | start
  /-- In a C function. -/
  | function
  /-- In assembly run by a C function, with `is` left of it. -/
  | assembly (a : Assembly) (is : List (Op StringLabel))
  | user

/-- A state of the kernel. The newest of the interrupted activities and of the
crossings stand first. -/
structure State where
  control : Control
  cpu : Processor
  interrupted : List Control
  crossings : List (Crossing × Bool)

namespace Image

variable (img : Image)

def code : Assembly → List (Op StringLabel)
  | .scrup_move => scrupMove img.video_num_columns
  | .scrup_clear => scrupClear
  | .scrdown_move => scrdownMove img.video_num_columns
  | .strlen => strlenCode
  | .cli => [.cli]
  | .sti => [.sti]
  | .quiet is _ => is

/-- The processor at `_start`. -/
def begin (c : Processor) : State where
  control := .start
  cpu := Routines.enter img.start c ._start
  interrupted := []
  crossings := []

/-- One step. -/
inductive Step : State → State → Prop where
  | start {c d : Processor} {ks xs} (h : (MySystem.head img.head).Stretch img.start c d) :
      Step ⟨.start, c, ks, xs⟩ ⟨.start, d, ks, xs⟩
  | main {c : Processor} {ks xs} (h : c.eip = img.head.main) :
      Step ⟨.start, c, ks, xs⟩ ⟨.function, c, ks, (.main, c.direction) :: xs⟩
  /-- Compiled code, which may do anything else. -/
  | compute {c d : Processor} {ks xs} (h : d.direction = c.direction) :
      Step ⟨.function, c, ks, xs⟩ ⟨.function, d, ks, xs⟩
  | assemble {c : Processor} {ks xs} (a : Assembly) :
      Step ⟨.function, c, ks, xs⟩ ⟨.assembly a (img.code a), c, ks, xs⟩
  | instruction {c : Processor} {ks xs a i is} (h : i ≠ .ret) :
      Step ⟨.assembly a (i :: is), c, ks, xs⟩
        ⟨.assembly a is, i.step img.strings.addr c, ks, xs⟩
  | ret {c : Processor} {ks xs a is} :
      Step ⟨.assembly a (.ret :: is), c, ks, xs⟩
        ⟨.function, { c.drop with eip := c.top }, ks, (.back a, c.direction) :: xs⟩
  | back {c : Processor} {ks xs a} :
      Step ⟨.assembly a [], c, ks, xs⟩ ⟨.function, c, ks, (.back a, c.direction) :: xs⟩
  /-- An exception or a system call whose entry calls a C function. -/
  | interrupt {k c ks xs l code slot e} (hk : k ≠ .start)
      (h : img.sys.Leaves (img.sys.interrupt c.toCpu l code) (.called slot e)) :
      Step ⟨k, c, ks, xs⟩
        ⟨.function, { c with toCpu := e }, k :: ks,
          (if slot.isSome then .system_call else .handler, e.direction) :: xs⟩
  /-- One whose entry returns by itself, or that `ignore_int` answers. -/
  | pass {k c ks xs l code frame e} (hk : k ≠ .start)
      (h : img.sys.Leaves (img.sys.interrupt c.toCpu l code) (.resumed frame e)) :
      Step ⟨k, c, ks, xs⟩ ⟨k, { c with toCpu := e }, ks, xs⟩
  | ignore {k c ks xs v code frame d} (hk : k ≠ .start)
      (h : (MySystem.head img.head).Resumes img.start (c.interrupt img.sys.stack v code) frame d) :
      Step ⟨k, c, ks, xs⟩ ⟨k, d, ks, xs⟩
  | resume {k c ks xs frame e} (h : img.sys.Leaves c.toCpu (.resumed frame e)) :
      Step ⟨.function, c, k :: ks, xs⟩ ⟨k, { c with toCpu := e }, ks, xs⟩
  | move_to_user_mode {c d : Processor} {ks xs} :
      Step ⟨.function, c, ks, xs⟩ ⟨.user, d, ks, xs⟩
  | user {c d : Processor} {ks xs} : Step ⟨.user, c, ks, xs⟩ ⟨.user, d, ks, xs⟩

def Run : State → State → Prop := Relation.ReflTransGen img.Step

variable {img}

/-! ## What is recorded -/

/-- A step records at most one crossing, with the flag control has after it. -/
theorem Step.recorded {s t : State} (h : img.Step s t) :
    t.crossings = s.crossings ∨ ∃ x, t.crossings = (x, t.cpu.direction) :: s.crossings := by
  cases h
  case main => exact .inr ⟨_, rfl⟩
  case ret => exact .inr ⟨_, rfl⟩
  case back => exact .inr ⟨_, rfl⟩
  case interrupt => exact .inr ⟨_, rfl⟩
  all_goals exact .inl rfl

/-- A handler or a system call is entered with the flag of the interrupted program. -/
theorem Step.interrupted {s t : State} (h : img.Step s t)
    (hk : t.interrupted = s.control :: s.interrupted) : t.cpu.direction = s.cpu.direction := by
  cases h
  case interrupt h => exact direction_called img.sys h
  case resume =>
    have hlen := congrArg List.length hk
    simp only [List.length_cons] at hlen
    omega
  all_goals exact absurd (congrArg List.length hk) (by simp)

/-- A statement or routine hands back the flag of its last `cld` or `std`. -/
theorem assembly_returns (img : Image) (a : Assembly) (hret : Op.ret ∉ img.code a) (c : Processor)
    (ks : List Control) (xs : List (Crossing × Bool)) :
    img.Run ⟨.function, c, ks, xs⟩
      ⟨.function, Op.run img.strings.addr (img.code a) c, ks,
        (.back a, (((img.code a).filterMap Op.direction).getLast?.getD c.direction)) :: xs⟩ := by
  have hruns : ∀ (is : List (Op StringLabel)) (c : Processor), Op.ret ∉ is →
      img.Run ⟨.assembly a is, c, ks, xs⟩
        ⟨.assembly a [], Op.run img.strings.addr is c, ks, xs⟩ := by
    intro is
    induction is with
    | nil => exact fun c _ => .refl
    | cons i is ih =>
        intro c hret
        rw [List.mem_cons, not_or] at hret
        exact .head (.instruction (Ne.symm hret.1)) (ih _ hret.2)
  rw [← Op.direction_run img.strings.addr]
  exact .head (.assemble a) ((hruns _ c hret).tail .back)

/-! ## Runs -/

/-- Control is still in the start, or it has crossed into `main` with the flag set. -/
def Started (img : Image) (c : Processor) (s : State) : Prop :=
  (s.control = .start ∧ s.crossings = [] ∧
    (MySystem.head img.head).Runs img.start (Routines.enter img.start c ._start) s.cpu) ∨
  (.main, true) ∈ s.crossings

theorem Step.started {c : Processor} (hlinked : Linked img.head img.start c.mem) {s t : State}
    (hs : img.Started c s) (h : img.Step s t) : img.Started c t := by
  rcases hs with ⟨hcontrol, hnone, hruns⟩ | hmain
  · cases h
    case start h => exact .inl ⟨rfl, hnone, hruns.tail h⟩
    case main h =>
      refine .inr ?_
      rw [direction_at_main hlinked hruns h]
      exact List.mem_cons_self
    case interrupt hk h => exact absurd hcontrol hk
    case pass hk h => exact absurd hcontrol hk
    case ignore hk h => exact absurd hcontrol hk
    all_goals cases hcontrol
  · rcases h.recorded with hsame | ⟨x, hmore⟩
    · exact .inr (hsame ▸ hmain)
    · refine .inr ?_
      rw [hmore]
      exact List.mem_cons_of_mem _ hmain

theorem Run.started {c : Processor} (hlinked : Linked img.head img.start c.mem) {s : State}
    (h : img.Run (img.begin c) s) : img.Started c s := by
  induction h with
  | refl => exact .inl ⟨rfl, rfl, .refl⟩
  | tail _ hstep ih => exact hstep.started hlinked ih

/-- The start does end in `main`. -/
theorem main_crossed {c : Processor} (hlinked : Linked img.head img.start c.mem) :
    ∃ d, img.Run (img.begin c) ⟨.function, d, [], [(.main, true)]⟩ := by
  obtain ⟨d, hruns, heip, hdirection⟩ := _start_reaches_main hlinked
  have hstart : img.Run (img.begin c) ⟨.start, d, [], []⟩ :=
    hruns.lift (fun d => (⟨.start, d, [], []⟩ : State)) fun _ _ h => Step.start h
  refine ⟨d, hstart.tail ?_⟩
  rw [← hdirection]
  exact .main heip

/-- The direction flag is clear at every crossing of a run exactly if the run has
not yet crossed into C code, and every kernel does cross. -/
theorem direction_clear_iff {c : Processor} (hlinked : Linked img.head img.start c.mem) :
    (∀ s, img.Run (img.begin c) s →
      ((∀ x ∈ s.crossings, x.2 = false) ↔ s.crossings = [])) ∧
    ∃ s, img.Run (img.begin c) s ∧ s.crossings ≠ [] := by
  constructor
  · intro s hrun
    constructor
    · intro hclear
      rcases Run.started hlinked hrun with ⟨-, hnone, -⟩ | hmain
      · exact hnone
      · exact absurd (hclear _ hmain) (by simp)
    · intro hnone x hx
      rw [hnone] at hx
      cases hx
  · obtain ⟨d, hrun⟩ := main_crossed hlinked
    exact ⟨_, hrun, List.cons_ne_nil _ _⟩

end Image

/-! ## A kernel that starts -/

def startImage : Image where
  head := headSymbols
  start := headLayout
  strings := stringLayout
  sys := linkedKernel
  video_num_columns := 0x6700

/-- The processor with the image in memory; the stack ends at 0x8000. -/
def startProcessor : Processor :=
  { interruptible 8 0x10 with
    mem := ⟨fun a => if a = 0x7001 then 0x80 else 0, []⟩ }

theorem startImage_linked :
    Linked startImage.head startImage.start startProcessor.mem where
  idt := by decide
  stack_start := by decide
  stack := by decide
  stack_idt := by decide
  stack_start_idt := by decide
  stack_start_stack := by decide
  main l := by cases l <;> decide

theorem direction_clear_iff_start :
    (∀ s, startImage.Run (startImage.begin startProcessor) s →
      ((∀ x ∈ s.crossings, x.2 = false) ↔ s.crossings = [])) ∧
    ∃ s, startImage.Run (startImage.begin startProcessor) s ∧ s.crossings ≠ [] :=
  Image.direction_clear_iff startImage_linked

theorem direction_set_in_main :
    ¬ ∀ s, startImage.Run (startImage.begin startProcessor) s →
      ∀ x ∈ s.crossings, x.2 = false := by
  intro hclear
  obtain ⟨d, hrun⟩ := Image.main_crossed startImage_linked
  exact absurd (hclear _ hrun _ List.mem_cons_self) (by simp)

end MySystem
