import MySystem.Machine.Code

/-!
# The interrupt entries of the kernel

The text of `kernel/asm.asm` and `kernel/sys_call.asm`, label by label and in
the order of the files, and the gates that `trap_init` sets. A label of our own
stands behind each `call`, where the called function returns.
-/

namespace MySystem

open Machine

/-- The exceptions that get a stub from `interrupt_proc`. -/
inductive Exception where
  | divide_error
  | debug
  | nmi
  | int3
  | overflow
  | bounds
  | invalid_op
  | double_fault
  | coprocessor_segment_overrun
  | invalid_TSS
  | segment_not_present
  | stack_segment
  | general_protection
  | reserved
  | alignment_check
  deriving DecidableEq

inductive Label where
  /-- The stub `interrupt_proc` makes for an exception. -/
  | stub (x : Exception)
  | irq13
  | irq13_1
  | irq13_2
  | no_error_code
  | no_error_code_return
  | error_code
  | error_code_return
  | bad_sys_call
  | sys_call
  | sys_call_return
  | ret_from_sys_call
  | ret_from_sys_call_3
  | coprocessor_error
  | device_not_available
  | sys_execve
  | sys_fork
  | parallel_interrupt
  deriving DecidableEq

/-- The addresses of symbols the two files use but do not define. -/
structure Symbols where
  /-- `do_X` for the exception `X`. -/
  handler : Exception → Word
  NR_syscalls : Word
  sys_call_table : Word

def ENOSYS : Word := 38

def CS_OFF : Word := 0x24

def OLDSS_OFF : Word := 0x30

/-- The `jmp` after the use of `interrupt_proc` for an exception. -/
def prologue : Exception → Label
  | .divide_error => .no_error_code
  | .debug => .no_error_code
  | .nmi => .no_error_code
  | .int3 => .no_error_code
  | .overflow => .no_error_code
  | .bounds => .no_error_code
  | .invalid_op => .no_error_code
  | .double_fault => .error_code
  | .coprocessor_segment_overrun => .no_error_code
  | .invalid_TSS => .error_code
  | .segment_not_present => .error_code
  | .stack_segment => .error_code
  | .general_protection => .error_code
  | .reserved => .no_error_code
  | .alignment_check => .error_code

/-- The code behind each label. -/
def entryCode (sym : Symbols) : Label → List (Instr Label)
  | .stub x => [.pushImm (sym.handler x), .jmp (prologue x)]
  | .irq13 => [
      .push .eax,
      .xorAl,
      .outAl 0xf0,
      .movAl 0x20,
      .outAl 0x20,
      .jmp .irq13_1]
  | .irq13_1 => [.jmp .irq13_2]
  | .irq13_2 => [
      .outAl 0xa0,
      .pop .eax,
      .jmp .coprocessor_error]
  | .no_error_code => [
      .xchg 0 .eax,
      .push .ebx,
      .push .ecx,
      .push .edx,
      .push .edi,
      .push .esi,
      .push .ebp,
      .pushSeg .ds,
      .pushSeg .es,
      .pushSeg .fs,
      .lea .edx 44,
      .mov .edi .edx,
      .movImm .esi 0,
      .movLow .edx 0x10,
      .movSeg .ds .edx,
      .movSeg .es .edx,
      .movSeg .fs .edx,
      .mov .ebx .eax,
      .call .ebx]
  | .no_error_code_return => [
      .popSeg .fs,
      .popSeg .es,
      .popSeg .ds,
      .pop .ebp,
      .pop .esi,
      .pop .edi,
      .pop .edx,
      .pop .ecx,
      .pop .ebx,
      .pop .eax,
      .iret]
  | .error_code => [
      .xchg 4 .eax,
      .xchg 0 .ebx,
      .push .ecx,
      .push .edx,
      .push .edi,
      .push .esi,
      .push .ebp,
      .pushSeg .ds,
      .pushSeg .es,
      .pushSeg .fs,
      .mov .esi .eax,
      .lea .eax 44,
      .mov .edi .eax,
      .movLow .edx 0x10,
      .movSeg .ds .edx,
      .movSeg .es .edx,
      .movSeg .fs .edx,
      .call .ebx]
  | .error_code_return => [
      .popSeg .fs,
      .popSeg .es,
      .popSeg .ds,
      .pop .ebp,
      .pop .esi,
      .pop .edi,
      .pop .edx,
      .pop .ecx,
      .pop .ebx,
      .pop .eax,
      .iret]
  | .bad_sys_call => [
      .pushImm (-ENOSYS),
      .jmp .ret_from_sys_call]
  | .sys_call => [
      .pushSeg .ds,
      .pushSeg .es,
      .pushSeg .fs,
      .push .eax,
      .push .edx,
      .push .ecx,
      .push .ebx,
      .movImm .edx 0x10,
      .movSeg .ds .edx,
      .movSeg .es .edx,
      .movImm .edx 0x17,
      .movSeg .fs .edx,
      .cmp .eax sym.NR_syscalls,
      .jae .bad_sys_call,
      .callTable sym.sys_call_table .eax]
  | .sys_call_return => [.push .eax]
  | .ret_from_sys_call => [
      .cmpByte CS_OFF 0x0f,
      .jne .ret_from_sys_call_3,
      .cmpByte OLDSS_OFF 0x0f,
      .jne .ret_from_sys_call_3]
  | .ret_from_sys_call_3 => [
      .pop .eax,
      .pop .ebx,
      .pop .ecx,
      .pop .edx,
      .addEsp 4,
      .popSeg .fs,
      .popSeg .es,
      .popSeg .ds,
      .iret]
  | .coprocessor_error => [
      .pushSeg .ds,
      .pushSeg .es,
      .pushSeg .fs,
      .pushImm (-1),
      .push .edx,
      .push .ecx,
      .push .ebx,
      .push .eax,
      .movImm .edx 0x10,
      .movSeg .ds .edx,
      .movSeg .es .edx,
      .movImm .edx 0x17,
      .movSeg .fs .edx,
      .pushLabel .ret_from_sys_call]
  | .device_not_available => [
      .pushSeg .ds,
      .pushSeg .es,
      .pushSeg .fs,
      .pushImm (-1),
      .push .edx,
      .push .ecx,
      .push .ebx,
      .push .eax,
      .movImm .edx 0x10,
      .movSeg .ds .edx,
      .movSeg .es .edx,
      .movImm .edx 0x17,
      .movSeg .fs .edx,
      .pushLabel .ret_from_sys_call,
      .ret]
  | .sys_execve => [.ret]
  | .sys_fork => [.ret]
  | .parallel_interrupt => [
      .push .eax,
      .movAl 0x20,
      .outAl 0x20,
      .pop .eax,
      .iret]

/-- The label that follows, for code that can run past its end. -/
def entryNext : Label → Label
  | .no_error_code => .no_error_code_return
  | .error_code => .error_code_return
  | .sys_call => .sys_call_return
  | .sys_call_return => .ret_from_sys_call
  | .ret_from_sys_call => .ret_from_sys_call_3
  | .coprocessor_error => .device_not_available
  | l => l

def entries (sym : Symbols) : Program Label where
  code := entryCode sym
  next := entryNext

/-! ## The gates -/

/-- The gates `trap_init` sets, in its order. -/
def trap_init : List (Nat × Label) :=
  [(0, .stub .divide_error),
    (1, .stub .debug),
    (2, .stub .nmi),
    (3, .stub .int3),
    (4, .stub .overflow),
    (5, .stub .bounds),
    (6, .stub .invalid_op),
    (7, .device_not_available),
    (8, .stub .double_fault),
    (9, .stub .coprocessor_segment_overrun),
    (10, .stub .invalid_TSS),
    (11, .stub .segment_not_present),
    (12, .stub .stack_segment),
    (13, .stub .general_protection),
    (15, .stub .reserved),
    (16, .coprocessor_error),
    (17, .stub .alignment_check)] ++
  (List.range' 18 30).map (fun i => (i, .stub .reserved)) ++
  [(45, .irq13),
    (39, .parallel_interrupt)]

/-- The entry a vector leads to: the last one its gate was set to. -/
def gate (v : Nat) : Option Label := trap_init.reverse.lookup v

/-- The vectors for which the processor pushes an error code. -/
def pushesErrorCode (v : Nat) : Bool := [8, 10, 11, 12, 13, 14, 17].contains v

/-- The code of an exception on its vector. -/
def errorCode (v : Nat) (code : Word) : Option Word :=
  if pushesErrorCode v then some code else none

/-- The label a stub has to go on at for what the processor pushes. -/
def prologueFor (v : Nat) : Label := if pushesErrorCode v then .error_code else .no_error_code

/-- A gate that leads to a stub leads on to the prologue for its vector. -/
def routed : Nat × Label → Bool
  | (v, .stub x) => prologue x = prologueFor v
  | _ => true

/-- Every stub is routed to the prologue for what the processor pushes on its vectors. -/
theorem prologue_of_gate {v : Nat} {x : Exception} (h : gate v = some (.stub x)) :
    prologue x = prologueFor v := by
  have hrouted : ∀ q ∈ trap_init.reverse, routed q = true := by decide
  obtain ⟨before, rest, hgates, -⟩ := List.lookup_eq_some_iff.mp h
  have hmem : (v, Label.stub x) ∈ trap_init.reverse := by
    rw [hgates]
    exact List.mem_append_right _ (List.mem_cons_self ..)
  exact of_decide_eq_true (hrouted _ hmem)

end MySystem
