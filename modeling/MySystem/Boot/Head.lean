import MySystem.Machine.Processor

/-!
# The start of the kernel

The text of `boot/head.asm`, label by label and in the order of the file. It is
linked at address 0, so that `pg_dir`, the page directory, overlays `_start` and
the page tables follow it. A label of our own stands behind each `call`, and
behind the code that falls into a loop.
-/

namespace MySystem

open Machine

inductive HeadLabel where
  /-- Also `pg_dir`. -/
  | _start
  | _start_1
  | _start_2
  | test_a20
  | setup_gdt
  | setup_idt
  | setup_idt_1
  | install_idt
  | make_gate_descriptor
  | ignore_int
  | after_page_tables
  | L6
  | setup_paging
  /-- The local label `.1` of `setup_paging`. -/
  | setup_paging_1
  deriving DecidableEq

/-- The addresses of data the code names, and of `main`. -/
structure HeadSymbols where
  idt : Word
  pidt : Word
  pgdt : Word
  int_msg : Word
  stack_start : Word
  main : Word

def pg_dir : Word := 0
def pg0 : Word := 0x1000
def pg1 : Word := 0x2000
def pg2 : Word := 0x3000
def pg3 : Word := 0x4000

/-- The code behind each label. -/
def headCode (sym : HeadSymbols) : HeadLabel → List (Op HeadLabel)
  | ._start => [
      .movLow .eax 0x10,
      .movSeg .ds .eax,
      .movSeg .es .eax,
      .movSeg .fs .eax,
      .lss sym.stack_start,
      .call .setup_gdt]
  | ._start_1 => [.call .setup_idt]
  | ._start_2 => [
      .movLow .eax 0x10,
      .movSeg .ds .eax,
      .movSeg .es .eax,
      .movSeg .fs .eax,
      .lss sym.stack_start,
      .xor .eax .eax]
  | .test_a20 => [
      .inc .eax,
      .storeAt 0x100000 .eax,
      .cmpAt 0 .eax,
      .je .test_a20,
      .jmp .after_page_tables]
  | .setup_gdt => [
      .lgdt sym.pgdt,
      .ret]
  | .setup_idt => [
      .movLabel .eax .ignore_int,
      .movLow .ebx 0x0008,
      .movLow .ecx 0x8e00,
      .call .make_gate_descriptor]
  | .setup_idt_1 => [
      .movImm .ecx 256,
      .movImm .edi sym.idt]
  | .install_idt => [
      .store .edi 0 .eax,
      .store .edi 4 .edx,
      .addImm .edi 8,
      .dec .ecx,
      .jne .install_idt,
      .lidt sym.pidt,
      .ret]
  | .make_gate_descriptor => [
      .push .ebx,
      .push .ecx,
      .mov .edx .eax,
      .andImm .edx 0xffff0000,
      .orLow .edx .ecx,
      .andImm .eax 0x0000ffff,
      .shl .ebx 16,
      .or .eax .ebx,
      .pop .ecx,
      .pop .ebx,
      .ret]
  | .ignore_int => [
      .push .eax,
      .push .ecx,
      .push .edx,
      .pushSeg .ds,
      .pushSeg .es,
      .pushSeg .fs,
      .movImm .eax 0x0010,
      .movSeg .ds .eax,
      .movSeg .es .eax,
      .movSeg .fs .eax,
      .pushImm sym.int_msg,
      .pop .eax,
      .pushSeg .fs,
      .pushSeg .es,
      .pushSeg .ds,
      .push .edx,
      .push .ecx,
      .push .eax,
      .iret]
  | .after_page_tables => [
      .pushImm 0,
      .pushImm 0,
      .pushImm 0,
      .pushLabel .L6,
      .pushImm sym.main,
      .jmp .setup_paging]
  | .L6 => [.jmp .L6]
  | .setup_paging => [
      .movImm .ecx (1024 * 5),
      .xor .eax .eax,
      .movImm .edi pg_dir,
      .cld,
      .repStosb,
      .storeImm pg_dir (pg0 + 7),
      .storeImm (pg_dir + 4) (pg1 + 7),
      .storeImm (pg_dir + 8) (pg2 + 7),
      .storeImm (pg_dir + 12) (pg3 + 7),
      .movImm .edi (pg3 + 4092),
      .movImm .eax 0xfff007,
      .std]
  | .setup_paging_1 => [
      .stosd,
      .subImm .eax 0x1000,
      .jge .setup_paging_1,
      .movImm .eax pg_dir,
      .movToCr3 .eax,
      .movFromCr0 .eax,
      .orImm .eax 0x80000000,
      .movToCr0 .eax,
      .ret]

/-- The label that follows, for code that can run past its end or into a call. -/
def headNext : HeadLabel → HeadLabel
  | ._start => ._start_1
  | ._start_1 => ._start_2
  | ._start_2 => .test_a20
  | .setup_idt => .setup_idt_1
  | .setup_idt_1 => .install_idt
  | .setup_paging => .setup_paging_1
  | l => l

def head (sym : HeadSymbols) : Routines HeadLabel where
  code := headCode sym
  next := headNext

/-! ## A layout -/

/-- Addresses for the labels; the page tables take up `0x1000` to `0x5000`. -/
def headAddr : HeadLabel → Nat
  | ._start => 0
  | ._start_1 => 24
  | ._start_2 => 29
  | .test_a20 => 50
  | .setup_gdt => 69
  | .setup_idt => 77
  | .setup_idt_1 => 95
  | .install_idt => 105
  | .make_gate_descriptor => 124
  | .ignore_int => 0x5400
  | .after_page_tables => 0x5420
  | .L6 => 0x5432
  | .setup_paging => 0x5434
  | .setup_paging_1 => 0x5476

def headLabels : List HeadLabel :=
  [._start, ._start_1, ._start_2, .test_a20, .setup_gdt, .setup_idt, .setup_idt_1, .install_idt,
    .make_gate_descriptor, .ignore_int, .after_page_tables, .L6, .setup_paging, .setup_paging_1]

def headLayout : Layout HeadLabel where
  addr l := Word.of (headAddr l)
  label? w := headLabels.find? fun l => Word.of (headAddr l) = w
  label_addr l := by cases l <;> decide

end MySystem
