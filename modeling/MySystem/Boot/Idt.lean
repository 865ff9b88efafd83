import MySystem.Boot.Head
import MySystem.Machine.Gate
import MySystem.Trap.Entry

/-!
# The interrupt descriptor table and its default handler

`setup_idt` fills the table with 256 gates to `ignore_int`. The handler pushes
six registers, pushes them once more instead of popping them, and executes its
`iret` from there: it resumes at the message it meant to print.
-/

namespace MySystem

open Machine

variable (sym : HeadSymbols) (lay : Layout HeadLabel)

/-- The gate `setup_idt` puts into every place. -/
def ignoreGate (lay : Layout HeadLabel) : Gate where
  offset := lay.addr .ignore_int
  selector := 8
  attributes := 0x8e00

/-! ## The descriptor -/

/-- The high word, in `edx`. -/
theorem make_gate_descriptor_high (c : Processor) :
    ∃ d : Processor,
      (head sym).exec lay .make_gate_descriptor (headCode sym .make_gate_descriptor) c =
        (head sym).exec lay .make_gate_descriptor
          ((headCode sym .make_gate_descriptor).drop 5) d ∧
      d.reg .edx = (Word.high (c.reg .eax) ++ Word.low (c.reg .ecx) : Word) ∧
      d.reg .eax = c.reg .eax ∧ d.reg .ebx = c.reg .ebx ∧
      d.direction = c.direction ∧ d.esp = c.esp - 4 - 4 ∧
      d.mem = (c.mem.store32 (c.esp - 4) (c.reg .ebx)).store32 (c.esp - 4 - 4) (c.reg .ecx) := by
  have hhigh : (c.reg .eax &&& 0xffff0000).extractLsb' 16 16 = Word.high (c.reg .eax) := by
    rw [Word.and_high]
    exact Word.high_append _ _
  refine ⟨_, rfl, ?_, ?_, ?_, ?_, ?_, ?_⟩
  all_goals simp [Op.step]
  exact congrArg (· ++ _) hhigh

/-- The low word, in `eax`. -/
theorem make_gate_descriptor_low (c : Processor) :
    ∃ d : Processor,
      (head sym).exec lay .make_gate_descriptor
          ((headCode sym .make_gate_descriptor).drop 5) c =
        (head sym).exec lay .make_gate_descriptor
          ((headCode sym .make_gate_descriptor).drop 8) d ∧
      d.reg .eax = (Word.low (c.reg .ebx) ++ Word.low (c.reg .eax) : Word) ∧
      d.reg .edx = c.reg .edx ∧ d.direction = c.direction ∧ d.esp = c.esp ∧ d.mem = c.mem := by
  have hor : (c.reg .eax &&& 0x0000ffff) ||| (c.reg .ebx <<< (16 : Nat)) =
      (Word.low (c.reg .ebx) ++ Word.low (c.reg .eax) : Word) := by
    have hselector : (0 : Half) ||| Word.low (c.reg .ebx) = Word.low (c.reg .ebx) :=
      BitVec.zero_or
    have hoffset : Word.low (c.reg .eax) ||| (0 : Half) = Word.low (c.reg .eax) := BitVec.or_zero
    rw [Word.and_low, Word.shiftLeft_sixteen]
    refine BitVec.or_append.trans ?_
    rw [hselector, hoffset]
  refine ⟨_, rfl, ?_, ?_, ?_, ?_, ?_⟩
  all_goals simp [Op.step]
  exact hor

/-- The descriptor put together in `edx:eax`, and the way back to the caller. -/
theorem make_gate_descriptor_exec (c : Processor) :
    ∃ r, (head sym).exec lay .make_gate_descriptor (headCode sym .make_gate_descriptor) c =
        .goto r ∧
      r.reg .eax = (Word.low (c.reg .ebx) ++ Word.low (c.reg .eax) : Word) ∧
      r.reg .edx = (Word.high (c.reg .eax) ++ Word.low (c.reg .ecx) : Word) ∧
      r.direction = c.direction ∧ r.esp = c.esp + 4 ∧ r.eip = c.top ∧
      r.mem = (c.mem.store32 (c.esp - 4) (c.reg .ebx)).store32 (c.esp - 4 - 4) (c.reg .ecx) := by
  obtain ⟨d, hhigh, hdx, hax, hbx, hdirection, hesp, hmem⟩ := make_gate_descriptor_high sym lay c
  obtain ⟨e, hlow, hax', hdx', hdirection', hesp', hmem'⟩ := make_gate_descriptor_low sym lay d
  rw [hesp] at hesp'
  rw [hmem] at hmem'
  refine ⟨_, hhigh.trans (hlow.trans rfl), ?_, hdx'.trans hdx, ?_, ?_, ?_, hmem'⟩
  · rw [← hax, ← hbx]
    exact hax'
  · exact hdirection'.trans hdirection
  · change e.esp + 4 + 4 + 4 = c.esp + 4
    rw [hesp', BitVec.sub_add_cancel, BitVec.sub_add_cancel]
  · change e.mem.load32 (e.esp + 4 + 4) = c.mem.load32 c.esp
    rw [hesp', hmem', BitVec.sub_add_cancel, BitVec.sub_add_cancel,
      Memory.load32_store32_of_le _ _ (by bv_omega) (by bv_omega),
      Memory.load32_store32_of_le _ _ (by bv_omega) (by bv_omega)]

/-! ## The table -/

variable {lay}

/-- Before the turn of the loop that leaves `n` gates, the next one at `base`. -/
structure Installing (lay : Layout HeadLabel) (n base : Nat) (c : Processor) : Prop where
  eip : c.eip = lay.addr .install_idt
  ecx : c.ecx = Word.of (n + 1)
  edi : c.edi = Word.of base
  eax : c.eax = (ignoreGate lay).lowWord
  edx : c.edx = (ignoreGate lay).highWord

/-- The state in which a turn decides whether to go on. -/
theorem installing_turn {n base : Nat} {c : Processor} (h : Installing lay n base c) :
    ∃ e : Processor,
      (head sym).exec lay .install_idt (headCode sym .install_idt) c =
        (head sym).exec lay .install_idt ((headCode sym .install_idt).drop 4) e ∧
      e.zero = decide (Word.of (n + 1) = 1) ∧ e.ecx = Word.of n ∧ e.edi = Word.of (base + 8) ∧
      e.eax = c.eax ∧ e.edx = c.edx ∧ e.esp = c.esp ∧ e.direction = c.direction ∧
      e.mem = (c.mem.store32 (Word.of base) (ignoreGate lay).lowWord).store32 (Word.of (base + 4))
        (ignoreGate lay).highWord := by
  refine ⟨_, rfl, ?_, ?_, ?_, rfl, rfl, rfl, ?_, ?_⟩
  case refine_1 =>
    rw [← h.ecx]
    exact Cpu.zero_setStatus _ _
  case refine_2 =>
    have hless : Word.of (n + 1) - 1 = Word.of n := by
      rw [← Word.of_add_of]
      exact BitVec.add_sub_cancel _ _
    rw [← hless, ← h.ecx]
    rfl
  case refine_3 =>
    rw [← Word.of_add_of, ← h.edi]
    rfl
  case refine_4 =>
    simp [Op.step]
  case refine_5 =>
    rw [← Word.of_add_of, ← h.edi, ← h.eax, ← h.edx]
    simp [Op.step]
    rfl

/-- A turn that is not the last. -/
theorem installing_next {n base : Nat} (hn : n + 1 < 2 ^ 32 - 1) {c : Processor}
    (h : Installing lay (n + 1) base c) :
    ∃ d, (head sym).Stretch lay c d ∧ Installing lay n (base + 8) d ∧ d.esp = c.esp ∧
      d.direction = c.direction ∧
      d.mem = (c.mem.store32 (Word.of base) (ignoreGate lay).lowWord).store32 (Word.of (base + 4))
        (ignoreGate lay).highWord := by
  obtain ⟨e, hexec, hzero, hecx, hedi, heax, hedx, hesp, hdirection, hmem⟩ := installing_turn sym h
  have hleft : e.zero = false := by
    rw [hzero]
    exact decide_eq_false fun heq => by
      have hone : n + 1 + 1 = 1 := (Word.of_inj (by omega) (by decide)).mp heq
      omega
  have hjump : (head sym).exec lay .install_idt ((headCode sym .install_idt).drop 4) e =
      .goto (Routines.enter lay e .install_idt) := if_neg (ne_true_of_eq_false hleft)
  exact ⟨_, ⟨.install_idt, h.eip, hexec.trans hjump⟩,
    ⟨rfl, hecx, hedi, heax.trans h.eax, hedx.trans h.edx⟩, hesp, hdirection, hmem⟩

/-- The last turn, and what follows the loop. -/
theorem installing_last {base : Nat} {c : Processor} (h : Installing lay 0 base c) :
    ∃ d, (head sym).Stretch lay c d ∧ d.direction = c.direction ∧
      d.mem = (c.mem.store32 (Word.of base) (ignoreGate lay).lowWord).store32 (Word.of (base + 4))
        (ignoreGate lay).highWord ∧
      d.idtr.limit = d.mem.load16 sym.pidt ∧ d.idtr.base = d.mem.load32 (sym.pidt + 2) ∧
      d.esp = c.esp + 4 ∧ d.eip = d.mem.load32 c.esp := by
  obtain ⟨e, hexec, hzero, -, -, -, -, hesp, hdirection, hmem⟩ := installing_turn sym h
  have hfall : (head sym).exec lay .install_idt ((headCode sym .install_idt).drop 4) e =
      (head sym).exec lay .install_idt ((headCode sym .install_idt).drop 5) e := if_pos hzero
  rw [← hesp, ← hdirection, ← hmem]
  exact ⟨_, ⟨.install_idt, h.eip, (hexec.trans hfall).trans rfl⟩, rfl, rfl, rfl, rfl, rfl, rfl⟩

/-- The whole loop. -/
theorem installing_run {n base : Nat} (hn : n < 2 ^ 32 - 1) {c : Processor}
    (h : Installing lay n base c) :
    ∃ d, (head sym).Runs lay c d ∧ d.direction = c.direction ∧
      d.mem = Memory.fillGates (ignoreGate lay).lowWord (ignoreGate lay).highWord (n + 1) base
        c.mem ∧
      d.idtr.limit = d.mem.load16 sym.pidt ∧ d.idtr.base = d.mem.load32 (sym.pidt + 2) ∧
      d.esp = c.esp + 4 ∧ d.eip = d.mem.load32 c.esp := by
  induction n generalizing base c with
  | zero =>
      obtain ⟨d, hstretch, hrest⟩ := installing_last sym h
      exact ⟨d, .single hstretch, hrest⟩
  | succ n ih =>
      obtain ⟨e, hstretch, hinstalling, hesp, hdirection, hmem⟩ := installing_next sym hn h
      obtain ⟨d, hruns, hdirection', hmem', hlimit, hbase, hesp', heip⟩ :=
        ih (Nat.lt_of_succ_lt hn) hinstalling
      rw [hmem] at hmem'
      rw [hesp] at hesp' heip
      exact ⟨d, .head hstretch hruns, hdirection'.trans hdirection, hmem', hlimit, hbase, hesp',
        heip⟩

/-! ## The whole of `setup_idt` -/

variable (lay)

/-- Up to the call: the parts of the descriptor are in the registers. -/
theorem setup_idt_exec (c : Processor) :
    ∃ d : Processor, (head sym).exec lay .setup_idt (headCode sym .setup_idt) c = .goto d ∧
      d.eip = lay.addr .make_gate_descriptor ∧ d.reg .eax = lay.addr .ignore_int ∧
      Word.low (d.reg .ebx) = 8 ∧ Word.low (d.reg .ecx) = 0x8e00 ∧
      d.direction = c.direction ∧ d.esp = c.esp - 4 ∧
      d.mem = c.mem.store32 (c.esp - 4) (lay.addr .setup_idt_1) := by
  refine ⟨_, rfl, rfl, rfl, ?_, ?_, rfl, rfl, rfl⟩
  · exact Word.low_append _ _
  · exact Word.low_append _ _

/-- From the return of `make_gate_descriptor` to the loop. -/
theorem setup_idt_1_exec {c : Processor} (heax : c.reg .eax = (ignoreGate lay).lowWord)
    (hedx : c.reg .edx = (ignoreGate lay).highWord) :
    ∃ d : Processor, (head sym).exec lay .setup_idt_1 (headCode sym .setup_idt_1) c = .goto d ∧
      Installing lay 255 sym.idt.toNat d ∧ d.direction = c.direction ∧ d.esp = c.esp ∧
      d.mem = c.mem :=
  ⟨_, rfl, ⟨rfl, rfl, (Word.of_toNat sym.idt).symm, heax, hedx⟩, rfl, rfl, rfl⟩

/-- The words of the gate are ready when the loop begins. Up to there three words
are pushed, first the address behind the call. -/
theorem setup_idt_descriptor (c : Processor) :
    ∃ d : Processor, (head sym).Runs lay (Routines.enter lay c .setup_idt) d ∧
      Installing lay 255 sym.idt.toNat d ∧ d.direction = c.direction ∧ d.esp = c.esp ∧
      ∃ ebx ecx, d.mem = (c.pushes [lay.addr .setup_idt_1, ebx, ecx]).mem := by
  obtain ⟨d, hexec, heip, heax, hebx, hecx, hdirection, hesp, hmem⟩ :=
    setup_idt_exec sym lay (Routines.enter lay c .setup_idt)
  obtain ⟨r, hr, heax', hedx', hdirection', hesp', heip', hmem'⟩ :=
    make_gate_descriptor_exec sym lay d
  rw [hebx, heax] at heax'
  rw [hecx, heax] at hedx'
  obtain ⟨e, he, hinstalling, hdirection'', hesp'', hmem''⟩ := setup_idt_1_exec sym lay heax' hedx'
  have htop : d.top = lay.addr .setup_idt_1 := by
    rw [Cpu.top, hmem, hesp]
    exact Memory.load32_store32_same ..
  have hcall : (head sym).Stretch lay (Routines.enter lay c .setup_idt) d :=
    ⟨.setup_idt, rfl, hexec⟩
  have hback : (head sym).Stretch lay d r := ⟨.make_gate_descriptor, heip, hr⟩
  have hloop : (head sym).Stretch lay r e := ⟨.setup_idt_1, heip'.trans htop, he⟩
  refine ⟨e, .head hcall (.head hback (.single hloop)), hinstalling,
    hdirection''.trans (hdirection'.trans hdirection), ?_, d.reg .ebx, d.reg .ecx, ?_⟩
  · rw [hesp'', hesp', hesp]
    exact BitVec.sub_add_cancel ..
  · rw [hmem'', hmem', hmem, hesp]
    rfl

/-- `setup_idt` puts the gate into all 256 places, loads IDTR from `pidt`, and
returns to the address it finds on the stack. -/
theorem setup_idt_runs (hroom : sym.idt.toNat + 2048 ≤ 2 ^ 32) (c : Processor) :
    ∃ r, (head sym).Runs lay (Routines.enter lay c .setup_idt) r ∧ r.direction = c.direction ∧
      (∀ v, v < 256 → r.mem.gate (sym.idt + Word.of (8 * v)) = ignoreGate lay) ∧
      r.idtr.limit = r.mem.load16 sym.pidt ∧ r.idtr.base = r.mem.load32 (sym.pidt + 2) ∧
      r.esp = c.esp + 4 ∧ r.eip = r.mem.load32 c.esp ∧
      ∃ ebx ecx, Memory.Writes sym.idt.toNat (sym.idt.toNat + 2048)
        (c.pushes [lay.addr .setup_idt_1, ebx, ecx]).mem r.mem := by
  obtain ⟨d, hruns, hinstalling, hdirection, hesp, ebx, ecx, hpushes⟩ :=
    setup_idt_descriptor sym lay c
  obtain ⟨r, hruns', hdirection', hmem, hlimit, hbase, hesp', heip⟩ :=
    installing_run sym (by decide) hinstalling
  rw [hesp] at hesp' heip
  refine ⟨r, hruns.trans hruns', hdirection'.trans hdirection, ?_, hlimit, hbase, hesp', heip,
    ebx, ecx, ?_⟩
  · intro v hv
    have hfilled := Memory.fillGates_entry (ignoreGate lay).lowWord (ignoreGate lay).highWord d.mem
      (n := 256) hroom hv
    have haddr : sym.idt + Word.of (8 * v) = Word.of (sym.idt.toNat + 8 * v) := by
      rw [← Word.of_add_of, Word.of_toNat]
    have hnext : sym.idt + Word.of (8 * v) + 4 = Word.of (sym.idt.toNat + 8 * v + 4) := by
      rw [haddr]
      exact Word.of_add_of _ 4
    apply Memory.gate_eq
    · rw [hmem, haddr]
      exact hfilled.1
    · rw [hmem, hnext]
      exact hfilled.2
  · rw [hmem, ← hpushes]
    exact Memory.fillGates_writes _ _ d.mem (Nat.le_refl _) (by omega) hroom

/-! ## The handler -/

variable (k : Cpu.KernelStack)

/-- Six registers are saved. -/
theorem ignore_int_saves (c : Processor) :
    ∃ (d : Processor) (w : Cpu.Selectors),
      (head sym).exec lay .ignore_int (headCode sym .ignore_int) c =
        (head sym).exec lay .ignore_int ((headCode sym .ignore_int).drop 6) d ∧
      d.toCpu = c.toCpu.pushes [c.reg .eax, c.reg .ecx, c.reg .edx, w.ds, w.es, w.fs] := by
  obtain ⟨d, hregisters, hd⟩ : ∃ d : Processor,
      (head sym).exec lay .ignore_int (headCode sym .ignore_int) c =
        (head sym).exec lay .ignore_int ((headCode sym .ignore_int).drop 3) d ∧
      d.toCpu = c.toCpu.pushes [c.reg .eax, c.reg .ecx, c.reg .edx] := by
    refine ⟨_, rfl, ?_⟩
    simp [Op.step, Cpu.pushes]
  let w := d.selectorsAt (d.esp - 4)
  have hsegments : (((d.pushSeg .ds).pushSeg .es).pushSeg .fs).toCpu =
      d.toCpu.pushes [w.ds, w.es, w.fs] := d.toCpu.pushSegs_eq .ds .es .fs
  refine ⟨((d.pushSeg .ds).pushSeg .es).pushSeg .fs, w, hregisters.trans rfl, ?_⟩
  rw [hsegments, hd]
  exact (c.toCpu.pushes_append [c.reg .eax, c.reg .ecx, c.reg .edx] [w.ds, w.es, w.fs]).symm

/-- The segments of the kernel are loaded. -/
theorem ignore_int_segments (c : Processor) :
    ∃ d : Processor,
      (head sym).exec lay .ignore_int ((headCode sym .ignore_int).drop 6) c =
        (head sym).exec lay .ignore_int ((headCode sym .ignore_int).drop 10) d ∧
      d.toContext =
        { c.toContext with
          eax := 0x10
          ds := 0x10
          es := 0x10
          fs := 0x10 } ∧
      d.mem = c.mem ∧ d.wideSelectors = c.wideSelectors :=
  ⟨_, rfl, rfl, rfl, rfl⟩

/-- The message is named. -/
theorem ignore_int_message (c : Processor) :
    ∃ d : Processor,
      (head sym).exec lay .ignore_int ((headCode sym .ignore_int).drop 10) c =
        (head sym).exec lay .ignore_int ((headCode sym .ignore_int).drop 12) d ∧
      d.toContext = { c.toContext with eax := sym.int_msg } ∧
      d.mem = (c.push sym.int_msg).mem ∧ d.wideSelectors = c.wideSelectors := by
  have hmessage : (c.push sym.int_msg).top = sym.int_msg := Memory.load32_store32_same ..
  have hback : (c.push sym.int_msg).esp + 4 = c.esp := BitVec.sub_add_cancel ..
  refine ⟨(c.push sym.int_msg).drop.setReg .eax (c.push sym.int_msg).top, rfl, ?_, rfl, rfl⟩
  rw [hmessage]
  show { c.toContext with
    eax := sym.int_msg
    esp := (c.push sym.int_msg).esp + 4 } = _
  rw [hback]

/-- The same registers are pushed again, and the `iret` takes the last three of
them for its frame, and to an outer level the next two for its stack. -/
theorem ignore_int_returns {c : Processor} (hlevel : Cpu.privilege c.cs = 0) :
    ∃ frame r,
      (head sym).exec lay .ignore_int ((headCode sym .ignore_int).drop 12) c =
        .resumed frame r ∧
      r.toContext =
        { c.toContext with
          eip := c.reg .eax
          cs := (c.reg .ecx).setWidth 16
          eflags := c.reg .edx
          esp := if Cpu.privilege ((c.reg .ecx).setWidth 16) = 0 then c.esp - Word.of 12
            else c.selectorAt (c.esp - Word.of 12) (c.seg .ds)
          ss := if Cpu.privilege ((c.reg .ecx).setWidth 16) = 0 then c.ss else c.seg .es } := by
  let selectors : List Word := [c.selectorAt (c.esp - 4) (c.seg .fs),
    c.selectorAt (c.esp - 4 - 4) (c.seg .es), c.selectorAt (c.esp - 4 - 4 - 4) (c.seg .ds)]
  let words : List Word := selectors ++ [c.reg .edx, c.reg .ecx, c.reg .eax]
  obtain ⟨frame, r, hexec, hr⟩ : ∃ frame r,
      (head sym).exec lay .ignore_int ((headCode sym .ignore_int).drop 12) c =
        .resumed frame r ∧ r.toCpu = (c.toCpu.pushes words).iret := by
    let d := ((c.pushSeg .fs).pushSeg .es).pushSeg .ds
    have hexec : (head sym).exec lay .ignore_int ((headCode sym .ignore_int).drop 12) c =
        (head sym).exec lay .ignore_int ((headCode sym .ignore_int).drop 15) d := rfl
    have hd : d.toCpu = c.toCpu.pushes selectors := c.toCpu.pushSegs_eq .fs .es .ds
    have hwords : c.toCpu.pushes words = d.toCpu.pushes [c.reg .edx, c.reg .ecx, c.reg .eax] := by
      rw [hd]
      exact c.toCpu.pushes_append _ _
    have hreg : ∀ r, c.reg r = d.reg r := fun r => hd ▸ (c.toCpu.pushes_reg selectors r).symm
    rw [hexec, hwords, hreg, hreg, hreg]
    generalize d = d
    refine ⟨_, _, rfl, ?_⟩
    simp [Op.step, Cpu.pushes]
  refine ⟨frame, r, hexec, ?_⟩
  have hempty : c.toCpu.Stack [] := trivial
  have hstack := hempty.pushes words (by simp [words, selectors])
  have hcontext := c.toCpu.pushes_context words
  have hesp := c.toCpu.pushes_esp words
  rw [hr]
  generalize c.toCpu.pushes words = d at hstack hcontext hesp ⊢
  have hlevel' : Cpu.privilege d.cs = 0 := by
    rw [hcontext]
    exact hlevel
  have hback : d.esp + 4 + 4 + 4 = c.esp - Word.of 12 := by
    rw [hesp]
    simp only [words, selectors, List.cons_append, List.nil_append, List.length_cons,
      List.length_nil, Word.of]
    grind
  have hslot : c.esp - 4 - 4 - 4 = c.esp - Word.of 12 := by
    rw [BitVec.sub_sub, BitVec.sub_sub]
    rfl
  rw [Cpu.iret_context hstack hlevel', hback, Cpu.setWidth_selectorAt, hcontext, hslot]

/-- Where `ignore_int` goes, entered on the kernel's code segment. -/
theorem ignore_int_exec {c : Processor} (hcs : c.cs = 8) :
    ∃ frame r,
      (head sym).exec lay .ignore_int (headCode sym .ignore_int) c = .resumed frame r ∧
      r.toContext =
        { c.toContext with
          eip := sym.int_msg
          cs := c.ecx.setWidth 16
          eflags := c.edx
          eax := sym.int_msg
          ds := 0x10
          es := 0x10
          fs := 0x10
          esp := if Cpu.privilege (c.ecx.setWidth 16) = 0 then c.esp - Word.of 36
            else c.selectorAt (c.esp - Word.of 36) 0x10
          ss := if Cpu.privilege (c.ecx.setWidth 16) = 0 then c.ss else 0x10 } := by
  obtain ⟨d, w, hsaves, hd⟩ := ignore_int_saves sym lay c
  obtain ⟨e, hsegments, he, hemem, hewide⟩ := ignore_int_segments sym lay d
  obtain ⟨f, hmessage, hf, hfmem, hfwide⟩ := ignore_int_message sym lay e
  have hesp : e.esp = c.esp - Word.of 24 := by
    rw [he, hd, Cpu.pushes_esp]
    rfl
  have hcontext : f.toContext =
      { c.toContext with
        eax := sym.int_msg
        ds := 0x10
        es := 0x10
        fs := 0x10
        esp := c.esp - Word.of 24 } := by
    rw [hf, he, hd, Cpu.pushes_context, Cpu.pushes_esp]
    rfl
  have hlevel : Cpu.privilege f.cs = 0 := by
    rw [hcontext]
    show Cpu.privilege c.cs = 0
    rw [hcs]
    decide
  have hback : c.esp - Word.of 24 - Word.of 12 = c.esp - Word.of 36 := BitVec.sub_sub ..
  -- the last selector goes to a slot that nothing has been pushed to
  have hslot : f.selectorAt (c.esp - Word.of 36) 0x10 = c.selectorAt (c.esp - Word.of 36) 0x10 := by
    have hstart : Cpu.Below c.mem 40 c.toCpu := fun _ _ _ => rfl
    have hpushed : Cpu.Below c.mem 16 d.toCpu := hd ▸ hstart.pushes (by simp)
    have hloaded : Cpu.Below c.mem 16 e.toCpu := hpushed.congr (by rw [he]) hemem
    have hnamed : Cpu.Below c.mem 12 (e.toCpu.push sym.int_msg) := hloaded.push (by decide) _
    have hwide : e.wideSelectors = c.wideSelectors := by
      rw [hewide, hd]
      exact Cpu.pushes_wideSelectors ..
    have hroom : ((e.toCpu.push sym.int_msg).esp - (c.esp - Word.of 36)).toNat = 8 := by
      rw [Cpu.esp_push, hesp]
      bv_omega
    rw [← hnamed.selectorAt hwide (by omega) (by omega), Cpu.selectorAt, Cpu.selectorAt, hfmem,
      hfwide]
    rfl
  obtain ⟨frame, r, hreturns, hr⟩ := ignore_int_returns sym lay hlevel
  refine ⟨frame, r, hsaves.trans (hsegments.trans (hmessage.trans hreturns)), ?_⟩
  rw [hr]
  simp only [Cpu.reg, Cpu.seg, hcontext, hback, hslot]

/-! ## Harmless interrupts -/

variable {lay}

/-- The state of a processor that takes an interrupt through the gate. -/
theorem interrupt_context {c : Processor} {v : Nat} (hgate : c.vectorGate v = ignoreGate lay) :
    (c.interrupt k v none).toContext =
      { c.toContext with
        esp := c.frameAddress k
        ss := (c.onStack k).ss
        eip := lay.addr .ignore_int
        cs := 8
        eflags := Cpu.withBit (Cpu.trapFlags c.eflags) 9 false } := by
  have hmask : (ignoreGate lay).attributes.getLsbD 8 = false := by
    show (0x8e00 : Half).getLsbD 8 = false
    decide
  have hcontext := c.toCpu.deliver_context k (lay.addr .ignore_int) none
  rw [Cpu.deliver_esp] at hcontext
  rw [Processor.interrupt, hgate, if_neg (ne_true_of_eq_false hmask)]
  show { (c.toCpu.deliver k (lay.addr .ignore_int) none).toContext with
    cs := 8
    eflags := Cpu.withBit (c.toCpu.deliver k (lay.addr .ignore_int) none).eflags 9 false } = _
  rw [hcontext]

/-- Nothing is stored under the frame. -/
theorem interrupt_selectorAt {c : Processor} {v : Nat} (hgate : c.vectorGate v = ignoreGate lay) :
    (c.interrupt k v none).selectorAt (c.frameAddress k - Word.of 36) 0x10 =
      c.selectorAt (c.frameAddress k - Word.of 36) 0x10 := by
  have hmask : (ignoreGate lay).attributes.getLsbD 8 = false := by
    show (0x8e00 : Half).getLsbD 8 = false
    decide
  have hbelow : Cpu.Below c.mem 36 (c.toCpu.deliver k (lay.addr .ignore_int) none) :=
    c.toCpu.deliver_below k (lay.addr .ignore_int) none (by decide)
  have hwide := c.toCpu.deliver_wideSelectors k (lay.addr .ignore_int) none
  have hesp := c.toCpu.deliver_esp k (lay.addr .ignore_int)
  rw [Processor.interrupt, hgate, if_neg (ne_true_of_eq_false hmask)]
  exact hbelow.selectorAt hwide (by rw [hesp]; bv_omega) (by rw [hesp]; bv_omega) 0x10

/-- A program that `ignore_int` happens to leave as it was: outside the kernel,
on the kernel's data segments, at the message and with it in `eax`, and with the
stack pointer that the last push of `ds` amounts to. -/
structure Spared (sym : HeadSymbols) (k : Cpu.KernelStack) (c : Cpu) : Prop where
  level : Cpu.privilege c.cs ≠ 0
  eip : c.eip = sym.int_msg
  cs : c.cs = c.ecx.setWidth 16
  eflags : c.eflags = c.edx
  eax : c.eax = sym.int_msg
  ds : c.ds = 0x10
  es : c.es = 0x10
  fs : c.fs = 0x10
  esp : c.esp = c.selectorAt (c.frameAddress k - Word.of 36) 0x10
  ss : c.ss = 0x10

/-- No processor is in that state: the privilege of its stack segment is its own. -/
theorem Spared.stack_level {c : Cpu} (h : Spared sym k c) :
    Cpu.privilege c.ss ≠ Cpu.privilege c.cs := by
  have hkernel : Cpu.privilege 0x10 = 0 := by decide
  rw [h.ss, hkernel]
  exact h.level.symm

/-- What `ignore_int` changes is as it was. -/
theorem Spared.same {c : Cpu} (h : Spared sym k c) :
    { c.toContext with
      eip := sym.int_msg
      cs := c.ecx.setWidth 16
      eflags := c.edx
      eax := sym.int_msg
      ds := 0x10
      es := 0x10
      fs := 0x10
      esp := c.selectorAt (c.frameAddress k - Word.of 36) 0x10
      ss := 0x10 } = c.toContext := by
  obtain ⟨-, heip, hcs, heflags, heax, hds, hes, hfs, hesp, hss⟩ := h
  generalize c.selectorAt _ _ = esp at hesp ⊢
  generalize c.toContext = a at heip hcs heflags heax hds hes hfs hesp hss ⊢
  cases a
  dsimp only at heip hcs heflags heax hds hes hfs hesp hss
  rw [heip, hcs, heflags, heax, hds, hes, hfs, hesp, hss]

/-- Where an interrupt through the gate resumes. -/
theorem interrupt_resumes {c : Processor} {v : Nat} (hgate : c.vectorGate v = ignoreGate lay) :
    ∃ frame r, (∀ frame' r', (head sym).Resumes lay (c.interrupt k v none) frame' r' ↔
        frame' = frame ∧ r' = r) ∧
      r.toContext =
        { c.toContext with
          eip := sym.int_msg
          cs := c.ecx.setWidth 16
          eflags := c.edx
          eax := sym.int_msg
          ds := 0x10
          es := 0x10
          fs := 0x10
          esp := if Cpu.privilege (c.ecx.setWidth 16) = 0 then c.frameAddress k - Word.of 36
            else c.selectorAt (c.frameAddress k - Word.of 36) 0x10
          ss := if Cpu.privilege (c.ecx.setWidth 16) = 0 then (c.onStack k).ss else 0x10 } := by
  have hcontext := interrupt_context k hgate
  have hcs : (c.interrupt k v none).cs = 8 := by rw [hcontext]
  have heip : (c.interrupt k v none).eip = lay.addr .ignore_int := by rw [hcontext]
  obtain ⟨frame, r, hexec, hr⟩ := ignore_int_exec sym lay hcs
  refine ⟨frame, r, fun frame' r' => Routines.resumes_iff heip hexec, ?_⟩
  have hesp : (c.interrupt k v none).esp = c.frameAddress k := by rw [hcontext]
  rw [hr, hesp, interrupt_selectorAt k hgate, hcontext]

/-- In the kernel the stack pointer does not come back. -/
theorem interrupt_moves_stack {c : Processor} {v : Nat} (hgate : c.vectorGate v = ignoreGate lay)
    (hlevel : Cpu.privilege c.cs = 0) {frame : Word} {r : Processor}
    (h : (head sym).Resumes lay (c.interrupt k v none) frame r) :
    r.toContext ≠ c.toContext := by
  obtain ⟨_, d, hiff, hd⟩ := interrupt_resumes sym k hgate
  obtain ⟨-, rfl⟩ := (hiff frame r).mp h
  intro hsame
  rw [hd] at hsame
  have hcs : c.ecx.setWidth 16 = c.cs := congrArg Context.cs hsame
  have hesp := congrArg Context.esp hsame
  dsimp only at hesp
  rw [hcs, if_pos hlevel, Cpu.frameAddress, if_pos hlevel] at hesp
  generalize c.esp = esp at hesp
  have hgap : Word.of 36 = 36 := rfl
  rw [hgap] at hesp
  grind

/-- An interrupt through the default gate, for which the processor pushes no
error code, leaves the interrupted program as it was exactly if that is spared. -/
theorem ignore_int_harmless_iff {c : Processor} {v : Nat}
    (hgate : c.vectorGate v = ignoreGate lay) (hcode : pushesErrorCode v = false) (code : Word) :
    (∃ frame r, (head sym).Resumes lay (c.interrupt k v (errorCode v code)) frame r ∧
      r.toContext = c.toContext) ↔ Spared sym k c.toCpu := by
  have hnone : errorCode v code = none := if_neg (ne_true_of_eq_false hcode)
  obtain ⟨frame, d, hiff, hd⟩ := interrupt_resumes sym k hgate
  rw [hnone]
  constructor
  · rintro ⟨frame', r, hresumes, hsame⟩
    have hlevel : Cpu.privilege c.cs ≠ 0 :=
      fun hlevel => interrupt_moves_stack sym k hgate hlevel hresumes hsame
    obtain ⟨-, rfl⟩ := (hiff frame' r).mp hresumes
    rw [hd] at hsame
    have hcs : c.ecx.setWidth 16 = c.cs := congrArg Context.cs hsame
    rw [hcs, if_neg hlevel, if_neg hlevel] at hsame
    exact {
      level := hlevel
      eip := (congrArg Context.eip hsame).symm
      cs := hcs.symm
      eflags := (congrArg Context.eflags hsame).symm
      eax := (congrArg Context.eax hsame).symm
      ds := (congrArg Context.ds hsame).symm
      es := (congrArg Context.es hsame).symm
      fs := (congrArg Context.fs hsame).symm
      esp := (congrArg Context.esp hsame).symm
      ss := (congrArg Context.ss hsame).symm }
  · intro h
    refine ⟨frame, d, (hiff frame d).mpr ⟨rfl, rfl⟩, ?_⟩
    have hlevel : Cpu.privilege (c.ecx.setWidth 16) ≠ 0 := h.cs ▸ h.level
    rw [hd, if_neg hlevel, if_neg hlevel]
    exact h.same

/-! ## An interrupt of a kernel and of a user program -/

def headSymbols : HeadSymbols where
  idt := 0x549e
  pidt := 0x5492
  pgdt := 0x5498
  int_msg := 0x649e
  stack_start := 0x7000
  main := 0x6600

/-- A program with vector 32 on the default gate. -/
def interruptible (cs ss : Half) : Processor where
  eax := 1
  ecx := 2
  edx := 3
  ebx := 4
  ebp := 5
  esi := 6
  edi := 7
  ds := ss
  es := ss
  fs := ss
  esp := 0x9000
  ss := ss
  eip := 0x6600
  cs := cs
  eflags := 0x202
  mem := ((⟨fun _ => 0, []⟩ : Memory).store32 (0x549e + 0x100)
    (ignoreGate headLayout).lowWord).store32 (0x549e + 0x100 + 4) (ignoreGate headLayout).highWord
  ports := []
  cr0 := 1
  cr3 := 0
  gdtr.limit := 2047
  gdtr.base := 0x5c9e
  idtr.limit := 2047
  idtr.base := 0x549e
  scanned := []

theorem interruptible_gate (cs ss : Half) :
    (interruptible cs ss).vectorGate 32 = ignoreGate headLayout := by
  apply Memory.gate_eq
  · show Memory.load32 (Memory.store32 _ _ _) (0x549e + 0x100) = _
    rw [Memory.load32_store32_of_le _ _ (by decide) (by decide), Memory.load32_store32_same]
  · exact Memory.load32_store32_same ..

theorem ignore_int_harmless_iff_user :
    ¬ ∃ frame r, (head headSymbols).Resumes headLayout
      ((interruptible 0x1b 0x23).interrupt ⟨0x8000, 0x10⟩ 32 (errorCode 32 0)) frame r ∧
      r.toContext = (interruptible 0x1b 0x23).toContext := by
  have hiff := ignore_int_harmless_iff headSymbols ⟨0x8000, 0x10⟩ (interruptible_gate 0x1b 0x23)
    (by decide) 0
  rw [hiff]
  exact fun hspared => absurd hspared.ss (by decide)

theorem ignore_int_harmful :
    (interruptible 8 0x10).vectorGate 32 = ignoreGate headLayout ∧
      pushesErrorCode 32 = false ∧
      ¬ ∃ frame r, (head headSymbols).Resumes headLayout
        ((interruptible 8 0x10).interrupt ⟨0x8000, 0x10⟩ 32 (errorCode 32 0)) frame r ∧
        r.toContext = (interruptible 8 0x10).toContext := by
  refine ⟨interruptible_gate 8 0x10, by decide, ?_⟩
  rintro ⟨frame, r, hresumes, hsame⟩
  exact interrupt_moves_stack headSymbols ⟨0x8000, 0x10⟩ (interruptible_gate 8 0x10) (by decide)
    hresumes hsame

end MySystem
