import MySystem.Boot.Idt
import MySystem.Boot.Paging

/-!
# From `_start` to `main`

The start of the kernel calls `setup_gdt` and `setup_idt`, tests the A20 line,
and leaves `setup_paging` for `main` by a `ret`. The last `std` is still in
force there.
-/

namespace MySystem

open Machine

/-- What the linker promises of the image in memory `m`: the stack lies above
the page tables, the interrupt descriptor table ends below 4 GB, the stack, the
table and the pointer to the stack are apart, and `main` is none of the labels. -/
structure Linked (sym : HeadSymbols) (lay : Layout HeadLabel) (m : Memory) : Prop where
  idt : sym.idt.toNat + 2048 ≤ 2 ^ 32
  stack_start : sym.stack_start.toNat + 4 ≤ 2 ^ 32
  stack : 0x5000 + 20 ≤ (m.load32 sym.stack_start).toNat
  stack_idt : (m.load32 sym.stack_start).toNat ≤ sym.idt.toNat ∨
    sym.idt.toNat + 2048 + 16 ≤ (m.load32 sym.stack_start).toNat
  stack_start_idt : sym.stack_start.toNat + 4 ≤ sym.idt.toNat ∨
    sym.idt.toNat + 2048 ≤ sym.stack_start.toNat
  stack_start_stack : (m.load32 sym.stack_start).toNat ≤ sym.stack_start.toNat ∨
    sym.stack_start.toNat + 4 + 16 ≤ (m.load32 sym.stack_start).toNat
  main : ∀ l, lay.addr l ≠ sym.main

/-- What the start writes to lies outside of an interval: the page tables, the word
of the A20 test, the interrupt descriptor table and five words of the stack. -/
structure Outside (sym : HeadSymbols) (stack : Word) (lo hi : Nat) : Prop where
  pages : 0x5000 ≤ lo
  a20 : 0x100004 ≤ lo ∨ hi ≤ 0x100000
  idt : sym.idt.toNat + 2048 ≤ lo ∨ hi ≤ sym.idt.toNat
  stack : hi + 20 ≤ stack.toNat ∨ stack.toNat ≤ lo

variable (sym : HeadSymbols) (lay : Layout HeadLabel)

/-- Words pushed elsewhere. -/
theorem pushes_outside (c : Cpu) (vs : List Word) {lo hi : Nat}
    (hroom : 4 * vs.length ≤ c.esp.toNat)
    (hout : hi + 4 * vs.length ≤ c.esp.toNat ∨ c.esp.toNat ≤ lo) :
    Memory.AgreeOn lo hi c.mem (c.pushes vs).mem := by
  intro a hlo hhi
  have hesp := c.esp.isLt
  refine c.agree_pushes (n := 2 ^ 32 - 4 * vs.length) vs (by omega) a ?_
  generalize 4 * vs.length = n at *
  bv_omega

/-! ## The stretches -/

theorem _start_exec (c : Processor) :
    ∃ d : Processor, (head sym).exec lay ._start (headCode sym ._start) c = .goto d ∧
      d.eip = lay.addr .setup_gdt ∧ d.esp = c.mem.load32 sym.stack_start - 4 ∧
      d.mem = c.mem.store32 (c.mem.load32 sym.stack_start - 4) (lay.addr ._start_1) :=
  ⟨_, rfl, rfl, rfl, rfl⟩

theorem setup_gdt_exec (c : Processor) :
    ∃ d : Processor, (head sym).exec lay .setup_gdt (headCode sym .setup_gdt) c = .goto d ∧
      d.eip = c.top ∧ d.esp = c.esp + 4 ∧ d.mem = c.mem :=
  ⟨_, rfl, rfl, rfl, rfl⟩

theorem _start_2_exec (c : Processor) :
    ∃ d : Processor, (head sym).exec lay ._start_2 (headCode sym ._start_2) c = .goto d ∧
      d.eip = lay.addr .test_a20 ∧ d.eax = 0 ∧ d.esp = c.mem.load32 sym.stack_start ∧
      d.mem = c.mem := by
  refine ⟨_, rfl, rfl, ?_, rfl, rfl⟩
  exact BitVec.xor_self

/-- A turn of the test: the word at 0 does not follow the one at 1 MB. -/
theorem test_a20_exec (c : Processor) :
    ∃ d : Processor, (head sym).exec lay .test_a20 (headCode sym .test_a20) c = .goto d ∧
      d.eip = (if c.mem.load32 0 = c.eax + 1 then lay.addr .test_a20
        else lay.addr .after_page_tables) ∧
      d.eax = c.eax + 1 ∧ d.esp = c.esp ∧ d.mem.load32 0 = c.mem.load32 0 ∧
      Memory.Writes 0x100000 0x100004 c.mem d.mem := by
  have hzero : (c.mem.store32 0x100000 (c.eax + 1)).load32 0 = c.mem.load32 0 :=
    Memory.load32_store32_of_le _ _ (by decide) (by decide)
  obtain ⟨e, hexec, hequal, heax, hesp, hmem⟩ : ∃ e : Processor,
      (head sym).exec lay .test_a20 (headCode sym .test_a20) c =
        (head sym).exec lay .test_a20 ((headCode sym .test_a20).drop 3) e ∧
      e.zero = decide ((c.mem.store32 0x100000 (c.eax + 1)).load32 0 = c.eax + 1) ∧
      e.eax = c.eax + 1 ∧ e.esp = c.esp ∧ e.mem = c.mem.store32 0x100000 (c.eax + 1) := by
    refine ⟨_, rfl, ?_, rfl, rfl, rfl⟩
    exact Cpu.zero_setStatus _ _
  have hwrites : Memory.Writes 0x100000 0x100004 c.mem e.mem := by
    rw [hmem]
    exact Memory.Writes.store32 (a := 0x100000) _ (by omega) (by omega) (by omega)
  rw [hzero] at hequal
  rw [← hmem] at hzero
  by_cases hfollows : c.mem.load32 0 = c.eax + 1
  · have hjump : e.zero = true := hequal.trans (decide_eq_true hfollows)
    refine ⟨_, hexec.trans (if_pos hjump), ?_, heax, hesp, hzero, hwrites⟩
    rw [if_pos hfollows]
    rfl
  · have hfall : ¬ e.zero = true := ne_true_of_eq_false (hequal.trans (decide_eq_false hfollows))
    refine ⟨_, hexec.trans ((if_neg hfall).trans rfl), ?_, heax, hesp, hzero, hwrites⟩
    rw [if_neg hfollows]
    rfl

/-- The test ends after at most two turns. -/
theorem test_a20_runs {c : Processor} (heip : c.eip = lay.addr .test_a20) (heax : c.eax = 0) :
    ∃ d : Processor, (head sym).Runs lay c d ∧ d.eip = lay.addr .after_page_tables ∧
      d.esp = c.esp ∧ Memory.Writes 0x100000 0x100004 c.mem d.mem := by
  obtain ⟨d, hexec, hnext, hone, hesp, hkept, hwrites⟩ := test_a20_exec sym lay c
  have hturn : (head sym).Stretch lay c d := ⟨.test_a20, heip, hexec⟩
  by_cases hfollows : c.mem.load32 0 = c.eax + 1
  · rw [if_pos hfollows] at hnext
    obtain ⟨e, hexec', hnext', -, hesp', -, hwrites'⟩ := test_a20_exec sym lay d
    have hdiffers : d.mem.load32 0 ≠ d.eax + 1 := by
      rw [hkept, hfollows, hone, heax]
      decide
    rw [if_neg hdiffers] at hnext'
    have hturn' : (head sym).Stretch lay d e := ⟨.test_a20, hnext, hexec'⟩
    exact ⟨e, .head hturn (.single hturn'), hnext', hesp'.trans hesp, hwrites.trans hwrites'⟩
  · rw [if_neg hfollows] at hnext
    exact ⟨d, .single hturn, hnext, hesp, hwrites⟩

/-- `main` is where `setup_paging` will return to. -/
theorem after_page_tables_exec (c : Processor) :
    ∃ d : Processor, (head sym).exec lay .after_page_tables (headCode sym .after_page_tables) c =
        .goto (Routines.enter lay d .setup_paging) ∧
      d.esp = c.esp - 4 - 4 - 4 - 4 - 4 ∧ d.top = sym.main ∧
      d.mem = (c.pushes [0, 0, 0, lay.addr .L6, sym.main]).mem := by
  refine ⟨_, rfl, rfl, ?_, rfl⟩
  exact Memory.load32_store32_same ..

/-! ## The way to `main` -/

variable {sym lay} {lo hi : Nat}

theorem Linked.congr {m m' : Memory} (h : Linked sym lay m)
    (hstack : m'.load32 sym.stack_start = m.load32 sym.stack_start) : Linked sym lay m' := by
  constructor
  case idt => exact h.idt
  case stack_start => exact h.stack_start
  case stack_start_idt => exact h.stack_start_idt
  case main => exact h.main
  all_goals rw [hstack]
  case stack => exact h.stack
  case stack_idt => exact h.stack_idt
  case stack_start_stack => exact h.stack_start_stack

/-- A word pushed to the empty stack leaves the pointer to it. -/
theorem Linked.load_push {m : Memory} (h : Linked sym lay m) (v : Word) :
    (m.store32 (m.load32 sym.stack_start - 4) v).load32 sym.stack_start =
      m.load32 sym.stack_start := by
  have hstart := h.stack_start
  have hstack := h.stack
  have happart := h.stack_start_stack
  apply Memory.load32_store32_of_le
  · bv_omega
  · bv_omega

/-- `_start` to the return of `setup_gdt`. -/
theorem setup_gdt_runs {c : Processor} (h : Linked sym lay c.mem) :
    ∃ d : Processor, (head sym).Runs lay (Routines.enter lay c ._start) d ∧
      d.eip = lay.addr ._start_1 ∧ d.esp = d.mem.load32 sym.stack_start ∧
      Linked sym lay d.mem ∧ d.mem.load32 sym.stack_start = c.mem.load32 sym.stack_start ∧
      (Outside sym (c.mem.load32 sym.stack_start) lo hi → Memory.AgreeOn lo hi c.mem d.mem) := by
  obtain ⟨e, hexec, heip, hesp, hmem⟩ := _start_exec sym lay (Routines.enter lay c ._start)
  obtain ⟨d, hexec', heip', hesp', hmem'⟩ := setup_gdt_exec sym lay e
  have hcall : (head sym).Stretch lay (Routines.enter lay c ._start) e := ⟨._start, rfl, hexec⟩
  have hback : (head sym).Stretch lay e d := ⟨.setup_gdt, heip, hexec'⟩
  have hkept : d.mem.load32 sym.stack_start = c.mem.load32 sym.stack_start := by
    rw [hmem', hmem]
    exact h.load_push _
  refine ⟨d, .head hcall (.single hback), ?_, ?_, h.congr hkept, hkept, fun hout => ?_⟩
  · rw [heip', Cpu.top, hmem, hesp]
    exact Memory.load32_store32_same ..
  · rw [hesp', hesp, hkept]
    exact BitVec.sub_add_cancel ..
  · have hstack := h.stack
    have happart := hout.stack
    have hpush : Memory.AgreeOn lo hi _ _ :=
      pushes_outside { c.toCpu with esp := c.mem.load32 sym.stack_start } [lay.addr ._start_1]
        (by simp; omega) (by simp; omega)
    rw [hmem', hmem]
    exact hpush

/-- The call of `setup_idt`. -/
theorem _start_1_runs {c : Processor} (h : Linked sym lay c.mem) (heip : c.eip = lay.addr ._start_1)
    (hesp : c.esp = c.mem.load32 sym.stack_start) :
    ∃ d : Processor, (head sym).Runs lay c d ∧ d.eip = lay.addr ._start_2 ∧
      Linked sym lay d.mem ∧ d.mem.load32 sym.stack_start = c.mem.load32 sym.stack_start ∧
      (Outside sym (c.mem.load32 sym.stack_start) lo hi → Memory.AgreeOn lo hi c.mem d.mem) := by
  have hstart := h.stack_start
  have hidt := h.idt
  have hstack := h.stack
  have hstack_idt := h.stack_idt
  have hstart_idt := h.stack_start_idt
  have hstart_stack := h.stack_start_stack
  have hcall : (head sym).Stretch lay c
      (Routines.enter lay (c.push (lay.addr ._start_2)) .setup_idt) := ⟨._start_1, heip, rfl⟩
  obtain ⟨d, hruns, -, -, -, -, -, hback, ebx, ecx, hwrites⟩ :=
    setup_idt_runs sym lay hidt (c.push (lay.addr ._start_2))
  have hagree := (c.push (lay.addr ._start_2)).toCpu.agree_pushes (n := 2 ^ 32 - 12)
    [lay.addr .setup_idt_1, ebx, ecx] (by simp)
  have hbelow : (c.push (lay.addr ._start_2)).esp = c.mem.load32 sym.stack_start - 4 :=
    congrArg (· - 4) hesp
  have hmem : (c.push (lay.addr ._start_2)).mem =
      c.mem.store32 (c.mem.load32 sym.stack_start - 4) (lay.addr ._start_2) := by
    rw [← hesp]
    rfl
  change Memory.Agree (c.push (lay.addr ._start_2)).esp _ (c.push (lay.addr ._start_2)).mem _
    at hagree
  rw [hbelow, hmem] at hagree
  rw [hbelow] at hback
  have hkept : d.mem.load32 sym.stack_start = c.mem.load32 sym.stack_start := by
    rw [hwrites.load32 (by omega) (by omega), hagree.load32_of_le (by bv_omega) (by decide)]
    exact h.load_push _
  refine ⟨d, .head hcall hruns, ?_, h.congr hkept, hkept, fun hout => ?_⟩
  · rw [hback, hwrites.load32 (by bv_omega) (by bv_omega), hagree.load32 (by decide)]
    exact Memory.load32_store32_same ..
  · have happart := hout.stack
    rw [← hesp] at hstack happart
    have hpush : Memory.AgreeOn lo hi _ _ := pushes_outside c.toCpu
      [lay.addr ._start_2, lay.addr .setup_idt_1, ebx, ecx] (by simp; omega) (by simp; omega)
    exact hpush.trans (.of_writes hwrites hout.idt)

/-- The A20 test, and the call of `setup_paging` with `main` to return to. -/
theorem _start_2_runs {c : Processor} (h : Linked sym lay c.mem)
    (heip : c.eip = lay.addr ._start_2) :
    ∃ d : Processor, (head sym).Runs lay c (Routines.enter lay d .setup_paging) ∧
      d.esp = c.mem.load32 sym.stack_start - 4 - 4 - 4 - 4 - 4 ∧ d.top = sym.main ∧
      (Outside sym (c.mem.load32 sym.stack_start) lo hi → Memory.AgreeOn lo hi c.mem d.mem) := by
  obtain ⟨c₁, hexec, heip₁, heax, hesp₁, hmem₁⟩ := _start_2_exec sym lay c
  obtain ⟨c₂, hruns, heip₂, hesp₂, hwrites⟩ := test_a20_runs sym lay heip₁ heax
  obtain ⟨d, hexec', hesp, htop, hmem⟩ := after_page_tables_exec sym lay c₂
  have hstart : (head sym).Stretch lay c c₁ := ⟨._start_2, heip, hexec⟩
  have hpushes : (head sym).Stretch lay c₂ (Routines.enter lay d .setup_paging) :=
    ⟨.after_page_tables, heip₂, hexec'⟩
  refine ⟨d, .head hstart (hruns.tail hpushes), ?_, htop, fun hout => ?_⟩
  · rw [hesp, hesp₂, hesp₁]
  · have hstack := h.stack
    have happart := hout.stack
    rw [← hesp₁, ← hesp₂] at hstack happart
    have hpush : Memory.AgreeOn lo hi _ _ := pushes_outside c₂.toCpu
      [0, 0, 0, lay.addr .L6, sym.main] (by simp; omega) (by simp; omega)
    rw [hmem₁] at hwrites
    rw [hmem]
    exact (Memory.AgreeOn.of_writes hwrites hout.a20).trans hpush

/-- With paging on, the first 16 MB are where they were. -/
structure IdentityPaged (d : Processor) : Prop where
  paging : d.cr0.getLsbD 31 = true
  identity : ∀ a : Word, a.toNat < 0x1000000 → d.mem.translate d.cr3 a = some (a, true, true)

/-- The start of the kernel ends in `main`, with the direction flag set and paging
on, and leaves the memory outside of its own data alone. -/
theorem _start_enters_main (lo hi : Nat) {c : Processor} (h : Linked sym lay c.mem) :
    ∃ d : Processor, (head sym).Runs lay (Routines.enter lay c ._start) d ∧
      d.eip = sym.main ∧ d.direction = true ∧ IdentityPaged d ∧
      (Outside sym (c.mem.load32 sym.stack_start) lo hi → Memory.AgreeOn lo hi c.mem d.mem) := by
  obtain ⟨c₁, hruns₁, heip₁, hesp₁, h₁, hkept₁, hagree₁⟩ := setup_gdt_runs h
  obtain ⟨c₂, hruns₂, heip₂, h₂, hkept₂, hagree₂⟩ := _start_1_runs h₁ heip₁ hesp₁
  obtain ⟨c₃, hruns₃, hesp₃, htop, hagree₃⟩ := _start_2_runs h₂ heip₂
  obtain ⟨d, hruns, hdirection, hcr3, hcr0, hmem, -, heip⟩ := setup_paging_runs sym lay c₃
  have hpaging := setup_paging_writes c₃.mem
  have hmap := setup_paging_identity c₃.mem
  rw [← hmem] at hpaging hmap
  refine ⟨d, hruns₁.trans (hruns₂.trans (hruns₃.trans hruns)), ?_, hdirection, ⟨?_, ?_⟩,
    fun hout => ?_⟩
  · have hstack := h₂.stack
    rw [heip, hpaging.load32 (by bv_omega) (by bv_omega)]
    exact htop
  · rw [hcr0, BitVec.getLsbD_or]
    exact Bool.or_true _
  · rw [hcr3]
    exact hmap
  · have hout₁ := hkept₁.symm ▸ hout
    have hout₂ := hkept₂.symm ▸ hout₁
    exact (hagree₁ hout).trans ((hagree₂ hout₁).trans ((hagree₃ hout₂).trans
      (.of_writes hpaging (.inl hout.pages))))

/-- The start of the kernel ends in `main`, with the direction flag set. -/
theorem _start_reaches_main {c : Processor} (h : Linked sym lay c.mem) :
    ∃ d : Processor, (head sym).Runs lay (Routines.enter lay c ._start) d ∧
      d.eip = sym.main ∧ d.direction = true := by
  obtain ⟨d, hruns, heip, hdirection, -⟩ := _start_enters_main 0 0 h
  exact ⟨d, hruns, heip, hdirection⟩

/-- Nothing of the start runs in `main`. -/
theorem Linked.stays {m : Memory} (h : Linked sym lay m) {c d : Processor} (heip : c.eip = sym.main)
    (hruns : (head sym).Runs lay c d) : d = c := by
  rcases hruns.cases_head with rfl | ⟨c', ⟨l, hl, -⟩, -⟩
  · rfl
  · exact absurd (hl.symm.trans heip) (h.main l)

/-- However the start of the kernel gets to `main`, it gets there in one state. -/
theorem Linked.main_once {c d e : Processor} (h : Linked sym lay c.mem)
    (hd : (head sym).Runs lay c d) (hdeip : d.eip = sym.main) (he : (head sym).Runs lay c e)
    (heeip : e.eip = sym.main) : d = e := by
  have hunique : Relator.RightUnique ((head sym).Stretch lay) :=
    fun _ _ _ => Routines.Stretch.unique
  rcases Relation.ReflTransGen.total_of_right_unique hunique hd he with hde | hed
  · exact (h.stays hdeip hde).symm
  · exact h.stays heeip hed

/-- However the start of the kernel gets to `main`, the direction flag is set. -/
theorem direction_at_main {c d : Processor} (h : Linked sym lay c.mem)
    (hruns : (head sym).Runs lay (Routines.enter lay c ._start) d) (heip : d.eip = sym.main) :
    d.direction = true := by
  obtain ⟨e, hruns', heip', hdirection⟩ := _start_reaches_main h
  have hentered : Linked sym lay (Routines.enter lay c ._start).mem := h
  rw [hentered.main_once hruns heip hruns' heip']
  exact hdirection

end MySystem
