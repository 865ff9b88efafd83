import MySystem.Boot.Head
import MySystem.Machine.Paging

/-!
# The page tables of the kernel

`setup_paging` clears the page directory, a byte at a time and with the count
of all its dwords, enters four page tables, and fills these from the last entry
down. The loop counts by the entry itself and ends when that turns negative.
-/

namespace MySystem

open Machine

/-! ## The memory it leaves -/

/-- The memory after the directory has been set up. -/
def directoryMemory (m : Memory) : Memory :=
  ((((Memory.repStosb 1 0 5120 (Word.of 0) m).store32 (Word.of 0) 0x1007).store32
    (Word.of 4) 0x2007).store32 (Word.of 8) 0x3007).store32 (Word.of 12) 0x4007

/-- The last `n` turns of the loop. -/
def fillTables : Nat → Memory → Memory
  | 0, m => m
  | n + 1, m =>
      fillTables n (m.store32 (Word.of (0x1000 + 4 * n)) (Word.of (0x1000 * n + 7)))

theorem load32_fillTables {n : Nat} (m : Memory) (hn : n ≤ 4096) {a : Nat}
    (ha : a + 4 ≤ 2 ^ 32) (h : a + 4 ≤ 0x1000 ∨ 0x1000 + 4 * n ≤ a) :
    (fillTables n m).load32 (Word.of a) = m.load32 (Word.of a) := by
  induction n generalizing m with
  | zero => rfl
  | succ n ih =>
      rw [fillTables, ih _ (by omega) (by omega)]
      exact Memory.load32_store32_ne m _ (by omega) ha (by omega)

theorem fillTables_entry {n : Nat} (m : Memory) (hn : n ≤ 4096) {j : Nat} (hj : j < n) :
    (fillTables n m).load32 (Word.of (0x1000 + 4 * j)) = Word.of (0x1000 * j + 7) := by
  induction n generalizing m with
  | zero => exact absurd hj (Nat.not_lt_zero j)
  | succ n ih =>
      rw [fillTables]
      rcases Nat.lt_or_ge j n with hlt | hge
      · exact ih _ (by omega) hlt
      · obtain rfl : j = n := by omega
        rw [load32_fillTables _ (by omega) (by omega) (by omega), Memory.load32_store32_same]

theorem fillTables_writes {n : Nat} (m : Memory) (hn : n ≤ 4096) :
    Memory.Writes 0 0x5000 m (fillTables n m) := by
  induction n generalizing m with
  | zero => exact .refl 0 0x5000 m
  | succ n ih =>
      exact (Memory.Writes.store32 _ (by omega) (by omega) (by decide)).trans (ih _ (by omega))

theorem directoryMemory_writes (m : Memory) : Memory.Writes 0 0x5000 m (directoryMemory m) := by
  have hclear : Memory.Writes 0 0x5000 m (Memory.repStosb 1 0 5120 (Word.of 0) m) :=
    .repStosb_up 0 5120 (Nat.le_refl 0) (by decide) (by decide)
  have hstore : ∀ {m' : Memory} {a : Nat} (v : Word), a + 4 ≤ 0x5000 →
      Memory.Writes 0 0x5000 m' (m'.store32 (Word.of a) v) :=
    fun v ha => .store32 v (Nat.zero_le _) ha (by decide)
  exact (((hclear.trans (hstore _ (by decide))).trans (hstore _ (by decide))).trans
    (hstore _ (by decide))).trans (hstore _ (by decide))

theorem directoryMemory_directory (m : Memory) (n : Nat) (hn : n ≤ 4096) :
    (fillTables n (directoryMemory m)).Directory 4 := by
  have hcleared : ∀ i, i < 1024 →
      (Memory.repStosb 1 0 5120 (Word.of 0) m).load32 (Word.of (4 * i)) = 0 := by
    intro i hi
    have hzero : ∀ a : Word, (⟨fun _ => 0, []⟩ : Memory).load32 a = 0 := by
      intro a
      show ((0 : Byte) ++ (0 : Byte) ++ (0 : Byte) ++ (0 : Byte) : Word) = 0
      decide
    rw [← hzero (Word.of (4 * i))]
    apply Memory.load32_congr
    intro k hk
    rw [Memory.byteAt_repStosb_up 0 5120 m (by decide) (by omega), if_pos (by omega)]
    rfl
  have hkeep : ∀ i, i < 1024 → (fillTables n (directoryMemory m)).load32 (Word.of (4 * i)) =
      (directoryMemory m).load32 (Word.of (4 * i)) :=
    fun i hi => load32_fillTables _ hn (by omega) (by omega)
  constructor
  · intro i hi
    rw [hkeep i (by omega), directoryMemory]
    obtain rfl | rfl | rfl | rfl : i = 0 ∨ i = 1 ∨ i = 2 ∨ i = 3 := by omega
    · rw [Memory.load32_store32_ne _ _ (by decide) (by decide) (by decide),
        Memory.load32_store32_ne _ _ (by decide) (by decide) (by decide),
        Memory.load32_store32_ne _ _ (by decide) (by decide) (by decide)]
      exact Memory.load32_store32_same ..
    · rw [Memory.load32_store32_ne _ _ (by decide) (by decide) (by decide),
        Memory.load32_store32_ne _ _ (by decide) (by decide) (by decide)]
      exact Memory.load32_store32_same ..
    · rw [Memory.load32_store32_ne _ _ (by decide) (by decide) (by decide)]
      exact Memory.load32_store32_same ..
    · exact Memory.load32_store32_same ..
  · intro i hi hlt
    rw [hkeep i hlt, directoryMemory,
      Memory.load32_store32_ne _ _ (by decide) (by omega) (by omega),
      Memory.load32_store32_ne _ _ (by decide) (by omega) (by omega),
      Memory.load32_store32_ne _ _ (by decide) (by omega) (by omega),
      Memory.load32_store32_ne _ _ (by decide) (by omega) (by omega)]
    exact hcleared i hlt

/-! ## The code -/

variable (sym : HeadSymbols) {lay : Layout HeadLabel}

/-- Before the turn of the loop that stores entry `n`. -/
structure Filling (lay : Layout HeadLabel) (n : Nat) (c : Processor) : Prop where
  eip : c.eip = lay.addr .setup_paging_1
  direction : c.direction = true
  edi : c.edi = Word.of (0x1000 + 4 * n)
  eax : c.eax = Word.of (0x1000 * n + 7)

/-- The state in which the directory is cleared. -/
theorem setup_paging_clear (c : Processor) :
    ∃ d : Processor,
      (head sym).exec lay .setup_paging (headCode sym .setup_paging) c =
        (head sym).exec lay .setup_paging ((headCode sym .setup_paging).drop 4) d ∧
      d.direction = false ∧ d.ecx = 5120 ∧ d.eax = 0 ∧ d.edi = Word.of 0 ∧ d.esp = c.esp ∧
      d.cr0 = c.cr0 ∧ d.mem = c.mem := by
  refine ⟨_, rfl, ?_, rfl, ?_, rfl, rfl, rfl, rfl⟩
  case refine_1 =>
    exact (Cpu.getLsbD_withBit _ _ (by decide)).trans (if_pos rfl)
  case refine_2 =>
    exact BitVec.xor_self

/-- What follows the clearing, up to the loop. -/
theorem setup_paging_enter (d : Processor) :
    ∃ r : Processor,
      (head sym).exec lay .setup_paging ((headCode sym .setup_paging).drop 5) d = .goto r ∧
      Filling lay 4095 r ∧ r.esp = d.esp ∧ r.cr0 = d.cr0 ∧
      r.mem = (((d.mem.store32 (Word.of 0) 0x1007).store32 (Word.of 4) 0x2007).store32
        (Word.of 8) 0x3007).store32 (Word.of 12) 0x4007 := by
  refine ⟨_, rfl, ⟨rfl, ?_, rfl, rfl⟩, rfl, rfl, rfl⟩
  exact (Cpu.getLsbD_withBit _ _ (by decide)).trans (if_pos rfl)

/-- Up to the loop: the directory is set up, and the last entry is next. -/
theorem setup_paging_exec (c : Processor) :
    ∃ d, (head sym).exec lay .setup_paging (headCode sym .setup_paging) c = .goto d ∧
      Filling lay 4095 d ∧ d.esp = c.esp ∧ d.cr0 = c.cr0 ∧ d.mem = directoryMemory c.mem := by
  obtain ⟨d, hexec, hdirection, hecx, heax, hedi, hesp, hcr0, hmem⟩ := setup_paging_clear sym c
  obtain ⟨r, hr, hfilling, hesp', hcr0', hmem'⟩ :=
    setup_paging_enter sym (Op.step lay.addr d .repStosb)
  have hclear : (Op.step lay.addr d .repStosb).mem =
      Memory.repStosb 1 0 5120 (Word.of 0) c.mem := by
    have hstride : d.stride 1 = 1 := by
      rw [Cpu.stride, hdirection]
      rfl
    have hcount : d.ecx.toNat = 5120 := by
      rw [hecx]
      rfl
    have hal : d.eax.setWidth 8 = (0 : Byte) := by
      rw [heax]
      rfl
    rw [← hmem, ← hedi, ← hcount, ← hal, ← hstride]
    rfl
  refine ⟨r, hexec.trans hr, hfilling, hesp'.trans hesp, hcr0'.trans hcr0, ?_⟩
  rw [hmem', hclear]
  rfl

/-- The flags of the subtraction tell whether an entry is left. -/
theorem filling_flags {n : Nat} (hn : n < 4096) :
    ((Cpu.subStatus (Word.of (0x1000 * n + 7)) 0x1000).sf =
      (Cpu.subStatus (Word.of (0x1000 * n + 7)) 0x1000).of) ↔ 0 < n := by
  have hlow : (Word.of (0x1000 * n + 7)).msb = false := by
    rw [BitVec.msb_eq_decide, Word.toNat_of (by omega)]
    apply decide_eq_false
    omega
  have hstep : (0x1000 : Word).msb = false := by decide
  simp only [Cpu.subStatus, hlow, hstep, bne_self_eq_false, Bool.false_and]
  rw [BitVec.msb_eq_decide, decide_eq_false_iff_not, BitVec.toNat_sub, Word.toNat_of (by omega)]
  show ¬ 2 ^ 31 ≤ (2 ^ 32 - 0x1000 + (0x1000 * n + 7)) % 2 ^ 32 ↔ 0 < n
  omega

/-- The state in which a turn decides whether to go on. -/
theorem filling_turn {n : Nat} (hn : n < 4096) {c : Processor} (h : Filling lay n c) :
    ∃ e : Processor,
      (head sym).exec lay .setup_paging_1 (headCode sym .setup_paging_1) c =
        (head sym).exec lay .setup_paging_1 ((headCode sym .setup_paging_1).drop 2) e ∧
      (e.sign = e.overflow ↔ 0 < n) ∧ e.direction = true ∧
      e.edi = Word.of (0x1000 + 4 * n) - 4 ∧ e.eax = Word.of (0x1000 * n + 7) - 0x1000 ∧
      e.esp = c.esp ∧ e.cr0 = c.cr0 ∧
      e.mem = c.mem.store32 (Word.of (0x1000 + 4 * n)) (Word.of (0x1000 * n + 7)) := by
  have hstride : c.stride 4 = -4 := by
    rw [Cpu.stride, h.direction]
    rfl
  refine ⟨_, rfl, ?_, ?_, ?_, ?_, rfl, rfl, ?_⟩
  case refine_1 =>
    rw [← filling_flags hn, ← h.eax, ← Cpu.sign_setStatus, ← Cpu.overflow_setStatus]
    rfl
  case refine_2 =>
    exact (Cpu.direction_setStatus _ _).trans h.direction
  case refine_3 =>
    rw [← h.edi, BitVec.sub_eq_add_neg, ← hstride]
    rfl
  case refine_4 =>
    rw [← h.eax]
    rfl
  case refine_5 =>
    rw [← h.edi, ← h.eax]
    rfl

/-- A turn that is not the last. -/
theorem filling_next {n : Nat} (hn : n + 1 < 4096) {c : Processor} (h : Filling lay (n + 1) c) :
    ∃ d, (head sym).Stretch lay c d ∧ Filling lay n d ∧ d.esp = c.esp ∧ d.cr0 = c.cr0 ∧
      d.mem = c.mem.store32 (Word.of (0x1000 + 4 * (n + 1))) (Word.of (0x1000 * (n + 1) + 7)) := by
  obtain ⟨e, hexec, hflags, hdirection, hedi, heax, hesp, hcr0, hmem⟩ := filling_turn sym hn h
  have hjump : (head sym).exec lay .setup_paging_1 ((headCode sym .setup_paging_1).drop 2) e =
      .goto (Routines.enter lay e .setup_paging_1) := if_pos (hflags.mpr (Nat.succ_pos n))
  refine ⟨_, ⟨.setup_paging_1, h.eip, hexec.trans hjump⟩, ⟨rfl, hdirection, ?_, ?_⟩, hesp, hcr0,
    hmem⟩
  · have hfour : (4 : Word) = Word.of 4 := rfl
    rw [hfour, Word.of_sub_of (by omega) (by omega)] at hedi
    exact hedi
  · have hpage : (0x1000 : Word) = Word.of 0x1000 := rfl
    have hprev : 0x1000 * (n + 1) + 7 - 0x1000 = 0x1000 * n + 7 := by omega
    rw [hpage, Word.of_sub_of (by omega) (by omega), hprev] at heax
    exact heax

/-- The last turn, and what follows the loop. -/
theorem filling_last {c : Processor} (h : Filling lay 0 c) :
    ∃ d, (head sym).Stretch lay c d ∧ d.direction = true ∧ d.cr3 = pg_dir ∧
      d.cr0 = c.cr0 ||| 0x80000000 ∧
      d.mem = c.mem.store32 (Word.of 0x1000) (Word.of 7) ∧
      d.esp = c.esp + 4 ∧ d.eip = d.mem.load32 c.esp := by
  obtain ⟨e, hexec, hflags, hdirection, -, -, hesp, hcr0, hmem⟩ := filling_turn sym (by decide) h
  have hfall : (head sym).exec lay .setup_paging_1 ((headCode sym .setup_paging_1).drop 2) e =
      (head sym).exec lay .setup_paging_1 ((headCode sym .setup_paging_1).drop 3) e :=
    if_neg fun heq => absurd (hflags.mp heq) (Nat.lt_irrefl 0)
  rw [← hesp, ← hcr0, ← hmem]
  refine ⟨_, ⟨.setup_paging_1, h.eip, (hexec.trans hfall).trans rfl⟩, ?_, rfl, rfl, rfl, rfl, rfl⟩
  exact (Cpu.direction_setStatus _ _).trans hdirection

/-- The whole loop. -/
theorem filling_run {n : Nat} (hn : n < 4096) {c : Processor} (h : Filling lay n c) :
    ∃ d, (head sym).Runs lay c d ∧ d.direction = true ∧ d.cr3 = pg_dir ∧
      d.cr0 = c.cr0 ||| 0x80000000 ∧ d.mem = fillTables (n + 1) c.mem ∧
      d.esp = c.esp + 4 ∧ d.eip = d.mem.load32 c.esp := by
  induction n generalizing c with
  | zero =>
      obtain ⟨d, hstretch, hdirection, hcr3, hcr0, hmem, hesp, heip⟩ := filling_last sym h
      exact ⟨d, .single hstretch, hdirection, hcr3, hcr0, hmem, hesp, heip⟩
  | succ n ih =>
      obtain ⟨e, hstretch, hfilling, hesp, hcr0, hmem⟩ := filling_next sym hn h
      obtain ⟨d, hruns, hdirection, hcr3, hcr0', hmem', hesp', heip⟩ :=
        ih (Nat.lt_of_succ_lt hn) hfilling
      rw [hcr0] at hcr0'
      rw [hmem] at hmem'
      rw [hesp] at hesp' heip
      exact ⟨d, .head hstretch hruns, hdirection, hcr3, hcr0', hmem', hesp', heip⟩

/-! ## The whole of `setup_paging` -/

/-- `setup_paging` returns with paging on and the tables filled. -/
theorem setup_paging_runs (sym : HeadSymbols) (lay : Layout HeadLabel) (c : Processor) :
    ∃ r, (head sym).Runs lay (Routines.enter lay c .setup_paging) r ∧ r.direction = true ∧
      r.cr3 = pg_dir ∧ r.cr0 = c.cr0 ||| 0x80000000 ∧
      r.mem = fillTables 4096 (directoryMemory c.mem) ∧ r.esp = c.esp + 4 ∧
      r.eip = r.mem.load32 c.esp := by
  obtain ⟨d, hexec, hfilling, hesp, hcr0, hmem⟩ :=
    setup_paging_exec sym (Routines.enter lay c .setup_paging)
  obtain ⟨r, hruns, hdirection, hcr3, hcr0', hmem', hesp', heip⟩ :=
    filling_run sym (by decide) hfilling
  have hspc : d.esp = c.esp := hesp
  have hcr0c : d.cr0 = c.cr0 := hcr0
  rw [hcr0c] at hcr0'
  rw [hmem] at hmem'
  rw [hspc] at hesp' heip
  exact ⟨r, .head ⟨.setup_paging, rfl, hexec⟩ hruns, hdirection, hcr3, hcr0', hmem', hesp', heip⟩

/-- `setup_paging` writes the directory and the tables only. -/
theorem setup_paging_writes (m : Memory) :
    Memory.Writes 0 0x5000 m (fillTables 4096 (directoryMemory m)) :=
  (directoryMemory_writes m).trans (fillTables_writes _ (Nat.le_refl _))

theorem setup_paging_directory (m : Memory) :
    (fillTables 4096 (directoryMemory m)).Directory 4 :=
  directoryMemory_directory m 4096 (Nat.le_refl _)

theorem setup_paging_identity (m : Memory) (a : Word) (ha : a.toNat < 0x1000000) :
    (fillTables 4096 (directoryMemory m)).translate pg_dir a = some (a, true, true) := by
  have htables : (fillTables 4096 (directoryMemory m)).IdentityTables 4 := fun _ hj =>
    fillTables_entry _ (Nat.le_refl _) hj
  rw [← Word.of_toNat a]
  exact Memory.translate_identity (setup_paging_directory m) htables ha a.isLt

/-- Whatever was in memory, `setup_paging` leaves the identity map of the first
16 MB, changes nothing outside the directory and its tables, and returns to the
address on a stack outside them. -/
theorem setup_paging_maps_identity (sym : HeadSymbols) (lay : Layout HeadLabel) (c : Processor) :
    ∃ r, (head sym).Runs lay (Routines.enter lay c .setup_paging) r ∧
      r.cr3 = pg_dir ∧ r.cr0 = c.cr0 ||| 0x80000000 ∧
      (∀ a : Word, a.toNat < 0x1000000 → r.mem.translate r.cr3 a = some (a, true, true)) ∧
      (∀ a : Word, 0x1000000 ≤ a.toNat →
        Memory.present (r.mem.directoryEntry r.cr3 a) = false) ∧
      Memory.Writes 0 0x5000 c.mem r.mem ∧
      r.esp = c.esp + 4 ∧
      (0x5000 ≤ c.esp.toNat → c.esp.toNat + 4 ≤ 2 ^ 32 → r.eip = c.top) := by
  obtain ⟨r, hruns, -, hcr3, hcr0, hmem, hesp, heip⟩ := setup_paging_runs sym lay c
  have hdir : r.mem.Directory 4 := by
    rw [hmem]
    exact setup_paging_directory c.mem
  have hwrites : Memory.Writes 0 0x5000 c.mem r.mem := by
    rw [hmem]
    exact setup_paging_writes c.mem
  refine ⟨r, hruns, hcr3, hcr0, ?_, ?_, hwrites, hesp, ?_⟩
  · intro a ha
    rw [hcr3, hmem]
    exact setup_paging_identity c.mem a ha
  · intro a ha
    rw [hcr3, ← Word.of_toNat a]
    exact Memory.directory_not_present hdir ha a.isLt
  · intro hlo hmax
    rw [heip]
    exact hwrites.load32 (.inr hlo) hmax

end MySystem
