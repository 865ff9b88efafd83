import MySystem.Machine.Processor

/-!
# Gates of the interrupt descriptor table

A gate is two words in memory, put together from halves. Here are the halves of
a word and what masks and shifts by half a word do to them, how a gate is read,
a table of equal gates as a loop writes it, and the interrupt through a gate.
-/

namespace Machine

/-! ## Halves of a word -/

namespace Word

def high (w : Word) : Half := w.extractLsb' 16 16

def low (w : Word) : Half := w.extractLsb' 0 16

theorem high_append_low (w : Word) : high w ++ low w = w :=
  BitVec.extractLsb'_append_extractLsb'

@[simp] theorem high_append (a b : Half) : high (a ++ b) = a := BitVec.extractLsb'_append_eq_left

@[simp] theorem low_append (a b : Half) : low (a ++ b) = b := BitVec.extractLsb'_append_eq_right

theorem and_high (w : Word) : w &&& 0xffff0000 = high w ++ (0 : Half) := by
  have hmask : (0xffff0000 : Word) = (0xffff : Half) ++ (0 : Half) := by decide
  calc w &&& 0xffff0000 = (high w ++ low w) &&& ((0xffff : Half) ++ (0 : Half)) := by
        rw [high_append_low, ← hmask]
    _ = (high w &&& 0xffff) ++ (low w &&& 0) := BitVec.and_append
    _ = high w ++ (0 : Half) := by
        congr 1
        · exact BitVec.and_allOnes
        · exact BitVec.and_zero

theorem and_low (w : Word) : w &&& 0x0000ffff = (0 : Half) ++ low w := by
  have hmask : (0x0000ffff : Word) = (0 : Half) ++ (0xffff : Half) := by decide
  calc w &&& 0x0000ffff = (high w ++ low w) &&& ((0 : Half) ++ (0xffff : Half)) := by
        rw [high_append_low, ← hmask]
    _ = (high w &&& 0) ++ (low w &&& 0xffff) := BitVec.and_append
    _ = (0 : Half) ++ low w := by
        congr 1
        · exact BitVec.and_zero
        · exact BitVec.and_allOnes

theorem shiftLeft_sixteen (w : Word) : w <<< 16 = low w ++ (0 : Half) := by
  have hlow : (low w).toNat = w.toNat % 2 ^ 16 := by
    rw [low, BitVec.extractLsb'_toNat, Nat.shiftRight_zero]
  apply BitVec.eq_of_toNat_eq
  rw [BitVec.toNat_shiftLeft, BitVec.toNat_append, hlow]
  show _ = (w.toNat % 2 ^ 16) <<< 16 ||| 0
  rw [Nat.or_zero, Nat.shiftLeft_eq, Nat.shiftLeft_eq]
  omega

end Word

/-! ## Gates -/

/-- What a gate says: where to go, and the type and attributes of the gate. -/
structure Gate where
  offset : Word
  selector : Half
  attributes : Half

namespace Gate

/-- The first word of a gate. -/
def lowWord (g : Gate) : Word := g.selector ++ Word.low g.offset

def highWord (g : Gate) : Word := Word.high g.offset ++ g.attributes

def present (g : Gate) : Bool := g.attributes.getLsbD 15

/-- The level from which an `int` may use the gate. -/
def dpl (g : Gate) : BitVec 2 := g.attributes.extractLsb' 13 2

/-- `0xe` for an interrupt gate and `0xf` for a trap gate, of 32 bits each. -/
def type (g : Gate) : BitVec 5 := g.attributes.extractLsb' 8 5

end Gate

namespace Memory

variable {m : Memory} {g : Gate}

/-- The gate at an address. -/
def gate (m : Memory) (a : Word) : Gate where
  offset := Word.high (m.load32 (a + 4)) ++ Word.low (m.load32 a)
  selector := Word.high (m.load32 a)
  attributes := Word.low (m.load32 (a + 4))

/-- The two words of a gate make it up. -/
theorem gate_eq {a : Word} (hlow : m.load32 a = g.lowWord) (hhigh : m.load32 (a + 4) = g.highWord) :
    m.gate a = g := by
  rw [gate, hlow, hhigh]
  simp only [Gate.lowWord, Gate.highWord, Word.high_append, Word.low_append, Word.high_append_low]

def storeGate (m : Memory) (a : Word) (g : Gate) : Memory :=
  (m.store32 a g.lowWord).store32 (a + 4) g.highWord

theorem gate_storeGate_same (m : Memory) (a : Word) (g : Gate) : (m.storeGate a g).gate a = g := by
  apply gate_eq
  · exact (load32_store32_of_le _ _ (by bv_omega) (by bv_omega)).trans (load32_store32_same ..)
  · exact load32_store32_same ..

theorem gate_storeGate_ne (m : Memory) (g : Gate) {a b : Word} (h : 8 ≤ (b - a).toNat)
    (h' : 8 ≤ (a - b).toNat) : (m.storeGate a g).gate b = m.gate b := by
  have hlow : (m.storeGate a g).load32 b = m.load32 b :=
    (load32_store32_of_le _ _ (by bv_omega) (by bv_omega)).trans
      (load32_store32_of_le _ _ (by bv_omega) (by bv_omega))
  have hhigh : (m.storeGate a g).load32 (b + 4) = m.load32 (b + 4) :=
    (load32_store32_of_le _ _ (by bv_omega) (by bv_omega)).trans
      (load32_store32_of_le _ _ (by bv_omega) (by bv_omega))
  rw [gate, hlow, hhigh, ← gate]

/-- Gates stored one after the other, each with its vector. -/
def installGates (idt : Word) (gates : List (Nat × Gate)) (m : Memory) : Memory :=
  gates.foldl (fun m e => m.storeGate (idt + Word.of (8 * e.1)) e.2) m

theorem installGates_append (idt : Word) (l l' : List (Nat × Gate)) (m : Memory) :
    installGates idt (l ++ l') m = installGates idt l' (installGates idt l m) :=
  List.foldl_append

/-- The last gate stored for a vector is the one in the table. -/
theorem gate_installGates (idt : Word) {gates : List (Nat × Gate)} (hgates : ∀ e ∈ gates, e.1 < 256)
    (m : Memory) {v : Nat} (hv : v < 256) :
    (installGates idt gates m).gate (idt + Word.of (8 * v)) =
      (gates.reverse.lookup v).getD (m.gate (idt + Word.of (8 * v))) := by
  induction gates generalizing m with
  | nil => rfl
  | cons e gates ih =>
      have he := hgates e List.mem_cons_self
      have hstored : (m.storeGate (idt + Word.of (8 * e.1)) e.2).gate (idt + Word.of (8 * v)) =
          ([e].lookup v).getD (m.gate (idt + Word.of (8 * v))) := by
        by_cases hsame : v = e.1
        · rw [hsame, gate_storeGate_same, List.lookup_cons_self, Option.getD_some]
        · rw [gate_storeGate_ne _ _ (by bv_omega) (by bv_omega), List.lookup_cons,
            beq_eq_false_iff_ne.mpr hsame]
          rfl
      rw [installGates, List.foldl_cons, ← installGates, List.reverse_cons, List.lookup_append,
        ih (fun e he => hgates e (List.mem_cons_of_mem _ he)), hstored]
      cases gates.reverse.lookup v <;> rfl

theorem storeGate_writes (m : Memory) (g : Gate) {region : Word → Prop} {a : Word}
    (hin : ∀ i < 8, region (a + Word.of i)) : WritesIn region m (m.storeGate a g) := by
  have hnext : ∀ i, a + 4 + Word.of i = a + Word.of (4 + i) := by
    intro i
    rw [BitVec.add_assoc, ← Word.of_add_of]
    rfl
  have hzero : region a := BitVec.add_zero a ▸ hin 0 (by decide)
  have hfour : region (a + 4) := hin 4 (by decide)
  refine (WritesIn.store32 _ hzero (hin 1 (by decide)) (hin 2 (by decide))
    (hin 3 (by decide))).trans (.store32 _ hfour ?_ ?_ ?_)
  · exact hnext 1 ▸ hin 5 (by decide)
  · exact hnext 2 ▸ hin 6 (by decide)
  · exact hnext 3 ▸ hin 7 (by decide)

theorem installGates_writes (idt : Word) {gates : List (Nat × Gate)}
    (hgates : ∀ e ∈ gates, e.1 < 256) (m : Memory) {region : Word → Prop}
    (hin : ∀ i < 2048, region (idt + Word.of i)) :
    WritesIn region m (installGates idt gates m) := by
  induction gates generalizing m with
  | nil => exact .refl region m
  | cons e gates ih =>
      have he := hgates e List.mem_cons_self
      refine (storeGate_writes m e.2 fun i hi => ?_).trans
        (ih (fun e he => hgates e (List.mem_cons_of_mem _ he)) _)
      rw [BitVec.add_assoc, Word.of_add_of]
      exact hin (8 * e.1 + i) (by omega)

/-- `n` gates with the words `low` and `high` from `base` on, one after the other. -/
def fillGates (low high : Word) : Nat → Nat → Memory → Memory
  | 0, _, m => m
  | n + 1, base, m =>
      fillGates low high n (base + 8)
        ((m.store32 (Word.of base) low).store32 (Word.of (base + 4)) high)

variable (low high : Word)

theorem load32_fillGates {n base : Nat} (m : Memory) (hfits : base + 8 * n ≤ 2 ^ 32) {a : Nat}
    (ha : a + 4 ≤ 2 ^ 32) (h : a + 4 ≤ base ∨ base + 8 * n ≤ a) :
    (fillGates low high n base m).load32 (Word.of a) = m.load32 (Word.of a) := by
  induction n generalizing base m with
  | zero => rfl
  | succ n ih =>
      rw [fillGates, ih _ (by omega) (by omega),
        load32_store32_ne _ _ (by omega) ha (by omega),
        load32_store32_ne _ _ (by omega) ha (by omega)]

theorem fillGates_entry {n base : Nat} (m : Memory) (hfits : base + 8 * n ≤ 2 ^ 32) {v : Nat}
    (hv : v < n) :
    (fillGates low high n base m).load32 (Word.of (base + 8 * v)) = low ∧
      (fillGates low high n base m).load32 (Word.of (base + 8 * v + 4)) = high := by
  induction n generalizing base m v with
  | zero => exact absurd hv (Nat.not_lt_zero v)
  | succ n ih =>
      rw [fillGates]
      cases v with
      | zero =>
          rw [load32_fillGates low high _ (by omega) (by omega) (by omega),
            load32_fillGates low high _ (by omega) (by omega) (by omega)]
          exact ⟨(load32_store32_ne _ _ (by omega) (by omega) (by omega)).trans
            (load32_store32_same ..), load32_store32_same ..⟩
      | succ v =>
          have hnext : base + 8 * (v + 1) = base + 8 + 8 * v := by omega
          rw [hnext]
          exact ih _ (by omega) (Nat.lt_of_succ_lt_succ hv)

theorem fillGates_writes {n base lo hi : Nat} (m : Memory) (hlo : lo ≤ base)
    (hhi : base + 8 * n ≤ hi) (hmax : hi ≤ 2 ^ 32) :
    Writes lo hi m (fillGates low high n base m) := by
  induction n generalizing base m with
  | zero => exact .refl lo hi m
  | succ n ih =>
      exact ((Writes.store32 low hlo (by omega) hmax).trans
        (Writes.store32 high (by omega) (by omega) hmax)).trans (ih _ (by omega) (by omega))

end Memory

/-! ## Interrupts through a gate -/

/-- `iret` on the kernel's level, whatever stands on the stack. -/
theorem Cpu.iret_context {c : Cpu} {eip cs eflags esp ss : Word} {ws : List Word}
    (hstack : c.Stack (eip :: cs :: eflags :: esp :: ss :: ws)) (hlevel : privilege c.cs = 0) :
    c.iret.toContext =
      { c.toContext with
        eip := eip
        cs := cs.setWidth 16
        eflags := eflags
        esp := if privilege (cs.setWidth 16) = 0 then c.esp + 4 + 4 + 4 else esp
        ss := if privilege (cs.setWidth 16) = 0 then c.ss else ss.setWidth 16 } := by
  obtain ⟨heip, hcs, heflags, hesp, hss, -⟩ := hstack
  rw [Cpu.iret]
  simp only [heip, hcs, heflags, hesp, hss, hlevel, Nat.le_zero]
  split <;> rfl

namespace Processor

/-- The gate of a vector in the table the processor uses. -/
def vectorGate (c : Processor) (v : Nat) : Gate := c.mem.gate (c.idtr.base + Word.of (8 * v))

/-- The processor takes vector `v`, with the error code of an exception if it has
one. An interrupt gate, whose type has bit 8 clear, also masks interrupts. -/
def interrupt (c : Processor) (k : Cpu.KernelStack) (v : Nat) (code : Option Word) : Processor :=
  let g := c.vectorGate v
  let d := c.deliver k g.offset code
  { c with
    toCpu := { d with
      cs := g.selector
      eflags := if g.attributes.getLsbD 8 then d.eflags else Cpu.withBit d.eflags 9 false } }

end Processor

end Machine
