import MySystem.Machine.RealMode

/-!
# The move of the system

The part of `boot/setup.asm` that moves the system from 0x10000 down to 0, 64 KB
at a time.
-/

namespace MySystem

open Machine

inductive SetupLabel where
  /-- Behind the `cli`. -/
  | move
  | do_move
  /-- Where the moves are over; the code here is not followed. -/
  | end_move
  deriving DecidableEq

def setupCode : SetupLabel → List (RealOp SetupLabel)
  | .move => [
      .movLow .eax 0,
      .cld]
  | .do_move => [
      .movSeg .es .eax,
      .addLow .eax 0x1000,
      .cmpLow .eax 0x9000,
      .jz .end_move,
      .movSeg .ds .eax,
      .xorLow .edi .edi,
      .xorLow .esi .esi,
      .movLow .ecx 0x8000,
      .repMovsw,
      .jmp .do_move]
  | .end_move => []

def setupNext : SetupLabel → SetupLabel
  | .move => .do_move
  | l => l

/-- `boot/setup.asm` from the moves on. -/
def setup : RealCode SetupLabel where
  code := setupCode
  next := setupNext

/-! ## One move -/

/-- The words from `a` on. -/
def wordsFrom (m : Memory) (a : Nat) : Nat → List Half
  | 0 => []
  | n + 1 => m.cell a :: wordsFrom m (a + 2) n

@[simp] theorem length_wordsFrom (m : Memory) (a n : Nat) : (wordsFrom m a n).length = n := by
  induction n generalizing a with
  | zero => rfl
  | succ n ih => rw [wordsFrom, List.length_cons, ih]

theorem wordsFrom_getElem (m : Memory) (a n k : Nat) (w : Half)
    (hk : (wordsFrom m a n)[k]? = some w) :
    w = m.byteAt (a + (2 * k + 1)) ++ m.byteAt (a + 2 * k) := by
  induction n generalizing a k with
  | zero => cases hk
  | succ n ih =>
      cases k with
      | zero => exact (Option.some.inj hk).symm
      | succ k =>
          have hrest := ih (a + 2) k hk
          have hlow : a + 2 + 2 * k = a + 2 * (k + 1) := by omega
          have hhigh : a + 2 + (2 * k + 1) = a + (2 * (k + 1) + 1) := by omega
          rwa [hlow, hhigh] at hrest

/-- Words that are not written to. -/
theorem wordsFrom_congr {m m' : Memory} {lo hi a n : Nat} (h : Memory.Writes lo hi m m')
    (hout : a + 2 * n ≤ lo ∨ hi ≤ a) (hmax : a + 2 * n ≤ 2 ^ 32) :
    wordsFrom m' a n = wordsFrom m a n := by
  induction n generalizing a with
  | zero => rfl
  | succ n ih =>
      have hbyte : ∀ i, i < 2 → m'.byteAt (a + i) = m.byteAt (a + i) := by
        intro i hi'
        apply h.frame
        rw [Word.toNat_of (by omega)]
        omega
      have hcell : m'.cell a = m.cell a :=
        Memory.cell_congr (hbyte 0 (by omega)) (hbyte 1 (by omega))
      rw [wordsFrom, wordsFrom, ih (by omega) (by omega), hcell]

variable {D : Type}

theorem load16_linear (m : Memory) (s : Half) (offset : Nat) :
    m.load16 (linear s offset) = m.cell (16 * s.toNat + offset) := by
  rw [Memory.load16, linear, show Word.of (16 * s.toNat + offset) + 1 = _ from Word.of_add_of _ 1]
  rfl

theorem of_add_two (n : Nat) : BitVec.ofNat 16 n + 2 = BitVec.ofNat 16 (n + 2) :=
  (BitVec.ofNat_add n 2).symm

/-- A turn of `rep movsw` with the direction flag clear. -/
theorem moveWord_up {c : RealMode D} {s d : Nat} (hup : c.direction = false)
    (hsi : c.half .esi = BitVec.ofNat 16 s) (hdi : c.half .edi = BitVec.ofNat 16 d)
    (hs : s < 2 ^ 16) (hd : d < 2 ^ 16) :
    ∃ esi edi : Word, c.moveWord = { c with
        esi := esi
        edi := edi
        mem := c.mem.store16 (Word.of (16 * c.es.toNat + d)) (c.mem.cell (16 * c.ds.toNat + s)) } ∧
      esi.setWidth 16 = BitVec.ofNat 16 (s + 2) ∧ edi.setWidth 16 = BitVec.ofNat 16 (d + 2) := by
  have hsi' : (c.half .esi).toNat = s := by
    rw [hsi, BitVec.toNat_ofNat, Nat.mod_eq_of_lt hs]
  have hdi' : (c.half .edi).toNat = d := by
    rw [hdi, BitVec.toNat_ofNat, Nat.mod_eq_of_lt hd]
  refine ⟨c.esi.extractLsb' 16 16 ++ (c.half .esi + 2),
    c.edi.extractLsb' 16 16 ++ (c.half .edi + 2), ?_, ?_, ?_⟩
  · simp only [RealMode.moveWord, hup, hsi', hdi', load16_linear]
    rfl
  · rw [RealMode.setWidth_half, hsi, of_add_two]
  · rw [RealMode.setWidth_half, hdi, of_add_two]

/-- `rep movsw` between parts of memory that do not overlap. -/
theorem moveWords_up (n : Nat) {c : RealMode D} {s d : Nat} (hup : c.direction = false)
    (hsi : c.half .esi = BitVec.ofNat 16 s) (hdi : c.half .edi = BitVec.ofNat 16 d)
    (hs : s + 2 * n ≤ 2 ^ 16) (hd : d + 2 * n ≤ 2 ^ 16)
    (hapart : 16 * c.es.toNat + d + 2 * n ≤ 16 * c.ds.toNat + s) :
    ∃ esi edi : Word, RealMode.moveWords n c = { c with
      esi := esi
      edi := edi
      mem := Memory.storeWords (wordsFrom c.mem (16 * c.ds.toNat + s) n)
        (16 * c.es.toNat + d) c.mem } := by
  induction n generalizing c s d with
  | zero => exact ⟨c.esi, c.edi, rfl⟩
  | succ n ih =>
      obtain ⟨esi, edi, hturn, hsi', hdi'⟩ := moveWord_up hup hsi hdi (by omega) (by omega)
      have hds := c.ds.isLt
      have hes := c.es.isLt
      have hstored : Memory.Writes (16 * c.es.toNat + d) (16 * c.es.toNat + d + 2) c.mem
          (c.mem.store16 (Word.of (16 * c.es.toNat + d)) (c.mem.cell (16 * c.ds.toNat + s))) :=
        Memory.Writes.store16 _ (by omega) (by omega) (by omega)
      have hrest := wordsFrom_congr hstored (a := 16 * c.ds.toNat + (s + 2)) (n := n) (by omega)
        (by omega)
      rw [RealMode.moveWords, hturn]
      obtain ⟨esi', edi', hmoves⟩ := ih (c := { c with
        esi := esi
        edi := edi
        mem := c.mem.store16 (Word.of (16 * c.es.toNat + d)) (c.mem.cell (16 * c.ds.toNat + s)) })
        hup hsi' hdi' (by omega) (by omega) (by dsimp only; omega)
      refine ⟨esi', edi', hmoves.trans ?_⟩
      dsimp only
      rw [hrest]
      rfl

/-! ## The moves -/

variable (lay : Offsets SetupLabel) (dev : Device D)

/-- The segment to move to is taken, and the one to move from compared. -/
theorem do_move_compares (c : RealMode D) :
    ∃ d : RealMode D,
      setup.exec lay dev .do_move (setupCode .do_move) c =
        setup.exec lay dev .do_move ((setupCode .do_move).drop 3) d ∧
      d.es = c.half .eax ∧ d.half .eax = c.half .eax + 0x1000 ∧
      d.zero = decide (c.half .eax + 0x1000 = 0x9000) ∧ d.direction = c.direction ∧
      d.mem = c.mem := by
  refine ⟨_, rfl, ?_, ?_, ?_, ?_, ?_⟩
  · rfl
  · exact RealMode.setWidth_half _ _
  · refine (Cpu.zero_setStatus _ _).trans ?_
    exact congrArg (fun v : Half => decide (v = 0x9000)) (RealMode.setWidth_half _ _)
  · exact (Cpu.direction_setStatus _ _).trans (Cpu.direction_setStatus _ _)
  · rfl

/-- Everything is set for a move of 64 KB. -/
theorem do_move_prepares (c : RealMode D) :
    ∃ d : RealMode D,
      setup.exec lay dev .do_move ((setupCode .do_move).drop 4) c =
        setup.exec lay dev .do_move ((setupCode .do_move).drop 8) d ∧
      d.ds = c.half .eax ∧ d.es = c.es ∧ d.half .edi = 0 ∧ d.half .esi = 0 ∧
      d.half .ecx = 0x8000 ∧ d.half .eax = c.half .eax ∧ d.direction = c.direction ∧
      d.mem = c.mem := by
  refine ⟨_, rfl, ?_, ?_, ?_, ?_, ?_, ?_, ?_, ?_⟩
  · simp [RealOp.step, Cpu.setReg, Cpu.setSeg, Cpu.setStatus]
  · simp [RealOp.step, Cpu.setReg, Cpu.setSeg, Cpu.setStatus]
  · exact (RealMode.setWidth_half _ _).trans BitVec.xor_self
  · exact (RealMode.setWidth_half _ _).trans BitVec.xor_self
  · exact RealMode.half_setHalf _ _ _
  · simp [RealOp.step, RealMode.half, Cpu.reg, Cpu.setReg, Cpu.setSeg, Cpu.setStatus]
  · exact (Cpu.direction_setStatus _ _).trans (Cpu.direction_setStatus _ _)
  · simp [RealOp.step]

/-- `k` moves of 64 KB are done. -/
structure Moved (m : Memory) (k : Nat) (c : RealMode D) : Prop where
  eax : c.half .eax = BitVec.ofNat 16 (0x1000 * k)
  direction : c.direction = false
  moved : ∀ a, a < 0x10000 * k → c.mem.byteAt a = m.byteAt (a + 0x10000)
  kept : ∀ a : Word, 0x10000 * k ≤ a.toNat → c.mem.bytes a = m.bytes a

/-- The memory after 64 KB have been moved. -/
theorem Moved.memory {m : Memory} {k : Nat} (hk : k < 8) {c d : RealMode D} (h : Moved m k c)
    (hmem : d.mem = Memory.storeWords (wordsFrom c.mem (0x10000 * (k + 1)) 0x8000) (0x10000 * k)
      c.mem) :
    (∀ a, a < 0x10000 * (k + 1) → d.mem.byteAt a = m.byteAt (a + 0x10000)) ∧
      ∀ a : Word, 0x10000 * (k + 1) ≤ a.toNat → d.mem.bytes a = m.bytes a := by
  have hlen := length_wordsFrom c.mem (0x10000 * (k + 1)) 0x8000
  have hwrites : Memory.Writes (0x10000 * k) (0x10000 * (k + 1)) c.mem d.mem := by
    rw [hmem]
    exact Memory.Writes.storeWords _ (by omega) (by rw [hlen]; omega) (by omega)
  constructor
  · intro a ha
    by_cases hbefore : a < 0x10000 * k
    · rw [← h.moved a hbefore]
      exact hwrites.frame _ (by rw [Word.toNat_of (by omega)]; omega)
    · obtain ⟨j, rfl⟩ := Nat.exists_eq_add_of_le (Nat.le_of_not_lt hbefore)
      have hbyte := Memory.byteAt_storeWords (a := 0x10000 * k)
        (f := fun i => c.mem.byteAt (0x10000 * (k + 1) + i)) c.mem
        (wordsFrom_getElem c.mem (0x10000 * (k + 1)) 0x8000) (by rw [hlen]; omega) (j := j)
        (by rw [hlen]; omega)
      have hsource : 0x10000 * k + j + 0x10000 = 0x10000 * (k + 1) + j := by omega
      rw [hmem, hsource]
      refine hbyte.trans (h.kept _ ?_)
      rw [Word.toNat_of (by omega)]
      omega
  · intro a ha
    rw [hwrites.frame a (by omega)]
    exact h.kept a (by omega)

/-- A turn before the last segment is reached. -/
theorem do_move_turn {m : Memory} {k : Nat} (hk : k < 8) {c : RealMode D}
    (heip : c.eip = (lay.addr .do_move).setWidth 32) (h : Moved m k c) :
    ∃ d, setup.Stretch lay dev c d ∧ d.eip = (lay.addr .do_move).setWidth 32 ∧
      Moved m (k + 1) d := by
  obtain ⟨b, hcompares, hbes, hbax, hzero, hbup, hbmem⟩ := do_move_compares lay dev c
  obtain ⟨e, hprepares, heds, hees, hedi, hesi, hecx, heax, heup, hemem⟩ :=
    do_move_prepares lay dev b
  have hnext : c.half .eax + 0x1000 = BitVec.ofNat 16 (0x1000 * (k + 1)) := by
    rw [h.eax]
    exact (BitVec.ofNat_add _ 0x1000).symm
  have hmore : ¬ b.zero = true := by
    rw [hzero, hnext]
    intro hlast
    have hnat := congrArg BitVec.toNat (of_decide_eq_true hlast)
    rw [BitVec.toNat_ofNat, Nat.mod_eq_of_lt (by omega)] at hnat
    have hsame : 0x1000 * (k + 1) = 0x9000 := hnat
    omega
  have hes : e.es.toNat = 0x1000 * k := by
    rw [hees, hbes, h.eax]
    exact Nat.mod_eq_of_lt (by omega)
  have hds : e.ds.toNat = 0x1000 * (k + 1) := by
    rw [heds, hbax, hnext]
    exact Nat.mod_eq_of_lt (by omega)
  have hcount : (e.half .ecx).toNat = 0x8000 := by
    rw [hecx]
    rfl
  obtain ⟨esi, edi, hmoves⟩ := moveWords_up 0x8000 (s := 0) (d := 0)
    (heup.trans (hbup.trans h.direction)) hesi hedi (by omega) (by omega) (by omega)
  have hsource : 16 * e.ds.toNat + 0 = 0x10000 * (k + 1) := by omega
  have htarget : 16 * e.es.toNat + 0 = 0x10000 * k := by omega
  rw [hsource, htarget, hemem, hbmem] at hmoves
  generalize hmem : Memory.storeWords (wordsFrom c.mem (0x10000 * (k + 1)) 0x8000) (0x10000 * k)
    c.mem = m' at hmoves
  have hmoved : (RealOp.repMovsw : RealOp SetupLabel).step dev e =
      ({ e with
        esi := esi
        edi := edi
        mem := m' } : RealMode D).setHalf .ecx 0 := by
    rw [RealOp.step, hcount, hmoves]
  have hexec : setup.exec lay dev .do_move (setupCode .do_move) c =
      .goto (RealCode.enter lay ((RealOp.repMovsw : RealOp SetupLabel).step dev e) .do_move) :=
    (hcompares.trans (if_neg hmore)).trans hprepares
  rw [hmoved] at hexec
  obtain ⟨hbytes, hkept⟩ := h.memory hk (d := RealCode.enter lay (({ e with
      esi := esi
      edi := edi
      mem := m' } : RealMode D).setHalf .ecx 0) .do_move) hmem.symm
  exact ⟨_, ⟨.do_move, heip, hexec⟩, rfl, heax.trans (hbax.trans hnext),
    heup.trans (hbup.trans h.direction), hbytes, hkept⟩

/-- The rest of the moves. -/
theorem do_move_runs {m : Memory} (n : Nat) {k : Nat} (hk : k + n = 8) {c : RealMode D}
    (heip : c.eip = (lay.addr .do_move).setWidth 32) (h : Moved m k c) :
    ∃ d, setup.Runs lay dev c d ∧ d.eip = (lay.addr .end_move).setWidth 32 ∧
      (∀ a, a < 0x80000 → d.mem.byteAt a = m.byteAt (a + 0x10000)) ∧
      ∀ a : Word, 0x80000 ≤ a.toNat → d.mem.bytes a = m.bytes a := by
  induction n generalizing k c with
  | zero =>
      obtain rfl : k = 8 := hk
      obtain ⟨d, hcompares, -, -, hzero, -, hmem⟩ := do_move_compares lay dev c
      have hlast : d.zero = true := by
        rw [hzero, h.eax]
        rfl
      refine ⟨_, .single ⟨.do_move, heip, hcompares.trans (if_pos hlast)⟩, rfl, ?_, ?_⟩
      · intro a ha
        exact (congrArg (fun m => Memory.byteAt m a) hmem).trans (h.moved a ha)
      · intro a ha
        exact (congrArg (fun m => Memory.bytes m a) hmem).trans (h.kept a ha)
  | succ n ih =>
      obtain ⟨d, hstretch, hdeip, hnext⟩ := do_move_turn lay dev (by omega) heip h
      obtain ⟨e, hruns, hrest⟩ := ih (by omega) hdeip hnext
      exact ⟨e, .head hstretch hruns, hrest⟩

/-- The memory below 0x80000 comes from 64 KB above, and the rest stays. -/
theorem do_move_moves {c : RealMode D} (heip : c.eip = (lay.addr .move).setWidth 32) :
    ∃ d, setup.Runs lay dev c d ∧ d.eip = (lay.addr .end_move).setWidth 32 ∧
      (∀ a, a < 0x80000 → d.mem.byteAt a = c.mem.byteAt (a + 0x10000)) ∧
      ∀ a : Word, 0x80000 ≤ a.toNat → d.mem.bytes a = c.mem.bytes a := by
  let b : RealMode D := RealCode.enter lay { c.setHalf .eax 0 with
    eflags := Cpu.withBit c.eflags 10 false } .do_move
  have hstretch : setup.Stretch lay dev c b := ⟨.move, heip, rfl⟩
  have hup : b.direction = false := by
    refine (Cpu.getLsbD_withBit c.eflags false (show 10 < 32 by decide)).trans ?_
    rfl
  have hstart : Moved c.mem 0 b :=
    ⟨RealMode.half_setHalf c .eax 0, hup, fun _ ha => absurd ha (Nat.not_lt_zero _), fun _ _ => rfl⟩
  obtain ⟨d, hruns, hrest⟩ := do_move_runs lay dev 8 rfl rfl hstart
  exact ⟨d, .head hstretch hruns, hrest⟩

end MySystem
