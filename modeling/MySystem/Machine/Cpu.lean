import MySystem.Machine.Memory

/-!
# A 32-bit protected-mode processor

The registers that kernel entry code saves and restores, the stack, and what
the processor itself does at an interrupt and at `iret`. Segments are flat and
virtual-8086 mode is not modelled. Processors differ in what a push of a
segment register stores (`Cpu.pushSeg`); in the frame of an interrupt the upper
halves of CS and SS are zero.

A stack is stated as the list of words from the stack pointer upwards
(`Cpu.Stack`); memory that a run must leave alone is an interval on the address
circle (`Memory.Agree`), so no statement needs a bound on the stack pointer.
-/

namespace Machine

inductive Reg where
  | eax | ecx | edx | ebx | ebp | esi | edi
  deriving DecidableEq

inductive Seg where
  | ds | es | fs
  deriving DecidableEq

/-- What an interrupt has to give back. -/
structure Context where
  eax : Word
  ecx : Word
  edx : Word
  ebx : Word
  ebp : Word
  esi : Word
  edi : Word
  ds : Half
  es : Half
  fs : Half
  esp : Word
  ss : Half
  eip : Word
  cs : Half
  eflags : Word

/-- The processor with its memory, and the bytes sent to ports, newest first. -/
structure Cpu extends Context where
  mem : Memory
  ports : List (Byte × Byte)
  /-- A segment register is pushed as a whole word with a zero upper half. Other
  processors store only its 16 bits. -/
  wideSelectors : Bool := false

/-! ## Stacks of words -/

namespace Memory

variable {m m' m'' : Memory} {a : Word} {n : Nat}

/-- The `n` bytes from `a` upwards are the same. -/
def Agree (a : Word) (n : Nat) (m m' : Memory) : Prop :=
  ∀ b : Word, (b - a).toNat < n → m'.bytes b = m.bytes b

theorem Agree.refl (a : Word) (n : Nat) (m : Memory) : Agree a n m m := fun _ _ => rfl

theorem Agree.trans (h : Agree a n m m') (h' : Agree a n m' m'') : Agree a n m m'' :=
  fun b hb => (h' b hb).trans (h b hb)

/-- The bytes from `k` above the start. -/
theorem Agree.above (h : Agree a n m m') {k : Nat} (hk : k ≤ n) (hn : n ≤ 2 ^ 32) :
    Agree (a + Word.of k) (n - k) m m' := by
  intro b hb
  refine h b ?_
  have hof : (Word.of k).toNat = k := Word.toNat_of (by omega)
  rw [BitVec.toNat_sub, BitVec.toNat_add, hof] at hb
  rw [BitVec.toNat_sub]
  omega

/-- A word stored below the interval. -/
theorem Agree.store32 (m : Memory) (v : Word) {k : Nat} (hk : 4 ≤ k) (hn : n + k ≤ 2 ^ 32) :
    Agree a n m (m.store32 (a - Word.of k) v) := by
  intro b hb
  refine store32_bytes_of_le m v ?_
  obtain rfl | hpos := Nat.eq_zero_or_pos n
  · exact absurd hb (Nat.not_lt_zero _)
  · have hof : (Word.of k).toNat = k := Word.toNat_of (by omega)
    rw [BitVec.toNat_sub] at hb
    rw [BitVec.toNat_sub, BitVec.toNat_sub, hof]
    omega

/-- A word stored right below the interval, and then changes below that word. -/
theorem Agree.of_push {v : Word} (hn : n + 4 ≤ 2 ^ 32)
    (h : Agree (a - 4) (n + 4) (m.store32 (a - 4) v) m') : Agree a n m m' := by
  have habove := h.above (k := 4) (Nat.le_add_left ..) hn
  have hback : a - 4 + Word.of 4 = a := BitVec.sub_add_cancel a 4
  rw [Nat.add_sub_cancel, hback] at habove
  exact (Agree.store32 m v (k := 4) (Nat.le_refl 4) hn).trans habove

theorem Agree.load32 (h : Agree a n m m') (hn : 4 ≤ n) : m'.load32 a = m.load32 a := by
  have h0 : m'.bytes a = m.bytes a := h a (by bv_omega)
  have h1 : m'.bytes (a + 1) = m.bytes (a + 1) := h (a + 1) (by bv_omega)
  have h2 : m'.bytes (a + 2) = m.bytes (a + 2) := h (a + 2) (by bv_omega)
  have h3 : m'.bytes (a + 3) = m.bytes (a + 3) := h (a + 3) (by bv_omega)
  simp only [Memory.load32, h0, h1, h2, h3]

/-- A word inside the interval. -/
theorem Agree.load32_of_le (h : Agree a n m m') {b : Word} (hb : (b - a).toNat + 4 ≤ n)
    (hn : n ≤ 2 ^ 32) : m'.load32 b = m.load32 b := by
  have habove := h.above (k := (b - a).toNat) (by omega) hn
  have hback : a + Word.of (b - a).toNat = b := by
    rw [Word.of, BitVec.ofNat_toNat, BitVec.setWidth_eq, BitVec.add_comm, BitVec.sub_add_cancel]
  rw [hback] at habove
  exact habove.load32 (by omega)

/-- The words from `a` upwards. -/
def Holds (m : Memory) (a : Word) : List Word → Prop
  | [] => True
  | w :: ws => m.load32 a = w ∧ m.Holds (a + 4) ws

theorem Holds.congr {ws : List Word} (h : m.Holds a ws) (hagree : Agree a n m m')
    (hlen : 4 * ws.length ≤ n) (hn : n ≤ 2 ^ 32) : m'.Holds a ws := by
  induction ws generalizing a n with
  | nil => trivial
  | cons w ws ih =>
      rw [List.length_cons] at hlen
      refine ⟨(hagree.load32 (by omega)).trans h.1, ?_⟩
      exact ih h.2 (hagree.above (k := 4) (by omega) hn) (by omega) (by omega)

/-- A word stored below the words. -/
theorem Holds.push {ws : List Word} (h : m.Holds a ws) (hlen : 4 * ws.length + 4 ≤ 2 ^ 32)
    (v : Word) : (m.store32 (a - 4) v).Holds (a - 4) (v :: ws) := by
  refine ⟨load32_store32_same .., ?_⟩
  rw [BitVec.sub_add_cancel]
  exact h.congr (Agree.store32 m v (k := 4) (Nat.le_refl 4) hlen) (Nat.le_refl _) (by omega)

/-- The first word replaced. -/
theorem Holds.replace {w : Word} {ws : List Word} (h : m.Holds a (w :: ws))
    (hlen : 4 * ws.length + 4 ≤ 2 ^ 32) (v : Word) : (m.store32 a v).Holds a (v :: ws) := by
  have hpush := h.2.push hlen v
  rwa [BitVec.add_sub_cancel] at hpush

/-- The second word replaced. -/
theorem Holds.replace_second {w x : Word} {ws : List Word} (h : m.Holds a (w :: x :: ws))
    (hlen : 4 * ws.length + 8 ≤ 2 ^ 32) (v : Word) :
    (m.store32 (a + 4) v).Holds a (w :: v :: ws) := by
  refine ⟨?_, h.2.replace (by omega) v⟩
  rw [← h.1]
  exact load32_store32_of_le m v (by bv_omega) (by bv_omega)

end Memory

namespace Cpu

/-! ## Registers and the stack -/

def reg (c : Cpu) : Reg → Word
  | .eax => c.eax
  | .ecx => c.ecx
  | .edx => c.edx
  | .ebx => c.ebx
  | .ebp => c.ebp
  | .esi => c.esi
  | .edi => c.edi

def setReg (c : Cpu) (r : Reg) (v : Word) : Cpu :=
  match r with
  | .eax => { c with eax := v }
  | .ecx => { c with ecx := v }
  | .edx => { c with edx := v }
  | .ebx => { c with ebx := v }
  | .ebp => { c with ebp := v }
  | .esi => { c with esi := v }
  | .edi => { c with edi := v }

def seg (c : Cpu) : Seg → Half
  | .ds => c.ds
  | .es => c.es
  | .fs => c.fs

def setSeg (c : Cpu) (s : Seg) (v : Half) : Cpu :=
  match s with
  | .ds => { c with ds := v }
  | .es => { c with es := v }
  | .fs => { c with fs := v }

def push (c : Cpu) (v : Word) : Cpu :=
  { c with
    esp := c.esp - 4
    mem := c.mem.store32 (c.esp - 4) v }

/-- The word on top of the stack. -/
def top (c : Cpu) : Word := c.mem.load32 c.esp

def drop (c : Cpu) : Cpu := { c with esp := c.esp + 4 }

@[simp] theorem setReg_mem (c : Cpu) (r : Reg) (v : Word) : (c.setReg r v).mem = c.mem := by
  cases r <;> rfl

@[simp] theorem setSeg_mem (c : Cpu) (r : Seg) (v : Half) : (c.setSeg r v).mem = c.mem := by
  cases r <;> rfl

@[simp] theorem drop_mem (c : Cpu) : c.drop.mem = c.mem := rfl

@[simp] theorem push_reg (c : Cpu) (v : Word) (r : Reg) : (c.push v).reg r = c.reg r := by
  cases r <;> rfl

@[simp] theorem push_seg (c : Cpu) (v : Word) (r : Seg) : (c.push v).seg r = c.seg r := by
  cases r <;> rfl

/-- A selector in the frame of an interrupt. -/
def selector (h : Half) : Word := h.setWidth 32

theorem setWidth_selector (h : Half) : (selector h).setWidth 16 = h := by
  rw [selector, BitVec.setWidth_setWidth_of_le h (by decide), BitVec.setWidth_eq]

/-- The word that a push of the selector `v` leaves at `a`: with 16 bits stored, the
upper half is what was there. -/
def selectorAt (c : Cpu) (a : Word) (v : Half) : Word :=
  (if c.wideSelectors then 0 else c.mem.load16 (a + 2)) ++ v

def pushSeg (c : Cpu) (r : Seg) : Cpu := c.push (c.selectorAt (c.esp - 4) (c.seg r))

/-- With 16 bits stored, the upper half of the word is not. -/
theorem pushSeg_bytes (c : Cpu) (r : Seg) (h : c.wideSelectors = false) :
    (c.pushSeg r).mem.bytes = (c.mem.store16 (c.esp - 4) (c.seg r)).bytes := by
  rw [pushSeg, selectorAt, h, if_neg Bool.false_ne_true]
  exact c.mem.store32_upper_bytes (c.esp - 4) (c.seg r)

theorem setWidth_selectorAt (c : Cpu) (a : Word) (v : Half) :
    (c.selectorAt a v).setWidth 16 = v :=
  BitVec.setWidth_append_eq_right

/-- The words that hold the three segment registers on a stack. -/
structure Selectors where
  ds : Word
  es : Word
  fs : Word

/-- They hold those of `a`, whatever their upper halves. -/
structure Selectors.Of (w : Selectors) (a : Context) : Prop where
  ds : w.ds.setWidth 16 = a.ds
  es : w.es.setWidth 16 = a.es
  fs : w.fs.setWidth 16 = a.fs

/-- The words that pushes of `ds`, `es` and `fs` leave at and below `a`. -/
def selectorsAt (c : Cpu) (a : Word) : Selectors where
  ds := c.selectorAt a c.ds
  es := c.selectorAt (a - 4) c.es
  fs := c.selectorAt (a - 4 - 4) c.fs

theorem selectorsAt_of (c : Cpu) (a : Word) : (c.selectorsAt a).Of c.toContext :=
  ⟨c.setWidth_selectorAt a c.ds, c.setWidth_selectorAt (a - 4) c.es,
    c.setWidth_selectorAt (a - 4 - 4) c.fs⟩

/-- The words on the stack, the top first. -/
def Stack (c : Cpu) (ws : List Word) : Prop := c.mem.Holds c.esp ws

/-- Words pushed one after the other. -/
def pushes (c : Cpu) (vs : List Word) : Cpu := vs.foldl push c

theorem pushes_append (c : Cpu) (vs ws : List Word) :
    c.pushes (vs ++ ws) = (c.pushes vs).pushes ws := List.foldl_append

theorem Stack.pushes {c : Cpu} {ws : List Word} (h : c.Stack ws) (vs : List Word)
    (hlen : 4 * (ws.length + vs.length) ≤ 2 ^ 32) : (c.pushes vs).Stack (vs.reverse ++ ws) := by
  induction vs generalizing c ws with
  | nil => exact h
  | cons v vs ih =>
      rw [List.length_cons] at hlen
      have hpush : (c.push v).Stack (v :: ws) := Memory.Holds.push h (by omega) v
      have hrest := ih hpush (by rw [List.length_cons]; omega)
      rw [List.reverse_cons, List.append_assoc]
      exact hrest

theorem agree_pushes (c : Cpu) (vs : List Word) {n : Nat} (hn : n + 4 * vs.length ≤ 2 ^ 32) :
    Memory.Agree c.esp n c.mem (c.pushes vs).mem := by
  induction vs generalizing c n with
  | nil => exact Memory.Agree.refl _ _ _
  | cons v vs ih =>
      rw [List.length_cons] at hn
      exact Memory.Agree.of_push (by omega) (ih (c.push v) (by omega))

theorem pushes_esp (c : Cpu) (vs : List Word) :
    (c.pushes vs).esp = c.esp - Word.of (4 * vs.length) := by
  induction vs generalizing c with
  | nil => exact (BitVec.sub_zero _).symm
  | cons v vs ih =>
      have hlen : Word.of (4 * (v :: vs).length) = 4 + Word.of (4 * vs.length) := by
        rw [List.length_cons, Nat.mul_succ, Nat.add_comm, ← Word.of_add_of]
        rfl
      rw [hlen, ← BitVec.sub_sub]
      exact ih (c.push v)

/-- Only the bytes below the stack pointer are stored to. -/
theorem pushes_writes (c : Cpu) (vs : List Word) {region : Word → Prop}
    (hin : ∀ i, 1 ≤ i → i ≤ 4 * vs.length → region (c.esp - Word.of i)) :
    Memory.WritesIn region c.mem (c.pushes vs).mem := by
  induction vs generalizing c with
  | nil => exact .refl region c.mem
  | cons v vs ih =>
      rw [List.length_cons] at hin
      have hbyte : ∀ i j, 1 ≤ i → i ≤ 4 → i + j = 4 → region (c.esp - 4 + Word.of j) := by
        intro i j hi hi' hij
        have heq : c.esp - 4 + Word.of j = c.esp - Word.of i := by
          have hfour : (4 : Word) = Word.of i + Word.of j := by
            rw [Word.of_add_of, hij]
            rfl
          rw [hfour, ← BitVec.sub_sub]
          exact BitVec.sub_add_cancel ..
        rw [heq]
        exact hin i hi (by omega)
      have hpush : Memory.WritesIn region c.mem (c.push v).mem :=
        .store32 v (BitVec.add_zero (c.esp - 4) ▸ hbyte 4 0 (by decide) (by decide) rfl)
          (hbyte 3 1 (by decide) (by decide) rfl) (hbyte 2 2 (by decide) (by decide) rfl)
          (hbyte 1 3 (by decide) (by decide) rfl)
      refine hpush.trans (ih (c.push v) ?_)
      intro i hi hi'
      have hbelow : (c.push v).esp - Word.of i = c.esp - Word.of (4 + i) := by
        rw [← Word.of_add_of, ← BitVec.sub_sub]
        rfl
      rw [hbelow]
      exact hin (4 + i) (by omega) (by omega)

/-- Pushing moves the stack pointer and changes no other register. -/
theorem pushes_context (c : Cpu) (vs : List Word) :
    (c.pushes vs).toContext = { c.toContext with esp := (c.pushes vs).esp } := by
  induction vs generalizing c with
  | nil => rfl
  | cons v vs ih => exact ih (c.push v)

theorem pushes_reg (c : Cpu) (vs : List Word) (r : Reg) : (c.pushes vs).reg r = c.reg r := by
  induction vs generalizing c with
  | nil => rfl
  | cons v vs ih => exact (ih (c.push v)).trans (c.push_reg v r)

theorem pushes_seg (c : Cpu) (vs : List Word) (r : Seg) : (c.pushes vs).seg r = c.seg r := by
  induction vs generalizing c with
  | nil => rfl
  | cons v vs ih => exact (ih (c.push v)).trans (c.push_seg v r)

theorem pushes_wideSelectors (c : Cpu) (vs : List Word) :
    (c.pushes vs).wideSelectors = c.wideSelectors := by
  induction vs generalizing c with
  | nil => rfl
  | cons v vs ih => exact ih (c.push v)

/-! ## What is under the stack pointer -/

/-- The `n` bytes under the stack pointer are those of `m`. -/
def Below (m : Memory) (n : Nat) (c : Cpu) : Prop :=
  ∀ b, 0 < (c.esp - b).toNat → (c.esp - b).toNat ≤ n → c.mem.bytes b = m.bytes b

namespace Below

variable {m : Memory} {n : Nat} {c c' : Cpu}

theorem congr (h : Below m n c) (hesp : c'.esp = c.esp) (hmem : c'.mem = c.mem) :
    Below m n c' := by
  intro b hpos hle
  rw [hesp] at hpos hle
  rw [hmem]
  exact h b hpos hle

theorem push (h : Below m (n + 4) c) (hn : n + 4 < 2 ^ 32) (v : Word) : Below m n (c.push v) := by
  intro b hpos hle
  change 0 < (c.esp - 4 - b).toNat at hpos
  change (c.esp - 4 - b).toNat ≤ n at hle
  have hstore : (c.mem.store32 (c.esp - 4) v).bytes b = c.mem.bytes b :=
    Memory.store32_bytes_of_le c.mem v (by bv_omega)
  exact hstore.trans (h b (by bv_omega) (by bv_omega))

theorem pushes {vs : List Word} (h : Below m (n + 4 * vs.length) c)
    (hn : n + 4 * vs.length < 2 ^ 32) : Below m n (c.pushes vs) := by
  induction vs generalizing c with
  | nil => exact h
  | cons v vs ih =>
      rw [List.length_cons] at h hn
      exact ih (Below.push h (by omega) v) (by omega)

/-- A word stored at the stack pointer or right above it. -/
theorem store32 (h : Below m n c) {d : Word} (hn : n + d.toNat + 4 ≤ 2 ^ 32) (v : Word) :
    Below m n { c with mem := c.mem.store32 (c.esp + d) v } := by
  intro b hpos hle
  have hstore : (c.mem.store32 (c.esp + d) v).bytes b = c.mem.bytes b :=
    Memory.store32_bytes_of_le c.mem v (by bv_omega)
  exact hstore.trans (h b hpos hle)

/-- What a push of a selector would leave there is still the same. -/
theorem selectorAt {s : Cpu} (h : Below s.mem n c) (hwide : c.wideSelectors = s.wideSelectors)
    {a : Word} (hlow : 4 ≤ (c.esp - a).toNat) (hn : (c.esp - a).toNat ≤ n) (v : Half) :
    c.selectorAt a v = s.selectorAt a v := by
  have h2 : c.mem.bytes (a + 2) = s.mem.bytes (a + 2) := h _ (by bv_omega) (by bv_omega)
  have h3 : c.mem.bytes (a + 2 + 1) = s.mem.bytes (a + 2 + 1) := h _ (by bv_omega) (by bv_omega)
  rw [Cpu.selectorAt, Cpu.selectorAt, hwide, Memory.load16, Memory.load16, h2, h3]

theorem selectorsAt {s : Cpu} (h : Below s.mem n c) (hwide : c.wideSelectors = s.wideSelectors)
    (hseg : ∀ r, c.seg r = s.seg r) {a : Word} (hlow : 4 ≤ (c.esp - a).toNat)
    (hn : (c.esp - a).toNat + 8 ≤ n) (hmax : n < 2 ^ 32) :
    c.selectorsAt a = s.selectorsAt a := by
  have hds : c.ds = s.ds := hseg .ds
  have hes : c.es = s.es := hseg .es
  have hfs : c.fs = s.fs := hseg .fs
  have hsecond := h.selectorAt hwide (a := a - 4) (by bv_omega) (by bv_omega)
  have hthird := h.selectorAt hwide (a := a - 4 - 4) (by bv_omega) (by bv_omega)
  rw [Cpu.selectorsAt, Cpu.selectorsAt, hds, hes, hfs, h.selectorAt hwide hlow (by omega),
    hsecond, hthird]

end Below

/-- Pushes of three segment registers as pushes of words. -/
theorem pushSegs_eq (c : Cpu) (r r' r'' : Seg) :
    ((c.pushSeg r).pushSeg r').pushSeg r'' =
      c.pushes [c.selectorAt (c.esp - 4) (c.seg r), c.selectorAt (c.esp - 4 - 4) (c.seg r'),
        c.selectorAt (c.esp - 4 - 4 - 4) (c.seg r'')] := by
  have hbelow : Below c.mem 12 c := fun _ _ _ => rfl
  let d := c.push (c.selectorAt (c.esp - 4) (c.seg r))
  have hd : Below c.mem 8 d := hbelow.push (by decide) _
  have hsecond : d.selectorAt (d.esp - 4) (d.seg r') = c.selectorAt (c.esp - 4 - 4) (c.seg r') :=
    (c.push_seg _ r').symm ▸ hd.selectorAt rfl (by bv_omega) (by bv_omega) _
  let e := d.push (c.selectorAt (c.esp - 4 - 4) (c.seg r'))
  have he : Below c.mem 4 e := hd.push (by decide) _
  have hseg : e.seg r'' = c.seg r'' := (d.push_seg _ r'').trans (c.push_seg _ r'')
  have hthird : e.selectorAt (e.esp - 4) (e.seg r'') =
      c.selectorAt (c.esp - 4 - 4 - 4) (c.seg r'') :=
    hseg.symm ▸ he.selectorAt rfl (by bv_omega) (by bv_omega) _
  change ((d.push (d.selectorAt (d.esp - 4) (d.seg r'))).pushSeg r'') = _
  rw [hsecond]
  change e.push (e.selectorAt (e.esp - 4) (e.seg r'')) = _
  rw [hthird]
  rfl

/-! ## Status flags -/

/-- The flags an arithmetic instruction sets. -/
structure Status where
  cf : Bool
  pf : Bool
  af : Bool
  zf : Bool
  sf : Bool
  of : Bool

/-- Bit `i` of `w` set to `v`. -/
def withBit (w : Word) (i : Nat) (v : Bool) : Word :=
  if v then w ||| 1#32 <<< i else w &&& ~~~(1#32 <<< i)

private theorem getLsbD_one_shiftLeft {i j : Nat} (hj : j < 32) :
    (1#32 <<< i).getLsbD j = decide (i = j) := by
  rw [BitVec.getLsbD_shiftLeft, BitVec.getLsbD_one]
  by_cases h : i = j
  · subst h
    simp [hj]
  · simp [h]
    omega

theorem getLsbD_withBit (w : Word) (v : Bool) {i j : Nat} (hj : j < 32) :
    (withBit w i v).getLsbD j = if i = j then v else w.getLsbD j := by
  rw [withBit]
  cases v with
  | false =>
      rw [if_neg Bool.false_ne_true, BitVec.getLsbD_and, BitVec.getLsbD_not,
        getLsbD_one_shiftLeft hj]
      by_cases h : i = j
      · rw [decide_eq_true h, if_pos h, Bool.not_true, Bool.and_false, Bool.and_false]
      · rw [decide_eq_false h, if_neg h, decide_eq_true hj, Bool.not_false, Bool.and_true,
          Bool.and_true]
  | true =>
      rw [if_pos rfl, BitVec.getLsbD_or, getLsbD_one_shiftLeft hj]
      by_cases h : i = j
      · rw [decide_eq_true h, if_pos h, Bool.or_true]
      · rw [decide_eq_false h, if_neg h, Bool.or_false]

def setStatus (c : Cpu) (s : Status) : Cpu :=
  { c with
    eflags := withBit (withBit (withBit (withBit (withBit (withBit c.eflags
      0 s.cf) 2 s.pf) 4 s.af) 6 s.zf) 7 s.sf) 11 s.of }

def carry (c : Cpu) : Bool := c.eflags.getLsbD 0

def zero (c : Cpu) : Bool := c.eflags.getLsbD 6

@[simp] theorem carry_setStatus (c : Cpu) (s : Status) : (c.setStatus s).carry = s.cf := by
  simp only [carry, setStatus, getLsbD_withBit _ _ (show 0 < 32 by decide)]
  rfl

/-- Even parity of the low byte. -/
def parity (w : Word) : Bool :=
  (List.range 8).foldl (fun p i => p != w.getLsbD i) true

/-- The flags after `a - b`. -/
def subStatus {n : Nat} (a b : BitVec n) : Status where
  cf := a < b
  pf := parity ((a - b).setWidth 32)
  af := a.setWidth 4 < b.setWidth 4
  zf := a = b
  sf := (a - b).msb
  of := a.msb != b.msb && a.msb != (a - b).msb

/-- The flags after `a + b`. -/
def addStatus {n : Nat} (a b : BitVec n) : Status where
  cf := a + b < a
  pf := parity ((a + b).setWidth 32)
  af := a.setWidth 4 + b.setWidth 4 < a.setWidth 4
  zf := a + b = 0
  sf := (a + b).msb
  of := a.msb == b.msb && a.msb != (a + b).msb

/-- The flags after a logical operation with result `r`; AF, undefined then, is cleared. -/
def logicStatus {n : Nat} (r : BitVec n) : Status where
  cf := false
  pf := parity (r.setWidth 32)
  af := false
  zf := r = 0
  sf := r.msb
  of := false

/-! ## Interrupts -/

/-- The stack the task state segment gives for the kernel. -/
structure KernelStack where
  esp0 : Word
  ss0 : Half

/-- The privilege level of a code selector. -/
def privilege (cs : Half) : Nat := (cs &&& 3).toNat

/-- The stack pointer an interrupt starts to push from. -/
def base (c : Cpu) (k : KernelStack) : Word := if privilege c.cs = 0 then c.esp else k.esp0

/-- On a change of privilege: the kernel's stack, with the old stack on it. -/
def switchStack (c : Cpu) (k : KernelStack) : Cpu :=
  if privilege c.cs = 0 then c
  else (({ c with esp := k.esp0, ss := k.ss0 }).push (selector c.ss)).push c.esp

/-- EFLAGS in a handler entered through a trap gate: TF, NT, RF and VM are clear. -/
def trapFlags (w : Word) : Word :=
  withBit (withBit (withBit (withBit w 8 false) 14 false) 16 false) 17 false

/-- The processor enters the handler at `entry` of a trap gate, with the error
code of the exception if it has one. -/
def deliver (c : Cpu) (k : KernelStack) (entry : Word) (code : Option Word) : Cpu :=
  let d := (((c.switchStack k).push c.eflags).push (selector c.cs)).push c.eip
  let d := match code with
    | none => d
    | some w => d.push w
  { d with
    eip := entry
    cs := 8
    eflags := trapFlags c.eflags }

/-- The words the processor pushes, the error code apart. -/
def frame (c : Cpu) : List Word :=
  [c.eip, selector c.cs, c.eflags] ++
    if privilege c.cs = 0 then [] else [c.esp, selector c.ss]

/-- `iret`: to an outer level it takes a stack pointer as well. -/
def iret (c : Cpu) : Cpu :=
  let eip := c.mem.load32 c.esp
  let cs := (c.mem.load32 (c.esp + 4)).setWidth 16
  let eflags := c.mem.load32 (c.esp + 4 + 4)
  if privilege cs ≤ privilege c.cs then
    { c with
      eip := eip
      cs := cs
      eflags := eflags
      esp := c.esp + 4 + 4 + 4 }
  else
    { c with
      eip := eip
      cs := cs
      eflags := eflags
      esp := c.mem.load32 (c.esp + 4 + 4 + 4)
      ss := (c.mem.load32 (c.esp + 4 + 4 + 4 + 4)).setWidth 16 }

/-! ## A frame pushed and popped -/

/-- Where the processor's frame begins, the slot of the interrupted `eip`. -/
def frameAddress (c : Cpu) (k : KernelStack) : Word :=
  if privilege c.cs = 0 then c.esp - 4 - 4 - 4 else k.esp0 - 4 - 4 - 4 - 4 - 4

/-- The processor on the stack it pushes the frame to. -/
def onStack (c : Cpu) (k : KernelStack) : Cpu :=
  if privilege c.cs = 0 then c else { c with esp := k.esp0, ss := k.ss0 }

theorem deliver_eq (c : Cpu) (k : KernelStack) (entry : Word) (code : Option Word) :
    c.deliver k entry code =
      { (c.onStack k).pushes (code.toList ++ c.frame).reverse with
        eip := entry
        cs := 8
        eflags := trapFlags c.eflags } := by
  by_cases hlevel : privilege c.cs = 0
  · simp only [deliver, switchStack, onStack, frame, if_pos hlevel]
    cases code <;> rfl
  · simp only [deliver, switchStack, onStack, frame, if_neg hlevel]
    cases code <;> rfl

/-- An interrupt changes no register that a handler could save. -/
theorem deliver_context (c : Cpu) (k : KernelStack) (entry : Word) (code : Option Word) :
    (c.deliver k entry code).toContext =
      { c.toContext with
        esp := (c.deliver k entry code).esp
        ss := (c.onStack k).ss
        eip := entry
        cs := 8
        eflags := trapFlags c.eflags } := by
  have hpushes := (c.onStack k).pushes_context (code.toList ++ c.frame).reverse
  have hstack : (c.onStack k).toContext =
      { c.toContext with esp := (c.onStack k).esp, ss := (c.onStack k).ss } := by
    rw [onStack]
    split <;> rfl
  rw [deliver_eq]
  generalize (c.onStack k).pushes (code.toList ++ c.frame).reverse = d at hpushes ⊢
  change { d.toContext with eip := entry, cs := 8, eflags := trapFlags c.eflags } = _
  rw [hpushes, hstack]

theorem onStack_esp (c : Cpu) (k : KernelStack) : (c.onStack k).esp = c.base k := by
  rw [onStack, base]
  split <;> rfl

theorem length_frame_le (c : Cpu) : c.frame.length ≤ 5 := by
  rw [frame]
  split <;> simp

/-- The frame the processor pushes is on the stack, under the error code. -/
theorem deliver_stack (c : Cpu) (k : KernelStack) (entry : Word) (code : Option Word) :
    (c.deliver k entry code).Stack (code.toList ++ c.frame) := by
  have hlen := c.length_frame_le
  have hcode : code.toList.length ≤ 1 := by cases code <;> simp
  have hempty : (c.onStack k).Stack [] := trivial
  have hpushed := hempty.pushes (code.toList ++ c.frame).reverse
    (by rw [List.length_nil, List.length_reverse, List.length_append]; omega)
  rw [List.reverse_reverse, List.append_nil] at hpushed
  rw [deliver_eq]
  exact hpushed

/-- What lies above the place the frame goes to is untouched. -/
theorem deliver_agree (c : Cpu) (k : KernelStack) (entry : Word) (code : Option Word) {n : Nat}
    (hn : n + 4 * code.toList.length + 20 ≤ 2 ^ 32) :
    Memory.Agree (c.base k) n c.mem (c.deliver k entry code).mem := by
  have hlen := c.length_frame_le
  have hagree := (c.onStack k).agree_pushes (code.toList ++ c.frame).reverse (n := n)
    (by rw [List.length_reverse, List.length_append]; omega)
  have hmem : (c.onStack k).mem = c.mem := by
    rw [onStack]
    split <;> rfl
  rw [onStack_esp, hmem] at hagree
  rw [deliver_eq]
  exact hagree

/-- So is what lies under the frame. -/
theorem deliver_below (c : Cpu) (k : KernelStack) (entry : Word) (code : Option Word) {n : Nat}
    (hn : n + 24 < 2 ^ 32) : Below c.mem n (c.deliver k entry code) := by
  have hlen := c.length_frame_le
  have hcode : code.toList.length ≤ 1 := by cases code <;> simp
  have hmem : (c.onStack k).mem = c.mem := by
    rw [onStack]
    split <;> rfl
  let vs := (code.toList ++ c.frame).reverse
  have hvs : 4 * vs.length ≤ 24 := by
    simp only [vs, List.length_reverse, List.length_append]
    omega
  have hstart : Below c.mem (n + 4 * vs.length) (c.onStack k) := fun b _ _ => by rw [hmem]
  rw [deliver_eq]
  exact (hstart.pushes (by omega)).congr rfl rfl

theorem deliver_wideSelectors (c : Cpu) (k : KernelStack) (entry : Word) (code : Option Word) :
    (c.deliver k entry code).wideSelectors = c.wideSelectors := by
  have hstack : (c.onStack k).wideSelectors = c.wideSelectors := by
    rw [onStack]
    split <;> rfl
  rw [deliver_eq]
  exact (pushes_wideSelectors _ _).trans hstack

theorem deliver_esp (c : Cpu) (k : KernelStack) (entry : Word) :
    (c.deliver k entry none).esp = c.frameAddress k := by
  rw [deliver, switchStack, frameAddress]
  split <;> rfl

theorem deliver_code_esp (c : Cpu) (k : KernelStack) (entry w : Word) :
    (c.deliver k entry (some w)).esp = c.frameAddress k - 4 := by
  rw [deliver, switchStack, frameAddress]
  split <;> rfl

/-- The frame reaches up to where the pushing began. -/
theorem base_eq (c : Cpu) (k : KernelStack) :
    c.base k = c.frameAddress k + Word.of (4 * c.frame.length) := by
  rw [base, frameAddress, frame]
  split
  · change c.esp = c.esp - 4 - 4 - 4 + 12
    bv_omega
  · change k.esp0 = k.esp0 - 4 - 4 - 4 - 4 - 4 + 20
    bv_omega

/-- On the kernel's stack `ws` stands over the frame of an interrupt in `s`, and
the `n` bytes that were on the stack before are untouched. -/
structure Framed (k : KernelStack) (s : Cpu) (n : Nat) (ws : List Word) (c : Cpu) : Prop where
  cs : c.cs = 8
  ss : privilege s.cs = 0 → c.ss = s.ss
  esp : c.esp = s.frameAddress k - Word.of (4 * ws.length)
  stack : c.Stack (ws ++ s.frame)
  agree : Memory.Agree (s.base k) n s.mem c.mem

theorem framed_deliver (s : Cpu) (k : KernelStack) (entry : Word) (code : Option Word) {n : Nat}
    (hn : n + 24 ≤ 2 ^ 32) : Framed k s n code.toList (s.deliver k entry code) := by
  have hcontext := s.deliver_context k entry code
  have hcode : code.toList.length ≤ 1 := by cases code <;> simp
  refine ⟨congrArg Context.cs hcontext, fun hlevel => ?_, ?_, s.deliver_stack k entry code,
    s.deliver_agree k entry code (by omega)⟩
  · have hss := congrArg Context.ss hcontext
    rw [onStack, if_pos hlevel] at hss
    exact hss
  · cases code with
    | none => exact (s.deliver_esp k entry).trans (BitVec.sub_zero _).symm
    | some w => exact s.deliver_code_esp k entry w

namespace Framed

variable {k : KernelStack} {s c c' : Cpu} {n : Nat} {w : Word} {ws : List Word}

/-- Registers that play no part in it may change. -/
theorem congr (h : Framed k s n ws c) (hcs : c'.cs = c.cs) (hss : c'.ss = c.ss)
    (hesp : c'.esp = c.esp) (hmem : c'.mem = c.mem) : Framed k s n ws c' := by
  refine ⟨hcs.trans h.cs, fun hlevel => hss.trans (h.ss hlevel), hesp.trans h.esp, ?_, ?_⟩
  · rw [Stack, hesp, hmem]
    exact h.stack
  · rw [hmem]
    exact h.agree

/-- Changes below the stack pointer are changes below the frame. -/
theorem agree_base (h : Framed k s n ws c) (hn : n + 4 * ws.length + 20 ≤ 2 ^ 32)
    {m m' : Memory}
    (h' : Memory.Agree c.esp (n + 4 * s.frame.length + 4 * ws.length) m m') :
    Memory.Agree (s.base k) n m m' := by
  have hlen := s.length_frame_le
  have hwords := h'.above (k := 4 * ws.length) (Nat.le_add_left ..) (by omega)
  rw [Nat.add_sub_cancel, h.esp, BitVec.sub_add_cancel] at hwords
  have hframe := hwords.above (k := 4 * s.frame.length) (Nat.le_add_left ..) (by omega)
  rwa [Nat.add_sub_cancel, ← base_eq] at hframe

theorem pushes (h : Framed k s n ws c) (vs : List Word)
    (hn : n + 4 * (vs.length + ws.length) + 20 ≤ 2 ^ 32) :
    Framed k s n (vs.reverse ++ ws) (c.pushes vs) := by
  have hframe := s.length_frame_le
  have hcontext := c.pushes_context vs
  refine ⟨(congrArg Context.cs hcontext).trans h.cs,
    fun hlevel => (congrArg Context.ss hcontext).trans (h.ss hlevel), ?_, ?_, ?_⟩
  · rw [pushes_esp, h.esp, BitVec.sub_sub, Word.of_add_of, List.length_append, List.length_reverse,
      Nat.mul_add, Nat.add_comm]
  · rw [List.append_assoc]
    exact h.stack.pushes vs (by rw [List.length_append]; omega)
  · exact h.agree.trans (h.agree_base (by omega) (c.agree_pushes vs (by omega)))

theorem drop (h : Framed k s n (w :: ws) c) : Framed k s n ws c.drop := by
  refine ⟨h.cs, h.ss, ?_, h.stack.2, h.agree⟩
  have hlen : Word.of (4 * (w :: ws).length) = Word.of (4 * ws.length) + 4 := by
    rw [List.length_cons, Nat.mul_succ, ← Word.of_add_of]
    rfl
  change c.esp + 4 = _
  rw [h.esp, hlen, ← BitVec.sub_sub, BitVec.sub_add_cancel]

theorem top_eq (h : Framed k s n (w :: ws) c) : c.top = w := h.stack.1

theorem setReg (h : Framed k s n ws c) (r : Reg) (v : Word) : Framed k s n ws (c.setReg r v) := by
  cases r <;> exact h.congr rfl rfl rfl rfl

theorem setSeg (h : Framed k s n ws c) (r : Seg) (v : Half) : Framed k s n ws (c.setSeg r v) := by
  cases r <;> exact h.congr rfl rfl rfl rfl

theorem setStatus (h : Framed k s n ws c) (f : Status) : Framed k s n ws (c.setStatus f) :=
  h.congr rfl rfl rfl rfl

theorem replace (h : Framed k s n (w :: ws) c) (hn : n + 4 * ws.length + 24 ≤ 2 ^ 32) (v : Word) :
    Framed k s n (v :: ws) { c with mem := c.mem.store32 c.esp v } := by
  have hpush := h.drop.pushes [v] (by rw [List.length_singleton]; omega)
  have heq : c.drop.pushes [v] = { c with mem := c.mem.store32 c.esp v } := by
    change { c.drop with
      esp := c.esp + 4 - 4
      mem := c.mem.store32 (c.esp + 4 - 4) v } = _
    rw [BitVec.add_sub_cancel]
    rfl
  rwa [heq] at hpush

theorem replace_second {x : Word} (h : Framed k s n (w :: x :: ws) c)
    (hn : n + 4 * ws.length + 28 ≤ 2 ^ 32) (v : Word) :
    Framed k s n (w :: v :: ws) { c with mem := c.mem.store32 (c.esp + 4) v } := by
  have hlen : (ws ++ s.frame).length ≤ ws.length + 5 := by
    rw [List.length_append]
    exact Nat.add_le_add_left s.length_frame_le _
  have hsecond := h.drop.replace (by omega) v
  have hstack : c.mem.Holds c.esp (w :: x :: (ws ++ s.frame)) := h.stack
  exact ⟨h.cs, h.ss, h.esp, hstack.replace_second (by omega) v, hsecond.agree⟩

end Framed

/-- `iret` from the frame of an interrupt in `s` gives back what the frame holds. -/
theorem iret_resumes {c s : Cpu} {k : KernelStack} (hstack : c.Stack s.frame)
    (hcpl : privilege c.cs = 0)
    (hesp : c.esp = s.frameAddress k) (hss : privilege s.cs = 0 → c.ss = s.ss) :
    c.iret.toContext =
      { c.toContext with
        eip := s.eip
        cs := s.cs
        eflags := s.eflags
        esp := s.esp
        ss := s.ss } := by
  obtain ⟨heip, hcs, heflags, hrest⟩ := hstack
  rw [iret]
  simp only [heip, hcs, heflags, setWidth_selector, hcpl]
  split
  case isTrue hlevel =>
    have hlevel : privilege s.cs = 0 := Nat.le_zero.mp hlevel
    have hback : c.esp + 4 + 4 + 4 = s.esp := by
      rw [hesp, frameAddress, if_pos hlevel]
      simp only [BitVec.sub_add_cancel]
    simp only [hback, hss hlevel]
  case isFalse hlevel =>
    have hlevel : privilege s.cs ≠ 0 := fun h => hlevel (Nat.le_of_eq h)
    rw [if_neg hlevel] at hrest
    obtain ⟨hsp, hss, -⟩ := hrest
    simp only [hsp, hss, setWidth_selector]

namespace Framed

variable {k : KernelStack} {s c : Cpu} {n : Nat}

theorem esp_eq (h : Framed k s n [] c) : c.esp = s.frameAddress k := by
  rw [h.esp]
  exact BitVec.sub_zero _

theorem iret (h : Framed k s n [] c) :
    c.iret.toContext =
      { c.toContext with
        eip := s.eip
        cs := s.cs
        eflags := s.eflags
        esp := s.esp
        ss := s.ss } := by
  have hlevel : privilege c.cs = 0 := by
    rw [h.cs]
    decide
  exact iret_resumes h.stack hlevel h.esp_eq h.ss

end Framed

theorem iret_mem (c : Cpu) : c.iret.mem = c.mem := by
  rw [Cpu.iret]
  split <;> rfl

end Cpu

end Machine
