import MySystem.Machine.Word
import Mathlib.Logic.Function.Basic

/-!
# Byte-addressed memory of a 32-bit machine

Addresses are 32-bit words and every access is a sequence of single-byte
accesses, so unaligned and overlapping accesses need no special case. The
`trace` records the address of every byte stored, newest first; no operation
reads it, and it exists only so that a footprint can be stated for a run.

`repMovsl` and `repStosw` are the string instructions of the i386 with either
setting of the direction flag. Their effect is given on natural addresses by
`byteAt_repMovsl_up`, `byteAt_repMovsl_down`, `byteAt_repStosw_up` and `byteAt_repStosw_down`,
which cover the overlapping moves a scroll performs.
-/

namespace Machine

structure Memory where
  bytes : Word → Byte
  trace : List Word

namespace Memory

/-- The byte at a natural address, for statements about address intervals. -/
def byteAt (m : Memory) (a : Nat) : Byte := m.bytes (Word.of a)

def store8 (m : Memory) (a : Word) (v : Byte) : Memory :=
  { bytes := Function.update m.bytes a v, trace := a :: m.trace }

def load16 (m : Memory) (a : Word) : Half := m.bytes (a + 1) ++ m.bytes a

def store16 (m : Memory) (a : Word) (v : Half) : Memory :=
  (m.store8 a (v.extractLsb' 0 8)).store8 (a + 1) (v.extractLsb' 8 8)

def load32 (m : Memory) (a : Word) : Word :=
  m.bytes (a + 3) ++ m.bytes (a + 2) ++ m.bytes (a + 1) ++ m.bytes a

def store32 (m : Memory) (a : Word) (v : Word) : Memory :=
  (((m.store8 a (v.extractLsb' 0 8)).store8 (a + 1) (v.extractLsb' 8 8)).store8
    (a + 2) (v.extractLsb' 16 8)).store8 (a + 3) (v.extractLsb' 24 8)

@[simp] theorem store8_bytes_same (m : Memory) (a : Word) (v : Byte) :
    (m.store8 a v).bytes a = v := Function.update_self ..

theorem store8_bytes_ne (m : Memory) {a b : Word} (v : Byte) (h : b ≠ a) :
    (m.store8 a v).bytes b = m.bytes b := Function.update_of_ne h ..

/-- A word store changes only the four bytes from its address on. -/
theorem store32_bytes_ne (m : Memory) {a b : Word} (v : Word)
    (h0 : b ≠ a) (h1 : b ≠ a + 1) (h2 : b ≠ a + 2) (h3 : b ≠ a + 3) :
    (m.store32 a v).bytes b = m.bytes b := by
  simp only [store32, store8_bytes_ne _ _ h0, store8_bytes_ne _ _ h1,
    store8_bytes_ne _ _ h2, store8_bytes_ne _ _ h3]

/-- Bytes at a distance of at least four above a word store are unchanged; the
distance is taken on the address circle, so no bound on the address is needed. -/
theorem store32_bytes_of_le (m : Memory) {a b : Word} (v : Word) (h : 4 ≤ (b - a).toNat) :
    (m.store32 a v).bytes b = m.bytes b := by
  apply store32_bytes_ne <;> bv_omega

/-- The four bytes of a word. -/
theorem bytes_append_self (v : Word) :
    (v.extractLsb' 24 8 ++ v.extractLsb' 16 8 ++ v.extractLsb' 8 8 ++ v.extractLsb' 0 8 : Word)
      = v := by
  have hhigh : v.extractLsb' 24 8 ++ v.extractLsb' 16 8 = v.extractLsb' 16 16 :=
    BitVec.extractLsb'_append_extractLsb'_eq_extractLsb' rfl
  have hmiddle : v.extractLsb' 16 16 ++ v.extractLsb' 8 8 = v.extractLsb' 8 24 :=
    BitVec.extractLsb'_append_extractLsb'_eq_extractLsb' rfl
  rw [hhigh, hmiddle]
  exact BitVec.extractLsb'_append_extractLsb'

@[simp] theorem load32_store32_same (m : Memory) (a v : Word) :
    (m.store32 a v).load32 a = v := by
  have h01 : a ≠ a + 1 := by bv_omega
  have h02 : a ≠ a + 2 := by bv_omega
  have h03 : a ≠ a + 3 := by bv_omega
  have h12 : a + 1 ≠ a + 2 := by bv_omega
  have h13 : a + 1 ≠ a + 3 := by bv_omega
  have h23 : a + 2 ≠ a + 3 := by bv_omega
  simp only [load32, store32, store8_bytes_same, store8_bytes_ne _ _ h01,
    store8_bytes_ne _ _ h02, store8_bytes_ne _ _ h03, store8_bytes_ne _ _ h12,
    store8_bytes_ne _ _ h13, store8_bytes_ne _ _ h23, bytes_append_self]

/-- A word whose upper half is the one there changes only the lower half. -/
theorem store32_upper_bytes (m : Memory) (a : Word) (v : Half) :
    (m.store32 a (m.load16 (a + 2) ++ v)).bytes = (m.store16 a v).bytes := by
  have h0 : (m.load16 (a + 2) ++ v : Word).extractLsb' 0 8 = v.extractLsb' 0 8 :=
    BitVec.extractLsb'_append_eq_of_add_le (by decide)
  have h1 : (m.load16 (a + 2) ++ v : Word).extractLsb' 8 8 = v.extractLsb' 8 8 :=
    BitVec.extractLsb'_append_eq_of_add_le (by decide)
  have h2 : (m.load16 (a + 2) ++ v : Word).extractLsb' 16 8 = m.bytes (a + 2) :=
    (BitVec.extractLsb'_append_eq_of_le (by decide)).trans BitVec.extractLsb'_append_eq_right
  have h3 : (m.load16 (a + 2) ++ v : Word).extractLsb' 24 8 = m.bytes (a + 3) := by
    refine (BitVec.extractLsb'_append_eq_of_le (by decide)).trans ?_
    rw [show a + 3 = a + 2 + 1 by bv_omega]
    exact BitVec.extractLsb'_append_eq_left
  have h20 : a + 2 ≠ a := by bv_omega
  have h21 : a + 2 ≠ a + 1 := by bv_omega
  have h30 : a + 3 ≠ a := by bv_omega
  have h31 : a + 3 ≠ a + 1 := by bv_omega
  have h32 : a + 3 ≠ a + 2 := by bv_omega
  rw [store32, h0, h1, h2, h3]
  change Function.update (Function.update (m.store16 a v).bytes (a + 2) _) (a + 3) _ = _
  have hsecond : m.bytes (a + 2) = (m.store16 a v).bytes (a + 2) := by
    rw [store16, store8_bytes_ne _ _ h21, store8_bytes_ne _ _ h20]
  have hthird : m.bytes (a + 3) = (m.store16 a v).bytes (a + 3) := by
    rw [store16, store8_bytes_ne _ _ h31, store8_bytes_ne _ _ h30]
  rw [hsecond, Function.update_eq_self, hthird, Function.update_eq_self]

/-- A word load four or more bytes away from a word store, in both directions
around the address circle, sees the old memory. -/
theorem load32_store32_of_le (m : Memory) {a b : Word} (v : Word)
    (h : 4 ≤ (b - a).toNat) (h' : 4 ≤ (a - b).toNat) :
    (m.store32 a v).load32 b = m.load32 b := by
  have h0 : (m.store32 a v).bytes b = m.bytes b := store32_bytes_of_le m v h
  have h1 : (m.store32 a v).bytes (b + 1) = m.bytes (b + 1) :=
    store32_bytes_of_le m v (by bv_omega)
  have h2 : (m.store32 a v).bytes (b + 2) = m.bytes (b + 2) :=
    store32_bytes_of_le m v (by bv_omega)
  have h3 : (m.store32 a v).bytes (b + 3) = m.bytes (b + 3) :=
    store32_bytes_of_le m v (by bv_omega)
  simp only [load32, h0, h1, h2, h3]

theorem load32_store32_ne (m : Memory) {a b : Nat} (v : Word) (ha : a + 4 ≤ 2 ^ 32)
    (hb : b + 4 ≤ 2 ^ 32) (h : a + 4 ≤ b ∨ b + 4 ≤ a) :
    (m.store32 (Word.of a) v).load32 (Word.of b) = m.load32 (Word.of b) := by
  have hna : (Word.of a).toNat = a := Word.toNat_of (by omega)
  have hnb : (Word.of b).toNat = b := Word.toNat_of (by omega)
  apply load32_store32_of_le
  · rw [BitVec.toNat_sub, hna, hnb]
    omega
  · rw [BitVec.toNat_sub, hna, hnb]
    omega

/-- A word whose bytes are known. -/
theorem load32_congr {m m' : Memory} {a : Nat}
    (h : ∀ i, i < 4 → m'.byteAt (a + i) = m.byteAt (a + i)) :
    m'.load32 (Word.of a) = m.load32 (Word.of a) := by
  have h1 : Word.of a + 1 = Word.of (a + 1) := Word.of_add_of a 1
  have h2 : Word.of a + 2 = Word.of (a + 2) := Word.of_add_of a 2
  have h3 : Word.of a + 3 = Word.of (a + 3) := Word.of_add_of a 3
  have hbyte : ∀ i, i < 4 → m'.bytes (Word.of (a + i)) = m.bytes (Word.of (a + i)) := h
  rw [load32, load32, h1, h2, h3, hbyte 1 (by decide), hbyte 2 (by decide), hbyte 3 (by decide)]
  exact congrArg _ (hbyte 0 (by decide))

/-- From `m` to `m'` only bytes of the interval were stored to: the addresses
recorded since `m` lie in it, and every byte outside it is the old one. -/
structure Writes (lo hi : Nat) (m m' : Memory) : Prop where
  traced : ∃ new, m'.trace = new ++ m.trace ∧ ∀ a ∈ new, lo ≤ a.toNat ∧ a.toNat < hi
  frame : ∀ a : Word, ¬(lo ≤ a.toNat ∧ a.toNat < hi) → m'.bytes a = m.bytes a

namespace Writes

variable {lo hi : Nat} {m m' m'' : Memory}

theorem refl (lo hi : Nat) (m : Memory) : Writes lo hi m m :=
  ⟨⟨[], rfl, by simp⟩, fun _ _ => rfl⟩

theorem trans (h : Writes lo hi m m') (h' : Writes lo hi m' m'') : Writes lo hi m m'' := by
  obtain ⟨new, hnew, hin⟩ := h.traced
  obtain ⟨new', hnew', hin'⟩ := h'.traced
  refine ⟨⟨new' ++ new, by rw [hnew', hnew, List.append_assoc], ?_⟩, ?_⟩
  · intro a ha
    rcases List.mem_append.mp ha with ha | ha
    · exact hin' a ha
    · exact hin a ha
  · intro a ha
    exact (h'.frame a ha).trans (h.frame a ha)

theorem store8 {a : Word} (v : Byte) (h : lo ≤ a.toNat) (h' : a.toNat < hi) :
    Writes lo hi m (m.store8 a v) := by
  refine ⟨⟨[a], rfl, by simp [h, h']⟩, fun b hb => store8_bytes_ne m v ?_⟩
  rintro rfl
  exact hb ⟨h, h'⟩

/-- A word outside the interval is kept. -/
theorem load32 (h : Writes lo hi m m') {a : Word} (hout : a.toNat + 4 ≤ lo ∨ hi ≤ a.toNat)
    (hmax : a.toNat + 4 ≤ 2 ^ 32) : m'.load32 a = m.load32 a := by
  rw [← Word.of_toNat a]
  apply load32_congr
  intro i hi
  apply h.frame
  rw [Word.toNat_of (by omega)]
  omega

end Writes

/-- From `m` to `m'` only bytes of a region of any shape were stored to. -/
structure WritesIn (region : Word → Prop) (m m' : Memory) : Prop where
  traced : ∃ new, m'.trace = new ++ m.trace ∧ ∀ a ∈ new, region a
  frame : ∀ a, ¬ region a → m'.bytes a = m.bytes a

namespace WritesIn

variable {region : Word → Prop} {m m' m'' : Memory}

theorem refl (region : Word → Prop) (m : Memory) : WritesIn region m m :=
  ⟨⟨[], rfl, by simp⟩, fun _ _ => rfl⟩

theorem trans (h : WritesIn region m m') (h' : WritesIn region m' m'') :
    WritesIn region m m'' := by
  obtain ⟨new, hnew, hin⟩ := h.traced
  obtain ⟨new', hnew', hin'⟩ := h'.traced
  refine ⟨⟨new' ++ new, by rw [hnew', hnew, List.append_assoc], ?_⟩, ?_⟩
  · intro a ha
    rcases List.mem_append.mp ha with ha | ha
    · exact hin' a ha
    · exact hin a ha
  · intro a ha
    exact (h'.frame a ha).trans (h.frame a ha)

theorem store8 {a : Word} (v : Byte) (h : region a) : WritesIn region m (m.store8 a v) := by
  refine ⟨⟨[a], rfl, by simp [h]⟩, fun b hb => store8_bytes_ne m v ?_⟩
  rintro rfl
  exact hb h

theorem store32 {a : Word} (v : Word) (h : region a) (h1 : region (a + 1)) (h2 : region (a + 2))
    (h3 : region (a + 3)) : WritesIn region m (m.store32 a v) :=
  (((store8 _ h).trans (store8 _ h1)).trans (store8 _ h2)).trans (store8 _ h3)

end WritesIn

theorem Writes.writesIn {lo hi : Nat} {m m' : Memory} (h : Writes lo hi m m')
    {region : Word → Prop} (hin : ∀ a, lo ≤ a.toNat → a.toNat < hi → region a) :
    WritesIn region m m' := by
  obtain ⟨new, hnew, hinterval⟩ := h.traced
  refine ⟨⟨new, hnew, fun a ha => hin a (hinterval a ha).1 (hinterval a ha).2⟩, ?_⟩
  intro a ha
  exact h.frame a fun hout => ha (hin a hout.1 hout.2)

theorem byteAt_store8 (m : Memory) {a b : Nat} (v : Byte) (ha : a < 2 ^ 32) (hb : b < 2 ^ 32) :
    (m.store8 (Word.of a) v).byteAt b = if b = a then v else m.byteAt b := by
  by_cases h : b = a
  · subst h
    simp [byteAt]
  · rw [if_neg h]
    exact store8_bytes_ne m v (fun he => h ((Word.of_inj hb ha).mp he))

theorem byteAt_store16 (m : Memory) {a b : Nat} (v : Half) (ha : a + 2 ≤ 2 ^ 32)
    (hb : b < 2 ^ 32) :
    (m.store16 (Word.of a) v).byteAt b =
      if b = a then v.extractLsb' 0 8 else if b = a + 1 then v.extractLsb' 8 8 else m.byteAt b := by
  have h1 : Word.of a + 1 = Word.of (a + 1) := Word.of_add_of a 1
  rw [store16, h1, byteAt_store8 _ _ (by omega) hb, byteAt_store8 _ _ (by omega) hb]
  by_cases h : b = a
  · rw [if_neg (by omega), if_pos h, if_pos h]
  · rw [if_neg h, if_neg h]

theorem byteAt_store32 (m : Memory) {a b : Nat} (v : Word) (ha : a + 4 ≤ 2 ^ 32)
    (hb : b < 2 ^ 32) :
    (m.store32 (Word.of a) v).byteAt b =
      if a ≤ b ∧ b < a + 4 then v.extractLsb' (8 * (b - a)) 8 else m.byteAt b := by
  have h1 : Word.of a + 1 = Word.of (a + 1) := Word.of_add_of a 1
  have h2 : Word.of a + 2 = Word.of (a + 2) := Word.of_add_of a 2
  have h3 : Word.of a + 3 = Word.of (a + 3) := Word.of_add_of a 3
  rw [store32, h1, h2, h3, byteAt_store8 _ _ (by omega) hb, byteAt_store8 _ _ (by omega) hb,
    byteAt_store8 _ _ (by omega) hb, byteAt_store8 _ _ (by omega) hb]
  by_cases hin : a ≤ b ∧ b < a + 4
  · rw [if_pos hin]
    obtain rfl | rfl | rfl | rfl : b = a ∨ b = a + 1 ∨ b = a + 2 ∨ b = a + 3 := by omega
    all_goals simp
  · rw [if_neg hin, if_neg (by omega), if_neg (by omega), if_neg (by omega), if_neg (by omega)]

/-- The bytes of a loaded word are the memory bytes from its address on. -/
theorem extract_load32 (m : Memory) (a : Nat) {k : Nat} (hk : k < 4) :
    (m.load32 (Word.of a)).extractLsb' (8 * k) 8 = m.byteAt (a + k) := by
  have h1 : Word.of a + 1 = Word.of (a + 1) := Word.of_add_of a 1
  have h2 : Word.of a + 2 = Word.of (a + 2) := Word.of_add_of a 2
  have h3 : Word.of a + 3 = Word.of (a + 3) := Word.of_add_of a 3
  rw [load32, h1, h2, h3]
  obtain rfl | rfl | rfl | rfl : k = 0 ∨ k = 1 ∨ k = 2 ∨ k = 3 := by omega
  · exact BitVec.extractLsb'_append_eq_right
  · refine (BitVec.extractLsb'_append_eq_of_le (by decide)).trans ?_
    exact BitVec.extractLsb'_append_eq_right
  · refine (BitVec.extractLsb'_append_eq_of_le (by decide)).trans ?_
    refine (BitVec.extractLsb'_append_eq_of_le (by decide)).trans ?_
    exact BitVec.extractLsb'_append_eq_right
  · refine (BitVec.extractLsb'_append_eq_of_le (by decide)).trans ?_
    refine (BitVec.extractLsb'_append_eq_of_le (by decide)).trans ?_
    exact BitVec.extractLsb'_append_eq_left

/-- `rep movsl` for `n` dwords with both pointers stepping by `d`: 4 with the
direction flag clear, -4 with it set. Returns the memory and the final `edi`. -/
def repMovsl (d : Word) : Nat → Word → Word → Memory → Memory × Word
  | 0, _, edi, m => (m, edi)
  | n + 1, esi, edi, m => repMovsl d n (esi + d) (edi + d) (m.store32 edi (m.load32 esi))

/-- `rep stosw` for `n` words, the pointer stepping by `d`. -/
def repStosw (d : Word) (ax : Half) : Nat → Word → Memory → Memory
  | 0, _, m => m
  | n + 1, edi, m => repStosw d ax n (edi + d) (m.store16 edi ax)

/-- `rep stosb` for `n` bytes, the pointer stepping by `d`. -/
def repStosb (d : Word) (al : Byte) : Nat → Word → Memory → Memory
  | 0, _, m => m
  | n + 1, edi, m => repStosb d al n (edi + d) (m.store8 edi al)

theorem repMovsl_edi (d : Word) (n : Nat) (esi edi : Word) (m : Memory) :
    (repMovsl d n esi edi m).2 = edi + Word.of n * d := by
  induction n generalizing esi edi m with
  | zero => simp [repMovsl]
  | succ n ih =>
      rw [repMovsl, ih, ← Word.of_add_of, BitVec.add_mul]
      rw [BitVec.add_assoc, BitVec.add_comm d, BitVec.one_mul]

theorem repMovsl_up_edi (n : Nat) (esi : Word) (dst : Nat) (m : Memory) :
    (repMovsl 4 n esi (Word.of dst) m).2 = Word.of (dst + 4 * n) := by
  have hfour : (4 : Word) = Word.of 4 := rfl
  rw [repMovsl_edi, hfour, Word.of_mul_of, Word.of_add_of, Nat.mul_comm]

/-- A descending copy leaves `edi` four bytes below the lowest dword it stored. -/
theorem repMovsl_down_edi (n : Nat) (esi : Word) (dst : Nat) (m : Memory) :
    (repMovsl (-4) n esi (Word.of (dst + 4 * n) - 4) m).2 = Word.of dst - 4 := by
  rw [repMovsl_edi, ← Word.of_add_of, ← Word.of_mul_of]
  grind

/-- One dword of an ascending copy, seen as bytes. -/
private theorem byteAt_copy32 (m : Memory) {src dst b : Nat}
    (hd : dst + 4 ≤ 2 ^ 32) (hb : b < 2 ^ 32) :
    (m.store32 (Word.of dst) (m.load32 (Word.of src))).byteAt b =
      if dst ≤ b ∧ b < dst + 4 then m.byteAt (b - dst + src) else m.byteAt b := by
  rw [byteAt_store32 m _ hd hb]
  split
  · rw [extract_load32 m src (by omega), Nat.add_comm src]
  · rfl

/-- An ascending copy to a lower or equal address moves the whole block, even
when source and destination overlap. -/
theorem byteAt_repMovsl_up (n : Nat) {src dst : Nat} (m : Memory) {b : Nat}
    (hle : dst ≤ src) (hs : src + 4 * n ≤ 2 ^ 32) (hb : b < 2 ^ 32) :
    (repMovsl 4 n (Word.of src) (Word.of dst) m).1.byteAt b =
      if dst ≤ b ∧ b < dst + 4 * n then m.byteAt (b - dst + src) else m.byteAt b := by
  induction n generalizing src dst m with
  | zero => rw [repMovsl, if_neg (by omega)]
  | succ n ih =>
      have hsrc : Word.of src + 4 = Word.of (src + 4) := Word.of_add_of src 4
      have hdst : Word.of dst + 4 = Word.of (dst + 4) := Word.of_add_of dst 4
      rw [repMovsl, hsrc, hdst, ih _ (by omega) (by omega)]
      by_cases hrest : dst + 4 ≤ b ∧ b < dst + 4 + 4 * n
      · -- the later turns read above the dword just stored
        rw [if_pos hrest, if_pos (by omega), byteAt_copy32 m (by omega) (by omega),
          if_neg (by omega)]
        congr 1
        omega
      · rw [if_neg hrest, byteAt_copy32 m (by omega) hb]
        by_cases hfirst : dst ≤ b ∧ b < dst + 4
        · rw [if_pos hfirst, if_pos (by omega)]
        · rw [if_neg hfirst, if_neg (by omega)]

private theorem of_add_four_sub (a : Nat) : Word.of (a + 4) - 4 = Word.of a := by
  rw [← Word.of_add_of]
  exact BitVec.add_sub_cancel ..

/-- A descending copy to a higher or equal address: the pointers start at the
last dword, and the block moves upwards even when the two ranges overlap. -/
theorem byteAt_repMovsl_down (n : Nat) {src dst : Nat} (m : Memory) {b : Nat}
    (hle : src ≤ dst) (hd : dst + 4 * n ≤ 2 ^ 32) (hb : b < 2 ^ 32) :
    (repMovsl (-4) n (Word.of (src + 4 * n) - 4) (Word.of (dst + 4 * n) - 4) m).1.byteAt b =
      if dst ≤ b ∧ b < dst + 4 * n then m.byteAt (b - dst + src) else m.byteAt b := by
  induction n generalizing m with
  | zero => rw [repMovsl, if_neg (by omega)]
  | succ n ih =>
      have hsrc : Word.of (src + 4 * (n + 1)) - 4 = Word.of (src + 4 * n) := of_add_four_sub _
      have hdst : Word.of (dst + 4 * (n + 1)) - 4 = Word.of (dst + 4 * n) := of_add_four_sub _
      rw [repMovsl, hsrc, hdst, ← BitVec.sub_eq_add_neg, ← BitVec.sub_eq_add_neg,
        ih _ (by omega)]
      by_cases hrest : dst ≤ b ∧ b < dst + 4 * n
      · rw [if_pos hrest, if_pos (by omega), byteAt_copy32 m (by omega) (by omega),
          if_neg (by omega)]
      · rw [if_neg hrest, byteAt_copy32 m (by omega) hb]
        by_cases hlast : dst + 4 * n ≤ b ∧ b < dst + 4 * n + 4
        · rw [if_pos hlast, if_pos (by omega)]
          congr 1
          omega
        · rw [if_neg hlast, if_neg (by omega)]

/-- An ascending fill stores the low byte at even and the high byte at odd
distances from its start. -/
theorem byteAt_repStosw_up (ax : Half) (n : Nat) {dst : Nat} (m : Memory) {b : Nat}
    (hd : dst + 2 * n ≤ 2 ^ 32) (hb : b < 2 ^ 32) :
    (repStosw 2 ax n (Word.of dst) m).byteAt b =
      if dst ≤ b ∧ b < dst + 2 * n then
        (if (b - dst) % 2 = 0 then ax.extractLsb' 0 8 else ax.extractLsb' 8 8)
      else m.byteAt b := by
  induction n generalizing dst m with
  | zero => rw [repStosw, if_neg (by omega)]
  | succ n ih =>
      have hdst : Word.of dst + 2 = Word.of (dst + 2) := Word.of_add_of dst 2
      rw [repStosw, hdst, ih _ (by omega), byteAt_store16 m ax (by omega) hb]
      by_cases hrest : dst + 2 ≤ b ∧ b < dst + 2 + 2 * n
      · have hparity : (b - (dst + 2)) % 2 = (b - dst) % 2 := by omega
        have hin : dst ≤ b ∧ b < dst + 2 * (n + 1) := by omega
        rw [if_pos hrest, if_pos hin, hparity]
      · rw [if_neg hrest]
        by_cases h0 : b = dst
        · rw [if_pos h0, if_pos (by omega), if_pos (by omega)]
        · rw [if_neg h0]
          by_cases h1 : b = dst + 1
          · rw [if_pos h1, if_pos (by omega), if_neg (by omega)]
          · rw [if_neg h1, if_neg (by omega)]

private theorem of_add_two_sub (a : Nat) : Word.of (a + 2) - 2 = Word.of a := by
  rw [← Word.of_add_of]
  exact BitVec.add_sub_cancel ..

/-- A descending fill covers the same cells from the last one down. -/
theorem byteAt_repStosw_down (ax : Half) (n : Nat) {dst : Nat} (m : Memory) {b : Nat}
    (hd : dst + 2 * n ≤ 2 ^ 32) (hb : b < 2 ^ 32) :
    (repStosw (-2) ax n (Word.of (dst + 2 * n) - 2) m).byteAt b =
      if dst ≤ b ∧ b < dst + 2 * n then
        (if (b - dst) % 2 = 0 then ax.extractLsb' 0 8 else ax.extractLsb' 8 8)
      else m.byteAt b := by
  induction n generalizing m with
  | zero => rw [repStosw, if_neg (by omega)]
  | succ n ih =>
      have hdst : Word.of (dst + 2 * (n + 1)) - 2 = Word.of (dst + 2 * n) := of_add_two_sub _
      rw [repStosw, hdst, ← BitVec.sub_eq_add_neg, ih _ (by omega),
        byteAt_store16 m ax (by omega) hb]
      by_cases hrest : dst ≤ b ∧ b < dst + 2 * n
      · have hin : dst ≤ b ∧ b < dst + 2 * (n + 1) := by omega
        rw [if_pos hrest, if_pos hin]
      · rw [if_neg hrest]
        by_cases h0 : b = dst + 2 * n
        · rw [if_pos h0, if_pos (by omega), if_pos (by omega)]
        · rw [if_neg h0]
          by_cases h1 : b = dst + 2 * n + 1
          · rw [if_pos h1, if_pos (by omega), if_neg (by omega)]
          · rw [if_neg h1, if_neg (by omega)]

theorem byteAt_repStosb_up (al : Byte) (n : Nat) {dst : Nat} (m : Memory) {b : Nat}
    (hd : dst + n ≤ 2 ^ 32) (hb : b < 2 ^ 32) :
    (repStosb 1 al n (Word.of dst) m).byteAt b =
      if dst ≤ b ∧ b < dst + n then al else m.byteAt b := by
  induction n generalizing dst m with
  | zero => rw [repStosb, if_neg (by omega)]
  | succ n ih =>
      have hdst : Word.of dst + 1 = Word.of (dst + 1) := Word.of_add_of dst 1
      rw [repStosb, hdst, ih _ (by omega), byteAt_store8 m al (by omega) hb]
      by_cases hrest : dst + 1 ≤ b ∧ b < dst + 1 + n
      · rw [if_pos hrest, if_pos (by omega)]
      · rw [if_neg hrest]
        by_cases h0 : b = dst
        · rw [if_pos h0, if_pos (by omega)]
        · rw [if_neg h0, if_neg (by omega)]

/-! ## Character cells

A cell is the 16-bit word at an address. Copies and fills by whole cells are
determined by the bytes they move, so the byte laws above give the cell laws. -/

/-- The 16-bit cell at a natural address. -/
def cell (m : Memory) (a : Nat) : Half := m.byteAt (a + 1) ++ m.byteAt a

theorem cell_congr {m m' : Memory} {a b : Nat} (h0 : m'.byteAt b = m.byteAt a)
    (h1 : m'.byteAt (b + 1) = m.byteAt (a + 1)) : m'.cell b = m.cell a := by
  rw [cell, cell, h0, h1]

private theorem half_append_self (v : Half) :
    (v.extractLsb' 8 8 ++ v.extractLsb' 0 8 : Half) = v :=
  BitVec.extractLsb'_append_extractLsb'

theorem cell_store16_same (m : Memory) {a : Nat} (v : Half) (ha : a + 2 ≤ 2 ^ 32) :
    (m.store16 (Word.of a) v).cell a = v := by
  rw [cell, byteAt_store16 m v ha (by omega), byteAt_store16 m v ha (by omega),
    if_neg (by omega), if_pos rfl, if_pos rfl, half_append_self]

theorem load16_store16_same (m : Memory) {a : Nat} (v : Half) (ha : a + 2 ≤ 2 ^ 32) :
    (m.store16 (Word.of a) v).load16 (Word.of a) = v := by
  rw [load16, show Word.of a + 1 = Word.of (a + 1) from Word.of_add_of a 1]
  exact cell_store16_same m v ha

theorem cell_store16_of_le (m : Memory) {a b : Nat} (v : Half) (ha : a + 2 ≤ 2 ^ 32)
    (hb : b + 2 ≤ 2 ^ 32) (h : b + 2 ≤ a ∨ a + 2 ≤ b) :
    (m.store16 (Word.of a) v).cell b = m.cell b := by
  apply cell_congr
  all_goals rw [byteAt_store16 m v ha (by omega), if_neg (by omega), if_neg (by omega)]

theorem cell_repMovsl_up (n : Nat) {src dst : Nat} (m : Memory) {b : Nat}
    (hle : dst ≤ src) (hs : src + 4 * n ≤ 2 ^ 32) (hb : dst ≤ b ∧ b + 2 ≤ dst + 4 * n) :
    (repMovsl 4 n (Word.of src) (Word.of dst) m).1.cell b =
      m.cell (b - dst + src) := by
  apply cell_congr
  · rw [byteAt_repMovsl_up n m hle hs (by omega), if_pos (by omega)]
  · rw [byteAt_repMovsl_up n m hle hs (by omega), if_pos (by omega)]
    congr 1
    omega

theorem cell_repStosw_up (ax : Half) (n : Nat) {dst : Nat} (m : Memory) {i : Nat}
    (hd : dst + 2 * n ≤ 2 ^ 32) (hi : i < n) :
    (repStosw 2 ax n (Word.of dst) m).cell (dst + 2 * i) = ax := by
  rw [cell, byteAt_repStosw_up ax n m hd (by omega), byteAt_repStosw_up ax n m hd (by omega),
    if_pos (by omega), if_neg (by omega), if_pos (by omega), if_pos (by omega), half_append_self]

theorem cell_repStosw_up_of_le (ax : Half) (n : Nat) {dst : Nat} (m : Memory) {b : Nat}
    (hd : dst + 2 * n ≤ 2 ^ 32) (hb : b + 2 ≤ 2 ^ 32) (h : b + 2 ≤ dst ∨ dst + 2 * n ≤ b) :
    (repStosw 2 ax n (Word.of dst) m).cell b = m.cell b := by
  apply cell_congr
  all_goals rw [byteAt_repStosw_up ax n m hd (by omega), if_neg (by omega)]

theorem cell_repMovsl_up_of_le (n : Nat) {src dst : Nat} (m : Memory) {b : Nat}
    (hle : dst ≤ src) (hs : src + 4 * n ≤ 2 ^ 32) (hb : b + 2 ≤ 2 ^ 32)
    (h : b + 2 ≤ dst ∨ dst + 4 * n ≤ b) :
    (repMovsl 4 n (Word.of src) (Word.of dst) m).1.cell b = m.cell b := by
  apply cell_congr
  all_goals rw [byteAt_repMovsl_up n m hle hs (by omega), if_neg (by omega)]

theorem cell_repMovsl_down (n : Nat) {src dst : Nat} (m : Memory) {b : Nat}
    (hle : src ≤ dst) (hd : dst + 4 * n ≤ 2 ^ 32) (hb : dst ≤ b ∧ b + 2 ≤ dst + 4 * n) :
    (repMovsl (-4) n (Word.of (src + 4 * n) - 4) (Word.of (dst + 4 * n) - 4) m).1.cell b =
      m.cell (b - dst + src) := by
  apply cell_congr
  · rw [byteAt_repMovsl_down n m hle hd (by omega), if_pos (by omega)]
  · rw [byteAt_repMovsl_down n m hle hd (by omega), if_pos (by omega)]
    congr 1
    omega

theorem cell_repMovsl_down_of_le (n : Nat) {src dst : Nat} (m : Memory) {b : Nat}
    (hle : src ≤ dst) (hd : dst + 4 * n ≤ 2 ^ 32) (hb : b + 2 ≤ 2 ^ 32)
    (h : b + 2 ≤ dst ∨ dst + 4 * n ≤ b) :
    (repMovsl (-4) n (Word.of (src + 4 * n) - 4) (Word.of (dst + 4 * n) - 4) m).1.cell b =
      m.cell b := by
  apply cell_congr
  all_goals rw [byteAt_repMovsl_down n m hle hd (by omega), if_neg (by omega)]

theorem cell_repStosw_down (ax : Half) (n : Nat) {dst : Nat} (m : Memory) {i : Nat}
    (hd : dst + 2 * n ≤ 2 ^ 32) (hi : i < n) :
    (repStosw (-2) ax n (Word.of (dst + 2 * n) - 2) m).cell (dst + 2 * i) = ax := by
  rw [cell, byteAt_repStosw_down ax n m hd (by omega), byteAt_repStosw_down ax n m hd (by omega),
    if_pos (by omega), if_neg (by omega), if_pos (by omega), if_pos (by omega), half_append_self]

theorem cell_repStosw_down_of_le (ax : Half) (n : Nat) {dst : Nat} (m : Memory) {b : Nat}
    (hd : dst + 2 * n ≤ 2 ^ 32) (hb : b + 2 ≤ 2 ^ 32) (h : b + 2 ≤ dst ∨ dst + 2 * n ≤ b) :
    (repStosw (-2) ax n (Word.of (dst + 2 * n) - 2) m).cell b = m.cell b := by
  apply cell_congr
  all_goals rw [byteAt_repStosw_down ax n m hd (by omega), if_neg (by omega)]

/-! ## Footprints of the string instructions -/

namespace Writes

variable {lo hi : Nat} {m : Memory}

theorem store16 {a : Nat} (v : Half) (h : lo ≤ a) (h' : a + 2 ≤ hi) (hhi : hi ≤ 2 ^ 32) :
    Writes lo hi m (m.store16 (Word.of a) v) := by
  have h1 : Word.of a + 1 = Word.of (a + 1) := Word.of_add_of a 1
  have hn0 : (Word.of a).toNat = a := Word.toNat_of (by omega)
  have hn1 : (Word.of (a + 1)).toNat = a + 1 := Word.toNat_of (by omega)
  rw [Memory.store16, h1]
  exact (store8 _ (by omega) (by omega)).trans (store8 _ (by omega) (by omega))

theorem store32 {a : Nat} (v : Word) (h : lo ≤ a) (h' : a + 4 ≤ hi) (hhi : hi ≤ 2 ^ 32) :
    Writes lo hi m (m.store32 (Word.of a) v) := by
  have h1 : Word.of a + 1 = Word.of (a + 1) := Word.of_add_of a 1
  have h2 : Word.of a + 2 = Word.of (a + 2) := Word.of_add_of a 2
  have h3 : Word.of a + 3 = Word.of (a + 3) := Word.of_add_of a 3
  have hn0 : (Word.of a).toNat = a := Word.toNat_of (by omega)
  have hn1 : (Word.of (a + 1)).toNat = a + 1 := Word.toNat_of (by omega)
  have hn2 : (Word.of (a + 2)).toNat = a + 2 := Word.toNat_of (by omega)
  have hn3 : (Word.of (a + 3)).toNat = a + 3 := Word.toNat_of (by omega)
  rw [Memory.store32, h1, h2, h3]
  exact (((store8 _ (by omega) (by omega)).trans (store8 _ (by omega) (by omega))).trans
    (store8 _ (by omega) (by omega))).trans (store8 _ (by omega) (by omega))

theorem repMovsl_up (src n : Nat) {dst : Nat} (h : lo ≤ dst) (h' : dst + 4 * n ≤ hi)
    (hhi : hi ≤ 2 ^ 32) :
    Writes lo hi m (repMovsl 4 n (Word.of src) (Word.of dst) m).1 := by
  induction n generalizing src dst m with
  | zero => exact refl lo hi m
  | succ n ih =>
      have hsrc : Word.of src + 4 = Word.of (src + 4) := Word.of_add_of src 4
      have hdst : Word.of dst + 4 = Word.of (dst + 4) := Word.of_add_of dst 4
      rw [repMovsl, hsrc, hdst]
      exact (store32 _ h (by omega) hhi).trans (ih _ (by omega) (by omega))

theorem repMovsl_down (n : Nat) {src dst : Nat} (h : lo ≤ dst) (h' : dst + 4 * n ≤ hi)
    (hhi : hi ≤ 2 ^ 32) :
    Writes lo hi m (repMovsl (-4) n (Word.of (src + 4 * n) - 4)
      (Word.of (dst + 4 * n) - 4) m).1 := by
  induction n generalizing m with
  | zero => exact refl lo hi m
  | succ n ih =>
      have hsrc : Word.of (src + 4 * (n + 1)) - 4 = Word.of (src + 4 * n) := of_add_four_sub _
      have hdst : Word.of (dst + 4 * (n + 1)) - 4 = Word.of (dst + 4 * n) := of_add_four_sub _
      rw [repMovsl, hsrc, hdst, ← BitVec.sub_eq_add_neg, ← BitVec.sub_eq_add_neg]
      exact (store32 _ (by omega) (by omega) hhi).trans (ih (by omega))

theorem repStosb_up (al : Byte) (n : Nat) {dst : Nat} (h : lo ≤ dst) (h' : dst + n ≤ hi)
    (hhi : hi ≤ 2 ^ 32) : Writes lo hi m (repStosb 1 al n (Word.of dst) m) := by
  induction n generalizing dst m with
  | zero => exact refl lo hi m
  | succ n ih =>
      have hdst : Word.of dst + 1 = Word.of (dst + 1) := Word.of_add_of dst 1
      have hn : (Word.of dst).toNat = dst := Word.toNat_of (by omega)
      rw [repStosb, hdst]
      exact (store8 _ (by omega) (by omega)).trans (ih (by omega) (by omega))

theorem repStosw_up (ax : Half) (n : Nat) {dst : Nat} (h : lo ≤ dst) (h' : dst + 2 * n ≤ hi)
    (hhi : hi ≤ 2 ^ 32) : Writes lo hi m (repStosw 2 ax n (Word.of dst) m) := by
  induction n generalizing dst m with
  | zero => exact refl lo hi m
  | succ n ih =>
      have hdst : Word.of dst + 2 = Word.of (dst + 2) := Word.of_add_of dst 2
      rw [repStosw, hdst]
      exact (store16 _ h (by omega) hhi).trans (ih (by omega) (by omega))

theorem repStosw_down (ax : Half) (n : Nat) {dst : Nat} (h : lo ≤ dst)
    (h' : dst + 2 * n ≤ hi) (hhi : hi ≤ 2 ^ 32) :
    Writes lo hi m (repStosw (-2) ax n (Word.of (dst + 2 * n) - 2) m) := by
  induction n generalizing m with
  | zero => exact refl lo hi m
  | succ n ih =>
      have hdst : Word.of (dst + 2 * (n + 1)) - 2 = Word.of (dst + 2 * n) := of_add_two_sub _
      rw [repStosw, hdst, ← BitVec.sub_eq_add_neg]
      exact (store16 _ (by omega) (by omega) hhi).trans (ih (by omega))

end Writes

/-! ## Memories that agree on an interval -/

/-- The bytes of the interval are the same in both memories. -/
def AgreeOn (lo hi : Nat) (m m' : Memory) : Prop :=
  ∀ a : Word, lo ≤ a.toNat → a.toNat < hi → m'.bytes a = m.bytes a

namespace AgreeOn

variable {lo hi : Nat} {m m' m'' : Memory}

theorem symm (h : AgreeOn lo hi m m') : AgreeOn lo hi m' m :=
  fun a hlo hhi => (h a hlo hhi).symm

theorem trans (h : AgreeOn lo hi m m') (h' : AgreeOn lo hi m' m'') : AgreeOn lo hi m m'' :=
  fun a hlo hhi => (h' a hlo hhi).trans (h a hlo hhi)

theorem mono {lo' hi' : Nat} (h : AgreeOn lo hi m m') (hlo : lo ≤ lo') (hhi : hi' ≤ hi) :
    AgreeOn lo' hi' m m' :=
  fun a ha ha' => h a (Nat.le_trans hlo ha) (Nat.lt_of_lt_of_le ha' hhi)

/-- Stores elsewhere do not matter. -/
theorem of_writes {lo' hi' : Nat} (h : Writes lo' hi' m m') (hout : hi' ≤ lo ∨ hi ≤ lo') :
    AgreeOn lo hi m m' := by
  intro a hlo hhi
  exact h.frame a (by omega)

/-- The same byte stored in both, wherever. -/
theorem store8 (h : AgreeOn lo hi m m') (a : Word) (v : Byte) :
    AgreeOn lo hi (m.store8 a v) (m'.store8 a v) := by
  intro b hlo hhi
  by_cases heq : b = a
  · subst heq
    rw [store8_bytes_same, store8_bytes_same]
  · rw [store8_bytes_ne _ _ heq, store8_bytes_ne _ _ heq]
    exact h b hlo hhi

theorem store16 (h : AgreeOn lo hi m m') (a : Word) (v : Half) :
    AgreeOn lo hi (m.store16 a v) (m'.store16 a v) :=
  (h.store8 a _).store8 (a + 1) _

theorem store32 (h : AgreeOn lo hi m m') (a v : Word) :
    AgreeOn lo hi (m.store32 a v) (m'.store32 a v) :=
  (((h.store8 a _).store8 (a + 1) _).store8 (a + 2) _).store8 (a + 3) _

theorem load32 (h : AgreeOn lo hi m m') {a : Nat} (hlo : lo ≤ a) (hhi : a + 4 ≤ hi)
    (hmax : hi ≤ 2 ^ 32) : m'.load32 (Word.of a) = m.load32 (Word.of a) := by
  have hbyte : ∀ i, i < 4 → m'.bytes (Word.of (a + i)) = m.bytes (Word.of (a + i)) := by
    intro i hi
    exact h _ (by rw [Word.toNat_of (by omega)]; omega) (by rw [Word.toNat_of (by omega)]; omega)
  have h0 : m'.bytes (Word.of a) = m.bytes (Word.of a) := hbyte 0 (by decide)
  have h1 : m'.bytes (Word.of a + 1) = m.bytes (Word.of a + 1) := by
    rw [show Word.of a + 1 = Word.of (a + 1) from Word.of_add_of a 1]
    exact hbyte 1 (by decide)
  have h2 : m'.bytes (Word.of a + 2) = m.bytes (Word.of a + 2) := by
    rw [show Word.of a + 2 = Word.of (a + 2) from Word.of_add_of a 2]
    exact hbyte 2 (by decide)
  have h3 : m'.bytes (Word.of a + 3) = m.bytes (Word.of a + 3) := by
    rw [show Word.of a + 3 = Word.of (a + 3) from Word.of_add_of a 3]
    exact hbyte 3 (by decide)
  simp only [Memory.load32, h0, h1, h2, h3]

theorem load16 (h : AgreeOn lo hi m m') {a : Nat} (hlo : lo ≤ a) (hhi : a + 2 ≤ hi)
    (hmax : hi ≤ 2 ^ 32) : m'.load16 (Word.of a) = m.load16 (Word.of a) := by
  have hfirst : (Word.of a).toNat = a := Word.toNat_of (by omega)
  have hsecond : (Word.of (a + 1)).toNat = a + 1 := Word.toNat_of (by omega)
  rw [Memory.load16, Memory.load16, show Word.of a + 1 = Word.of (a + 1) from Word.of_add_of a 1,
    h (Word.of a) (by omega) (by omega), h (Word.of (a + 1)) (by omega) (by omega)]

theorem repStosw (h : AgreeOn lo hi m m') (d : Word) (ax : Half) (n : Nat) (edi : Word) :
    AgreeOn lo hi (repStosw d ax n edi m) (repStosw d ax n edi m') := by
  induction n generalizing edi m m' with
  | zero => exact h
  | succ n ih => exact ih (h.store16 edi ax) (edi + d)

/-- A copy whose source lies in the interval. -/
theorem repMovsl_up (h : AgreeOn lo hi m m') (n : Nat) {src : Nat} (edi : Word)
    (hlo : lo ≤ src) (hhi : src + 4 * n ≤ hi) (hmax : hi ≤ 2 ^ 32) :
    AgreeOn lo hi (repMovsl 4 n (Word.of src) edi m).1
      (repMovsl 4 n (Word.of src) edi m').1 := by
  induction n generalizing src edi m m' with
  | zero => exact h
  | succ n ih =>
      have hsrc : Word.of src + 4 = Word.of (src + 4) := Word.of_add_of src 4
      rw [repMovsl, repMovsl, hsrc, h.load32 hlo (by omega) hmax]
      exact ih (h.store32 edi _) (edi + 4) (by omega) (by omega)

end AgreeOn

end Memory

/-! ## Byte strings -/

/-- The `n` bytes from address `a` on. -/
def bytesFrom (f : Word → Byte) (a : Word) : Nat → List Byte
  | 0 => []
  | n + 1 => f a :: bytesFrom f (a + 1) n

@[simp] theorem length_bytesFrom (f : Word → Byte) (a : Word) (n : Nat) :
    (bytesFrom f a n).length = n := by
  induction n generalizing a with
  | zero => rfl
  | succ n ih => rw [bytesFrom, List.length_cons, ih]

theorem bytesFrom_add (f : Word → Byte) (a : Word) (m n : Nat) :
    bytesFrom f a (m + n) = bytesFrom f a m ++ bytesFrom f (a + Word.of m) n := by
  induction m generalizing a with
  | zero => simp [bytesFrom]
  | succ m ih =>
      have haddr : a + 1 + Word.of m = a + Word.of (m + 1) := by
        rw [← Word.of_add_of, BitVec.add_assoc, BitVec.add_comm (Word.of m)]
        rfl
      rw [Nat.succ_add, bytesFrom, ih, haddr, bytesFrom, List.cons_append]

namespace Memory

/-- `*str++ = b` for the bytes of a text, with the pointer it leaves. -/
def storeBytes : List Byte → Word → Memory → Memory × Word
  | [], str, m => (m, str)
  | b :: text, str, m => storeBytes text (str + 1) (m.store8 str b)

theorem storeBytes_str (text : List Byte) (str : Word) (m : Memory) :
    (storeBytes text str m).2 = str + Word.of text.length := by
  induction text generalizing str m with
  | nil => exact (BitVec.add_zero str).symm
  | cons b text ih =>
      rw [storeBytes, ih, List.length_cons, ← Word.of_add_of, BitVec.add_assoc,
        BitVec.add_comm 1]
      rfl

theorem storeBytes_frame {text : List Byte} {str a : Word} (m : Memory)
    (h : text.length ≤ (a - str).toNat) : (storeBytes text str m).1.bytes a = m.bytes a := by
  induction text generalizing str m with
  | nil => rfl
  | cons b text ih =>
      rw [List.length_cons] at h
      have hne : a ≠ str := by
        rintro rfl
        rw [BitVec.sub_self] at h
        exact absurd h (Nat.not_succ_le_zero _)
      rw [storeBytes, ih _ (by bv_omega), store8_bytes_ne _ _ hne]

/-- The text stands in memory unless it wraps onto itself. -/
theorem bytesFrom_storeBytes {text : List Byte} (str : Word) (m : Memory)
    (h : text.length ≤ 2 ^ 32) :
    bytesFrom (storeBytes text str m).1.bytes str text.length = text := by
  induction text generalizing str m with
  | nil => rfl
  | cons b text ih =>
      rw [List.length_cons] at h
      have hback : (str - (str + 1)).toNat = 2 ^ 32 - 1 := by bv_omega
      rw [storeBytes, List.length_cons, bytesFrom, ih _ _ (by omega),
        storeBytes_frame _ (by omega), store8_bytes_same]

/-! ## Words one after the other -/

/-- Words stored upwards from `a`. -/
def storeWords : List Half → Nat → Memory → Memory
  | [], _, m => m
  | w :: ws, a, m => storeWords ws (a + 2) (m.store16 (Word.of a) w)

theorem Writes.storeWords {lo hi a : Nat} {m : Memory} (ws : List Half) (hlo : lo ≤ a)
    (hhi : a + 2 * ws.length ≤ hi) (hmax : hi ≤ 2 ^ 32) :
    Writes lo hi m (storeWords ws a m) := by
  induction ws generalizing a m with
  | nil => exact .refl lo hi m
  | cons w ws ih =>
      rw [List.length_cons] at hhi
      exact (Writes.store16 w hlo (by omega) hmax).trans (ih (by omega) (by omega))

/-- The bytes of words that a function gives, low bytes first. -/
theorem byteAt_storeWords {f : Nat → Byte} {ws : List Half} {a : Nat} (m : Memory)
    (hws : ∀ (k : Nat) (w : Half), ws[k]? = some w → w = f (2 * k + 1) ++ f (2 * k))
    (hmax : a + 2 * ws.length ≤ 2 ^ 32) {j : Nat} (hj : j < 2 * ws.length) :
    (storeWords ws a m).byteAt (a + j) = f j := by
  induction ws generalizing f a m j with
  | nil => exact absurd hj (Nat.not_lt_zero _)
  | cons w ws ih =>
      rw [List.length_cons] at hmax hj
      have hfirst : w = f 1 ++ f 0 := hws 0 w rfl
      rw [storeWords]
      rcases Nat.lt_or_ge j 2 with hlt | hge
      · have hkept := (Writes.storeWords (m := m.store16 (Word.of a) w) ws (Nat.le_refl (a + 2))
          (Nat.le_refl _) (by omega)).frame (Word.of (a + j))
            (by rw [Word.toNat_of (by omega)]; omega)
        refine hkept.trans ?_
        refine (byteAt_store16 m w (by omega) (by omega)).trans ?_
        rw [hfirst]
        obtain rfl | rfl : j = 0 ∨ j = 1 := by omega
        · rw [if_pos (Nat.add_zero a)]
          exact BitVec.extractLsb'_append_eq_right
        · rw [if_neg (by omega), if_pos rfl]
          exact BitVec.extractLsb'_append_eq_left
      · have hback : a + j = a + 2 + (j - 2) := by omega
        have hindex : j - 2 + 2 = j := by omega
        rw [hback, ih (f := fun i => f (i + 2)) _ ?_ (by omega) (by omega), hindex]
        intro k v hk
        exact hws (k + 1) v hk

/-! ## How many bytes are stored -/

theorem length_store16 (m : Memory) (a : Word) (v : Half) :
    (m.store16 a v).trace.length = m.trace.length + 2 := rfl

theorem length_repMovsl (d : Word) (n : Nat) (esi edi : Word) (m : Memory) :
    (repMovsl d n esi edi m).1.trace.length = m.trace.length + 4 * n := by
  induction n generalizing esi edi m with
  | zero => rfl
  | succ n ih =>
      have hstore : (m.store32 edi (m.load32 esi)).trace.length = m.trace.length + 4 := rfl
      rw [repMovsl, ih, hstore]
      omega

theorem length_repStosw (d : Word) (ax : Half) (n : Nat) (edi : Word) (m : Memory) :
    (repStosw d ax n edi m).trace.length = m.trace.length + 2 * n := by
  induction n generalizing edi m with
  | zero => rfl
  | succ n ih =>
      rw [repStosw, ih, length_store16]
      omega

end Memory

end Machine
