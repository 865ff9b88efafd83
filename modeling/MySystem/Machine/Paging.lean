import MySystem.Machine.Memory

/-!
# Two-level paging

The walk a 32-bit processor makes through a page directory and a page table, and
the entries that make it the identity.
-/

namespace Machine

namespace Word

variable {a n : Nat}

theorem of_shiftLeft (a n : Nat) : of a <<< n = of (2 ^ n * a) := by
  apply BitVec.eq_of_toNat_eq
  rw [BitVec.toNat_shiftLeft, BitVec.toNat_ofNat, BitVec.toNat_ofNat, Nat.shiftLeft_eq,
    Nat.mod_mul_mod, Nat.mul_comm]

theorem of_and_mask (ha : a < 2 ^ 32) (hn : n ≤ 32) :
    of a &&& of (2 ^ n - 1) = of (a % 2 ^ n) := by
  have hpow : 2 ^ n ≤ 2 ^ 32 := Nat.pow_le_pow_right (by decide) hn
  have hpos : 0 < 2 ^ n := Nat.two_pow_pos n
  have hle := Nat.mod_le a (2 ^ n)
  apply BitVec.eq_of_toNat_eq
  rw [BitVec.toNat_and, toNat_of ha, toNat_of (by omega), toNat_of (by omega)]
  exact Nat.and_two_pow_sub_one_eq_mod a n

end Word

namespace Memory

/-- The page an entry or CR3 points to. -/
def pageFrame (entry : Word) : Word := (entry >>> 12) <<< 12

def present (entry : Word) : Bool := entry.getLsbD 0

def writable (entry : Word) : Bool := entry.getLsbD 1

def user (entry : Word) : Bool := entry.getLsbD 2

/-- The entry of the page directory for a linear address. -/
def directoryEntry (m : Memory) (cr3 a : Word) : Word :=
  m.load32 (pageFrame cr3 + (a >>> 22) <<< 2)

/-- The entry of a page table for a linear address. -/
def tableEntry (m : Memory) (pde a : Word) : Word :=
  m.load32 (pageFrame pde + ((a >>> 12) &&& 0x3ff) <<< 2)

/-- The physical address for a linear one, and whether it may be written to and
reached from user mode. -/
def translate (m : Memory) (cr3 a : Word) : Option (Word × Bool × Bool) :=
  let pde := m.directoryEntry cr3 a
  if present pde then
    let pte := m.tableEntry pde a
    if present pte then
      some (pageFrame pte + (a &&& 0xfff), writable pde && writable pte, user pde && user pte)
    else none
  else none

/-! ## Entries -/

theorem pageFrame_of {p f : Nat} (hf : f < 0x1000) (h : 0x1000 * p + f < 2 ^ 32) :
    pageFrame (Word.of (0x1000 * p + f)) = Word.of (0x1000 * p) := by
  have hdiv : (0x1000 * p + f) / 2 ^ 12 = p := by omega
  rw [pageFrame, Word.of_shiftRight h, hdiv, Word.of_shiftLeft]
  rfl

theorem getLsbD_entry {p i : Nat} (hi : i < 3) : (Word.of (0x1000 * p + 7)).getLsbD i = true := by
  have hlt : i < 32 := Nat.lt_trans hi (by decide)
  rw [BitVec.getLsbD_ofNat, decide_eq_true hlt, Bool.true_and, Nat.testBit_eq_decide_div_mod_eq]
  obtain rfl | rfl | rfl : i = 0 ∨ i = 1 ∨ i = 2 := by omega
  all_goals
    apply decide_eq_true
    omega

/-- The entry of a present page that user code may write to. -/
theorem entry_flags (p : Nat) :
    present (Word.of (0x1000 * p + 7)) = true ∧ writable (Word.of (0x1000 * p + 7)) = true ∧
      user (Word.of (0x1000 * p + 7)) = true :=
  ⟨getLsbD_entry (by decide), getLsbD_entry (by decide), getLsbD_entry (by decide)⟩

/-- The directory entries of `tables` page tables that follow the directory at
address 0 are present, and the rest of the directory is empty. -/
structure Directory (m : Memory) (tables : Nat) : Prop where
  entry : ∀ i, i < tables → m.load32 (Word.of (4 * i)) = Word.of (0x1000 * (i + 1) + 7)
  empty : ∀ i, tables ≤ i → i < 1024 → m.load32 (Word.of (4 * i)) = 0

/-- The page tables behind the directory map every page to itself. -/
def IdentityTables (m : Memory) (tables : Nat) : Prop :=
  ∀ j, j < 1024 * tables → m.load32 (Word.of (0x1000 + 4 * j)) = Word.of (0x1000 * j + 7)

variable {m : Memory} {tables : Nat}

theorem directoryEntry_zero (a : Nat) (ha : a < 2 ^ 32) :
    m.directoryEntry 0 (Word.of a) = m.load32 (Word.of (4 * (a / 2 ^ 22))) := by
  have hframe : pageFrame 0 = 0 := by decide
  rw [directoryEntry, hframe, Word.of_shiftRight ha, Word.of_shiftLeft]
  congr 1
  exact BitVec.zero_add _

/-- Below the end of the mapped pages the walk is the identity. -/
theorem translate_identity (hdir : m.Directory tables) (htables : m.IdentityTables tables)
    {a : Nat} (ha : a < 2 ^ 22 * tables) (h32 : a < 2 ^ 32) :
    m.translate 0 (Word.of a) = some (Word.of a, true, true) := by
  have hindex : a / 2 ^ 22 < tables := by omega
  obtain ⟨hp, hw, hu⟩ := entry_flags (a / 2 ^ 22 + 1)
  obtain ⟨hp', hw', hu'⟩ := entry_flags (a / 2 ^ 12)
  have hpde : m.directoryEntry 0 (Word.of a) = Word.of (0x1000 * (a / 2 ^ 22 + 1) + 7) := by
    rw [directoryEntry_zero a h32, hdir.entry _ hindex]
  have hpte : m.tableEntry (Word.of (0x1000 * (a / 2 ^ 22 + 1) + 7)) (Word.of a) =
      Word.of (0x1000 * (a / 2 ^ 12) + 7) := by
    have hmask : (0x3ff : Word) = Word.of (2 ^ 10 - 1) := rfl
    have haddr : 0x1000 * (a / 2 ^ 22 + 1) + 2 ^ 2 * (a / 2 ^ 12 % 2 ^ 10) =
        0x1000 + 4 * (a / 2 ^ 12) := by
      omega
    rw [tableEntry, pageFrame_of (by decide) (by omega), Word.of_shiftRight h32, hmask,
      Word.of_and_mask (by omega) (by decide), Word.of_shiftLeft, Word.of_add_of, haddr,
      htables _ (by omega)]
  have hoffset : Word.of a &&& 0xfff = Word.of (a % 2 ^ 12) :=
    Word.of_and_mask (n := 12) h32 (by decide)
  have hback : 0x1000 * (a / 2 ^ 12) + a % 2 ^ 12 = a := by omega
  rw [translate]
  simp only [hpde, hpte, hp, hp', hw, hw', hu, hu', if_true, Bool.and_self]
  rw [pageFrame_of (by decide) (by omega), hoffset, Word.of_add_of, hback]

/-- Beyond it the directory entry is not present. -/
theorem directory_not_present (hdir : m.Directory tables) {a : Nat} (ha : 2 ^ 22 * tables ≤ a)
    (h32 : a < 2 ^ 32) : present (m.directoryEntry 0 (Word.of a)) = false := by
  rw [directoryEntry_zero a h32, hdir.empty _ (by omega) (by omega)]
  rfl

end Memory

end Machine
