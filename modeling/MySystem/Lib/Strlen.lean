import MySystem.Machine.Processor

/-!
# `strlen`

The routine of `lib/string.asm`. It sets up a frame and takes its argument from
the frame pointer itself, where the caller's `ebp` has just been pushed, and it
leaves the scan pointer in `edi`. So it keeps its contract only for a caller
whose `ebp` is the string and whose `edi` is the byte behind it.
-/

namespace MySystem

open Machine

inductive StringLabel where
  | strlen
  deriving DecidableEq

def strlenCode : List (Op StringLabel) := [
  .cld,
  .push .ebp,
  .movEsp .ebp,
  .load .edi .ebp 0,
  .xorAl,
  .movImm .ecx 0xffffffff,
  .repneScasb,
  .not .ecx,
  .dec .ecx,
  .mov .eax .ecx,
  .leave,
  .ret]

def stringAsm : Routines StringLabel where
  code _ := strlenCode
  next l := l

/-- The string at `s` has length `n`. -/
def IsString (m : Memory) (s : Word) (n : Nat) : Prop :=
  (∀ i, i < n → m.bytes (s + Word.of i) ≠ 0) ∧ m.bytes (s + Word.of n) = 0

/-- `strlen(s)` is called on a string of length `n`: the return address is on
top of the stack and the argument above it. -/
structure StrlenCall (s : Word) (n : Nat) (c : Processor) : Prop where
  argument : c.mem.load32 (c.esp + 4) = s
  string : IsString c.mem s n
  lt : n < 2 ^ 32 - 1

/-- What the caller may rely on in the state `r` it gets back. -/
structure StrlenContract (s : Word) (n : Nat) (c r : Processor) : Prop where
  eax : r.eax = Word.of n
  reads : ∃ new, r.scanned = new ++ c.scanned ∧ ∀ a ∈ new, ∃ i, i ≤ n ∧ a = s + Word.of i
  ebx : r.ebx = c.ebx
  esi : r.esi = c.esi
  edi : r.edi = c.edi
  ebp : r.ebp = c.ebp
  esp : r.esp = c.esp + 4
  eip : r.eip = c.top

/-- The memory `strlen` scans, with the caller's `ebp` pushed. -/
def framedMemory (c : Processor) : Memory := c.mem.store32 (c.esp - 4) c.ebp

/-- The first `n` bytes of the string are still no terminator there, and the byte
after them still is. (A scan of `2 ^ 32 - 1` bytes stops by itself.) -/
def StillString (m : Memory) (s : Word) (n : Nat) : Prop :=
  (∀ i, i < n → m.bytes (s + Word.of i) ≠ 0) ∧ (n < 2 ^ 32 - 2 → m.bytes (s + Word.of n) = 0)

/-- `xor al, al` clears `al`. -/
private theorem setWidth_zero_low (v : BitVec 24) :
    (v ++ (0 : Byte) : Word).setWidth 8 = (0 : Byte) := by
  rw [BitVec.setWidth_append, dif_pos (by decide)]
  rfl

/-- The state in which the scan starts. -/
theorem strlen_scan (lay : Layout StringLabel) (c : Processor) :
    ∃ d : Processor,
      stringAsm.exec lay .strlen strlenCode c =
        stringAsm.exec lay .strlen [.not .ecx, .dec .ecx, .mov .eax .ecx, .leave, .ret]
          (d.scan d.ecx.toNat) ∧
      d.direction = false ∧ d.eax.setWidth 8 = (0 : Byte) ∧ d.ecx = 0xffffffff ∧
      d.edi = c.ebp ∧ d.ebx = c.ebx ∧ d.esi = c.esi ∧ d.ebp = c.esp - 4 ∧
      d.mem = framedMemory c ∧ d.scanned = c.scanned := by
  refine ⟨_, rfl, ?_, ?_, rfl, ?_, rfl, rfl, rfl, rfl, rfl⟩
  case refine_1 =>
    refine (Cpu.direction_setStatus _ _).trans ?_
    exact (Cpu.getLsbD_withBit _ _ (by decide)).trans (if_pos rfl)
  case refine_2 =>
    exact setWidth_zero_low _
  case refine_3 =>
    have hframe : c.esp - 4 + 0 = c.esp - 4 := BitVec.add_zero _
    change (framedMemory c).load32 (c.esp - 4 + 0) = c.ebp
    rw [hframe, framedMemory, Memory.load32_store32_same]

/-- What follows the scan: the length from the counter, and the way back. -/
theorem strlen_tail (lay : Layout StringLabel) (d : Processor) :
    ∃ r, stringAsm.exec lay .strlen [.not .ecx, .dec .ecx, .mov .eax .ecx, .leave, .ret] d =
        .goto r ∧
      r.eax = ~~~d.ecx - 1 ∧ r.edi = d.edi ∧ r.scanned = d.scanned ∧ r.ebx = d.ebx ∧
      r.esi = d.esi ∧ r.ebp = d.mem.load32 d.ebp ∧ r.esp = d.ebp + 4 + 4 ∧
      r.eip = d.mem.load32 (d.ebp + 4) :=
  ⟨_, rfl, rfl, rfl, rfl, rfl, rfl, rfl, rfl, rfl⟩

/-- `strlen` returns after comparing `j` bytes from its caller's `ebp` on. -/
theorem strlen_returns (lay : Layout StringLabel) (c : Processor) :
    ∃ j r, stringAsm.exec lay .strlen strlenCode c = .goto r ∧
      0 < j ∧ j ≤ 2 ^ 32 - 1 ∧
      (∀ i, i + 1 < j → (framedMemory c).bytes (c.ebp + Word.of i) ≠ 0) ∧
      (j < 2 ^ 32 - 1 → (framedMemory c).bytes (c.ebp + Word.of (j - 1)) = 0) ∧
      r.eax = Word.of (j - 1) ∧ r.edi = c.ebp + Word.of j ∧
      r.scanned = ((List.range j).map fun i => c.ebp + Word.of i).reverse ++ c.scanned ∧
      r.ebx = c.ebx ∧ r.esi = c.esi ∧ r.ebp = c.ebp ∧ r.esp = c.esp + 4 ∧ r.eip = c.top := by
  obtain ⟨d, hexec, hdirection, hal, hecx, hedi, hebx, hesi, hebp, hmem, hscanned⟩ :=
    strlen_scan lay c
  have hfuel : d.ecx.toNat = 2 ^ 32 - 1 := by
    rw [hecx]
    decide
  generalize d.ecx.toNat = n at hfuel hexec
  obtain ⟨j, eflags, hle, hpos, hbefore, hlast, hscan⟩ := Processor.scan_up hdirection n
  rw [hal, hmem, hedi] at hbefore hlast
  rw [hfuel] at hle hpos hlast
  have hpos : 0 < j := hpos (by decide)
  rw [hscan] at hexec
  obtain ⟨r, hr, heax', hedi', hscanned', hebx', hesi', hebp', hesp', heip'⟩ :=
    strlen_tail lay { d with
      edi := d.edi + Word.of j
      ecx := d.ecx - Word.of j
      scanned := ((List.range j).map fun i => d.edi + Word.of i).reverse ++ d.scanned
      eflags := eflags }
  dsimp only at heax' hedi' hscanned' hebx' hesi' hebp' hesp' heip'
  have hback : c.esp - 4 + 4 = c.esp := BitVec.sub_add_cancel _ _
  refine ⟨j, r, hexec.trans hr, hpos, hle, hbefore, hlast, ?_, by rw [hedi', hedi],
    by rw [hscanned', hedi, hscanned], hebx'.trans hebx, hesi'.trans hesi, ?_, ?_, ?_⟩
  · have hone : Word.of j = Word.of (j - 1) + 1 := by
      refine (congrArg Word.of (Nat.sub_add_cancel hpos)).symm.trans ?_
      exact (Word.of_add_of (j - 1) 1).symm
    rw [heax', hecx, hone]
    generalize Word.of (j - 1) = v
    bv_omega
  · rw [hebp', hmem, hebp, framedMemory, Memory.load32_store32_same]
  · rw [hesp', hebp, hback]
  · rw [heip', hmem, hebp, hback, framedMemory]
    exact Memory.load32_store32_of_le _ _ (by bv_omega) (by bv_omega)

/-! ## The contract -/

/-- Two arcs of `n + 1` bytes, one inside the other, start together. -/
theorem arc_start {a s : Word} {n : Nat} (hn : n < 2 ^ 32 - 1)
    (h : ∀ i, i ≤ n → ∃ i', i' ≤ n ∧ a + Word.of i = s + Word.of i') : a = s := by
  have hdist : ∀ i, i ≤ n → ((a - s).toNat + i) % 2 ^ 32 ≤ n := by
    intro i hi
    obtain ⟨i', hi', heq⟩ := h i hi
    have hsum : a - s + Word.of i = Word.of i' := by
      have : s + Word.of i' - s = Word.of i' := by
        rw [BitVec.add_comm, BitVec.add_sub_cancel]
      rw [← this, ← heq]
      grind
    have hnat := congrArg BitVec.toNat hsum
    rw [BitVec.toNat_add, Word.toNat_of (by omega), Word.toNat_of (by omega)] at hnat
    omega
  have hlt := (a - s).isLt
  have hzero : (a - s).toNat = 0 := by
    by_cases hwrap : 2 ^ 32 - 1 - (a - s).toNat ≤ n
    · -- the byte just below the outer arc would belong to it
      have hbelow := hdist _ hwrap
      omega
    · have hend := hdist n (Nat.le_refl n)
      omega
  have hsub : a - s = 0 := BitVec.eq_of_toNat_eq hzero
  have hback : a - s + s = a := BitVec.sub_add_cancel a s
  rw [hsub] at hback
  exact hback.symm.trans (BitVec.zero_add s)

/-- A call that keeps the contract started at its caller's `ebp`. -/
theorem StrlenContract.start {lay : Layout StringLabel} {s : Word} {n : Nat} {c r : Processor}
    (hn : n < 2 ^ 32 - 1) (hcontract : StrlenContract s n c r)
    (hexec : stringAsm.exec lay .strlen strlenCode c = .goto r) :
    c.ebp = s ∧ c.edi = s + Word.of (n + 1) ∧ StillString (framedMemory c) s n := by
  obtain ⟨j, r', hexec', hpos, hle, hbefore, hlast, heax, hedi, hscanned, -⟩ :=
    strlen_returns lay c
  injection hexec.symm.trans hexec' with hr
  rw [← hr] at heax hedi hscanned
  have hj : j = n + 1 := by
    have heq := (Word.of_inj (by omega) (by omega)).mp (heax.symm.trans hcontract.eax)
    omega
  subst hj
  obtain ⟨new, hnew, hin⟩ := hcontract.reads
  have hreads := List.append_cancel_right (hnew.symm.trans hscanned)
  have hstart : c.ebp = s := by
    apply arc_start hn
    intro i hi
    apply hin
    rw [hreads, List.mem_reverse, List.mem_map]
    exact ⟨i, List.mem_range.mpr (Nat.lt_succ_of_le hi), rfl⟩
  rw [hstart] at hbefore hlast hedi
  refine ⟨hstart, hcontract.edi.symm.trans hedi, ?_, ?_⟩
  · intro i hi
    exact hbefore i (Nat.succ_lt_succ hi)
  · intro hlt
    exact hlast (by omega)

/-- `strlen` keeps its contract exactly for a caller whose `ebp` is the string,
whose `edi` is the byte behind its end, and whose string survives the push of
`ebp`. -/
theorem strlen_contract_iff (lay : Layout StringLabel) {s : Word} {n : Nat} {c : Processor}
    (h : StrlenCall s n c) :
    ∃ r, stringAsm.exec lay .strlen strlenCode c = .goto r ∧
      (StrlenContract s n c r ↔
        c.ebp = s ∧ c.edi = s + Word.of (n + 1) ∧ StillString (framedMemory c) s n) := by
  have hn := h.lt
  obtain ⟨j, r, hexec, hpos, hle, hbefore, hlast, heax, hedi, hscanned, hebx, hesi, hebp, hesp,
    heip⟩ := strlen_returns lay c
  refine ⟨r, hexec, ?_, ?_⟩
  · intro hcontract
    exact hcontract.start hn hexec
  · rintro ⟨hstart, hcaller, hstill, hend⟩
    rw [hstart] at hbefore hlast hedi hscanned
    have hj : j = n + 1 := by
      rcases Nat.lt_trichotomy j (n + 1) with hlt | heq | hgt
      · -- the scan would have stopped at a byte of the string
        exact absurd (hlast (by omega)) (hstill _ (by omega))
      · exact heq
      · exact absurd (hend (by omega)) (hbefore n hgt)
    subst hj
    exact {
      eax := heax
      reads := by
        refine ⟨_, hscanned, fun a ha => ?_⟩
        rw [List.mem_reverse, List.mem_map] at ha
        obtain ⟨i, hi, rfl⟩ := ha
        exact ⟨i, Nat.le_of_lt_succ (List.mem_range.mp hi), rfl⟩
      ebx := hebx
      esi := hesi
      edi := hedi.trans hcaller.symm
      ebp := hebp
      esp := hesp
      eip := heip }

/-! ## Callers -/

def stringLayout : Layout StringLabel where
  addr _ := 0x8000
  label? a := if a = 0x8000 then some .strlen else none
  label_addr l := by
    cases l
    rfl

/-- The one-letter string at 0x1000, and its address at 0x9004. -/
def letterMemory : Memory where
  bytes a := if a = 0x9005 then 0x10 else if a = 0x1000 then ch 'A' else 0
  trace := []

theorem letterMemory_string : IsString letterMemory 0x1000 1 := by
  refine ⟨fun i hi => ?_, by decide⟩
  obtain rfl : i = 0 := Nat.lt_one_iff.mp hi
  decide

/-- A call of `strlen` on it. -/
def strlenCaller (ebp edi : Word) : Processor where
  eax := 0
  ecx := 0
  edx := 0
  ebx := 0
  ebp := ebp
  esi := 0
  edi := edi
  ds := 0x10
  es := 0x10
  fs := 0x10
  esp := 0x9000
  ss := 0x10
  eip := 0x8000
  cs := 8
  eflags := 0
  mem := letterMemory
  ports := []
  cr0 := 0
  cr3 := 0
  gdtr.limit := 0
  gdtr.base := 0
  idtr.limit := 0
  idtr.base := 0
  scanned := []

theorem strlenCaller_call (ebp edi : Word) : StrlenCall 0x1000 1 (strlenCaller ebp edi) where
  argument := by
    show letterMemory.load32 0x9004 = 0x1000
    decide
  string := letterMemory_string
  lt := by decide

/-- A caller that happens to hold the string in `ebp` and its end in `edi`. -/
theorem strlen_contract_held :
    ∃ r, stringAsm.exec stringLayout .strlen strlenCode (strlenCaller 0x1000 0x1002) = .goto r ∧
      StrlenContract 0x1000 1 (strlenCaller 0x1000 0x1002) r := by
  obtain ⟨r, hexec, hiff⟩ := strlen_contract_iff stringLayout (strlenCaller_call 0x1000 0x1002)
  refine ⟨r, hexec, hiff.mpr ⟨rfl, by decide, ?_, fun _ => by decide⟩⟩
  intro i hi
  obtain rfl : i = 0 := Nat.lt_one_iff.mp hi
  decide

/-- A caller with a frame of its own. -/
theorem strlen_contract_broken :
    StrlenCall 0x1000 1 (strlenCaller 0x9020 0) ∧
      ∃ r, stringAsm.exec stringLayout .strlen strlenCode (strlenCaller 0x9020 0) = .goto r ∧
        ¬ StrlenContract 0x1000 1 (strlenCaller 0x9020 0) r := by
  refine ⟨strlenCaller_call 0x9020 0, ?_⟩
  obtain ⟨-, r, hexec, -⟩ := strlen_returns stringLayout (strlenCaller 0x9020 0)
  refine ⟨r, hexec, fun hcontract => ?_⟩
  exact absurd (hcontract.start (by decide) hexec).1 (by decide)

end MySystem
