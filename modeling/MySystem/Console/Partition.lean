import MySystem.Console.Init

/-!
# The partition of the video memory

`con_init` for every screen size the boot parameter block can hold. The screens
are parted as they should be unless one of two roundings goes wrong: a screen
larger than the video memory is still given one console, and six consoles get
shares of an odd number of bytes.
-/

namespace MySystem

open Machine

variable {k k' : Console}

/-- Screens that do not overlap, each inside its own share of the video memory,
at an address the controller can be given. -/
structure Partitioned (k : Console) : Prop where
  one_le : 1 ≤ k.nrConsoles.toNat
  le_max : k.nrConsoles.toNat ≤ maxConsoles
  disjoint : ∀ c d, c < k.nrConsoles.toNat → d < k.nrConsoles.toNat → c ≠ d →
    (k.vcCons c).scrEnd.toNat ≤ (k.vcCons d).origin.toNat ∨
      (k.vcCons d).scrEnd.toNat ≤ (k.vcCons c).origin.toNat
  contained : ∀ c, c < k.nrConsoles.toNat →
    (k.vcCons c).videoMemStart.toNat ≤ (k.vcCons c).origin.toNat ∧
      (k.vcCons c).scrEnd.toNat ≤ (k.vcCons c).videoMemEnd.toNat
  inside : ∀ c, c < k.nrConsoles.toNat →
    k.videoMemBase.toNat ≤ (k.vcCons c).videoMemStart.toNat ∧
      (k.vcCons c).videoMemEnd.toNat ≤ k.videoMemTerm.toNat
  aligned : ∀ c, c < k.nrConsoles.toNat →
    ((k.vcCons c).origin.toNat - k.videoMemBase.toNat) % 2 = 0

/-! ## What `con_init` computes -/

/-- The bytes of a screen of the reported size. -/
def reportedScreen (m : Memory) : Nat :=
  2 * (origVideoCols m).toNat * (origVideoLines m).toNat

/-- The bytes of video memory each console gets. -/
def shareFor (screen : Nat) : Nat := 0x2000 / consolesFor screen

theorem origVideoCols_lt (m : Memory) : (origVideoCols m).toNat < 256 := by
  have hword := (m.load16 0x90006).isLt
  have hmask : (((m.load16 0x90006).setWidth 32) &&& 0xff00 : Word).toNat ≤
      ((m.load16 0x90006).setWidth 32 : Word).toNat := by
    rw [BitVec.toNat_and]
    exact Nat.and_le_left
  rw [BitVec.toNat_setWidth] at hmask
  rw [origVideoCols, BitVec.toNat_ushiftRight, Nat.shiftRight_eq_div_pow]
  omega

theorem origVideoLines_lt (m : Memory) : (origVideoLines m).toNat < 256 := by
  have hmask : (((m.load16 0x9000e).setWidth 32) &&& 0xff : Word).toNat ≤ 0xff := by
    rw [BitVec.toNat_and]
    exact Nat.and_le_right
  rw [origVideoLines]
  omega

/-- Every console has a share of its own, and its screen begins where the share does. -/
structure Shares (screen : Nat) (k : Console) : Prop where
  nrConsoles : k.nrConsoles = Word.of (consolesFor screen)
  memBase : k.videoMemBase = Word.of 0xb8000
  memTerm : k.videoMemTerm = Word.of 0xba000
  record : ∀ c, c < consolesFor screen → ∃ v : Vc, k.vcCons c =
    v.placed (Word.of (0xb8000 + c * shareFor screen))
      (Word.of (0xb8000 + c * shareFor screen + shareFor screen)) (Word.of screen)

/-- The first record and the loop that copies it. -/
theorem Shares.loop {screen : Nat} (hlines : k.videoNumLines ≠ 0)
    (hscreen : k.videoNumLines * k.videoSizeRow = Word.of screen)
    (hnr : k.nrConsoles = Word.of (consolesFor screen)) (hbase : k.videoMemBase = Word.of 0xb8000)
    (hterm : k.videoMemTerm = Word.of 0xba000) :
    Shares screen (conInitLoop (Word.of (shareFor screen)) (consolesFor screen - 1) 1
      (Word.of 0xb8000) (Word.of 0xb8000 + Word.of (shareFor screen))
      (conInitFirst (Word.of (shareFor screen)) k)) := by
  have hone := one_le_consolesFor screen
  rw [conInitFirst_eq hlines, conInitLoop_eq _ _ _ _ (by exact hlines) Nat.one_pos]
  refine ⟨hnr, hbase, hterm, ?_⟩
  intro c hc
  simp only [Console.setVc_vcCons_same, hbase]
  by_cases hzero : c = 0
  · subst hzero
    refine ⟨(k.vcCons 0).started k.videoNumLines, ?_⟩
    rw [if_neg (by omega), Console.setVc_vcCons_same, hscreen, Nat.zero_mul, Nat.add_zero,
      Word.of_add_of]
  · refine ⟨((k.vcCons 0).started k.videoNumLines).placed (Word.of 0xb8000)
      (Word.of 0xb8000 + Word.of (shareFor screen)) (k.videoNumLines * k.videoSizeRow), ?_⟩
    have hstop : 0xb8000 + shareFor screen + c * shareFor screen =
        0xb8000 + c * shareFor screen + shareFor screen := Nat.add_right_comm ..
    have hsize : (k.setVc 0 fun v => (v.started k.videoNumLines).placed (Word.of 0xb8000)
        (Word.of 0xb8000 + Word.of (shareFor screen))
        (k.videoNumLines * k.videoSizeRow)).videoNumLines *
        (k.setVc 0 fun v => (v.started k.videoNumLines).placed (Word.of 0xb8000)
        (Word.of 0xb8000 + Word.of (shareFor screen))
        (k.videoNumLines * k.videoSizeRow)).videoSizeRow = Word.of screen := hscreen
    rw [if_pos (by omega), hsize, Nat.add_sub_cancel, Word.of_mul_of, Word.of_add_of,
      Word.of_add_of, Word.of_add_of, hstop]

theorem updateScreen_vcCons (k : Console) :
    updateScreen k =
      { k with blankcount := k.blankinterval, crtc := (updateScreen k).crtc } := by
  rw [updateScreen, setCursor_crtc, setOrigin_crtc]

theorem Shares.updateScreen {screen : Nat} (h : Shares screen k) :
    Shares screen (updateScreen k) := by
  rw [updateScreen_vcCons]
  exact ⟨h.nrConsoles, h.memBase, h.memTerm, h.record⟩

/-- `con_init` returns for every screen with a cell. -/
theorem conInit_shares (hcolumns : 1 ≤ (origVideoCols k.mem).toNat)
    (hlines : 1 ≤ (origVideoLines k.mem).toNat) :
    ∃ k', conInit k = .ok k' ∧ Shares (reportedScreen k.mem) k' := by
  have hc := origVideoCols_lt k.mem
  have hl := origVideoLines_lt k.mem
  have hpos : 0 < reportedScreen k.mem := Nat.mul_pos (by omega) hlines
  have hlt : reportedScreen k.mem ≤ 2 * 255 * 255 :=
    Nat.mul_le_mul (by omega) (by omega)
  have hscreen : origVideoLines k.mem * (origVideoCols k.mem * 2) =
      Word.of (reportedScreen k.mem) := by
    have htwo : (2 : Word) = Word.of 2 := rfl
    rw [← Word.of_toNat (origVideoLines k.mem), ← Word.of_toNat (origVideoCols k.mem), htwo,
      Word.of_mul_of, Word.of_mul_of, reportedScreen, Nat.mul_comm 2, Nat.mul_comm]
  have hne : origVideoLines k.mem ≠ 0 := by
    intro hzero
    rw [hzero] at hlines
    exact absurd hlines (by decide)
  exact ⟨_, conInit_counted hscreen hpos (by omega),
    (Shares.loop (k := { conInitStatics k with
      nrConsoles := Word.of (consolesFor (reportedScreen k.mem)) })
      hne hscreen rfl rfl rfl).updateScreen⟩

/-! ## When the screens are parted -/

/-- The screen fits the video memory and does not come to six consoles. -/
def Parts (screen : Nat) : Prop := screen ≤ 0x2000 ∧ 0x2000 / screen ≠ 6

theorem screen_le_share {screen : Nat} (hpos : 0 < screen) (h : screen ≤ 0x2000) :
    screen ≤ shareFor screen := by
  have hone : 1 ≤ 0x2000 / screen := Nat.div_pos h hpos
  have hcount : consolesFor screen = min maxConsoles (0x2000 / screen) :=
    Nat.max_eq_right (Nat.le_min.mpr ⟨by decide, hone⟩)
  rw [shareFor, Nat.le_div_iff_mul_le (one_le_consolesFor screen), hcount, Nat.mul_comm]
  exact (Nat.le_div_iff_mul_le hpos).mp (Nat.min_le_right ..)

theorem consolesFor_eq_six {screen : Nat} :
    consolesFor screen = 6 ↔ 0x2000 / screen = 6 := by
  have hmax : maxConsoles = 8 := rfl
  rw [consolesFor, hmax]
  omega

/-- Six is the only number of consoles with shares of an odd size. -/
theorem share_even {screen : Nat} (h : 0x2000 / screen ≠ 6) : shareFor screen % 2 = 0 := by
  have hcases : ∀ n, n < 9 → n ≠ 6 → 0x2000 / n % 2 = 0 := by decide
  have hle : consolesFor screen ≤ 8 := consolesFor_le screen
  exact hcases _ (by omega) (mt consolesFor_eq_six.mp h)

/-- All shares lie in the video memory. -/
theorem shares_le {screen c : Nat} (hc : c < consolesFor screen) :
    c * shareFor screen + shareFor screen ≤ 0x2000 := by
  rw [← Nat.succ_mul]
  exact Nat.le_trans (Nat.mul_le_mul_right _ hc) (Nat.mul_div_le _ _)

/-- The members of a record as numbers. -/
theorem Shares.toNat_record {screen : Nat} (h : Shares screen k) (hlt : screen < 2 ^ 20) {c : Nat}
    (hc : c < consolesFor screen) :
    (k.vcCons c).origin.toNat = 0xb8000 + c * shareFor screen ∧
      (k.vcCons c).scrEnd.toNat = 0xb8000 + c * shareFor screen + screen ∧
      (k.vcCons c).videoMemStart.toNat = 0xb8000 + c * shareFor screen ∧
      (k.vcCons c).videoMemEnd.toNat = 0xb8000 + c * shareFor screen + shareFor screen := by
  obtain ⟨v, hv⟩ := h.record c hc
  have := shares_le hc
  rw [hv]
  simp only [Vc.placed, Word.of_add_of]
  exact ⟨Word.toNat_of (by omega), Word.toNat_of (by omega), Word.toNat_of (by omega),
    Word.toNat_of (by omega)⟩

theorem Shares.partitioned_iff {screen : Nat} (h : Shares screen k) (hpos : 0 < screen)
    (hlt : screen < 2 ^ 20) : Partitioned k ↔ Parts screen := by
  have hone := one_le_consolesFor screen
  have hmax : consolesFor screen ≤ 8 := consolesFor_le screen
  have hnr : k.nrConsoles.toNat = consolesFor screen := by
    rw [h.nrConsoles, Word.toNat_of (by omega)]
  have hbase : k.videoMemBase.toNat = 0xb8000 := by
    rw [h.memBase]
    rfl
  have hterm : k.videoMemTerm.toNat = 0xba000 := by
    rw [h.memTerm]
    rfl
  have hrecord := fun c => h.toNat_record (c := c) hlt
  constructor
  · intro hp
    obtain ⟨-, hend, -, hstop⟩ := hrecord 0 hone
    have hfits := (hp.contained 0 (by omega)).2
    have hshare : shareFor screen ≤ 0x2000 := Nat.div_le_self _ _
    refine ⟨by omega, ?_⟩
    intro hsix
    have hcount := consolesFor_eq_six.mpr hsix
    have hodd : shareFor screen = 1365 := by rw [shareFor, hcount]
    have haligned := hp.aligned 1 (by omega)
    rw [(hrecord 1 (by omega)).1, hbase, hodd] at haligned
    omega
  · rintro ⟨hfits, hsix⟩
    have hshare := screen_le_share hpos hfits
    have heven := share_even hsix
    refine ⟨by omega, hnr ▸ consolesFor_le screen, ?_, ?_, ?_, ?_⟩
    · intro c d hc hd hne
      rw [hnr] at hc hd
      rw [(hrecord c hc).1, (hrecord c hc).2.1, (hrecord d hd).1, (hrecord d hd).2.1]
      obtain hlt | hgt := Nat.lt_or_gt_of_ne hne
      · have := Nat.mul_le_mul_right (shareFor screen) (Nat.succ_le_of_lt hlt)
        rw [Nat.succ_mul] at this
        exact Or.inl (by omega)
      · have := Nat.mul_le_mul_right (shareFor screen) (Nat.succ_le_of_lt hgt)
        rw [Nat.succ_mul] at this
        exact Or.inr (by omega)
    · intro c hc
      rw [hnr] at hc
      obtain ⟨horigin, hend, hstart, hstop⟩ := hrecord c hc
      omega
    · intro c hc
      rw [hnr] at hc
      obtain ⟨-, -, hstart, hstop⟩ := hrecord c hc
      have := shares_le hc
      omega
    · intro c hc
      rw [hnr] at hc
      have hmul : c * shareFor screen % 2 = 0 := by
        rw [Nat.mul_mod, heven, Nat.mul_zero]
      rw [(hrecord c hc).1, hbase]
      omega

/-- For every screen with a cell `con_init` returns, counting between one and
eight consoles; it parts the video memory properly exactly when the screen fits
it and the consoles are not six. -/
theorem con_init_partitions_iff (k : Console) (hcolumns : 1 ≤ (origVideoCols k.mem).toNat)
    (hlines : 1 ≤ (origVideoLines k.mem).toNat) :
    ∃ k', conInit k = .ok k' ∧ 1 ≤ k'.nrConsoles.toNat ∧ k'.nrConsoles.toNat ≤ maxConsoles ∧
      (Partitioned k' ↔ 2 * (origVideoCols k.mem).toNat * (origVideoLines k.mem).toNat ≤ 0x2000 ∧
        0x2000 / (2 * (origVideoCols k.mem).toNat * (origVideoLines k.mem).toNat) ≠ 6) := by
  have hc := origVideoCols_lt k.mem
  have hl := origVideoLines_lt k.mem
  have hpos : 0 < reportedScreen k.mem := Nat.mul_pos (by omega) hlines
  have hlt : reportedScreen k.mem ≤ 2 * 255 * 255 := Nat.mul_le_mul (by omega) (by omega)
  obtain ⟨k', hinit, hshares⟩ := conInit_shares hcolumns hlines
  have hmax : consolesFor (reportedScreen k.mem) ≤ 8 := consolesFor_le _
  have hnr : k'.nrConsoles.toNat = consolesFor (reportedScreen k.mem) := by
    rw [hshares.nrConsoles, Word.toNat_of (by omega)]
  refine ⟨k', hinit, ?_, ?_, hshares.partitioned_iff hpos (by omega)⟩
  · rw [hnr]
    exact one_le_consolesFor _
  · rw [hnr]
    exact hmax

/-- What the BIOS leaves for a mode of the given size. -/
def modeMemory (columns lines : Byte) : Memory where
  bytes a := if a = 0x90007 then columns else if a = 0x9000e then lines else 0
  trace := []

/-- The machine before `con_init` in that mode. -/
def modeConsole (columns lines : Byte) : Console :=
  Console.static (modeMemory columns lines) ⟨0, fun _ => 0⟩

/-- The usual text mode. -/
theorem con_init_partitions_text :
    ∃ k', conInit (modeConsole 80 25) = .ok k' ∧ 1 ≤ k'.nrConsoles.toNat ∧
      k'.nrConsoles.toNat ≤ maxConsoles ∧
      (Partitioned k' ↔ 2 * 80 * 25 ≤ 0x2000 ∧ 0x2000 / (2 * 80 * 25) ≠ 6) :=
  con_init_partitions_iff (modeConsole 80 25) (by decide) (by decide)

/-- 200 columns by the 25 lines that `setup.asm` stores for any adapter. -/
theorem con_init_overlarge :
    1 ≤ (origVideoCols (modeConsole 200 25).mem).toNat ∧
      1 ≤ (origVideoLines (modeConsole 200 25).mem).toNat ∧
      ∃ k', conInit (modeConsole 200 25) = .ok k' ∧ ¬ Partitioned k' := by
  refine ⟨by decide, by decide, ?_⟩
  obtain ⟨k', hinit, hshares⟩ := conInit_shares (k := modeConsole 200 25) (by decide) (by decide)
  have hscreen : reportedScreen (modeConsole 200 25).mem = 10000 := by decide
  rw [hscreen] at hshares
  refine ⟨k', hinit, ?_⟩
  rw [hshares.partitioned_iff (by decide) (by decide)]
  rintro ⟨hfits, -⟩
  exact absurd hfits (by decide)

end MySystem
