import MySystem.Console.Operation
import MySystem.Machine.Grid

/-!
# Every scroll path shifts the same rows

`scrup` has four paths: sliding the origin, rewinding a slid screen to the start
of its region, and the plain copy, written once for a display with an origin
register and once for one without. Seen from the origin the path leaves behind,
each of them is `shiftUp` of the scroll region, and `scrdown` is `shiftDown`.
Nothing here fixes the geometry, the display type or the region.
-/

namespace MySystem

open Machine

variable {k k' : Console} {c : Nat}

/-- The cell in row `r` and column `col` of the screen of console `c`. -/
def Console.grid (k : Console) (c r col : Nat) : Half :=
  k.mem.grid (k.vcCons c).origin.toNat k.videoSizeRow.toNat r col

/-- A console in its invariant with a scroll region inside its screen. One more
row past its video memory is still an address. -/
structure Scrollable (k : Console) (c : Nat) : Prop where
  invariant : ConsoleInvariant k c
  even : k.videoNumColumns.toNat % 2 = 0
  sizeRow : k.videoSizeRow.toNat = 2 * k.videoNumColumns.toNat
  top_lt : (k.vcCons c).top.toNat < (k.vcCons c).bottom.toNat
  bottom_le : (k.vcCons c).bottom.toNat ≤ k.videoNumLines.toNat
  room : (k.vcCons c).videoMemEnd.toNat + k.videoSizeRow.toNat < 2 ^ 32

/-- The screen of console `c` shows `rows` in `k'`, with the cursor where it was. -/
structure Shifted (c : Nat) (rows : Nat → Nat → Half) (k k' : Console) : Prop where
  grid : ∀ r col, r < k.videoNumLines.toNat → col < k.videoNumColumns.toNat →
    k'.grid c r col = rows r col
  pos_sub : (k'.vcCons c).pos - (k'.vcCons c).origin = (k.vcCons c).pos - (k.vcCons c).origin
  x : (k'.vcCons c).x = (k.vcCons c).x
  y : (k'.vcCons c).y = (k.vcCons c).y

/-- Showing the new origin is no part of the picture in memory. -/
theorem Shifted.setOrigin {rows : Nat → Nat → Half} (h : Shifted c rows k k') :
    Shifted c rows k (setOrigin c k') := by
  rw [setOrigin_crtc]
  exact ⟨h.grid, h.pos_sub, h.x, h.y⟩

namespace Scrollable

theorem region_open (h : Scrollable k c) : ¬ (k.vcCons c).bottom ≤ (k.vcCons c).top :=
  fun hle => absurd h.top_lt (Nat.not_lt.mpr hle)

/-- The screen and one more row lie in the address space. -/
theorem screen_fits (h : Scrollable k c) :
    (k.vcCons c).origin.toNat + k.videoNumLines.toNat * (2 * k.videoNumColumns.toNat) +
      2 * k.videoNumColumns.toNat < 2 ^ 32 := by
  have hend := h.invariant.scrEnd_eq
  have hle := h.invariant.scrEnd_le
  have hroom := h.room
  rw [h.sizeRow] at hend hroom
  omega

/-- The driver's address of a row below the origin. -/
theorem row_address (h : Scrollable k c) (a : Nat) (r : Word) :
    Word.of a + k.videoSizeRow * r = Word.of (a + r.toNat * (2 * k.videoNumColumns.toNat)) := by
  rw [← Word.of_toNat k.videoSizeRow, ← Word.of_toNat r, Word.of_mul_of, Word.of_add_of,
    h.sizeRow, Nat.mul_comm, Word.of_toNat]

/-- The dword count of `n` rows of the screen, as the driver computes it. -/
theorem dwords (h : Scrollable k c) {n : Word} (hn : n.toNat ≤ k.videoNumLines.toNat) :
    ((n * k.videoNumColumns) >>> 1).toNat = n.toNat * k.videoNumColumns.toNat / 2 := by
  have hfits := h.screen_fits
  have hrows := Nat.mul_le_mul_right (2 * k.videoNumColumns.toNat) hn
  have hcells : n.toNat * (2 * k.videoNumColumns.toNat) = 2 * (n.toNat * k.videoNumColumns.toNat) :=
    Nat.mul_left_comm ..
  have hlt : n.toNat * k.videoNumColumns.toNat < 2 ^ 32 := by omega
  rw [BitVec.toNat_ushiftRight, BitVec.toNat_mul, Nat.mod_eq_of_lt hlt,
    Nat.shiftRight_eq_div_pow, Nat.pow_one]

/-- The rows a scroll moves, counted in dwords. -/
theorem band_dwords (h : Scrollable k c) :
    ((((k.vcCons c).bottom - (k.vcCons c).top - 1) * k.videoNumColumns) >>> 1).toNat =
      ((k.vcCons c).bottom.toNat - (k.vcCons c).top.toNat - 1) * k.videoNumColumns.toNat / 2 := by
  have htop := h.top_lt
  have hbottom := h.bottom_le
  have hband : ((k.vcCons c).bottom - (k.vcCons c).top - 1).toNat =
      (k.vcCons c).bottom.toNat - (k.vcCons c).top.toNat - 1 := by
    bv_omega
  rw [h.dwords (by omega), hband]

/-- The bytes of the rows a scroll moves. -/
theorem band_bytes (h : Scrollable k c) (a : Nat) :
    a + (k.vcCons c).top.toNat * (2 * k.videoNumColumns.toNat) +
      4 * (((k.vcCons c).bottom.toNat - (k.vcCons c).top.toNat - 1) *
        k.videoNumColumns.toNat / 2) =
    a + ((k.vcCons c).bottom.toNat - 1) * (2 * k.videoNumColumns.toNat) := by
  have htop := h.top_lt
  rw [Memory.rows_dwords h.even, Nat.add_assoc, ← Nat.add_mul]
  congr 2
  omega

/-- The plain copy of the scroll region. -/
theorem scrupRegion (h : Scrollable k c) :
    Shifted c (shiftUp (k.vcCons c).top.toNat (k.vcCons c).bottom.toNat
      (k.vcCons c).videoEraseChar (k.grid c)) k (scrupRegion c k) := by
  have htop := h.top_lt
  have hbottom := h.bottom_le
  have hsrc : (k.vcCons c).origin + k.videoSizeRow * ((k.vcCons c).top + 1) =
      Word.of ((k.vcCons c).origin.toNat +
        ((k.vcCons c).top.toNat + 1) * (2 * k.videoNumColumns.toNat)) := by
    have hnext : ((k.vcCons c).top + 1).toNat = (k.vcCons c).top.toNat + 1 :=
      BitVec.toNat_add_of_lt (show _ + 1 < 2 ^ 32 by omega)
    rw [← hnext, ← h.row_address, Word.of_toNat]
  have hdst : (k.vcCons c).origin + k.videoSizeRow * (k.vcCons c).top =
      Word.of ((k.vcCons c).origin.toNat +
        (k.vcCons c).top.toNat * (2 * k.videoNumColumns.toNat)) := by
    rw [← h.row_address, Word.of_toNat]
  have hfits := h.screen_fits
  have hmem : (MySystem.scrupRegion c k).mem =
      Memory.repStosw 2 (k.vcCons c).videoEraseChar k.videoNumColumns.toNat
        (Word.of ((k.vcCons c).origin.toNat +
          ((k.vcCons c).bottom.toNat - 1) * (2 * k.videoNumColumns.toNat)))
        (Memory.repMovsl 4 (((k.vcCons c).bottom.toNat - (k.vcCons c).top.toNat - 1) *
            k.videoNumColumns.toNat / 2)
          (Word.of ((k.vcCons c).origin.toNat +
            ((k.vcCons c).top.toNat + 1) * (2 * k.videoNumColumns.toNat)))
          (Word.of ((k.vcCons c).origin.toNat +
            (k.vcCons c).top.toNat * (2 * k.videoNumColumns.toNat))) k.mem).1 := by
    simp only [MySystem.scrupRegion, hsrc, hdst, h.band_dwords, Memory.repMovsl_up_edi,
      h.band_bytes]
  refine ⟨fun r col hr hcol => ?_, rfl, rfl, rfl⟩
  have hgrid : (MySystem.scrupRegion c k).grid c r col =
      (MySystem.scrupRegion c k).mem.grid (k.vcCons c).origin.toNat k.videoSizeRow.toNat r col :=
    rfl
  rw [hgrid, hmem, h.sizeRow, Memory.grid_copyUp _ _ h.even (Nat.le_refl _) htop hbottom
    (by omega) hr hcol, ← h.sizeRow]
  rfl

/-- The record of a console whose origin has slid one row. -/
theorem slideOrigin_vc (k : Console) (c : Nat) :
    (slideOrigin c k).vcCons c =
      { k.vcCons c with
        origin := (k.vcCons c).origin + k.videoSizeRow
        pos := (k.vcCons c).pos + k.videoSizeRow
        scrEnd := (k.vcCons c).scrEnd + k.videoSizeRow } :=
  Console.setVc_vcCons_same ..

/-- The cursor keeps its distance from an origin that slides with it. -/
private theorem slid_sub (p o row : Word) : p + row - (o + row) = p - o := by
  grind

private theorem rewound_sub (p o row start : Word) :
    p + row - (o + row - start) - start = p - o := by
  grind

/-- The slid screen with its new last row erased. -/
theorem scrupErase (h : Scrollable k c) :
    Shifted c (shiftUp 0 k.videoNumLines.toNat (k.vcCons c).videoEraseChar (k.grid c)) k
      (scrupErase c (slideOrigin c k)) := by
  have hfits := h.screen_fits
  have hsize := h.sizeRow
  have hvc := slideOrigin_vc k c
  have horigin : ((k.vcCons c).origin + k.videoSizeRow).toNat =
      (k.vcCons c).origin.toNat + 2 * k.videoNumColumns.toNat := by
    rw [BitVec.toNat_add, Nat.mod_eq_of_lt (by omega), hsize]
  have hlast : (k.vcCons c).scrEnd =
      Word.of ((k.vcCons c).origin.toNat +
        k.videoNumLines.toNat * (2 * k.videoNumColumns.toNat)) := by
    rw [← hsize, ← h.invariant.scrEnd_eq, Word.of_toNat]
  have hmem : (MySystem.scrupErase c (slideOrigin c k)).mem =
      Memory.repStosw 2 (k.vcCons c).videoEraseChar k.videoNumColumns.toNat
        (Word.of ((k.vcCons c).origin.toNat +
          k.videoNumLines.toNat * (2 * k.videoNumColumns.toNat))) k.mem := by
    have hedi : ((slideOrigin c k).vcCons c).scrEnd - (slideOrigin c k).videoSizeRow =
        (k.vcCons c).scrEnd := by
      rw [hvc]
      exact BitVec.add_sub_cancel ..
    rw [← hlast, ← hedi]
    simp only [MySystem.scrupErase, hvc]
    rfl
  have hrecord : (MySystem.scrupErase c (slideOrigin c k)).vcCons c = (slideOrigin c k).vcCons c :=
    rfl
  refine ⟨fun r col hr hcol => ?_, ?_, ?_, ?_⟩
  · have hgrid : (MySystem.scrupErase c (slideOrigin c k)).grid c r col =
        (MySystem.scrupErase c (slideOrigin c k)).mem.grid
          ((slideOrigin c k).vcCons c).origin.toNat k.videoSizeRow.toNat r col := rfl
    rw [hgrid, hmem, hvc, horigin, hsize, Memory.grid_slide _ _ (by omega) hr hcol, ← hsize]
    rfl
  · rw [hrecord, hvc]
    exact slid_sub ..
  · rw [hrecord, hvc]
  · rw [hrecord, hvc]

/-- The slid screen copied back to the start of its region. -/
theorem scrupRewind (h : Scrollable k c) :
    Shifted c (shiftUp 0 k.videoNumLines.toNat (k.vcCons c).videoEraseChar (k.grid c)) k
      (scrupRewind c (slideOrigin c k)) := by
  have hfits := h.screen_fits
  have hsize := h.sizeRow
  have hstart := h.invariant.start_le
  have hlines : 0 < k.videoNumLines.toNat := Nat.lt_of_le_of_lt (Nat.zero_le _) h.invariant.y_lt
  have hvc := slideOrigin_vc k c
  have hsrc : (k.vcCons c).origin + k.videoSizeRow =
      Word.of ((k.vcCons c).origin.toNat + (0 + 1) * (2 * k.videoNumColumns.toNat)) := by
    have hone : k.videoSizeRow * 1 = k.videoSizeRow := BitVec.mul_one _
    have hrow := h.row_address (k.vcCons c).origin.toNat 1
    rw [Word.of_toNat, hone] at hrow
    exact hrow
  have hdst : (k.vcCons c).videoMemStart =
      Word.of ((k.vcCons c).videoMemStart.toNat + 0 * (2 * k.videoNumColumns.toNat)) := by
    rw [Nat.zero_mul, Nat.add_zero, Word.of_toNat]
  have hcount : (((k.videoNumLines - 1) * k.videoNumColumns) >>> 1).toNat =
      (k.videoNumLines.toNat - 0 - 1) * k.videoNumColumns.toNat / 2 := by
    have hlast : (k.videoNumLines - 1).toNat = k.videoNumLines.toNat - 0 - 1 :=
      BitVec.toNat_sub_of_le hlines
    rw [h.dwords (by omega), hlast]
  have hedi : (k.vcCons c).videoMemStart +
      Word.of ((k.videoNumLines.toNat - 0 - 1) * k.videoNumColumns.toNat / 2) * 4 =
      Word.of ((k.vcCons c).videoMemStart.toNat +
        (k.videoNumLines.toNat - 1) * (2 * k.videoNumColumns.toNat)) := by
    have hfour : (4 : Word) = Word.of 4 := rfl
    rw [hdst, hfour, Word.of_mul_of, Word.of_add_of, Nat.mul_comm _ 4, Memory.rows_dwords h.even]
    simp
  have hmem : (MySystem.scrupRewind c (slideOrigin c k)).mem =
      Memory.repStosw 2 (k.vcCons c).videoEraseChar k.videoNumColumns.toNat
        (Word.of ((k.vcCons c).videoMemStart.toNat +
          (k.videoNumLines.toNat - 1) * (2 * k.videoNumColumns.toNat)))
        (Memory.repMovsl 4 ((k.videoNumLines.toNat - 0 - 1) * k.videoNumColumns.toNat / 2)
          (Word.of ((k.vcCons c).origin.toNat + (0 + 1) * (2 * k.videoNumColumns.toNat)))
          (Word.of ((k.vcCons c).videoMemStart.toNat + 0 * (2 * k.videoNumColumns.toNat)))
          k.mem).1 := by
    rw [← hedi, ← hsrc, ← hdst, ← hcount, ← Memory.repMovsl_edi]
    simp only [MySystem.scrupRewind, hvc]
    rfl
  have hrecord : (MySystem.scrupRewind c (slideOrigin c k)).vcCons c =
      { (slideOrigin c k).vcCons c with
        scrEnd := ((slideOrigin c k).vcCons c).scrEnd -
          (((slideOrigin c k).vcCons c).origin - ((slideOrigin c k).vcCons c).videoMemStart)
        pos := ((slideOrigin c k).vcCons c).pos -
          (((slideOrigin c k).vcCons c).origin - ((slideOrigin c k).vcCons c).videoMemStart)
        origin := ((slideOrigin c k).vcCons c).videoMemStart } := by
    simp only [MySystem.scrupRewind, Console.setVc_vcCons_same]
  rw [hvc] at hrecord
  refine ⟨fun r col hr hcol => ?_, ?_, ?_, ?_⟩
  · rw [Console.grid, hrecord, hmem]
    have hrow : (MySystem.scrupRewind c (slideOrigin c k)).videoSizeRow = k.videoSizeRow := rfl
    dsimp only
    rw [hrow, hsize, Memory.grid_copyUp _ _ h.even hstart hlines (Nat.le_refl _) (by omega) hr hcol]
    rw [shiftUp]
    by_cases hlast : r + 1 = k.videoNumLines.toNat
    · have hno : ¬(0 ≤ r ∧ r + 1 < k.videoNumLines.toNat) := by omega
      rw [if_neg hno, if_neg hno, if_pos hlast, if_pos hlast]
    · have hin : 0 ≤ r ∧ r + 1 < k.videoNumLines.toNat := by omega
      rw [if_pos hin, if_pos hin, ← hsize]
      rfl
  · rw [hrecord]
    exact rewound_sub ..
  · rw [hrecord]
  · rw [hrecord]

/-- The descending copy of the scroll region. -/
theorem scrdownRegion (h : Scrollable k c) :
    Shifted c (shiftDown (k.vcCons c).top.toNat (k.vcCons c).bottom.toNat
      (k.vcCons c).videoEraseChar (k.grid c)) k (scrdownRegion c k) := by
  have htop := h.top_lt
  have hbottom := h.bottom_le
  have hfits := h.screen_fits
  have hband := h.band_bytes (k.vcCons c).origin.toNat
  have hsrc : (k.vcCons c).origin + k.videoSizeRow * ((k.vcCons c).bottom - 1) =
      Word.of ((k.vcCons c).origin.toNat +
        ((k.vcCons c).bottom.toNat - 1) * (2 * k.videoNumColumns.toNat)) := by
    have hlast : ((k.vcCons c).bottom - 1).toNat = (k.vcCons c).bottom.toNat - 1 :=
      BitVec.toNat_sub_of_le (Nat.lt_of_le_of_lt (Nat.zero_le _) htop)
    rw [← hlast, ← h.row_address, Word.of_toNat]
  have hdst : (k.vcCons c).origin + k.videoSizeRow * (k.vcCons c).bottom =
      Word.of ((k.vcCons c).origin.toNat +
        (k.vcCons c).bottom.toNat * (2 * k.videoNumColumns.toNat)) := by
    rw [← h.row_address, Word.of_toNat]
  have hlast : (k.vcCons c).bottom.toNat * (2 * k.videoNumColumns.toNat) =
      ((k.vcCons c).bottom.toNat - 1) * (2 * k.videoNumColumns.toNat) +
        2 * k.videoNumColumns.toNat := by
    rw [← Nat.succ_mul, Nat.succ_eq_add_one, Nat.sub_add_cancel (by omega)]
  -- the copy ends below the second row of the region, two cells from the first one
  have hedi : (Memory.repMovsl (-4) (((k.vcCons c).bottom.toNat - (k.vcCons c).top.toNat - 1) *
        k.videoNumColumns.toNat / 2)
      (Word.of ((k.vcCons c).origin.toNat +
        ((k.vcCons c).bottom.toNat - 1) * (2 * k.videoNumColumns.toNat)) - 4)
      (Word.of ((k.vcCons c).origin.toNat +
        (k.vcCons c).bottom.toNat * (2 * k.videoNumColumns.toNat)) - 4) k.mem).2 + 2 =
      Word.of ((k.vcCons c).origin.toNat +
        (k.vcCons c).top.toNat * (2 * k.videoNumColumns.toNat) +
          2 * k.videoNumColumns.toNat) - 2 := by
    have hend : (k.vcCons c).origin.toNat +
        (k.vcCons c).bottom.toNat * (2 * k.videoNumColumns.toNat) =
        (k.vcCons c).origin.toNat + (k.vcCons c).top.toNat * (2 * k.videoNumColumns.toNat) +
          2 * k.videoNumColumns.toNat +
            4 * (((k.vcCons c).bottom.toNat - (k.vcCons c).top.toNat - 1) *
              k.videoNumColumns.toNat / 2) := by
      omega
    rw [hend, Memory.repMovsl_down_edi]
    generalize Word.of _ = a
    grind
  have hmem : (MySystem.scrdownRegion c k).mem =
      Memory.repStosw (-2) (k.vcCons c).videoEraseChar k.videoNumColumns.toNat
        (Word.of ((k.vcCons c).origin.toNat +
          (k.vcCons c).top.toNat * (2 * k.videoNumColumns.toNat) +
            2 * k.videoNumColumns.toNat) - 2)
        (Memory.repMovsl (-4) (((k.vcCons c).bottom.toNat - (k.vcCons c).top.toNat - 1) *
            k.videoNumColumns.toNat / 2)
          (Word.of ((k.vcCons c).origin.toNat +
            ((k.vcCons c).bottom.toNat - 1) * (2 * k.videoNumColumns.toNat)) - 4)
          (Word.of ((k.vcCons c).origin.toNat +
            (k.vcCons c).bottom.toNat * (2 * k.videoNumColumns.toNat)) - 4) k.mem).1 := by
    rw [← hedi]
    simp only [MySystem.scrdownRegion, hsrc, hdst, h.band_dwords]
  refine ⟨fun r col hr hcol => ?_, rfl, rfl, rfl⟩
  have hgrid : (MySystem.scrdownRegion c k).grid c r col =
      (MySystem.scrdownRegion c k).mem.grid (k.vcCons c).origin.toNat k.videoSizeRow.toNat r col :=
    rfl
  rw [hgrid, hmem, h.sizeRow, Memory.grid_copyDown _ _ h.even htop hbottom (by omega) hr hcol,
    ← h.sizeRow]
  rfl

end Scrollable

/-- A record that represents a window has its whole screen as scroll region. -/
theorem Window.Represents.scrollable {g : Geometry} {w : Window g} (h : Ready g k)
    (hw : w.Represents (k.vcCons c)) : Scrollable k c := by
  have hb := w.bounds
  have hcolumns := g.columns_le
  have hlines := g.lines_le
  have hrow := g.rowBytes_le
  have hscreen := g.screenBytes_le
  have hzero : (0 : Word).toNat = 0 := rfl
  constructor
  case invariant => exact hw.invariant h
  all_goals
    simp only [h.columns, h.lines, h.sizeRow, hw.top, hw.bottom, hw.videoMemEnd, hzero]
    repeat rw [Word.toNat_of (by omega)]
  case even => exact g.columns_even
  case sizeRow => rfl
  case top_lt => exact g.lines_pos
  case room => omega

/-- Whichever path runs, `scrup` moves the rows of the scroll region up by one
and `scrdown` moves them down; for the whole screen the sliding origin shows
what the plain copy shows. -/
theorem scroll_shifts_rows (h : Scrollable k c) :
    Shifted c (shiftUp (k.vcCons c).top.toNat (k.vcCons c).bottom.toNat
        (k.vcCons c).videoEraseChar (k.grid c)) k (scrup c k) ∧
      Shifted c (shiftDown (k.vcCons c).top.toNat (k.vcCons c).bottom.toNat
        (k.vcCons c).videoEraseChar (k.grid c)) k (scrdown c k) ∧
      ∀ r col, r < k.videoNumLines.toNat → col < k.videoNumColumns.toNat →
        (scrup c k).grid c r col = (scrupRegion c k).grid c r col := by
  have hregion := h.scrupRegion
  have hup : Shifted c (shiftUp (k.vcCons c).top.toNat (k.vcCons c).bottom.toNat
      (k.vcCons c).videoEraseChar (k.grid c)) k (scrup c k) := by
    simp only [scrup, if_neg h.region_open]
    split
    · split
      case isTrue hfull =>
        have htop : (k.vcCons c).top.toNat = 0 := congrArg BitVec.toNat hfull.1
        have hbottom : (k.vcCons c).bottom.toNat = k.videoNumLines.toNat :=
          congrArg BitVec.toNat hfull.2
        rw [htop, hbottom]
        apply Shifted.setOrigin
        split
        · exact h.scrupRewind
        · exact h.scrupErase
      case isFalse => exact hregion
    · exact hregion
  have hdown : Shifted c (shiftDown (k.vcCons c).top.toNat (k.vcCons c).bottom.toNat
      (k.vcCons c).videoEraseChar (k.grid c)) k (scrdown c k) := by
    simp only [scrdown, if_neg h.region_open, ite_self]
    exact h.scrdownRegion
  refine ⟨hup, hdown, fun r col hr hcol => ?_⟩
  rw [hup.grid r col hr hcol, hregion.grid r col hr hcol]

/-- A monochrome console with a scroll region inside its screen. -/
def regionConsole : Console :=
  { Console.static ⟨fun _ => 0, []⟩ ⟨0, fun _ => 0⟩ with
    videoNumColumns := 80
    videoNumLines := 25
    videoSizeRow := 160 }.setVc 0 fun v =>
    { v with
      origin := 0xb80a0
      scrEnd := 0xb9040
      pos := 0xb8148
      x := 4
      y := 1
      top := 2
      bottom := 20
      videoMemStart := 0xb8000
      videoMemEnd := 0xba000 }

theorem scroll_shifts_rows_region :
    Scrollable regionConsole 0 ∧
      Shifted 0 (shiftUp 2 20 (regionConsole.vcCons 0).videoEraseChar (regionConsole.grid 0))
        regionConsole (scrup 0 regionConsole) := by
  have h : Scrollable regionConsole 0 := by
    refine ⟨?_, ?_, ?_, ?_, ?_, ?_⟩
    · constructor
      all_goals decide
    all_goals decide
  exact ⟨h, (scroll_shifts_rows h).1⟩

end MySystem
