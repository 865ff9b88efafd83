import MySystem.Console.Picture
import MySystem.Console.Scroll

/-!
# The cursor and scroll helpers refine the reference terminal

The rest of the helpers the kernel may call on a console: `gotoxy`, `del`,
`scrup` and `scrdown` are operations of the reference terminal, and an operation
on one console leaves what every other one shows alone.
-/

namespace MySystem

open Machine

variable {g : Geometry} {c d : Nat} {w w' : Window g} {k k' : Console} {attr : Byte}
  {erase : Half} {t : Screen g}

namespace Window

/-- The picture of a window depends on its origin alone. -/
theorem picture_congr (h : w'.origin = w.origin) (m : Memory) : w'.picture m = w.picture m := by
  funext r col
  rw [picture, picture, h]

/-- Windows represented by records with the same origin have the same origin. -/
theorem Represents.origin_eq {v v' : Vc} (hw : w.Represents v) (hw' : w'.Represents v')
    (h : v'.origin = v.origin) : w'.origin = w.origin := by
  have hb := w.bounds
  have hb' := w'.bounds
  rw [hw.origin, hw'.origin, Word.of_inj (by omega) (by omega)] at h
  exact h

/-- The number a record holds for a small coordinate. -/
theorem Represents.toNat_x {v : Vc} (hw : w.Represents v) : v.x.toNat = w.x := by
  have hx := w.x_le
  have hcol := g.columns_le
  rw [hw.x, Word.toNat_of (by omega)]

theorem Represents.toNat_y {v : Vc} (hw : w.Represents v) : v.y.toNat = w.y := by
  have hy := w.y_lt
  have hl := g.lines_le
  rw [hw.y, Word.toNat_of (by omega)]

end Window

/-- The bounds `gotoxy` checks are those of the terminal. -/
theorem gotoxy_test (h : Ready g k) (newX newY : Word) :
    (k.videoNumColumns < newX ∨ k.videoNumLines ≤ newY) ↔
      ¬ (newX.toNat ≤ g.columns ∧ newY.toNat < g.lines) := by
  have hcol := g.columns_le
  have hl := g.lines_le
  rw [h.columns, h.lines, BitVec.lt_def, BitVec.le_def, Word.toNat_of (by omega),
    Word.toNat_of (by omega)]
  omega

/-- A step that keeps the origin, with the terminal's effect on the record's
coordinates and on the cells of the screen where it stands. -/
theorem Mirrors.of_record {t' : Screen g} (h : Mirrors c attr erase t w k)
    (hs : Step c w w' k k') (origin : (k'.vcCons c).origin = (k.vcCons c).origin)
    (x : t'.x = (k'.vcCons c).x.toNat) (y : t'.y = (k'.vcCons c).y.toNat)
    (grid : t'.grid = w.picture k'.mem) : Mirrors c attr erase t' w' k' := by
  refine h.of_step hs (x.trans hs.represents.toNat_x) (y.trans hs.represents.toNat_y) ?_
  rw [Window.picture_congr (h.represents.origin_eq hs.represents origin)]
  exact grid

namespace Tracks

theorem gotoxy (newX newY : Word) :
    Tracks g c attr erase (gotoxy c newX newY) fun t => t.goto newX.toNat newY.toNat := by
  intro t w k h
  obtain ⟨w', hs⟩ := gotoxy_step h.ready h.represents newX newY
  have htest := gotoxy_test h.ready newX newY
  refine ⟨w', hs, ?_⟩
  by_cases hin : newX.toNat ≤ g.columns ∧ newY.toNat < g.lines
  · have hmove : MySystem.gotoxy c newX newY k = k.setVc c fun v =>
        { v with
          x := newX
          y := newY
          pos := v.origin + newY * k.videoSizeRow + (newX <<< 1) } :=
      if_neg fun hout => htest.mp hout hin
    have hgoto : t.goto newX.toNat newY.toNat =
        { t with x := newX.toNat, y := newY.toNat, x_le := hin.1, y_lt := hin.2 } := dif_pos hin
    dsimp only
    rw [hmove] at hs ⊢
    rw [hgoto]
    have hrecord := Console.setVc_vcCons_same k c fun v =>
      { v with
        x := newX
        y := newY
        pos := v.origin + newY * k.videoSizeRow + (newX <<< 1) }
    refine h.of_record hs ?_ ?_ ?_ h.grid
    all_goals rw [hrecord]
  · have hstay : MySystem.gotoxy c newX newY k = k := if_pos (htest.mpr hin)
    have hgoto : t.goto newX.toNat newY.toNat = t := dif_neg hin
    dsimp only
    rw [hstay] at hs ⊢
    rw [hgoto]
    exact h.of_record hs rfl (h.x.trans h.represents.toNat_x.symm)
      (h.y.trans h.represents.toNat_y.symm) h.grid

/-- The cell `del` erases is the one before the cursor. -/
theorem del : Tracks g c attr erase (del c) (Terminal.delete erase) := by
  intro t w k h
  obtain ⟨w', hs⟩ := del_step h.ready h.represents
  have hx := h.represents.toNat_x
  have hzero : (k.vcCons c).x = 0 ↔ t.x = 0 := by
    rw [h.x, ← hx]
    exact BitVec.toNat_inj.symm
  refine ⟨w', hs, ?_⟩
  by_cases hstart : t.x = 0
  · have hstay : MySystem.del c k = k := by
      rw [MySystem.del, if_neg (not_not.mpr (hzero.mpr hstart))]
    rw [Terminal.delete, if_pos hstart]
    rw [hstay] at hs ⊢
    exact h.of_record hs rfl (h.x.trans hx.symm) (h.y.trans h.represents.toNat_y.symm) h.grid
  · have hdel : MySystem.del c k =
        { k with mem := k.mem.store16 ((k.vcCons c).pos - 2) (k.vcCons c).videoEraseChar }.setVc c
          fun v => { v with pos := v.pos - 2, x := v.x - 1 } := by
      rw [MySystem.del, if_pos (mt hzero.mp hstart)]
    have hb := w.bounds
    have hpos : w.pos = w.origin + w.y * g.rowBytes + 2 * w.x := rfl
    have hwx := h.x
    have hxle := w.x_le
    have htwo : (2 : Word) = Word.of 2 := rfl
    have hcell : (k.vcCons c).pos - 2 = Word.of w.retreat.pos := by
      have hretreat : w.retreat.pos = w.origin + w.y * g.rowBytes + 2 * (w.x - 1) := rfl
      rw [h.represents.pos, htwo, Word.of_sub_of (by omega) (by omega)]
      congr 1
      omega
    have hstore := Window.picture_store (w := w.retreat) (v := erase)
      (show w.x - 1 < g.columns by omega) k.mem
    rw [Terminal.delete, if_neg hstart]
    rw [hdel] at hs ⊢
    refine h.of_record hs ?_ ?_ ?_ ?_
    · rw [Console.setVc_vcCons_same]
    · have hone : (1 : Word).toNat ≤ (k.vcCons c).x.toNat := by
        change 1 ≤ _
        omega
      rw [Console.setVc_vcCons_same, BitVec.toNat_sub_of_le hone, hx, ← hwx]
      rfl
    · rw [Console.setVc_vcCons_same, h.y]
      exact h.represents.toNat_y.symm
    · rw [h.eraseChar, hcell]
      refine Eq.trans ?_ hstore.symm
      have hretreat : w.retreat.picture k.mem = t.grid := h.grid.symm
      have hcolumn : w.retreat.x = t.x - 1 := congrArg (· - 1) hwx.symm
      have hline : w.retreat.y = t.y := h.y.symm
      rw [hretreat, hcolumn, hline]

theorem scrup : Tracks g c attr erase (scrup c) (Terminal.scrollUp erase) := by
  intro t w k h
  have hmem : (MySystem.scrup c k).mem = w.scrollMem erase k.mem := by
    rw [scrup_eq h.ready h.represents, setOrigin_crtc, h.eraseChar]
    rfl
  refine ⟨_, scrup_step h.ready h.represents, h.of_step (scrup_step h.ready h.represents) ?_ ?_ ?_⟩
  · rw [w.scroll_x]
    exact h.x
  · rw [w.scroll_y]
    exact h.y
  · rw [hmem, w.picture_scroll, ← h.grid]
    rfl

/-- The picture of a console is its grid of cells. -/
theorem picture_eq_grid (h : Ready g k) (hw : w.Represents (k.vcCons c)) (r : Fin g.lines)
    (col : Fin g.columns) : w.picture k.mem r col = k.grid c r col := by
  have hb := w.bounds
  have hrow := g.rowBytes_le
  have hscreen := g.screenBytes_le
  rw [Console.grid, hw.origin, h.sizeRow, Word.toNat_of (by omega), Word.toNat_of (by omega)]
  rfl

theorem scrdown : Tracks g c attr erase (scrdown c) (Terminal.scrollDown erase) := by
  intro t w k h
  have hstep := scrdown_step h.ready h.represents
  have hscroll := h.represents.scrollable h.ready
  have hregion : MySystem.scrdown c k = MySystem.scrdownRegion c k := by
    simp only [MySystem.scrdown, if_neg hscroll.region_open, ite_self]
  have hshifted := hscroll.scrdownRegion
  rw [← hregion] at hshifted
  refine ⟨w, hstep, h.of_step hstep h.x h.y ?_⟩
  have hlines : k.videoNumLines.toNat = g.lines := by
    have := g.lines_le
    rw [h.ready.lines, Word.toNat_of (by omega)]
  have hcolumns : k.videoNumColumns.toNat = g.columns := by
    have := g.columns_le
    rw [h.ready.columns, Word.toNat_of (by omega)]
  have hbottom : (k.vcCons c).bottom.toNat = g.lines := by
    have := g.lines_le
    rw [h.represents.bottom, Word.toNat_of (by omega)]
  have htop : (k.vcCons c).top.toNat = 0 := by
    rw [h.represents.top]
    rfl
  funext r col
  rw [picture_eq_grid hstep.ready hstep.represents, hshifted.grid r col (by omega) (by omega),
    htop, hbottom, h.eraseChar, shiftDown]
  have hr := r.isLt
  change Terminal.shiftDown erase t.grid r col = _
  rw [Terminal.shiftDown, h.grid]
  by_cases hfirst : r.val = 0
  · rw [if_pos hfirst, if_neg (by omega), if_pos hfirst]
  · rw [if_neg hfirst, if_pos (by omega)]
    exact picture_eq_grid h.ready h.represents ⟨r.val - 1, by omega⟩ col

end Tracks

namespace Mirrors

/-- The record and the bytes of its share determine what a console shows. -/
theorem of_agree (h : Mirrors d attr erase t w k) (ready : Ready g k')
    (record : k'.vcCons d = k.vcCons d) (agree : Memory.AgreeOn w.start w.stop k.mem k'.mem) :
    Mirrors d attr erase t w k' := by
  have hb := w.bounds
  refine ⟨ready, ?_, ?_, ?_, h.x, h.y, ?_⟩
  · rw [record]
    exact h.represents
  · rw [record]
    exact h.attr
  · rw [record]
    exact h.eraseChar
  · rw [h.grid]
    funext r col
    have hcell := w.cell_le r.isLt col.isLt
    have hbyte : ∀ a, w.start ≤ a → a < w.stop → k.mem.byteAt a = k'.mem.byteAt a := by
      intro a hlo hhi
      refine (agree (Word.of a) ?_ ?_).symm
      all_goals rwa [Word.toNat_of (by omega)]
    exact Memory.cell_congr (hbyte _ (by omega) (by omega)) (hbyte _ (by omega) (by omega))

/-- A step on another console, in a share apart. -/
theorem other {v v' : Window g} (h : Mirrors d attr erase t w k) (hs : Step c v v' k k')
    (hd : d ≠ c) (hapart : v.stop ≤ w.start ∨ w.stop ≤ v.start) :
    Mirrors d attr erase t w k' :=
  h.of_agree hs.ready (hs.others d hd) (Memory.AgreeOn.of_writes hs.writes hapart)

end Mirrors

end MySystem
