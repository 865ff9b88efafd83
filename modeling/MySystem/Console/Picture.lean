import MySystem.Console.Operation
import MySystem.Console.Terminal

/-!
# The driver refines the reference terminal

The picture of a window is the grid of cells from its origin on. Sliding the
window down the video memory and rewinding it to the start of the region are
the same operation on pictures: every row moves up by one. `Mirrors` relates a
terminal to a console state, and each output helper of the driver preserves it.
-/

namespace MySystem

open Machine

variable {g : Geometry} {c : Nat} {w : Window g} {k : Console} {attr : Byte} {erase : Half}

/-- The cells a window shows. -/
def Window.picture (w : Window g) (m : Memory) : Fin g.lines → Fin g.columns → Half :=
  fun r col => m.cell (w.origin + r.val * g.rowBytes + 2 * col.val)

namespace Window

/-- The row below the last one, seen from the origin. -/
private theorem bottom_row {r : Nat} (h : r < g.lines) (hlast : ¬ r + 1 < g.lines) :
    r * g.rowBytes + g.rowBytes = g.screenBytes := by
  have hr : r = g.lines - 1 := by omega
  rw [hr]
  exact g.last_row

/-- Sliding: the rows stay where they are, and the window moves down over them. -/
theorem picture_slide (hs : w.Slides) (m : Memory) :
    w.scroll.picture (w.scrollMem erase m) = Terminal.shiftUp erase (w.picture m) := by
  have hb := w.bounds
  have hrow : g.rowBytes = 2 * g.columns := rfl
  have hfits := hs
  rw [Slides, Nat.succ_mul] at hfits
  have hstart : w.origin = w.start + w.row * g.rowBytes := rfl
  have hend : w.scrEnd = w.origin + g.screenBytes := rfl
  have horigin := scroll_origin_of_slides hs
  funext r col
  have hcol := col.isLt
  rw [picture, horigin, scrollMem, if_pos hs, Terminal.shiftUp]
  split
  case isTrue hr =>
    have hcell := w.cell_le hr hcol
    have haddr : w.origin + g.rowBytes + r.val * g.rowBytes + 2 * col.val =
        w.origin + (r.val + 1) * g.rowBytes + 2 * col.val := by
      rw [Nat.succ_mul r.val]
      omega
    rw [haddr, Memory.cell_repStosw_up_of_le _ _ _ (by omega) (by omega) (by omega)]
    rfl
  case isFalse hr =>
    have hlast := bottom_row r.isLt hr
    have haddr : w.origin + g.rowBytes + r.val * g.rowBytes + 2 * col.val =
        w.scrEnd + 2 * col.val := by omega
    rw [haddr, Memory.cell_repStosw_up _ _ _ (by omega) hcol]

/-- Rewinding: the rows are copied back to the start of the region. -/
theorem picture_rewind (hs : ¬ w.Slides) (m : Memory) :
    w.scroll.picture (w.scrollMem erase m) = Terminal.shiftUp erase (w.picture m) := by
  have hb := w.bounds
  have hrow : g.rowBytes = 2 * g.columns := rfl
  have hrowle := g.rowBytes_le
  have hend : w.scrEnd = w.origin + g.screenBytes := rfl
  have horigin := scroll_origin_of_not_slides hs
  have hcopied := g.rows_dwords (g.lines - 1)
  have hlines := g.last_row
  funext r col
  have hcol := col.isLt
  rw [picture, horigin, scrollMem, if_neg hs, Terminal.shiftUp]
  split
  case isTrue hr =>
    have hcell := w.cell_le hr hcol
    have hrows : (r.val + 1) * g.rowBytes ≤ (g.lines - 1) * g.rowBytes :=
      Nat.mul_le_mul_right _ (by omega)
    rw [Nat.succ_mul] at hrows
    rw [Memory.cell_repStosw_up_of_le _ _ _ (by omega) (by omega) (by omega),
      Memory.cell_repMovsl_up _ _ (by omega) (by omega) (by omega)]
    rw [picture]
    congr 1
    rw [Nat.succ_mul r.val]
    omega
  case isFalse hr =>
    have hlast := bottom_row r.isLt hr
    have haddr : w.start + r.val * g.rowBytes + 2 * col.val =
        w.start + (g.lines - 1) * g.rowBytes + 2 * col.val := by omega
    rw [haddr, Memory.cell_repStosw_up _ _ _ (by omega) hcol]

theorem picture_scroll (m : Memory) :
    w.scroll.picture (w.scrollMem erase m) = Terminal.shiftUp erase (w.picture m) := by
  by_cases hs : w.Slides
  · exact picture_slide hs m
  · exact picture_rewind hs m

/-- Two cells of a screen are the same or do not overlap. -/
private theorem cell_ne {r r' col col' : Nat} (hcol : col < g.columns) (hcol' : col' < g.columns)
    (h : ¬ (r = r' ∧ col = col')) :
    r * g.rowBytes + 2 * col + 2 ≤ r' * g.rowBytes + 2 * col' ∨
      r' * g.rowBytes + 2 * col' + 2 ≤ r * g.rowBytes + 2 * col := by
  have hrow : g.rowBytes = 2 * g.columns := rfl
  obtain hlt | heq | hgt := Nat.lt_trichotomy r r'
  · have := Nat.mul_le_mul_right g.rowBytes (Nat.succ_le_of_lt hlt)
    rw [Nat.succ_mul] at this
    omega
  · subst heq
    omega
  · have := Nat.mul_le_mul_right g.rowBytes (Nat.succ_le_of_lt hgt)
    rw [Nat.succ_mul] at this
    omega

/-- A store at the cursor sets one cell of the picture. -/
theorem picture_store (hx : w.x < g.columns) (v : Half) (m : Memory) :
    w.picture (m.store16 (Word.of w.pos) v) = Terminal.set (w.picture m) w.y w.x v := by
  have hb := w.bounds
  have hpos : w.pos = w.origin + w.y * g.rowBytes + 2 * w.x := rfl
  have hcursor := w.cell_le w.y_lt hx
  funext r col
  have hcell := w.cell_le r.isLt col.isLt
  rw [picture, Terminal.set]
  split
  case isTrue h =>
    rw [h.1, h.2, ← hpos, Memory.cell_store16_same _ _ (by omega)]
  case isFalse h =>
    have := cell_ne col.isLt hx h
    rw [Memory.cell_store16_of_le _ _ (by omega) (by omega) (by omega)]
    rfl

end Window

/-- Console `c` at window `w` shows the terminal `t`. -/
structure Mirrors (c : Nat) (attr : Byte) (erase : Half) (t : Terminal g.columns g.lines Half)
    (w : Window g) (k : Console) : Prop where
  ready : Ready g k
  represents : w.Represents (k.vcCons c)
  attr : (k.vcCons c).attr = attr
  eraseChar : (k.vcCons c).videoEraseChar = erase
  x : t.x = w.x
  y : t.y = w.y
  grid : t.grid = w.picture k.mem

namespace Mirrors

variable {t t' : Terminal g.columns g.lines Half} {w' : Window g} {k' : Console}

/-- A step preserves the relation when it has the terminal's effect on cursor and picture. -/
theorem of_step (h : Mirrors c attr erase t w k) (hs : Step c w w' k k') (x : t'.x = w'.x)
    (y : t'.y = w'.y) (grid : t'.grid = w'.picture k'.mem) :
    Mirrors c attr erase t' w' k' where
  ready := hs.ready
  represents := hs.represents
  attr := hs.attr.trans h.attr
  eraseChar := hs.eraseChar.trans h.eraseChar
  x := x
  y := y
  grid := grid

theorem cr (h : Mirrors c attr erase t w k) :
    Mirrors c attr erase t.carriageReturn w.carriageReturn (cr c k) :=
  h.of_step (cr_step h.ready h.represents) rfl h.y h.grid

private theorem setOrigin_mem (h : Ready g k) : (setOrigin c k).mem = k.mem := by
  rw [setOrigin]
  split
  · rfl
  · rw [setAddress_eq h]

private theorem scrup_mem (h : Mirrors c attr erase t w k) :
    (scrup c k).mem = w.scrollMem erase k.mem := by
  rw [scrup_eq h.ready h.represents, h.eraseChar]
  exact setOrigin_mem (h.ready.update ..)

theorem lf (h : Mirrors c attr erase t w k) :
    Mirrors c attr erase (t.lineFeed erase) w.lineFeed (lf c k) := by
  have hstep := lf_step h.ready h.represents
  by_cases hy : w.y + 1 < g.lines
  · have hline : w.lineFeed = { w with y := w.y + 1, y_lt := hy } := dif_pos hy
    have hterm : t.lineFeed erase = { t with y := t.y + 1, y_lt := by rw [h.y]; exact hy } :=
      dif_pos (by rw [h.y]; exact hy)
    have hmem : (MySystem.lf c k).mem = k.mem := by
      rw [MySystem.lf, if_pos ((lf_test h.represents).mpr hy)]
      rfl
    refine h.of_step hstep ?_ ?_ ?_
    · rw [hterm, hline]
      exact h.x
    · rw [hterm, hline]
      exact congrArg (· + 1) h.y
    · rw [hterm, hmem, hline]
      exact h.grid
  · have hline : w.lineFeed = w.scroll := dif_neg hy
    have hterm : t.lineFeed erase = { t with grid := Terminal.shiftUp erase t.grid } :=
      dif_neg (by rw [h.y]; exact hy)
    have hscrup : MySystem.lf c k = scrup c k := by
      rw [MySystem.lf, if_neg (mt (lf_test h.represents).mp hy)]
    refine h.of_step hstep ?_ ?_ ?_
    · rw [hterm, w.lineFeed_x]
      exact h.x
    · rw [hterm, hline, w.scroll_y]
      exact h.y
    · rw [hterm, hscrup, scrup_mem h, hline, w.picture_scroll, ← h.grid]

theorem wrap (h : Mirrors c attr erase t w k) :
    Mirrors c attr erase (t.wrap erase) w.wrap (wrap c k) := by
  by_cases hx : w.x = g.columns
  · have hstep := wrapLine_step h.ready h.represents hx
    have hline : Mirrors c attr erase t.carriageReturn w.carriageReturn (wrapLine c k) :=
      h.of_step hstep rfl h.y h.grid
    rw [wrap_eq_lf h.ready h.represents hx, Terminal.wrap, if_pos (h.x.trans hx), Window.wrap,
      if_pos hx]
    exact hline.lf
  · rw [wrap_eq_self h.ready h.represents hx, Terminal.wrap,
      if_neg (by rw [h.x]; exact hx), Window.wrap, if_neg hx]
    exact h

theorem putGlyph (hcols : 0 < g.columns) (h : Mirrors c attr erase t w k) (b : Byte) :
    Mirrors c attr erase (t.glyph erase hcols (attr ++ b)) w.glyph (putGlyph c b k) := by
  have hwrap := h.wrap
  refine h.of_step (putGlyph_step h.ready h.represents b) ?_ hwrap.y ?_
  · exact congrArg (· + 1) hwrap.x
  · have hmem : (MySystem.putGlyph c b k).mem =
        (MySystem.wrap c k).mem.store16 (Word.of w.wrap.pos) (attr ++ b) := by
      rw [← hwrap.represents.pos, ← hwrap.attr]
      rfl
    have hpicture := Window.picture_store w.wrap_x_lt (attr ++ b) (MySystem.wrap c k).mem
    rw [hmem]
    refine Eq.trans ?_ hpicture.symm
    rw [← hwrap.grid, ← hwrap.x, ← hwrap.y]
    rfl

/-- `set_cursor` leaves the picture alone. -/
theorem setCursor (h : Mirrors c attr erase t w k) :
    Mirrors c attr erase t w (setCursor c k) := by
  have hmem : (MySystem.setCursor c k).mem = k.mem := by
    rw [MySystem.setCursor]
    split
    · rfl
    · rw [setAddress_eq (h.ready.update ..)]
  refine h.of_step (setCursor_step h.ready h.represents) h.x h.y ?_
  rw [hmem]
  exact h.grid

end Mirrors

/-! ## Bytes -/

/-- The screen of geometry `g`: its cells are the hardware's. -/
abbrev Screen (g : Geometry) : Type := Terminal g.columns g.lines Half

namespace Screen

variable (attr : Byte) (erase : Half)

theorem columns_pos (g : Geometry) : 0 < g.columns :=
  Nat.lt_of_lt_of_le (by decide) g.columns_pos

/-- A byte of `console_print`. -/
def print (b : Byte) (t : Screen g) : Screen g :=
  if b = 10 then t.carriageReturn.lineFeed erase
  else if b = 13 then t.carriageReturn
  else t.glyph erase (columns_pos g) (attr ++ b)

/-- A byte taken out of a write queue. -/
def write (b : Byte) (t : Screen g) : Screen g :=
  if 32 ≤ b.toNat ∧ b.toNat ≤ 126 then t.glyph erase (columns_pos g) (attr ++ b)
  else if b = 10 ∨ b = 11 ∨ b = 12 then t.lineFeed erase
  else if b = 13 then t.carriageReturn
  else t

end Screen

/-- On console `c` the driver's `f` is the terminal's `f'`. -/
def Tracks (g : Geometry) (c : Nat) (attr : Byte) (erase : Half) (f : Console → Console)
    (f' : Screen g → Screen g) : Prop :=
  ∀ ⦃t : Screen g⦄ ⦃w : Window g⦄ ⦃k : Console⦄, Mirrors c attr erase t w k →
    ∃ w', Step c w w' k (f k) ∧ Mirrors c attr erase (f' t) w' (f k)

namespace Tracks

variable {f₁ f₂ : Console → Console} {f₁' f₂' : Screen g → Screen g}

theorem comp (h₂ : Tracks g c attr erase f₂ f₂') (h₁ : Tracks g c attr erase f₁ f₁') :
    Tracks g c attr erase (f₂ ∘ f₁) (f₂' ∘ f₁') := by
  intro t w k h
  obtain ⟨w', hs₁, hm₁⟩ := h₁ h
  obtain ⟨w'', hs₂, hm₂⟩ := h₂ hm₁
  exact ⟨w'', hs₁.trans hs₂, hm₂⟩

theorem foldl {α : Type} {body : α → Console → Console} {body' : α → Screen g → Screen g}
    (h : ∀ a, Tracks g c attr erase (body a) (body' a)) (l : List α) :
    Tracks g c attr erase (fun k => l.foldl (fun k a => body a k) k)
      (fun t => l.foldl (fun t a => body' a t) t) := by
  induction l with
  | nil =>
      intro t w k h
      exact ⟨w, .refl h.ready h.represents, h⟩
  | cons a l ih => exact ih.comp (h a)

theorem cr : Tracks g c attr erase (cr c) Terminal.carriageReturn := by
  intro t w k h
  exact ⟨_, cr_step h.ready h.represents, h.cr⟩

theorem lf : Tracks g c attr erase (lf c) (Terminal.lineFeed erase) := by
  intro t w k h
  exact ⟨_, lf_step h.ready h.represents, h.lf⟩

theorem putGlyph (b : Byte) : Tracks g c attr erase (putGlyph c b)
    fun t => t.glyph erase (Screen.columns_pos g) (attr ++ b) := by
  intro t w k h
  exact ⟨_, putGlyph_step h.ready h.represents b, h.putGlyph _ b⟩

/-- The test of `con_write` on a signed `char` selects the printable bytes. -/
theorem printable_iff (b : Byte) :
    (31 < b.toInt ∧ b.toInt < 127) ↔ (32 ≤ b.toNat ∧ b.toNat ≤ 126) := by
  have := b.isLt
  rw [BitVec.toInt_eq_toNat_cond]
  split <;> omega

theorem conChar (b : Byte) : Tracks g c attr erase (conChar c b) (Screen.write attr erase b) := by
  intro t w k h
  simp only [MySystem.conChar, Screen.write, printable_iff]
  split
  · exact putGlyph b h
  · split
    · exact lf h
    · split
      · exact cr h
      · exact ⟨w, .refl h.ready h.represents, h⟩

/-- `console_print` stops at the first zero byte. -/
theorem consolePrintLoop (b : List Byte) : Tracks g c attr erase (consolePrintLoop c b)
    fun t => (b.takeWhile (· ≠ 0)).foldl (fun t b => Screen.print attr erase b t) t := by
  induction b with
  | nil =>
      intro t w k h
      exact ⟨w, .refl h.ready h.represents, h⟩
  | cons a b ih =>
      intro t w k h
      rw [MySystem.consolePrintLoop]
      by_cases hzero : a = 0
      · simp only [hzero, if_true, ne_eq, not_true_eq_false, decide_false, List.takeWhile_cons]
        exact ⟨w, .refl h.ready h.represents, h⟩
      · simp only [hzero, if_false, ne_eq, not_false_eq_true, decide_true, List.takeWhile_cons,
          if_true, List.foldl_cons, Screen.print]
        split
        · exact (ih.comp (lf.comp cr)) h
        · split
          · exact (ih.comp cr) h
          · exact (ih.comp (putGlyph a)) h

end Tracks

end MySystem
