import MySystem.Console.Driver

/-!
# Where a console's screen lies

A `Window` is the abstract position of a screen in its console's share of the
video memory: the region, how many rows the origin has slid down it, and the
cursor. Its fields carry their bounds, so every window keeps its screen inside
its region. The five redundant words `origin`, `pos`, `scr_end`, `x` and `y` of
the driver are functions of a window (`Window.Represents`), and the motions of
the driver are functions on windows.
-/

namespace MySystem

open Machine

/-- A text geometry whose screen fits the video memory. -/
structure Geometry where
  columns : Nat
  lines : Nat
  columns_even : columns % 2 = 0
  columns_pos : 2 ≤ columns
  lines_pos : 1 ≤ lines
  fits : 2 * columns * lines ≤ 0x2000

namespace Geometry

variable (g : Geometry)

/-- The first column is a place for a cursor. -/
theorem zero_le_columns : 0 ≤ g.columns := Nat.zero_le _

def rowBytes : Nat := 2 * g.columns

def screenBytes : Nat := g.lines * g.rowBytes

theorem rowBytes_pos : 4 ≤ g.rowBytes := by
  have := g.columns_pos
  rw [rowBytes]
  omega

theorem screenBytes_le : g.screenBytes ≤ 0x2000 := by
  rw [screenBytes, rowBytes, Nat.mul_comm]
  exact g.fits

theorem rowBytes_le : g.rowBytes ≤ g.screenBytes :=
  Nat.le_mul_of_pos_left _ g.lines_pos

theorem lines_le : g.lines ≤ 0x800 := by
  have h : g.lines * 4 ≤ g.screenBytes := Nat.mul_le_mul_left _ g.rowBytes_pos
  have := g.screenBytes_le
  omega

theorem columns_le : g.columns ≤ 0x1000 := by
  have h : 2 * g.columns ≤ g.screenBytes := g.rowBytes_le
  have := g.screenBytes_le
  omega

/-- The rows before the last one and the last one make up the screen. -/
theorem last_row : (g.lines - 1) * g.rowBytes + g.rowBytes = g.screenBytes := by
  rw [← Nat.succ_mul, Nat.succ_eq_add_one, Nat.sub_add_cancel g.lines_pos, screenBytes]

/-- A row below the last one ends inside the screen. -/
theorem row_le {r : Nat} (h : r < g.lines) : r * g.rowBytes + g.rowBytes ≤ g.screenBytes := by
  have := Nat.mul_le_mul_right g.rowBytes (Nat.succ_le_of_lt h)
  rwa [Nat.succ_mul] at this

/-- The dwords of `n` rows, as the driver computes them from the cell count. -/
theorem rows_dwords (n : Nat) : 4 * (n * g.columns / 2) = n * g.rowBytes := by
  have heven : n * g.columns % 2 = 0 := by
    rw [Nat.mul_mod, g.columns_even, Nat.mul_zero]
  have : n * g.rowBytes = 2 * (n * g.columns) := by
    rw [rowBytes, Nat.mul_left_comm]
  omega

end Geometry

/-- The position of a screen of geometry `g` in a region of the video memory. -/
@[ext] structure Window (g : Geometry) where
  start : Nat
  stop : Nat
  /-- Rows the origin has slid since the start of the region. -/
  row : Nat
  x : Nat
  y : Nat
  x_le : x ≤ g.columns
  y_lt : y < g.lines
  base_le : 0xb8000 ≤ start
  stop_le : stop ≤ 0xba000
  fits : start + row * g.rowBytes + g.screenBytes ≤ stop

namespace Window

variable {g : Geometry} (w : Window g)

def origin : Nat := w.start + w.row * g.rowBytes

def pos : Nat := w.origin + w.y * g.rowBytes + 2 * w.x

def scrEnd : Nat := w.origin + g.screenBytes

theorem start_le_origin : w.start ≤ w.origin := Nat.le_add_right _ _

theorem scrEnd_le : w.scrEnd ≤ w.stop := w.fits

/-- A cell of the screen lies in the region. -/
theorem cell_le {r c : Nat} (hr : r < g.lines) (hc : c < g.columns) :
    w.origin + r * g.rowBytes + 2 * c + 2 ≤ w.scrEnd := by
  have := g.row_le hr
  have : g.rowBytes = 2 * g.columns := rfl
  rw [scrEnd]
  omega

theorem pos_le : w.pos ≤ w.scrEnd := by
  have := g.row_le w.y_lt
  have : g.rowBytes = 2 * g.columns := rfl
  have := w.x_le
  rw [pos, scrEnd]
  omega

/-- `gotoxy` within bounds. -/
def moveTo (x y : Nat) (hx : x ≤ g.columns) (hy : y < g.lines) : Window g :=
  { w with x := x, y := y, x_le := hx, y_lt := hy }

def carriageReturn : Window g :=
  { w with x := 0, x_le := g.zero_le_columns }

/-- Whether the screen can slide one more row inside the region. -/
def Slides : Prop := w.start + (w.row + 1) * g.rowBytes + g.screenBytes ≤ w.stop

instance : Decidable w.Slides := inferInstanceAs (Decidable (_ ≤ _))

/-- One scroll: slide by a row while the region allows it, else start over. -/
def scroll : Window g :=
  if h : w.Slides then { w with row := w.row + 1, fits := h }
  else { w with row := 0, fits := by have := w.fits; omega }

def lineFeed : Window g :=
  if h : w.y + 1 < g.lines then { w with y := w.y + 1, y_lt := h } else w.scroll

/-- A cursor past the last column first goes to the next line. -/
def wrap : Window g :=
  if w.x = g.columns then w.carriageReturn.lineFeed else w

/-- The cursor after a glyph stored at a column of the screen. -/
def advance (h : w.x < g.columns) : Window g :=
  { w with x := w.x + 1, x_le := h }

def retreat : Window g :=
  { w with x := w.x - 1, x_le := by have := w.x_le; omega }

@[simp] theorem scroll_start : w.scroll.start = w.start := by
  rw [scroll]; split <;> rfl

@[simp] theorem scroll_stop : w.scroll.stop = w.stop := by
  rw [scroll]; split <;> rfl

@[simp] theorem scroll_x : w.scroll.x = w.x := by
  rw [scroll]; split <;> rfl

@[simp] theorem scroll_y : w.scroll.y = w.y := by
  rw [scroll]; split <;> rfl

variable {w} in
theorem scroll_origin_of_slides (hs : w.Slides) : w.scroll.origin = w.origin + g.rowBytes := by
  have hscroll : w.scroll = { w with row := w.row + 1, fits := hs } := dif_pos hs
  simp only [hscroll, origin, Nat.succ_mul]
  omega

variable {w} in
theorem scroll_origin_of_not_slides (hs : ¬ w.Slides) : w.scroll.origin = w.start := by
  have hscroll : w.scroll = { w with row := 0, fits := by have := w.fits; omega } := dif_neg hs
  simp only [hscroll, origin]
  omega

@[simp] theorem lineFeed_x : w.lineFeed.x = w.x := by
  rw [lineFeed]; split <;> simp

theorem wrap_x_lt : w.wrap.x < g.columns := by
  have := g.columns_pos
  have := w.x_le
  rw [wrap]
  split
  · simp only [lineFeed_x, carriageReturn]
    omega
  · omega

/-- The record of a console whose screen is at `w`. -/
structure Represents (v : Vc) : Prop where
  origin : v.origin = Word.of w.origin
  scrEnd : v.scrEnd = Word.of w.scrEnd
  pos : v.pos = Word.of w.pos
  x : v.x = Word.of w.x
  y : v.y = Word.of w.y
  top : v.top = 0
  bottom : v.bottom = Word.of g.lines
  videoMemStart : v.videoMemStart = Word.of w.start
  videoMemEnd : v.videoMemEnd = Word.of w.stop

/-- Every address of a window is a small number. -/
theorem bounds : w.start ≤ w.origin ∧ w.origin ≤ w.pos ∧ w.pos ≤ w.scrEnd ∧
    w.scrEnd ≤ w.stop ∧ w.stop ≤ 0xba000 ∧ 0xb8000 ≤ w.start :=
  ⟨w.start_le_origin, by rw [pos]; omega, w.pos_le, w.scrEnd_le, w.stop_le, w.base_le⟩

end Window

end MySystem
