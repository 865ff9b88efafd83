import Mathlib.Logic.Function.Basic

/-!
# A reference terminal

What a console is for: `lines` rows of `columns` cells and a cursor that may
stand just past the last column. A glyph arriving there first goes to the next
line. Cells are of any type, and the blank that fills a new row is a parameter.
-/

namespace MySystem

@[ext] structure Terminal (columns lines : Nat) (Cell : Type) where
  grid : Fin lines → Fin columns → Cell
  x : Nat
  y : Nat
  x_le : x ≤ columns
  y_lt : y < lines

namespace Terminal

variable {columns lines : Nat} {Cell : Type} (blank : Cell) (t : Terminal columns lines Cell)

/-- Every row moves up by one, and the bottom row is blank. -/
def shiftUp (grid : Fin lines → Fin columns → Cell) : Fin lines → Fin columns → Cell :=
  fun r c => if h : r.val + 1 < lines then grid ⟨r.val + 1, h⟩ c else blank

def lineFeed : Terminal columns lines Cell :=
  if h : t.y + 1 < lines then { t with y := t.y + 1, y_lt := h }
  else { t with grid := shiftUp blank t.grid }

def carriageReturn : Terminal columns lines Cell :=
  { t with x := 0, x_le := Nat.zero_le _ }

/-- The deferred wrap: a cursor past the last column goes to the next line. -/
def wrap : Terminal columns lines Cell :=
  if t.x = columns then t.carriageReturn.lineFeed blank else t

/-- One cell of the grid is overwritten. -/
def set (grid : Fin lines → Fin columns → Cell) (r c : Nat) (a : Cell) :
    Fin lines → Fin columns → Cell :=
  fun r' c' => if r'.val = r ∧ c'.val = c then a else grid r' c'

/-- A glyph is put at a cursor on the screen. -/
def put (a : Cell) (h : t.x < columns) : Terminal columns lines Cell :=
  { t with grid := set t.grid t.y t.x a, x := t.x + 1, x_le := h }

@[simp] theorem lineFeed_x : (t.lineFeed blank).x = t.x := by
  rw [lineFeed]
  split <;> rfl

theorem wrap_x_lt (h : 0 < columns) : (t.wrap blank).x < columns := by
  have hle := t.x_le
  rw [wrap]
  split
  · simpa [carriageReturn] using h
  · omega

/-- A glyph arrives. The terminal must have a column to put it in. -/
def glyph (h : 0 < columns) (a : Cell) : Terminal columns lines Cell :=
  (t.wrap blank).put a (t.wrap_x_lt blank h)

/-! ## Motions and scrolls asked for by the kernel -/

/-- A cursor address outside the screen is refused. -/
def goto (x y : Nat) : Terminal columns lines Cell :=
  if h : x ≤ columns ∧ y < lines then { t with x := x, y := y, x_le := h.1, y_lt := h.2 } else t

/-- The cell before the cursor is erased, unless the row begins there. -/
def delete : Terminal columns lines Cell :=
  if t.x = 0 then t
  else { t with
    grid := set t.grid t.y (t.x - 1) blank
    x := t.x - 1
    x_le := Nat.le_trans (Nat.sub_le ..) t.x_le }

def scrollUp : Terminal columns lines Cell :=
  { t with grid := shiftUp blank t.grid }

/-- Every row moves down by one, and the top row is blank. -/
def shiftDown (grid : Fin lines → Fin columns → Cell) : Fin lines → Fin columns → Cell :=
  fun r c => if r.val = 0 then blank else grid ⟨r.val - 1, by omega⟩ c

def scrollDown : Terminal columns lines Cell :=
  { t with grid := shiftDown blank t.grid }

end Terminal

end MySystem
