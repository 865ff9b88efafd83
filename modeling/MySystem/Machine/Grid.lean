import MySystem.Machine.Memory

/-!
# Grids of cells in memory

A text screen is a grid of cells laid out row after row from an origin. A block
copy by whole rows and a fill of the row it vacates shift a band of rows by one;
the lemmas here state this for ascending and descending string instructions.
-/

namespace Machine

/-- Rows `top .. bottom - 1` move up by one and the last of them is filled. -/
def shiftUp {α : Type} (top bottom : Nat) (fill : α) (rows : Nat → Nat → α) (r col : Nat) : α :=
  if top ≤ r ∧ r + 1 < bottom then rows (r + 1) col
  else if r + 1 = bottom then fill
  else rows r col

/-- Rows `top .. bottom - 1` move down by one and the first of them is filled. -/
def shiftDown {α : Type} (top bottom : Nat) (fill : α) (rows : Nat → Nat → α) (r col : Nat) : α :=
  if top < r ∧ r < bottom then rows (r - 1) col
  else if r = top then fill
  else rows r col

namespace Memory

/-- The cells of a grid whose rows are `row` bytes long. -/
def grid (m : Memory) (origin row r col : Nat) : Half :=
  m.cell (origin + r * row + 2 * col)

/-- The dwords of `n` rows of an even number of cells. -/
theorem rows_dwords {columns : Nat} (heven : columns % 2 = 0) (n : Nat) :
    4 * (n * columns / 2) = n * (2 * columns) := by
  have hcells : n * columns % 2 = 0 := by
    rw [Nat.mul_mod, heven, Nat.mul_zero]
  have hbytes : n * (2 * columns) = 2 * (n * columns) := Nat.mul_left_comm ..
  omega

/-- Distinct rows do not overlap. -/
theorem row_add_le {r r' : Nat} (row : Nat) (h : r < r') : r * row + row ≤ r' * row := by
  have hle := Nat.mul_le_mul_right row (Nat.succ_le_of_lt h)
  rwa [Nat.succ_mul] at hle

section Shift

variable {columns lines top bottom r col : Nat} (fill : Half) (m : Memory)

/-- The row below a grid erased, seen from one row further down. -/
theorem grid_slide {origin : Nat} (hfits : origin + lines * (2 * columns) + 2 * columns ≤ 2 ^ 32)
    (hr : r < lines) (hcol : col < columns) :
    (repStosw 2 fill columns (Word.of (origin + lines * (2 * columns))) m).grid
        (origin + 2 * columns) (2 * columns) r col =
      shiftUp 0 lines fill (m.grid origin (2 * columns)) r col := by
  have hnext : (r + 1) * (2 * columns) = r * (2 * columns) + 2 * columns := Nat.succ_mul ..
  have haddr : origin + 2 * columns + r * (2 * columns) + 2 * col =
      origin + (r + 1) * (2 * columns) + 2 * col := by
    omega
  rw [grid, haddr, shiftUp]
  by_cases hlast : r + 1 = lines
  · rw [if_neg (by omega), if_pos hlast, hlast]
    exact cell_repStosw_up fill columns m hfits hcol
  · have hbelow := row_add_le (2 * columns) (show r + 1 < lines by omega)
    rw [if_pos (by omega), grid]
    exact cell_repStosw_up_of_le fill columns m hfits (by omega) (by omega)

/-- A band of rows copied one row up, possibly to a lower origin, and the row
after the copy erased. -/
theorem grid_copyUp {src dst : Nat} (heven : columns % 2 = 0) (hle : dst ≤ src)
    (htop : top < bottom) (hbottom : bottom ≤ lines)
    (hfits : src + lines * (2 * columns) ≤ 2 ^ 32) (hr : r < lines) (hcol : col < columns) :
    (repStosw 2 fill columns (Word.of (dst + (bottom - 1) * (2 * columns)))
        (repMovsl 4 ((bottom - top - 1) * columns / 2) (Word.of (src + (top + 1) * (2 * columns)))
          (Word.of (dst + top * (2 * columns))) m).1).grid dst (2 * columns) r col =
      if top ≤ r ∧ r + 1 < bottom then m.grid src (2 * columns) (r + 1) col
      else if r + 1 = bottom then fill
      else m.grid dst (2 * columns) r col := by
  have hdwords := rows_dwords heven (bottom - top - 1)
  have hband : (bottom - top - 1) * (2 * columns) + top * (2 * columns) =
      (bottom - 1) * (2 * columns) := by
    rw [← Nat.add_mul]
    congr 1
    omega
  have hbelow := row_add_le (2 * columns) (show bottom - 1 < lines by omega)
  have hfirst : (top + 1) * (2 * columns) = top * (2 * columns) + 2 * columns := Nat.succ_mul ..
  have hnext : (r + 1) * (2 * columns) = r * (2 * columns) + 2 * columns := Nat.succ_mul ..
  have hend := row_add_le (2 * columns) hr
  by_cases herased : r + 1 = bottom
  · have hrow : r = bottom - 1 := by omega
    rw [if_neg (by omega), if_pos herased, grid, hrow]
    exact cell_repStosw_up fill columns _ (by omega) hcol
  by_cases hmoved : top ≤ r ∧ r + 1 < bottom
  · -- the row lies in the copied band and above the erased row
    have habove := row_add_le (2 * columns) (show r < bottom - 1 by omega)
    have hstart := Nat.mul_le_mul_right (2 * columns) hmoved.1
    rw [if_pos hmoved, grid, cell_repStosw_up_of_le fill columns _ (by omega) (by omega) (by omega),
      cell_repMovsl_up _ m (by omega) (by omega) (by omega), grid]
    congr 1
    omega
  · have hout : dst + r * (2 * columns) + 2 * columns ≤ dst + top * (2 * columns) ∨
        dst + (bottom - 1) * (2 * columns) + 2 * columns ≤ dst + r * (2 * columns) := by
      rcases Nat.lt_or_ge r top with hlt | hge
      · have := row_add_le (2 * columns) hlt
        omega
      · have := row_add_le (2 * columns) (show bottom - 1 < r by omega)
        omega
    rw [if_neg hmoved, if_neg herased, grid,
      cell_repStosw_up_of_le fill columns _ (by omega) (by omega) (by omega),
      cell_repMovsl_up_of_le _ m (by omega) (by omega) (by omega) (by omega), grid]

/-- A band of rows copied one row down from its end, and its first row erased. -/
theorem grid_copyDown {origin : Nat} (heven : columns % 2 = 0)
    (htop : top < bottom) (hbottom : bottom ≤ lines)
    (hfits : origin + lines * (2 * columns) ≤ 2 ^ 32) (hr : r < lines) (hcol : col < columns) :
    (repStosw (-2) fill columns (Word.of (origin + top * (2 * columns) + 2 * columns) - 2)
        (repMovsl (-4) ((bottom - top - 1) * columns / 2)
          (Word.of (origin + (bottom - 1) * (2 * columns)) - 4)
          (Word.of (origin + bottom * (2 * columns)) - 4) m).1).grid
        origin (2 * columns) r col =
      shiftDown top bottom fill (m.grid origin (2 * columns)) r col := by
  have hdwords := rows_dwords heven (bottom - top - 1)
  have hband : (bottom - top - 1) * (2 * columns) + top * (2 * columns) =
      (bottom - 1) * (2 * columns) := by
    rw [← Nat.add_mul]
    congr 1
    omega
  have hlast : bottom * (2 * columns) = (bottom - 1) * (2 * columns) + 2 * columns := by
    rw [← Nat.succ_mul, Nat.succ_eq_add_one, Nat.sub_add_cancel (by omega)]
  have hbelow := row_add_le (2 * columns) (show bottom - 1 < lines by omega)
  have hend := row_add_le (2 * columns) hr
  have hsrc : origin + (bottom - 1) * (2 * columns) =
      origin + top * (2 * columns) + 4 * ((bottom - top - 1) * columns / 2) := by
    omega
  have hdst : origin + bottom * (2 * columns) =
      origin + top * (2 * columns) + 2 * columns + 4 * ((bottom - top - 1) * columns / 2) := by
    omega
  rw [hsrc, hdst, shiftDown]
  by_cases herased : r = top
  · rw [if_neg (by omega), if_pos herased, grid, herased]
    exact cell_repStosw_down fill columns _ (by omega) hcol
  by_cases hmoved : top < r ∧ r < bottom
  · have hprev : r * (2 * columns) = (r - 1) * (2 * columns) + 2 * columns := by
      rw [← Nat.succ_mul, Nat.succ_eq_add_one, Nat.sub_add_cancel (by omega)]
    have hstart := row_add_le (2 * columns) hmoved.1
    have hstop := row_add_le (2 * columns) hmoved.2
    rw [if_pos hmoved, grid,
      cell_repStosw_down_of_le fill columns _ (by omega) (by omega) (by omega),
      cell_repMovsl_down _ m (by omega) (by omega) (by omega), grid]
    congr 1
    omega
  · have hout : origin + r * (2 * columns) + 2 * columns ≤ origin + top * (2 * columns) ∨
        origin + bottom * (2 * columns) ≤ origin + r * (2 * columns) := by
      rcases Nat.lt_or_ge r top with hlt | hge
      · have := row_add_le (2 * columns) hlt
        omega
      · have := Nat.mul_le_mul_right (2 * columns) (show bottom ≤ r by omega)
        omega
    rw [if_neg hmoved, if_neg herased, grid,
      cell_repStosw_down_of_le fill columns _ (by omega) (by omega) (by omega),
      cell_repMovsl_down_of_le _ m (by omega) (by omega) (by omega) (by omega), grid]

end Shift

end Memory

end Machine
