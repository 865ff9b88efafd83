import MySystem.Console.Terminal

/-!
# Text on a sheet

A text printed on an endless sheet of paper: every line is broken into rows of at
most `columns` characters. A terminal on which the text is printed shows the last
rows of the sheet, in front of what was on the screen before. The sheet is
written one character at a time, as a typewriter does it, and `layout` is the
closed form of the rows that a text leaves on it.
-/

namespace MySystem

/-! ## The rows of a text -/

section Layout

variable {α : Type} (columns : Nat)

/-- The rows of one line: all of them full but the last one, and one row at least. -/
def lineRows (line : List α) : List (List α) :=
  (List.range ((line.length - 1) / columns + 1)).map fun i => (line.drop (i * columns)).take columns

variable [DecidableEq α] (newline : α)

/-- The rows of a text. -/
def layout (s : List α) : List (List α) := (s.splitOn newline).flatMap (lineRows columns)

variable {newline}

end Layout

/-! ## The typewriter -/

/-- The rows above and the row being written. -/
structure Sheet (α : Type) where
  above : List (List α)
  line : List α

namespace Sheet

variable {α : Type} (columns : Nat)

def rows (p : Sheet α) : List (List α) := p.above ++ [p.line]

def feed (p : Sheet α) : Sheet α := ⟨p.rows, []⟩

/-- A character that does not fit goes to the next row. -/
def strike (p : Sheet α) (a : α) : Sheet α :=
  if p.line.length = columns then ⟨p.rows, [a]⟩ else ⟨p.above, p.line ++ [a]⟩

variable [DecidableEq α] (newline : α)

def type (p : Sheet α) (a : α) : Sheet α := if a = newline then p.feed else p.strike columns a

end Sheet

/-! ## What a terminal shows of a sheet -/

/-- What is at a place of the rows; the characters a sheet begins with left no mark. -/
def mark {α : Type} (rows : List (List (Option α))) (i c : Nat) : Option α :=
  (rows[i]?.bind (·[c]?)).join

section Marks

variable {α : Type} {above : List (List (Option α))} {line : List (Option α)}

theorem mark_feed (i c : Nat) :
    mark (above ++ [line] ++ [[]]) i c = mark (above ++ [line]) i c := by
  obtain hlt | hge := Nat.lt_or_ge i (above ++ [line]).length
  · rw [mark, mark, List.getElem?_append_left hlt]
  · rw [mark, mark, List.getElem?_append_right hge, List.getElem?_eq_none hge]
    obtain hzero | hpos := Nat.eq_zero_or_pos (i - (above ++ [line]).length)
    · rw [hzero]
      rfl
    · rw [List.getElem?_eq_none (by exact hpos)]

/-- A character is marked where the row being written ends. -/
theorem mark_strike (a : α) (i c : Nat) :
    mark (above ++ [line ++ [some a]]) i c =
      if i = above.length ∧ c = line.length then some a else mark (above ++ [line]) i c := by
  obtain hlt | heq | hgt := Nat.lt_trichotomy i above.length
  · rw [if_neg (by omega), mark, mark, List.getElem?_append_left hlt, List.getElem?_append_left hlt]
  · subst heq
    have hrow : ∀ row : List (Option α), (above ++ [row])[above.length]? = some row := fun row => by
      rw [List.getElem?_append_right (Nat.le_refl _), Nat.sub_self]
      rfl
    rw [mark, mark, hrow, hrow, Option.bind_some, Option.bind_some]
    obtain hlt | heq | hgt := Nat.lt_trichotomy c line.length
    · rw [if_neg (by omega), List.getElem?_append_left hlt]
    · rw [if_pos ⟨rfl, heq⟩, heq, List.getElem?_append_right (Nat.le_refl _), Nat.sub_self]
      rfl
    · have hout : (line ++ [some a]).length ≤ c := by
        rw [List.length_append]
        exact hgt
      rw [if_neg (by omega), List.getElem?_eq_none hout, List.getElem?_eq_none (Nat.le_of_lt hgt)]
  · have hout : ∀ row : List (Option α), (above ++ [row])[i]? = none := fun row =>
      List.getElem?_eq_none (by rw [List.length_append]; exact hgt)
    rw [if_neg (by omega), mark, mark, hout, hout]

end Marks

namespace Terminal

variable {columns lines : Nat} {Cell α : Type} (glyph : α → Cell) (blank : Cell)
  (old : Terminal columns lines Cell)

/-- The screen of `old` with blank rows below it. -/
def background (i : Nat) (c : Fin columns) : Cell :=
  if h : i < lines then old.grid ⟨i, h⟩ c else blank

/-- The cells of an endless screen on which `rows` start at the cursor's row of `old`. -/
def paper (rows : List (List (Option α))) (i : Nat) (c : Fin columns) : Cell :=
  (if i < old.y then none else mark rows (i - old.y) c).elim (old.background blank i c) glyph

/-- `t` is the end of that screen, with the cursor behind the last row. -/
structure ShowsEnd (rows : List (List (Option α))) (t : Terminal columns lines Cell) : Prop where
  x : t.x = (rows.getLastD []).length
  y : t.y + 1 = min (old.y + rows.length) lines
  grid : ∀ r c, t.grid r c = old.paper glyph blank rows (r.val + (old.y + rows.length - lines)) c

namespace ShowsEnd

variable {glyph blank old} {above : List (List (Option α))} {line : List (Option α)}
  {t : Terminal columns lines Cell}

theorem x_line (h : old.ShowsEnd glyph blank (above ++ [line]) t) : t.x = line.length := by
  rw [h.x, List.getLastD_concat]

/-- Before anything is typed. -/
theorem start : old.ShowsEnd glyph blank [List.replicate old.x (none : Option α)] old := by
  have hy := old.y_lt
  refine ⟨?_, ?_, fun r c => ?_⟩
  · exact (List.length_replicate ..).symm
  · rw [List.length_singleton]
    omega
  · have hup : old.y + [List.replicate old.x (none : Option α)].length - lines = 0 := by
      rw [List.length_singleton]
      omega
    have hmark : mark [List.replicate old.x (none : Option α)] (r.val - old.y) c.val = none := by
      rw [mark]
      cases r.val - old.y with
      | zero =>
          rw [List.getElem?_cons_zero, Option.bind_some, List.getElem?_replicate]
          split <;> rfl
      | succ i => rfl
    rw [hup, Nat.add_zero, paper, hmark, ite_self, background, dif_pos r.isLt]
    rfl

/-- The next row of the sheet is the next line of the terminal. -/
theorem feed (h : old.ShowsEnd glyph blank (above ++ [line]) t) :
    old.ShowsEnd glyph blank (above ++ [line] ++ [[]]) (t.carriageReturn.lineFeed blank) := by
  have hy := h.y
  have hold := old.y_lt
  have hrows : (above ++ [line] ++ [[]]).length = (above ++ [line]).length + 1 :=
    List.length_append
  -- the marks stay where they are
  have hpaper : ∀ i c, old.paper glyph blank (above ++ [line] ++ [[]]) i c =
      old.paper glyph blank (above ++ [line]) i c := fun i c => by rw [paper, paper, mark_feed]
  by_cases hroom : t.y + 1 < lines
  · have hline : t.carriageReturn.lineFeed blank =
        { t.carriageReturn with y := t.y + 1, y_lt := hroom } := dif_pos hroom
    rw [hline]
    refine ⟨?_, ?_, fun r c => ?_⟩
    · rw [List.getLastD_concat]
      rfl
    · rw [hrows]
      change t.y + 1 + 1 = _
      omega
    · have hup : old.y + (above ++ [line] ++ [[]]).length - lines = 0 := by omega
      rw [hpaper, hup]
      refine (h.grid r c).trans ?_
      congr 2
      omega
  · have hup : old.y + (above ++ [line] ++ [[]]).length - lines =
        old.y + (above ++ [line]).length - lines + 1 := by omega
    have hline : t.carriageReturn.lineFeed blank =
        { t.carriageReturn with grid := shiftUp blank t.grid } := dif_neg hroom
    rw [hline]
    refine ⟨?_, ?_, fun r c => ?_⟩
    · rw [List.getLastD_concat]
      rfl
    · rw [hrows]
      change t.y + 1 = _
      omega
    · rw [hpaper, hup]
      change shiftUp blank t.grid r c = _
      rw [shiftUp]
      split
      case isTrue hr =>
        rw [h.grid]
        congr 1
        simp only
        omega
      case isFalse hr =>
        -- nothing was ever written on the row that appears at the bottom
        have hlast : (above ++ [line])[lines - 1 + (old.y + (above ++ [line]).length - lines + 1) -
            old.y]? = none := List.getElem?_eq_none (by omega)
        have hbottom : r.val = lines - 1 := by omega
        rw [paper, hbottom, if_neg (by omega), mark, hlast, background, dif_neg (by omega)]
        rfl

/-- The cell under the cursor is the next place on the sheet. -/
theorem put (h : old.ShowsEnd glyph blank (above ++ [line]) t) (a : α) (hx : t.x < columns) :
    old.ShowsEnd glyph blank (above ++ [line ++ [some a]]) (t.put (glyph a) hx) := by
  have hy := h.y
  have hline := h.x_line
  have hrows : ∀ row : List (Option α), (above ++ [row]).length = above.length + 1 := fun row =>
    List.length_append
  rw [hrows] at hy
  refine ⟨?_, ?_, fun r c => ?_⟩
  · rw [List.getLastD_concat, List.length_append, ← hline]
    rfl
  · rw [hrows]
    exact hy
  · have hr := r.isLt
    have hold := old.y_lt
    have hgrid := h.grid r c
    rw [hrows] at hgrid
    rw [hrows]
    change Terminal.set t.grid t.y t.x (glyph a) r c = _
    rw [Terminal.set, paper, mark_strike]
    by_cases hhere : r.val = t.y ∧ c.val = t.x
    · have hplace : r.val + (old.y + (above.length + 1) - lines) - old.y = above.length ∧
          c.val = line.length := by
        rw [← hline]
        exact ⟨by omega, hhere.2⟩
      rw [if_pos hhere, if_neg (by omega), if_pos hplace]
      rfl
    · rw [if_neg hhere, hgrid, paper]
      split
      case isTrue => rfl
      case isFalse habove =>
        have hplace : ¬ (r.val + (old.y + (above.length + 1) - lines) - old.y = above.length ∧
            c.val = line.length) := by
          rw [← hline]
          intro hp
          exact hhere ⟨by omega, hp.2⟩
        rw [if_neg hplace]

end ShowsEnd

/-- A character of a text arrives. -/
def receive [DecidableEq α] (newline : α) (hpos : 0 < columns) (t : Terminal columns lines Cell)
    (a : α) : Terminal columns lines Cell :=
  if a = newline then t.carriageReturn.lineFeed blank else t.glyph blank hpos (glyph a)

/-- Typing on the sheet and printing on the terminal go together. -/
theorem ShowsEnd.type [DecidableEq α] {newline : α} {glyph : α → Cell} {blank : Cell}
    {old t : Terminal columns lines Cell} {p : Sheet (Option α)} (hpos : 0 < columns)
    (h : old.ShowsEnd glyph blank p.rows t) (a : α) :
    old.ShowsEnd glyph blank (p.type columns (some newline) (some a)).rows
      (t.receive glyph blank newline hpos a) := by
  rw [Sheet.type, receive]
  by_cases ha : a = newline
  · rw [if_pos ha, if_pos (congrArg some ha)]
    exact h.feed
  · have hwrap : t.wrap blank = if t.x = columns then t.carriageReturn.lineFeed blank else t := rfl
    rw [if_neg ha, if_neg (fun heq => ha (Option.some.inj heq)), Sheet.strike, ← h.x_line]
    by_cases hfull : t.x = columns
    · rw [if_pos hfull] at hwrap ⊢
      have hfeed := h.feed
      rw [← hwrap] at hfeed
      exact hfeed.put a (t.wrap_x_lt blank hpos)
    · rw [if_neg hfull] at hwrap ⊢
      rw [Sheet.rows, ← hwrap] at h
      exact h.put a (t.wrap_x_lt blank hpos)

end Terminal

end MySystem
