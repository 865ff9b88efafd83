import MySystem.Console.Init

/-!
# Operations on one console

`Local c f` says that `f` acts on console `c` alone, whatever the geometry and
wherever its screen stands: it has a `Step`. Local operations compose, so the
output loops are local because their bodies are.
-/

namespace MySystem

open Machine

/-- From every console state with a screen, `f` takes a step on console `c`. -/
def Local (c : Nat) (f : Console → Console) : Prop :=
  ∀ ⦃g : Geometry⦄ ⦃w : Window g⦄ ⦃k : Console⦄, Ready g k → w.Represents (k.vcCons c) →
    ∃ w', Step c w w' k (f k)

namespace Local

variable {c : Nat} {f f' : Console → Console}

theorem id (c : Nat) : Local c id := by
  intro g w k h hw
  exact ⟨w, .refl h hw⟩

theorem comp (h' : Local c f') (h : Local c f) : Local c (f' ∘ f) := by
  intro g w k hk hw
  obtain ⟨w', hstep⟩ := h hk hw
  obtain ⟨w'', hstep'⟩ := h' hstep.ready hstep.represents
  exact ⟨w'', hstep.trans hstep'⟩

/-- Running a list of local operations is local. -/
theorem foldl {α : Type} {body : α → Console → Console} (h : ∀ a, Local c (body a))
    (l : List α) : Local c fun k => l.foldl (fun k a => body a k) k := by
  induction l with
  | nil => exact .id c
  | cons a l ih => exact ih.comp (h a)

theorem cr (c : Nat) : Local c (cr c) := by
  intro g w k h hw
  exact ⟨_, cr_step h hw⟩

theorem lf (c : Nat) : Local c (lf c) := by
  intro g w k h hw
  exact ⟨_, lf_step h hw⟩

theorem del (c : Nat) : Local c (del c) := by
  intro g w k h hw
  exact del_step h hw

theorem gotoxy (c : Nat) (x y : Word) : Local c (gotoxy c x y) := by
  intro g w k h hw
  exact gotoxy_step h hw x y

theorem scrup (c : Nat) : Local c (scrup c) := by
  intro g w k h hw
  exact ⟨_, scrup_step h hw⟩

theorem scrdown (c : Nat) : Local c (scrdown c) := by
  intro g w k h hw
  exact ⟨_, scrdown_step h hw⟩

theorem putGlyph (c : Nat) (b : Byte) : Local c (putGlyph c b) := by
  intro g w k h hw
  exact ⟨_, putGlyph_step h hw b⟩

theorem setCursor (c : Nat) : Local c (setCursor c) := by
  intro g w k h hw
  exact ⟨_, setCursor_step h hw⟩

theorem conChar (c : Nat) (b : Byte) : Local c (conChar c b) := by
  intro g w k h hw
  rw [MySystem.conChar]
  split
  · exact putGlyph c b h hw
  · split
    · exact lf c h hw
    · split
      · exact cr c h hw
      · exact ⟨w, .refl h hw⟩

theorem consolePrintLoop (c : Nat) (b : List Byte) : Local c (consolePrintLoop c b) := by
  induction b with
  | nil => exact .id c
  | cons a b ih =>
      intro g w k h hw
      rw [MySystem.consolePrintLoop]
      split
      · exact ⟨w, .refl h hw⟩
      · split
        · exact (ih.comp ((lf c).comp (cr c))) h hw
        · split
          · exact (ih.comp (cr c)) h hw
          · exact (ih.comp (putGlyph c a)) h hw

/-- `console_print` works on the foreground console. -/
theorem consolePrint (b : List Byte) {g : Geometry} {w : Window g} {k : Console}
    (h : Ready g k) (hw : w.Represents (k.vcCons k.fgConsole)) :
    ∃ w', Step k.fgConsole w w' k (consolePrint b k) :=
  ((setCursor k.fgConsole).comp (consolePrintLoop k.fgConsole b)) h hw

end Local

/-! ## The invariant of a console -/

/-- What holds of the record of console `c` between operations. -/
structure ConsoleInvariant (k : Console) (c : Nat) : Prop where
  x_le : (k.vcCons c).x.toNat ≤ k.videoNumColumns.toNat
  y_lt : (k.vcCons c).y.toNat < k.videoNumLines.toNat
  pos_eq : (k.vcCons c).pos.toNat = (k.vcCons c).origin.toNat +
    (k.vcCons c).y.toNat * k.videoSizeRow.toNat + 2 * (k.vcCons c).x.toNat
  scrEnd_eq : (k.vcCons c).scrEnd.toNat = (k.vcCons c).origin.toNat +
    k.videoNumLines.toNat * k.videoSizeRow.toNat
  start_le : (k.vcCons c).videoMemStart.toNat ≤ (k.vcCons c).origin.toNat
  aligned : ((k.vcCons c).origin.toNat - (k.vcCons c).videoMemStart.toNat) %
    k.videoSizeRow.toNat = 0
  scrEnd_le : (k.vcCons c).scrEnd.toNat ≤ (k.vcCons c).videoMemEnd.toNat

/-- A record that represents a window satisfies the invariant. -/
theorem Window.Represents.invariant {g : Geometry} {w : Window g} {k : Console} {c : Nat}
    (h : Ready g k) (hw : w.Represents (k.vcCons c)) : ConsoleInvariant k c := by
  have hb := w.bounds
  have hl := g.lines_le
  have hrow := g.rowBytes_le
  have hscreen := g.screenBytes_le
  have hrow2 : g.rowBytes = 2 * g.columns := rfl
  have hx := w.x_le
  have hy := w.y_lt
  have hend : w.scrEnd = w.origin + g.lines * g.rowBytes := rfl
  have hpos : w.pos = w.origin + w.y * g.rowBytes + 2 * w.x := rfl
  have horigin : w.origin - w.start = w.row * g.rowBytes := Nat.add_sub_cancel_left _ _
  constructor
  all_goals
    simp only [h.columns, h.lines, h.sizeRow, hw.x, hw.y, hw.pos, hw.origin, hw.scrEnd,
      hw.videoMemStart, hw.videoMemEnd]
    repeat rw [Word.toNat_of (by omega)]
  · exact hx
  · exact hy
  · exact hpos
  · exact hend
  · exact hb.1
  · rw [horigin, Nat.mul_mod_left]
  · exact hb.2.2.2.1

end MySystem
