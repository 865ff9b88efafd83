import MySystem.Console.Track
import MySystem.Machine.Refinement

/-!
# What a screen costs

`scrup` slides the origin down the share of its console and copies the screen
only when the share ends. The bytes the driver stores for a terminal, and the
place of its origin, depend on nothing but how much has been done to the cells
of the terminal (`Work`): each operation adds its own work (`Costs`).
-/

namespace MySystem

open Machine

variable {g : Geometry} {c : Nat} {w w' : Window g} {k k' : Console} {attr : Byte} {erase : Half}
  {t t' : Screen g}

/-! ## Work -/

/-- What is done to the cells of a terminal. -/
@[ext] structure Work where
  /-- Cells stored on their own. -/
  cells : Nat
  /-- Scrolls by a line up. -/
  scrolls : Nat
  /-- Scrolls by a line down. -/
  lowered : Nat

namespace Work

instance : Zero Work := ⟨⟨0, 0, 0⟩⟩

instance : Add Work :=
  ⟨fun a b => ⟨a.cells + b.cells, a.scrolls + b.scrolls, a.lowered + b.lowered⟩⟩

instance : AddMonoid Work where
  add_assoc a b c := Work.ext (Nat.add_assoc ..) (Nat.add_assoc ..) (Nat.add_assoc ..)
  zero_add a := Work.ext (Nat.zero_add _) (Nat.zero_add _) (Nat.zero_add _)
  add_zero _ := rfl
  nsmul := nsmulRec

def cell : Work := ⟨1, 0, 0⟩
def scroll : Work := ⟨0, 1, 0⟩
def lower : Work := ⟨0, 0, 1⟩

end Work

namespace Terminal

variable {columns lines : Nat} {Cell : Type} (t : Terminal columns lines Cell)

def lineFeedWork : Work := if t.y + 1 < lines then 0 else .scroll

def wrapWork : Work := if t.x = columns then t.carriageReturn.lineFeedWork else 0

def glyphWork : Work := t.wrapWork + .cell

def deleteWork : Work := if t.x = 0 then 0 else .cell

end Terminal

namespace Screen

/-- The work of a byte of `console_print`. -/
def printWork (b : Byte) (t : Screen g) : Work :=
  if b = 10 then t.carriageReturn.lineFeedWork
  else if b = 13 then 0
  else t.glyphWork

/-- The work of a byte taken out of a write queue. -/
def writeWork (b : Byte) (t : Screen g) : Work :=
  if 32 ≤ b.toNat ∧ b.toNat ≤ 126 then t.glyphWork
  else if b = 10 ∨ b = 11 ∨ b = 12 then t.lineFeedWork
  else 0

end Screen

namespace Geometry

variable (g : Geometry) (n : Work)

/-- The scrolls from one copy of a screen to the next. -/
def turns : Nat := (g.share - g.screenBytes) / g.rowBytes + 1

/-- The bytes the driver stores for a console whose work is `n`: a scroll is paid
for with a row, and every `turns` scrolls the other rows are copied. -/
def bytes : Nat :=
  2 * n.cells + g.rowBytes * n.scrolls + (g.screenBytes - g.rowBytes) * (n.scrolls / g.turns) +
    g.screenBytes * n.lowered

theorem turns_pos : 0 < g.turns := Nat.succ_pos _

/-- Work that does not scroll is paid for as it is. -/
theorem bytes_add_still {m : Work} (h : m.scrolls = 0) :
    g.bytes (n + m) = g.bytes n + 2 * m.cells + g.screenBytes * m.lowered := by
  have hscrolls : n.scrolls + m.scrolls = n.scrolls := by omega
  have hadd : n + m = ⟨n.cells + m.cells, n.scrolls, n.lowered + m.lowered⟩ :=
    Work.ext rfl hscrolls rfl
  simp only [bytes, hadd, Nat.mul_add]
  omega

/-- One more turn: the remainder goes up or starts over, and then the quotient goes up. -/
private theorem turn (s : Nat) {m : Nat} (hm : 0 < m) :
    (s % m + 1 < m → (s + 1) % m = s % m + 1 ∧ (s + 1) / m = s / m) ∧
      (¬ s % m + 1 < m → (s + 1) % m = 0 ∧ (s + 1) / m = s / m + 1) := by
  have hs := Nat.div_add_mod s m
  have hlt := Nat.mod_lt s hm
  refine ⟨fun h => ?_, fun h => ?_⟩
  · obtain ⟨hdiv, hmod⟩ := (Nat.div_mod_unique hm).mpr
      ⟨(by omega : s % m + 1 + m * (s / m) = s + 1), h⟩
    exact ⟨hmod, hdiv⟩
  · obtain ⟨hdiv, hmod⟩ := (Nat.div_mod_unique hm).mpr
      ⟨(by rw [Nat.mul_succ]; omega : 0 + m * (s / m + 1) = s + 1), hm⟩
    exact ⟨hmod, hdiv⟩

/-- A scroll that only slides is paid for with a row, any other one with the screen. -/
theorem bytes_add_scroll :
    g.bytes (n + .scroll) =
      g.bytes n + if n.scrolls % g.turns + 1 < g.turns then g.rowBytes else g.screenBytes := by
  have hadd : n + .scroll = ⟨n.cells, n.scrolls + 1, n.lowered⟩ := rfl
  have hrow := g.rowBytes_le
  obtain ⟨hslide, hcopy⟩ := turn n.scrolls g.turns_pos
  rw [bytes, bytes, hadd]
  dsimp only
  split
  case isTrue h =>
    rw [(hslide h).2, Nat.mul_succ]
    omega
  case isFalse h =>
    rw [(hcopy h).2, Nat.mul_succ, Nat.mul_succ]
    omega

/-- The rows the origin has slid after one more scroll. -/
theorem row_add_scroll :
    (n + .scroll).scrolls % g.turns =
      if n.scrolls % g.turns + 1 < g.turns then n.scrolls % g.turns + 1 else 0 := by
  obtain ⟨hslide, hcopy⟩ := turn n.scrolls g.turns_pos
  change (n.scrolls + 1) % g.turns = _
  split
  case isTrue h => exact (hslide h).1
  case isFalse h => exact (hcopy h).1

end Geometry

/-! ## Stores -/

namespace Window

/-- The origin of a record and the start of the share determine the row. -/
theorem Represents.row_eq {v v' : Vc} (hw : w.Represents v) (hw' : w'.Represents v')
    (origin : v'.origin = v.origin) (start : w'.start = w.start) : w'.row = w.row := by
  have heq := hw.origin_eq hw' origin
  have hpos := g.rowBytes_pos
  rw [Window.origin, Window.origin, start] at heq
  exact Nat.eq_of_mul_eq_mul_right (by omega) (Nat.add_left_cancel heq)

/-- A window slides while the rows of its share last. -/
theorem slides_iff (h : w.stop = w.start + g.share) : w.Slides ↔ w.row + 1 < g.turns := by
  have hpos := g.rowBytes_pos
  have hle := g.screenBytes_le_share
  rw [Slides, Geometry.turns, Nat.add_lt_add_iff_right, Nat.lt_iff_add_one_le,
    Nat.le_div_iff_mul_le (by omega)]
  omega

theorem scroll_row (w : Window g) : w.scroll.row = if w.Slides then w.row + 1 else 0 := by
  rw [scroll]
  split <;> rfl

theorem length_scrollMem (w : Window g) (erase : Half) (m : Memory) :
    (w.scrollMem erase m).trace.length =
      m.trace.length + if w.Slides then g.rowBytes else g.screenBytes := by
  have hrow : g.rowBytes = 2 * g.columns := rfl
  have hrows := g.rows_dwords (g.lines - 1)
  have hlast := g.last_row
  rw [scrollMem]
  split
  case isTrue => rw [Memory.length_repStosw, hrow]
  case isFalse =>
    rw [Memory.length_repStosw, Memory.length_repMovsl]
    omega

theorem length_scrollDownMem (w : Window g) (erase : Half) (m : Memory) :
    (w.scrollDownMem erase m).trace.length = m.trace.length + g.screenBytes := by
  have hrow : g.rowBytes = 2 * g.columns := rfl
  have hrows := g.rows_dwords (g.lines - 1)
  have hlast := g.last_row
  rw [scrollDownMem, Memory.length_repStosw, Memory.length_repMovsl]
  omega

end Window

/-! ## One console -/

/-- Console `c` shows the terminal `t`, whose work is `n`, on a driver that had
stored `base` bytes for everything else. -/
structure Metered (c : Nat) (attr : Byte) (erase : Half) (t : Screen g) (n : Work) (base : Nat)
    (w : Window g) (k : Console) : Prop where
  mirrors : Mirrors c attr erase t w k
  share : w.stop = w.start + g.share
  row : w.row = n.scrolls % g.turns
  stored : k.mem.trace.length = base + g.bytes n

namespace Metered

variable {n m : Work} {base : Nat}

/-- The origin stays, and cells are stored as the work says. -/
theorem still (h : Metered c attr erase t n base w k) (hm : Mirrors c attr erase t' w' k')
    (start : w'.start = w.start) (stop : w'.stop = w.stop)
    (origin : (k'.vcCons c).origin = (k.vcCons c).origin) (scrolls : m.scrolls = 0)
    (stored : k'.mem.trace.length =
      k.mem.trace.length + 2 * m.cells + g.screenBytes * m.lowered) :
    Metered c attr erase t' (n + m) base w' k' := by
  refine ⟨hm, by rw [start, stop]; exact h.share, ?_, ?_⟩
  · have hadd : (n + m).scrolls = n.scrolls := by
      change n.scrolls + m.scrolls = _
      omega
    rw [h.mirrors.represents.row_eq hm.represents origin start, h.row, hadd]
  · rw [stored, h.stored, g.bytes_add_still n scrolls]
    omega

/-- Origin and memory end up as `scrup` leaves them. -/
theorem scrolled (h : Metered c attr erase t n base w k) (hm : Mirrors c attr erase t' w' k')
    (start : w'.start = w.start) (stop : w'.stop = w.stop)
    (origin : (k'.vcCons c).origin = ((scrup c k).vcCons c).origin)
    (mem : k'.mem = (scrup c k).mem) :
    Metered c attr erase t' (n + .scroll) base w' k' := by
  have hready := h.mirrors.ready
  have hrep := h.mirrors.represents
  have hslides := w.slides_iff h.share
  have hrow := (scrup_step hready hrep).represents.row_eq hm.represents origin
    (start.trans w.scroll_start.symm)
  have hmem : (scrup c k).mem = w.scrollMem (k.vcCons c).videoEraseChar k.mem := by
    rw [scrup_eq hready hrep, setOrigin_crtc]
    rfl
  refine ⟨hm, by rw [start, stop]; exact h.share, ?_, ?_⟩
  · rw [hrow, w.scroll_row, g.row_add_scroll, ← h.row]
    simp only [hslides]
  · rw [mem, hmem, w.length_scrollMem, h.stored, g.bytes_add_scroll, ← h.row]
    simp only [hslides]
    omega

end Metered

/-- On console `c` the driver's `f` is the terminal's `f'`, at the price of its work. -/
def Costs (g : Geometry) (c : Nat) (attr : Byte) (erase : Half) (f : Console → Console)
    (f' : Screen g → Screen g) (work : Screen g → Work) : Prop :=
  ∀ ⦃t : Screen g⦄ ⦃n : Work⦄ ⦃base : Nat⦄ ⦃w : Window g⦄ ⦃k : Console⦄,
    Metered c attr erase t n base w k →
      ∃ w', Step c w w' k (f k) ∧ Metered c attr erase (f' t) (n + work t) base w' (f k)

namespace Costs

variable {f f₁ f₂ : Console → Console} {f' f₁' f₂' : Screen g → Screen g}
  {work₁ work₂ : Screen g → Work}

theorem comp (h₂ : Costs g c attr erase f₂ f₂' work₂) (h₁ : Costs g c attr erase f₁ f₁' work₁) :
    Costs g c attr erase (f₂ ∘ f₁) (f₂' ∘ f₁') fun t => work₁ t + work₂ (f₁' t) := by
  intro t n base w k h
  obtain ⟨w', hs₁, hm₁⟩ := h₁ h
  obtain ⟨w'', hs₂, hm₂⟩ := h₂ hm₁
  refine ⟨w'', hs₁.trans hs₂, ?_⟩
  rw [← add_assoc]
  exact hm₂

theorem foldl {α : Type} {body : α → Console → Console} {body' : α → Screen g → Screen g}
    {work : α → Screen g → Work} (h : ∀ a, Costs g c attr erase (body a) (body' a) (work a))
    (l : List α) :
    Costs g c attr erase (fun k => l.foldl (fun k a => body a k) k)
      (fun t => l.foldl (fun t a => body' a t) t) (charges work body' l) := by
  induction l with
  | nil =>
      intro t n base w k h
      exact ⟨w, .refl h.mirrors.ready h.mirrors.represents, by rw [charges, add_zero]; exact h⟩
  | cons a l ih => exact ih.comp (h a)

/-- What leaves the origin and the memory alone costs nothing. -/
theorem free (hf : Tracks g c attr erase f f')
    (origin : ∀ k, ((f k).vcCons c).origin = (k.vcCons c).origin) (mem : ∀ k, (f k).mem = k.mem) :
    Costs g c attr erase f f' fun _ => 0 := by
  intro t n base w k h
  obtain ⟨w', hs, hm⟩ := hf h.mirrors
  refine ⟨w', hs, h.still hm hs.start hs.stop (origin k) rfl ?_⟩
  rw [mem]
  rfl

theorem cr : Costs g c attr erase (cr c) Terminal.carriageReturn fun _ => 0 := by
  apply free Tracks.cr
  · intro k
    rw [MySystem.cr, Console.setVc_vcCons_same]
  · exact fun _ => rfl

theorem gotoxy (x y : Word) :
    Costs g c attr erase (gotoxy c x y) (fun t => t.goto x.toNat y.toNat) fun _ => 0 := by
  apply free (Tracks.gotoxy x y)
  · intro k
    rw [MySystem.gotoxy]
    split
    · rfl
    · rw [Console.setVc_vcCons_same]
  · intro k
    rw [MySystem.gotoxy]
    split <;> rfl

theorem setCursor : Costs g c attr erase (setCursor c) id fun _ => 0 := by
  apply free
  · intro t w k h
    exact ⟨w, setCursor_step h.ready h.represents, h.setCursor⟩
  · intro k
    rw [setCursor_crtc]
  · intro k
    rw [setCursor_crtc]

theorem lf : Costs g c attr erase (lf c) (Terminal.lineFeed erase) Terminal.lineFeedWork := by
  intro t n base w k h
  have hm := h.mirrors
  have hs := lf_step hm.ready hm.represents
  refine ⟨w.lineFeed, hs, ?_⟩
  by_cases hy : w.y + 1 < g.lines
  · have hlf : MySystem.lf c k =
        k.setVc c fun v => { v with y := v.y + 1, pos := v.pos + k.videoSizeRow } :=
      if_pos ((lf_test hm.represents).mpr hy)
    have hwork : t.lineFeedWork = 0 := if_pos (by rw [hm.y]; exact hy)
    rw [hwork]
    refine h.still hm.lf hs.start hs.stop ?_ rfl ?_
    · rw [hlf, Console.setVc_vcCons_same]
    · rw [hlf]
      rfl
  · have hlf : MySystem.lf c k = scrup c k := if_neg (mt (lf_test hm.represents).mp hy)
    have hwork : t.lineFeedWork = .scroll := if_neg (by rw [hm.y]; exact hy)
    rw [hwork]
    exact h.scrolled hm.lf hs.start hs.stop (by rw [hlf]) (by rw [hlf])

theorem wrap : Costs g c attr erase (wrap c) (Terminal.wrap erase) Terminal.wrapWork := by
  intro t n base w k h
  have hm := h.mirrors
  by_cases hx : w.x = g.columns
  · have hs := wrapLine_step hm.ready hm.represents hx
    have hline : Metered c attr erase t.carriageReturn n base w.carriageReturn (wrapLine c k) :=
      ⟨hm.of_step hs rfl hm.y hm.grid, h.share, h.row, h.stored⟩
    obtain ⟨w', hs', hlf⟩ := lf hline
    rw [wrap_eq_lf hm.ready hm.represents hx, Terminal.wrap, if_pos (hm.x.trans hx),
      Terminal.wrapWork, if_pos (hm.x.trans hx)]
    exact ⟨w', hs.trans hs', hlf⟩
  · have hx' : t.x ≠ g.columns := by rwa [hm.x]
    rw [wrap_eq_self hm.ready hm.represents hx, Terminal.wrap, if_neg hx', Terminal.wrapWork,
      if_neg hx', add_zero]
    exact ⟨w, .refl hm.ready hm.represents, h⟩

theorem putGlyph (b : Byte) : Costs g c attr erase (putGlyph c b)
    (fun t => t.glyph erase (Screen.columns_pos g) (attr ++ b)) Terminal.glyphWork := by
  intro t n base w k h
  have hs := putGlyph_step h.mirrors.ready h.mirrors.represents b
  obtain ⟨v, hv, hwrap⟩ := wrap h
  refine ⟨w.glyph, hs, ?_⟩
  rw [Terminal.glyphWork, ← add_assoc]
  refine hwrap.still (h.mirrors.putGlyph _ b) (hs.start.trans hv.start.symm)
    (hs.stop.trans hv.stop.symm) ?_ rfl ?_
  · rw [MySystem.putGlyph, Console.setVc_vcCons_same]
  · rw [MySystem.putGlyph]
    exact Memory.length_store16 ..

theorem conChar (b : Byte) :
    Costs g c attr erase (conChar c b) (Screen.write attr erase b) (Screen.writeWork b) := by
  intro t n base w k h
  simp only [MySystem.conChar, Screen.write, Screen.writeWork, Tracks.printable_iff]
  split
  · exact putGlyph b h
  · split
    · exact lf h
    · rw [add_zero]
      split
      · exact cr h
      · exact ⟨w, .refl h.mirrors.ready h.mirrors.represents, h⟩

theorem consolePrintLoop (b : List Byte) : Costs g c attr erase (consolePrintLoop c b)
    (fun t => (b.takeWhile (· ≠ 0)).foldl (fun t b => Screen.print attr erase b t) t)
    (charges Screen.printWork (Screen.print attr erase) (b.takeWhile (· ≠ 0))) := by
  have hnewline : Costs g c attr erase (MySystem.lf c ∘ MySystem.cr c)
      (Terminal.lineFeed erase ∘ Terminal.carriageReturn)
      fun t => t.carriageReturn.lineFeedWork := by
    have hlf : Costs g c attr erase (MySystem.lf c) (Terminal.lineFeed erase)
        Terminal.lineFeedWork := lf
    have hcomp := hlf.comp cr
    simp only [zero_add] at hcomp
    exact hcomp
  induction b with
  | nil =>
      intro t n base w k h
      exact ⟨w, .refl h.mirrors.ready h.mirrors.represents, by
        rw [List.takeWhile_nil, charges, add_zero]; exact h⟩
  | cons a b ih =>
      intro t n base w k h
      rw [MySystem.consolePrintLoop]
      by_cases hzero : a = 0
      · simp only [hzero, if_true, ne_eq, not_true_eq_false, decide_false, List.takeWhile_cons,
          Bool.false_eq_true, if_false]
        refine ⟨w, .refl h.mirrors.ready h.mirrors.represents, ?_⟩
        rw [charges, add_zero]
        exact h
      · simp only [hzero, if_false, ne_eq, not_false_eq_true, decide_true, List.takeWhile_cons,
          if_true, List.foldl_cons, charges, Screen.print, Screen.printWork]
        split
        · exact (ih.comp hnewline) h
        · split
          · exact (ih.comp cr) h
          · exact (ih.comp (putGlyph a)) h

theorem del : Costs g c attr erase (del c) (Terminal.delete erase) Terminal.deleteWork := by
  intro t n base w k h
  have hm := h.mirrors
  have hzero : (k.vcCons c).x = 0 ↔ t.x = 0 := by
    rw [hm.x, ← hm.represents.toNat_x]
    exact BitVec.toNat_inj.symm
  obtain ⟨w', hs, hm'⟩ := Tracks.del hm
  refine ⟨w', hs, ?_⟩
  by_cases hx : t.x = 0
  · have hdel : MySystem.del c k = k := if_neg (not_not.mpr (hzero.mpr hx))
    have hwork : t.deleteWork = 0 := if_pos hx
    rw [hwork]
    refine h.still hm' hs.start hs.stop ?_ rfl ?_
    · rw [hdel]
    · rw [hdel]
      rfl
  · have hdel : MySystem.del c k =
        { k with mem := k.mem.store16 ((k.vcCons c).pos - 2) (k.vcCons c).videoEraseChar }.setVc c
          fun v => { v with pos := v.pos - 2, x := v.x - 1 } := if_pos (mt hzero.mp hx)
    have hwork : t.deleteWork = .cell := if_neg hx
    rw [hwork]
    refine h.still hm' hs.start hs.stop ?_ rfl ?_
    · rw [hdel, Console.setVc_vcCons_same]
    · rw [hdel]
      exact Memory.length_store16 ..

theorem scrup : Costs g c attr erase (scrup c) (Terminal.scrollUp erase) fun _ => .scroll := by
  intro t n base w k h
  obtain ⟨w', hs, hm⟩ := Tracks.scrup h.mirrors
  exact ⟨w', hs, h.scrolled hm hs.start hs.stop rfl rfl⟩

theorem scrdown : Costs g c attr erase (scrdown c) (Terminal.scrollDown erase) fun _ => .lower := by
  intro t n base w k h
  obtain ⟨w', hs, hm⟩ := Tracks.scrdown h.mirrors
  have heq := scrdown_eq h.mirrors.ready h.mirrors.represents
  refine ⟨w', hs, h.still hm hs.start hs.stop ?_ rfl ?_⟩
  · rw [heq]
  · rw [heq]
    dsimp only
    rw [w.length_scrollDownMem, Work.lower, Nat.mul_zero, Nat.mul_one, Nat.add_zero]

end Costs

end MySystem
