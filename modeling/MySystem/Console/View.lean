import MySystem.Console.Operation

/-!
# What a console depends on

The view of a console is its record, the bytes of its share of the video memory
and, in the foreground, the controller. An operation on the console that starts
from equal views ends in equal views (`Respects`): no scroll copies a byte from
another console's share.
-/

namespace MySystem

open Machine

variable {g : Geometry} {c : Nat} {w : Window g} {k k' k'' : Console}

/-- The states are the same for console `c`. -/
structure SameView (c : Nat) (k k' : Console) : Prop where
  record : k'.vcCons c = k.vcCons c
  mem : Memory.AgreeOn (k.vcCons c).videoMemStart.toNat (k.vcCons c).videoMemEnd.toNat
    k.mem k'.mem
  fgConsole : k'.fgConsole = k.fgConsole
  crtc : c = k.fgConsole → k'.crtc = k.crtc

namespace SameView

theorem refl (c : Nat) (k : Console) : SameView c k k :=
  ⟨rfl, fun _ _ _ => rfl, rfl, fun _ => rfl⟩

theorem symm (h : SameView c k k') : SameView c k' k := by
  refine ⟨h.record.symm, ?_, h.fgConsole.symm, fun hc => ?_⟩
  · rw [h.record]
    exact h.mem.symm
  · rw [h.fgConsole] at hc
    exact (h.crtc hc).symm

theorem trans (h : SameView c k k') (h' : SameView c k' k'') : SameView c k k'' := by
  have hmem := h'.mem
  rw [h.record] at hmem
  refine ⟨h'.record.trans h.record, h.mem.trans hmem, h'.fgConsole.trans h.fgConsole,
    fun hc => ?_⟩
  exact (h'.crtc (by rw [h.fgConsole]; exact hc)).trans (h.crtc hc)

/-- The record is assigned the same, and stays in its share. -/
theorem setVc {f f' : Vc → Vc} (h : SameView c k k')
    (hf : f' (k.vcCons c) = f (k.vcCons c))
    (hstart : (f (k.vcCons c)).videoMemStart = (k.vcCons c).videoMemStart)
    (hstop : (f (k.vcCons c)).videoMemEnd = (k.vcCons c).videoMemEnd) :
    SameView c (k.setVc c f) (k'.setVc c f') := by
  refine ⟨?_, ?_, h.fgConsole, h.crtc⟩
  · rw [Console.setVc_vcCons_same, Console.setVc_vcCons_same, h.record, hf]
  · rw [Console.setVc_vcCons_same, hstart, hstop]
    exact h.mem

theorem withMem {m m' : Memory} (h : SameView c k k')
    (hmem : Memory.AgreeOn (k.vcCons c).videoMemStart.toNat (k.vcCons c).videoMemEnd.toNat
      m m') : SameView c { k with mem := m } { k' with mem := m' } :=
  ⟨h.record, hmem, h.fgConsole, h.crtc⟩

/-- An address loaded into the controller while the console is in the foreground. -/
theorem setAddress (hk : Ready g k) (hk' : Ready g k') (h : SameView c k k')
    (hc : c = k.fgConsole) (reg : Byte) (a : Word) :
    SameView c (setAddress reg a k) (MySystem.setAddress reg a k') := by
  rw [setAddress_eq hk, setAddress_eq hk']
  refine ⟨h.record, h.mem, h.fgConsole, fun _ => ?_⟩
  simp only [loadedCrtc, h.crtc hc, hk.memBase, hk'.memBase]

theorem setOrigin (hk : Ready g k) (hk' : Ready g k') (h : SameView c k k') :
    SameView c (setOrigin c k) (MySystem.setOrigin c k') := by
  rw [MySystem.setOrigin, MySystem.setOrigin, h.fgConsole, h.record]
  by_cases hc : c = k.fgConsole
  · rw [if_neg (not_not.mpr hc), if_neg (not_not.mpr hc)]
    exact setAddress hk hk' h hc 12 _
  · rw [if_pos hc, if_pos hc]
    exact h

theorem blank (h : SameView c k k') :
    SameView c { k with blankcount := k.blankinterval }
      { k' with blankcount := k'.blankinterval } :=
  ⟨h.record, h.mem, h.fgConsole, h.crtc⟩

end SameView

/-- From equal views of console `c`, `f` leads to equal views. -/
def Respects (c : Nat) (f : Console → Console) : Prop :=
  ∀ ⦃g : Geometry⦄ ⦃w : Window g⦄ ⦃k k' : Console⦄, Ready g k → Ready g k' →
    w.Represents (k.vcCons c) → SameView c k k' → SameView c (f k) (f k')

namespace Respects

variable {f f' : Console → Console}

theorem comp (hf' : Respects c f') (hf : Respects c f) (hlocal : Local c f) :
    Respects c (f' ∘ f) := by
  intro g w k k' hk hk' hw h
  obtain ⟨w₁, hstep⟩ := hlocal hk hw
  have hw' : w.Represents (k'.vcCons c) := by
    rw [h.record]
    exact hw
  obtain ⟨w₂, hstep'⟩ := hlocal hk' hw'
  exact hf' hstep.ready hstep'.ready hstep.represents (hf hk hk' hw h)

theorem foldl {α : Type} {body : α → Console → Console} (h : ∀ a, Respects c (body a))
    (hlocal : ∀ a, Local c (body a)) (l : List α) :
    Respects c fun k => l.foldl (fun k a => body a k) k := by
  induction l with
  | nil =>
      intro g w k k' _ _ _ hview
      exact hview
  | cons a l ih => exact ih.comp (h a) (hlocal a)

theorem cr (c : Nat) : Respects c (cr c) := by
  intro g w k k' _ _ _ h
  exact h.setVc rfl rfl rfl

/-- A scroll copies from the window's own share. -/
theorem scrollMem (w : Window g) (erase : Half) {m m' : Memory}
    (h : Memory.AgreeOn w.start w.stop m m') :
    Memory.AgreeOn w.start w.stop (w.scrollMem erase m) (w.scrollMem erase m') := by
  have hb := w.bounds
  have hdwords := g.rows_dwords (g.lines - 1)
  have hlast := g.last_row
  have hend : w.scrEnd = w.origin + g.screenBytes := rfl
  rw [Window.scrollMem, Window.scrollMem]
  split
  · exact h.repStosw 2 erase _ _
  · exact (h.repMovsl_up ((g.lines - 1) * g.columns / 2) (Word.of w.start) (by omega)
      (by omega) (by omega)).repStosw 2 erase _ _

theorem scrup (c : Nat) : Respects c (scrup c) := by
  intro g w k k' hk hk' hw h
  have hb := w.bounds
  have hw' : w.Represents (k'.vcCons c) := by
    rw [h.record]
    exact hw
  have hstart : (k.vcCons c).videoMemStart.toNat = w.start := by
    rw [hw.videoMemStart, Word.toNat_of (by omega)]
  have hstop : (k.vcCons c).videoMemEnd.toNat = w.stop := by
    rw [hw.videoMemEnd, Word.toNat_of (by omega)]
  have hmem := h.mem
  rw [hstart, hstop] at hmem
  have hscrolled := scrollMem w (k.vcCons c).videoEraseChar hmem
  rw [← hstart, ← hstop] at hscrolled
  rw [scrup_eq hk hw, scrup_eq hk' hw', h.record]
  exact SameView.setOrigin (hk.update ..) (hk'.update ..)
    ((h.withMem hscrolled).setVc rfl rfl rfl)

theorem lf (c : Nat) : Respects c (lf c) := by
  intro g w k k' hk hk' hw h
  rw [MySystem.lf, MySystem.lf, h.record]
  split
  · exact h.setVc (by rw [hk.sizeRow, hk'.sizeRow]) rfl rfl
  · exact scrup c hk hk' hw h

theorem wrapLine (c : Nat) : Respects c (wrapLine c) := by
  intro g w k k' hk hk' _ h
  exact h.setVc (by rw [hk.sizeRow, hk'.sizeRow, hk.columns, hk'.columns]) rfl rfl

theorem wrap (c : Nat) : Respects c (wrap c) := by
  intro g w k k' hk hk' hw h
  have hw' : w.Represents (k'.vcCons c) := by
    rw [h.record]
    exact hw
  by_cases hx : w.x = g.columns
  · have hline := wrapLine_step hk hw hx
    have hline' := wrapLine_step hk' hw' hx
    rw [wrap_eq_lf hk hw hx, wrap_eq_lf hk' hw' hx]
    exact lf c hline.ready hline'.ready hline.represents (wrapLine c hk hk' hw h)
  · rw [wrap_eq_self hk hw hx, wrap_eq_self hk' hw' hx]
    exact h

theorem putGlyph (c : Nat) (b : Byte) : Respects c (putGlyph c b) := by
  intro g w k k' hk hk' hw h
  have hwrap := wrap c hk hk' hw h
  rw [MySystem.putGlyph, MySystem.putGlyph, hwrap.record]
  exact (hwrap.withMem (hwrap.mem.store16 _ _)).setVc rfl rfl rfl

theorem conChar (c : Nat) (b : Byte) : Respects c (conChar c b) := by
  intro g w k k' hk hk' hw h
  rw [MySystem.conChar, MySystem.conChar]
  split
  · exact putGlyph c b hk hk' hw h
  · split
    · exact lf c hk hk' hw h
    · split
      · exact cr c hk hk' hw h
      · exact h

theorem setCursor (c : Nat) : Respects c (setCursor c) := by
  intro g w k k' hk hk' _ h
  by_cases hc : c = k.fgConsole
  · have hc' : c = k'.fgConsole := hc.trans h.fgConsole.symm
    simp only [MySystem.setCursor, if_neg (not_not.mpr hc), if_neg (not_not.mpr hc'), h.record]
    exact SameView.setAddress (hk.update ..) (hk'.update ..) h.blank hc 14 _
  · have hc' : c ≠ k'.fgConsole := fun heq => hc (heq.trans h.fgConsole)
    simp only [MySystem.setCursor, if_pos hc, if_pos hc']
    exact h.blank

end Respects

/-- What a step on another console does not change. -/
theorem Step.sameView {d : Nat} {w' : Window g} (hs : Step c w w' k k') (hd : d ≠ c)
    {v : Window g} (hv : v.Represents (k.vcCons d)) (hapart : w.stop ≤ v.start ∨ v.stop ≤ w.start)
    (hfg : d = k.fgConsole → c ≠ k.fgConsole) : SameView d k k' := by
  have hb := v.bounds
  have hstart : (k.vcCons d).videoMemStart.toNat = v.start := by
    rw [hv.videoMemStart, Word.toNat_of (by omega)]
  have hstop : (k.vcCons d).videoMemEnd.toNat = v.stop := by
    rw [hv.videoMemEnd, Word.toNat_of (by omega)]
  refine ⟨hs.others d hd, ?_, hs.fgConsole, fun h => hs.background (hfg h)⟩
  rw [hstart, hstop]
  exact Memory.AgreeOn.of_writes hs.writes hapart

end MySystem
