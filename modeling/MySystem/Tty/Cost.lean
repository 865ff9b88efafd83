import Mathlib.Algebra.BigOperators.Group.Finset.Basic
import Mathlib.Algebra.Group.Pi.Basic
import MySystem.Console.Cost
import MySystem.Tty.Terminals

/-!
# What a run of the consoles costs

The bytes stored to the video memory in a run, and the origins it leaves behind,
are functions of the work on each terminal (`Accounts`): every console has the
slides of its own share, and nothing else of the order of the calls matters.
-/

namespace MySystem

open Machine

variable {g : Geometry}

/-! ## The work of a call -/

namespace Screen

def printedWork (b : List Byte) : Screen g → Work :=
  charges printWork (Screen.print 0x07 0x0720) (b.takeWhile (· ≠ 0))

def writtenWork (s : List Byte) : Screen g → Work :=
  charges writeWork (Screen.write 0x07 0x0720) s

end Screen

namespace Terminals

/-- The work of a call, console by console. -/
def charge : TerminalCall → Terminals g → Nat → Work
  | .op (.conWrite c queue), d => Pi.single c (Screen.writtenWork queue.contents (d.screen c))
  | .op (.ttyWrite c fs buf nr), d =>
      Pi.single c (Screen.writtenWork (offer (bytesFrom fs buf nr.toInt.toNat) []).2 (d.screen c))
  | .op (.consolePrint b), d =>
      Pi.single d.foreground (Screen.printedWork b (d.screen d.foreground))
  | .op (.gotoxy _ _ _), _ => 0
  | .op (.lf c), d => Pi.single c (d.screen c).lineFeedWork
  | .op (.cr _), _ => 0
  | .op (.del c), d => Pi.single c (d.screen c).deleteWork
  | .op (.scrup c), _ => Pi.single c .scroll
  | .op (.scrdown c), _ => Pi.single c .lower
  | .op (.foreground _), _ => 0
  | .updateScreen, _ => 0
  | .printk fmt args, d =>
      Pi.single d.foreground (Screen.printedWork (formatText fmt args) (d.screen d.foreground))

/-- The work of a run, console by console. -/
def work : List TerminalCall → Terminals g → Nat → Work :=
  charges charge fun call d => (step call d).2

end Terminals

/-! ## The account -/

/-- The work `n` of the consoles says where their origins are and how many bytes
have been stored since there were `base`. -/
structure Accounts (g : Geometry) (n : Nat → Work) (base : Nat) (k : Console) : Prop where
  origins : ∀ c, c < g.consoles → (k.vcCons c).origin.toNat =
    (k.vcCons c).videoMemStart.toNat + (n c).scrolls % g.turns * g.rowBytes
  stored : k.mem.trace.length = base + ∑ c ∈ Finset.range g.consoles, g.bytes (n c)

/-- The origin of a record, counted in rows of its share. -/
theorem Window.Represents.toNat_origin {w : Window g} {v : Vc} (hw : w.Represents v) :
    v.origin.toNat = v.videoMemStart.toNat + w.row * g.rowBytes := by
  have hb := w.bounds
  have horigin : w.origin = w.start + w.row * g.rowBytes := rfl
  rw [hw.origin, hw.videoMemStart, Word.toNat_of (by omega), Word.toNat_of (by omega), horigin]

namespace Accounts

variable {n : Nat → Work} {base c : Nat} {k k' : Console} {d : Terminals g} {kernel : Kernel}
  {f : Console → Console} {f' : Screen g → Screen g} {work : Screen g → Work}

/-- What one console costs is put on its account alone. -/
theorem draw (h : Accounts g n base kernel.console) (hd : Holds d kernel) (hc : c < g.consoles)
    (hf : Costs g c 0x07 0x0720 f f' work) :
    Accounts g (n + Pi.single c (work (d.screen c))) base (f kernel.console) := by
  have hmem : c ∈ Finset.range g.consoles := Finset.mem_range.mpr hc
  have hpos := g.rowBytes_pos
  obtain ⟨w, hstart, hstop, hm, -⟩ := hd.shows c hc
  have hsame : (n + Pi.single c (work (d.screen c)) : Nat → Work) c = n c + work (d.screen c) := by
    rw [Pi.add_apply, Pi.single_eq_same]
  have hother : ∀ e, e ≠ c → (n + Pi.single c (work (d.screen c)) : Nat → Work) e = n e := by
    intro e he
    rw [Pi.add_apply, Pi.single_eq_of_ne he, add_zero]
  have hmetered : Metered c 0x07 0x0720 (d.screen c) (n c)
      (base + ∑ e ∈ (Finset.range g.consoles).erase c, g.bytes (n e)) w kernel.console := by
    refine ⟨hm, by rw [hstart, hstop]; rfl, ?_, ?_⟩
    · have hrow := h.origins c hc
      rw [hm.represents.toNat_origin] at hrow
      exact Nat.eq_of_mul_eq_mul_right (by omega) (Nat.add_left_cancel hrow)
    · rw [h.stored, ← Finset.sum_erase_add _ _ hmem, Nat.add_assoc]
  obtain ⟨w', hs, hcost⟩ := hf hmetered
  refine ⟨fun e he => ?_, ?_⟩
  · by_cases heq : e = c
    · subst heq
      rw [hsame, hcost.mirrors.represents.toNat_origin, hcost.row]
    · rw [hother e heq, hs.others e heq]
      exact h.origins e he
  · rw [hcost.stored, ← Finset.sum_erase_add _ _ hmem, hsame, Nat.add_assoc]
    congr 2
    refine Finset.sum_congr rfl fun e he => ?_
    rw [hother e (Finset.ne_of_mem_erase he)]

/-- The same for an operation that ends with `set_cursor`. -/
theorem draw_cursor (h : Accounts g n base kernel.console) (hd : Holds d kernel)
    (hc : c < g.consoles) (hf : Costs g c 0x07 0x0720 f f' work) :
    Accounts g (n + Pi.single c (work (d.screen c))) base (setCursor c (f kernel.console)) := by
  have hcursor := Costs.setCursor.comp hf
  simp only [add_zero] at hcursor
  exact h.draw hd hc hcursor

theorem print (h : Accounts g n base kernel.console) (hd : Holds d kernel) (b : List Byte) :
    Accounts g (n + Pi.single d.foreground (Screen.printedWork b (d.screen d.foreground))) base
      (consolePrint b kernel.console) := by
  have hfg := hd.foreground
  have hdraw := h.draw_cursor hd (hfg ▸ hd.sound.fgConsole) (Costs.consolePrintLoop b)
  rw [consolePrint, hfg]
  exact hdraw

end Accounts

end MySystem
