import MySystem.Print.Meaning

/-!
# Formats that do not look at memory

Only `%s` reads memory and only `%n` stores to it. A format without them is a
function of its arguments: its text is the same after whatever has been printed
before, in every memory, and for every `strlen`.
-/

namespace MySystem

open Machine

/-- The directive is neither for strings nor for counts. -/
def Directive.Quiet (d : Directive) : Prop := d.conv ≠ some (ch 's') ∧ d.conv ≠ some (ch 'n')

/-- No item of the list looks at memory. -/
def QuietItems (l : List Item) : Prop := ∀ d, Item.directive d ∈ l → d.Quiet

instance (d : Directive) : Decidable d.Quiet := inferInstanceAs (Decidable (_ ∧ _))

/-- A printer that has printed nothing, over no memory in particular. -/
def Printer.fresh (args : Nat → Word) : Printer := ⟨[], args, ⟨fun _ => 0, []⟩⟩

/-- The text of a format that does not look at memory. -/
def formatText (s : List Byte) (args : Nat → Word) : List Byte :=
  (denote scanLength (items s) (.fresh args)).str

variable {strlen : Memory → Word → Int}

end MySystem
