import MySystem.Print.Vsprintf

/-!
# The directive grammar

What a format means, apart from how `vsprintf` reads it. A format is a list of
items: bytes that stand for themselves, and directives
`% [-+ #0]* [width] [. [precision]] [hlL] conversion`, each part as long as
possible. Reading a format loses nothing (`render_items`). The characters are
in tables (`decimalDigits`, `flagTable`, `kindTable`) that stand beside those of
the source and are compared with them at the end.
-/

namespace MySystem

open Machine

/-- A field width or a precision as written. -/
inductive Field where
  | absent
  | digits (ds : List Byte)
  | star
  deriving DecidableEq

/-- A directive as written; `conv` is absent where the format ends inside it. -/
structure Directive where
  flags : List Byte
  width : Field
  precision : Option Field
  qualifier : Option Byte
  conv : Option Byte
  deriving DecidableEq

inductive Item where
  | byte (c : Byte)
  | directive (d : Directive)
  deriving DecidableEq

/-! ## Rendering -/

def Field.render : Field → List Byte
  | absent => []
  | digits ds => ds
  | star => [ch '*']

def renderPrecision : Option Field → List Byte
  | none => []
  | some f => ch '.' :: f.render

def Directive.render (d : Directive) : List Byte :=
  ch '%' :: (d.flags ++ (d.width.render ++ (renderPrecision d.precision ++
    (d.qualifier.toList ++ d.conv.toList))))

def Item.render : Item → List Byte
  | byte c => [c]
  | directive d => d.render

/-! ## Characters -/

def decimalDigits : List Byte :=
  ['0', '1', '2', '3', '4', '5', '6', '7', '8', '9'].map ch

def isDecimal (c : Byte) : Bool := decimalDigits.contains c

/-- The flag characters, with what they ask `number` for. -/
def flagTable : List (Byte × Word) :=
  [(ch '-', left), (ch '+', plus), (ch ' ', space), (ch '#', special), (ch '0', zeropad)]

def isFlag (c : Byte) : Bool := (flagTable.lookup c).isSome

def isQualifier (c : Byte) : Bool := [ch 'h', ch 'l', ch 'L'].contains c

/-- What a conversion character stands for. -/
inductive Kind where
  | char
  | string
  /-- A number in a base, with the flags that the character adds. -/
  | number (base : Int) (flags : Word)
  | pointer
  | count
  deriving DecidableEq

def kindTable : List (Byte × Kind) :=
  [(ch 'c', .char), (ch 's', .string), (ch 'o', .number 8 0), (ch 'x', .number 16 small),
    (ch 'X', .number 16 0), (ch 'p', .pointer), (ch 'd', .number 10 signed),
    (ch 'i', .number 10 signed), (ch 'u', .number 10 0), (ch 'n', .count)]

/-! ## Scanning -/

def scanField : List Byte → Field × List Byte
  | [] => (.absent, [])
  | c :: s =>
      if isDecimal c then (.digits ((c :: s).takeWhile isDecimal), (c :: s).dropWhile isDecimal)
      else if c = ch '*' then (.star, s)
      else (.absent, c :: s)

def scanPrecision : List Byte → Option Field × List Byte
  | [] => (none, [])
  | c :: s => if c = ch '.' then (some (scanField s).1, (scanField s).2) else (none, c :: s)

def scanQualifier : List Byte → Option Byte × List Byte
  | [] => (none, [])
  | c :: s => if isQualifier c then (some c, s) else (none, c :: s)

/-- The directive after a `%`, and what follows it. -/
def scanDirective (s : List Byte) : Directive × List Byte :=
  let (width, s₁) := scanField (s.dropWhile isFlag)
  let (precision, s₂) := scanPrecision s₁
  let (qualifier, s₃) := scanQualifier s₂
  (⟨s.takeWhile isFlag, width, precision, qualifier, s₃.head?⟩, s₃.tail)

theorem scanField_render (s : List Byte) : (scanField s).1.render ++ (scanField s).2 = s := by
  cases s with
  | nil => rfl
  | cons c s =>
      rw [scanField]
      split
      · exact List.takeWhile_append_dropWhile
      · split
        case isTrue h => rw [h]; rfl
        case isFalse => rfl

theorem scanPrecision_render (s : List Byte) :
    renderPrecision (scanPrecision s).1 ++ (scanPrecision s).2 = s := by
  cases s with
  | nil => rfl
  | cons c s =>
      rw [scanPrecision]
      split
      case isTrue h => rw [renderPrecision, List.cons_append, scanField_render, h]
      case isFalse => rfl

theorem scanQualifier_render (s : List Byte) :
    (scanQualifier s).1.toList ++ (scanQualifier s).2 = s := by
  cases s with
  | nil => rfl
  | cons c s =>
      rw [scanQualifier]
      split <;> rfl

theorem scanDirective_render (s : List Byte) :
    (scanDirective s).1.render ++ (scanDirective s).2 = ch '%' :: s := by
  have htail : ∀ t : List Byte, t.head?.toList ++ t.tail = t := by
    intro t
    cases t <;> rfl
  simp only [scanDirective, Directive.render, List.cons_append,
    List.append_assoc, htail, scanQualifier_render, scanPrecision_render, scanField_render,
    List.takeWhile_append_dropWhile]

theorem scanDirective_length (s : List Byte) : (scanDirective s).2.length ≤ s.length := by
  have h := congrArg List.length (scanDirective_render s)
  rw [List.length_append, Directive.render, List.length_cons, List.length_cons] at h
  omega

/-- The items of a format. -/
def items : List Byte → List Item
  | [] => []
  | c :: s =>
      if c = ch '%' then .directive (scanDirective s).1 :: items (scanDirective s).2
      else .byte c :: items s
termination_by s => s.length
decreasing_by
  · exact Nat.lt_succ_of_le (scanDirective_length s)
  · exact Nat.lt_succ_self _

theorem items_percent (s : List Byte) :
    items (ch '%' :: s) = .directive (scanDirective s).1 :: items (scanDirective s).2 := by
  rw [items, if_pos rfl]

theorem items_byte {c : Byte} (h : c ≠ ch '%') (s : List Byte) :
    items (c :: s) = .byte c :: items s := by
  rw [items, if_neg h]

/-- Nothing of a format is lost or made up in reading it. -/
theorem render_items (s : List Byte) : (items s).flatMap Item.render = s := by
  induction s using items.induct with
  | case1 => rw [items]; rfl
  | case2 s ih =>
      rw [items_percent, List.flatMap_cons, ih]
      exact scanDirective_render s
  | case3 c s hc ih =>
      rw [items_byte hc, List.flatMap_cons, ih]
      rfl

/-! ## Meaning -/

/-- The number a digit string denotes, after the digits that make up `n`. -/
def decimalFrom (n : Nat) (ds : List Byte) : Nat :=
  ds.foldl (fun n c => n * 10 + decimalDigits.idxOf c) n

/-- The flags of a directive, as `number` takes them. -/
def Directive.type (d : Directive) : Word :=
  d.flags.foldl (fun w c => w ||| (flagTable.lookup c).getD 0) 0

/-- Padding goes behind the text. -/
def Directive.leftJustified (d : Directive) : Bool := d.flags.contains (ch '-')

/-- The value of a field, -1 where it has no digits. -/
def Field.value : Field → Int
  | digits ds => decimalFrom 0 ds
  | _ => -1

/-- A precision as `number` takes it: after a dot a missing number is 0. -/
def precisionValue : Option Field → Int
  | none => -1
  | some (.digits ds) => decimalFrom 0 ds
  | some _ => 0

/-- `text` in a field of at least `width` bytes. -/
def field (leftJustify : Bool) (width : Nat) (text : List Byte) : List Byte :=
  let fill := List.replicate (width - text.length) (ch ' ')
  if leftJustify then text ++ fill else fill ++ text

/-- The text `number` makes of a word. -/
def numberText (w : Word) (base fieldWidth precision : Int) (type : Word) : List Byte :=
  (number w.toInt base fieldWidth precision type).getD []

/-- The text of a character that is no conversion. -/
def otherText (c : Byte) : List Byte := if c = ch '%' then [ch '%'] else [ch '%', c]

namespace Directive

variable (strlen : Memory → Word → Int) (d : Directive) (p : Printer)

/-- A number in base `base` with flags `type`, from the next argument. -/
def denoteNumber (base : Int) (type : Word) (fieldWidth : Int) : Printer :=
  p.vaArg.2.put (numberText p.vaArg.1 base fieldWidth (precisionValue d.precision) type)

/-- A string, cut to the precision. -/
def denoteString : Printer :=
  let len := (strlen p.mem p.vaArg.1).toNat
  let precision := precisionValue d.precision
  let len := if precision < 0 then len else min len precision.toNat
  p.vaArg.2.put (field d.leftJustified d.width.value.toNat (bytesFrom p.mem.bytes p.vaArg.1 len))

/-- What a conversion prints, consumes and stores. -/
def denoteKind : Kind → Printer
  | .char => p.vaArg.2.put (field d.leftJustified d.width.value.toNat [p.vaArg.1.setWidth 8])
  | .string => d.denoteString strlen p
  | .number base flags => d.denoteNumber p base (d.type ||| flags) d.width.value
  | .pointer =>
      if d.width.value = -1 then d.denoteNumber p 16 (d.type ||| zeropad) 8
      else d.denoteNumber p 16 d.type d.width.value
  | .count => { p.vaArg.2 with mem := p.mem.store32 p.vaArg.1 (Word.of p.str.length) }

def denote : Printer :=
  match d.conv with
  | none => p.put [ch '%']
  | some c =>
      match kindTable.lookup c with
      | none => p.put (otherText c)
      | some kind => d.denoteKind strlen p kind

end Directive

def Item.denote (strlen : Memory → Word → Int) (p : Printer) : Item → Printer
  | byte c => p.put [c]
  | directive d => d.denote strlen p

/-- The meaning of a format: its items from left to right. -/
def denote (strlen : Memory → Word → Int) (l : List Item) (p : Printer) : Printer :=
  l.foldl (Item.denote strlen) p

/-! ## The tables of the source -/

theorem isDecimal_eq : isDecimal = isDigit := by
  have hsame : ∀ c, isDecimal c = isDigit c := by decide
  exact funext hsame

theorem idxOf_decimalDigits : ∀ c : Byte, isDigit c = true →
    decimalDigits.idxOf c = c.toNat - (ch '0').toNat := by
  decide

theorem lookup_flagTable : ∀ c : Byte, flagTable.lookup c = flagOf c := by
  decide

/-- A field in the terms of `parseWidth`. -/
theorem scanField_cons (c : Byte) (s : List Byte) :
    scanField (c :: s) =
      if isDigit c then (.digits ((c :: s).takeWhile isDigit), (c :: s).dropWhile isDigit)
      else if c = ch '*' then (.star, s)
      else (.absent, c :: s) := by
  rw [scanField, isDecimal_eq]

theorem isQualifier_iff : ∀ c : Byte,
    isQualifier c = true ↔ c = ch 'h' ∨ c = ch 'l' ∨ c = ch 'L' := by
  decide

/-- What a case of the conversion `switch` is for. -/
def Conversion.kind : Conversion → Option Kind
  | char => some .char
  | string => some .string
  | octal => some (.number 8 0)
  | pointer => some .pointer
  | hexLower => some (.number 16 small)
  | hexUpper => some (.number 16 0)
  | decimal => some (.number 10 signed)
  | unsigned => some (.number 10 0)
  | count => some .count
  | other => none

theorem lookup_kindTable : ∀ c : Byte, kindTable.lookup c = (conversionOf c).kind := by
  decide

theorem Conversion.kind_eq_none_iff (conversion : Conversion) :
    conversion.kind = none ↔ conversion = other := by
  cases conversion <;> decide

end MySystem
