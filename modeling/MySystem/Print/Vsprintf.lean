import MySystem.Fault
import MySystem.Print.Number

/-!
# Formatted printing

`vsprintf` of `kernel/vsprintf.c`, one definition for each phase of a
directive. A cursor into the format is the list of the bytes from `*fmt` on, the
terminating zero included, so that stepping past the end is the empty list and
a fault. A variable argument list is the sequence of its words. The output
buffer is apart from the memory that `%s` reads and `%n` stores to.

`strlen` is in `lib/string.asm`; here it is a parameter.
-/

namespace MySystem

open Machine

/-- The output so far, the arguments left, and memory. -/
structure Printer where
  str : List Byte
  args : Nat → Word
  mem : Memory

namespace Printer

/-- `va_arg(args, T)` for the word-sized types of this file. -/
def vaArg (p : Printer) : Word × Printer :=
  (p.args 0, { p with args := fun n => p.args (n + 1) })

/-- Bytes stored through `str`. -/
def put (p : Printer) (text : List Byte) : Printer := { p with str := p.str ++ text }

@[simp] theorem put_str (p : Printer) (text : List Byte) : (p.put text).str = p.str ++ text := rfl

@[simp] theorem put_put (p : Printer) (s t : List Byte) : (p.put s).put t = p.put (s ++ t) := by
  simp [put]

end Printer

/-! ## The phases of a directive -/

/-- `is_digit(c)`. -/
def isDigit (c : Byte) : Bool := ch '0' ≤ c && c ≤ ch '9'

/-- The loop of `skip_atoi`: the number and the cursor after it. -/
def skipAtoi : Int → List Byte → Except Fault (Int × List Byte)
  | _, [] => .error .outOfBounds
  | i, c :: fmt =>
      if isDigit c then skipAtoi (int32 (i * 10 + c.toNat - (ch '0').toNat)) fmt
      else .ok (i, c :: fmt)

/-- The flag a character sets, if it is a flag character. -/
def flagOf (c : Byte) : Option Word :=
  if c = ch '-' then some left
  else if c = ch '+' then some plus
  else if c = ch ' ' then some space
  else if c = ch '#' then some special
  else if c = ch '0' then some zeropad
  else none

/-- The loop at `repeat`, from the character after the one just read. -/
def flagLoop : Word → List Byte → Except Fault (Word × List Byte)
  | _, [] => .error .outOfBounds
  | flags, c :: fmt =>
      match flagOf c with
      | some flag => flagLoop (flags ||| flag) fmt
      | none => .ok (flags, c :: fmt)

/-- What a directive has been read to ask for, and where the cursors stand. -/
structure Parse where
  flags : Word
  fieldWidth : Int
  precision : Int
  fmt : List Byte
  printer : Printer

/-- `get field width`. After a star the cursor stays where it is. -/
def parseWidth (flags : Word) (fmt : List Byte) (p : Printer) : Except Fault Parse :=
  match fmt with
  | [] => .error .outOfBounds
  | c :: rest =>
      if isDigit c then do
        let (fieldWidth, fmt) ← skipAtoi 0 (c :: rest)
        return ⟨flags, fieldWidth, -1, fmt, p⟩
      else if c = ch '*' then
        let (w, p) := p.vaArg
        if w.toInt < 0 then .ok ⟨flags ||| left, int32 (-w.toInt), -1, c :: rest, p⟩
        else .ok ⟨flags, w.toInt, -1, c :: rest, p⟩
      else .ok ⟨flags, -1, -1, c :: rest, p⟩

/-- The number after the dot of a precision. After a star the cursor stays where it is. -/
def readPrecision (p : Printer) : List Byte → Except Fault (Int × List Byte × Printer)
  | [] => .error .outOfBounds
  | c :: rest =>
      if isDigit c then do
        let (precision, fmt) ← skipAtoi 0 (c :: rest)
        return (precision, fmt, p)
      else if c = ch '*' then
        let (w, p) := p.vaArg
        .ok (w.toInt, c :: rest, p)
      else .ok (-1, c :: rest, p)

/-- `get the precision`; a negative one counts as zero. -/
def parsePrecision (d : Parse) : Except Fault Parse :=
  match d.fmt with
  | [] => .error .outOfBounds
  | c :: fmt =>
      if c = ch '.' then do
        let (precision, fmt, p) ← readPrecision d.printer fmt
        return { d with
          precision := if precision < 0 then 0 else precision
          fmt := fmt
          printer := p }
      else .ok d

/-- `get the conversion qualifier`, which nothing uses. -/
def parseQualifier (d : Parse) : Except Fault Parse :=
  match d.fmt with
  | [] => .error .outOfBounds
  | c :: fmt => if c = ch 'h' ∨ c = ch 'l' ∨ c = ch 'L' then .ok { d with fmt := fmt } else .ok d

/-! ## The conversions -/

/-- `while (--width > 0) *str++ = ' ';` from a test of `width` on, with `turns`
turns to go: the final `width` and the bytes stored. -/
def padBeforeLoop : Nat → Int → Int × List Byte
  | 0, width => (width, [])
  | turns + 1, width =>
      if 0 < width then
        let (width, text) := padBeforeLoop turns (int32 (width - 1))
        (width, ch ' ' :: text)
      else (width, [])

/-- The same loop from its first decrement. -/
def padBefore (width : Int) : Int × List Byte :=
  let width := int32 (width - 1)
  padBeforeLoop width.toNat width

/-- Case `c`. -/
def printChar (d : Parse) : Printer :=
  let (width, lead) := if has d.flags left then (d.fieldWidth, []) else padBefore d.fieldWidth
  let (w, p) := d.printer.vaArg
  let (_, trail) := padBefore width
  p.put (lead ++ [w.setWidth 8] ++ trail)

/-- Case `s`. -/
def printString (strlen : Memory → Word → Int) (d : Parse) : Printer :=
  let (s, p) := d.printer.vaArg
  let len := strlen p.mem s
  let len := if d.precision < 0 then len else if d.precision < len then d.precision else len
  let (width, lead) :=
    if has d.flags left then (d.fieldWidth, []) else pad (ch ' ') len d.fieldWidth
  let (_, trail) := pad (ch ' ') len width
  p.put (lead ++ bytesFrom p.mem.bytes s len.toNat ++ trail)

/-- The cases that call `number`. -/
def printNumber (base : Int) (flags : Word) (fieldWidth : Int) (d : Parse) :
    Except Fault Printer :=
  let (w, p) := d.printer.vaArg
  match number w.toInt base fieldWidth d.precision flags with
  | none => .error .nullPointer
  | some text => .ok (p.put text)

/-- Case `n`. -/
def printCount (d : Parse) : Printer :=
  let (ip, p) := d.printer.vaArg
  { p with mem := p.mem.store32 ip (Word.of p.str.length) }

/-- The case labels of the conversion `switch`. -/
inductive Conversion where
  | char
  | string
  | octal
  | pointer
  | hexLower
  | hexUpper
  | decimal
  | unsigned
  | count
  | other
  deriving DecidableEq

def conversionOf (c : Byte) : Conversion :=
  if c = ch 'c' then .char
  else if c = ch 's' then .string
  else if c = ch 'o' then .octal
  else if c = ch 'p' then .pointer
  else if c = ch 'x' then .hexLower
  else if c = ch 'X' then .hexUpper
  else if c = ch 'd' ∨ c = ch 'i' then .decimal
  else if c = ch 'u' then .unsigned
  else if c = ch 'n' then .count
  else .other

/-- The conversion `switch` at the character `c`, but for its default case. -/
def convertKnown (strlen : Memory → Word → Int) (d : Parse) : Conversion → Except Fault Printer
  | .char => .ok (printChar d)
  | .string => .ok (printString strlen d)
  | .octal => printNumber 8 d.flags d.fieldWidth d
  | .pointer =>
      if d.fieldWidth = -1 then printNumber 16 (d.flags ||| zeropad) 8 d
      else printNumber 16 d.flags d.fieldWidth d
  | .hexLower => printNumber 16 (d.flags ||| small) d.fieldWidth d
  | .hexUpper => printNumber 16 d.flags d.fieldWidth d
  | .decimal => printNumber 10 (d.flags ||| signed) d.fieldWidth d
  | .unsigned => printNumber 10 d.flags d.fieldWidth d
  | .count => .ok (printCount d)
  | .other => .ok d.printer

/-- The default case: `c` is printed after a percent sign. -/
def printOther (c : Byte) (p : Printer) : Printer :=
  let p := if c ≠ ch '%' then p.put [ch '%'] else p
  if c ≠ 0 then p.put [c] else p

/-- The conversion `switch` and the `++fmt` after it: the new cursor and state.
In the default case at the end of the format `--fmt` cancels that step. -/
def convert (strlen : Memory → Word → Int) (d : Parse) : Except Fault (List Byte × Printer) :=
  match d.fmt with
  | [] => .error .outOfBounds
  | c :: fmt =>
      match conversionOf c with
      | .other => .ok (if c ≠ 0 then fmt else c :: fmt, printOther c d.printer)
      | conversion => do return (fmt, ← convertKnown strlen d conversion)

/-! ## The function -/

/-- A directive, from the character after its `%`. -/
def directive (strlen : Memory → Word → Int) (fmt : List Byte) (p : Printer) :
    Except Fault (List Byte × Printer) := do
  let (flags, fmt) ← flagLoop 0 fmt
  convert strlen (← parseQualifier (← parsePrecision (← parseWidth flags fmt p)))

/-- The loop of `vsprintf`. -/
def vsprintfLoop (strlen : Memory → Word → Int) :
    Nat → List Byte → Printer → Except Fault Printer
  | _, [], _ => .error .outOfBounds
  | 0, _ :: _, _ => .error .outOfTurns
  | turns + 1, c :: fmt, p =>
      if c = 0 then .ok p
      else if c ≠ ch '%' then vsprintfLoop strlen turns fmt (p.put [c])
      else do
        let (fmt, p) ← directive strlen fmt p
        vsprintfLoop strlen turns fmt p

/-- What a call of `vsprintf` stores in `buf` and returns, and where it leaves
its arguments and memory. -/
structure Printed where
  buf : List Byte
  ret : Int
  args : Nat → Word
  mem : Memory

def vsprintf (strlen : Memory → Word → Int) (fmt : List Byte) (args : Nat → Word)
    (mem : Memory) : Except Fault Printed := do
  let p ← vsprintfLoop strlen fmt.length fmt ⟨[], args, mem⟩
  return ⟨p.str ++ [0], int32 p.str.length, p.args, p.mem⟩

end MySystem
