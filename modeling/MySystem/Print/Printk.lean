import MySystem.Print.Layout
import MySystem.Tty.Init

/-!
# The buffer of `printk`

`printk` of `kernel/printk.c` lets `vsprintf` print to a static buffer of 1024
bytes, and `vsprintf` is not told its size. The length of the text is a sum over
the requests of the format. It depends on the arguments and on the memory they
point to, and nothing bounds it: the text and its zero stay in the buffer exactly
when this sum is less than 1024.
-/

namespace MySystem

open Machine

/-- The size of `buf`. -/
def bufSize : Nat := 1024

/-! ## The length asked for -/

/-- A text of `n` bytes in a field is as long as the longer of the two. But a
padding loop counts its room down even where it fails, and with less room than
`tests` such steps need in an `int` the loop after them fills the whole range. -/
def fieldLength (tests width : Int) (n : Nat) : Nat :=
  if width - n < tests - 2 ^ 31 then 2 ^ 31 - 1 else max n width.toNat

/-- The failing tests of the loop in front of a character or a string. -/
def leadTests (type : Word) : Int := if has type left then 0 else 1

/-- The same for a string, whose length is an `int` of any sign. -/
def stringLength (tests width len : Int) : Nat :=
  if min len width < tests - 2 ^ 31 then 2 ^ 31 - 1 else len.toNat + (width - len).toNat

/-- The bytes asked for so far, the arguments left, and memory. -/
structure Tally where
  length : Nat
  args : Nat → Word
  mem : Memory

namespace Tally

variable (strlen : Memory → Word → Int) (t : Tally)

def add (n : Nat) : Tally := { t with length := t.length + n }

/-- `n` bytes for the next argument. -/
def take (n : Nat) : Tally where
  length := t.length + n
  args i := t.args (i + 1)
  mem := t.mem

def number (base : Int) (type : Word) (width precision : Int) : Tally :=
  t.take (fieldLength (padTests type) width
    (numberHead (t.args 0) base type ++ numberTail (t.args 0) base precision type).length)

def string (type : Word) (width precision : Int) : Tally :=
  let len := strlen t.mem (t.args 0)
  let len := if precision < 0 then len else min len precision
  t.take (stringLength (leadTests type) width len)

/-- The conversion character `c`. -/
def conversion (type : Word) (width precision : Int) (c : Byte) : Conversion → Tally
  | .char => t.take (fieldLength (leadTests type) width 1)
  | .string => t.string strlen type width precision
  | .octal => t.number 8 type width precision
  | .pointer =>
      if width = -1 then t.number 16 (type ||| zeropad) 8 precision
      else t.number 16 type width precision
  | .hexLower => t.number 16 (type ||| small) width precision
  | .hexUpper => t.number 16 type width precision
  | .decimal => t.number 10 (type ||| signed) width precision
  | .unsigned => t.number 10 type width precision
  | .count => { t.take 0 with mem := t.mem.store32 (t.args 0) (Word.of t.length) }
  | .other => t.add (otherText c).length

end Tally

def Request.tally (strlen : Memory → Word → Int) (t : Tally) : Request → Tally
  | byte _ => t.add 1
  | unfinished => t.add 1
  | star => t.take 2
  | conversion type width precision c =>
      t.conversion strlen type width precision c (conversionOf c)

/-- The length of the text that the format `s` asks for. -/
def textLength (strlen : Memory → Word → Int) (s : List Byte) (args : Nat → Word)
    (mem : Memory) : Nat :=
  ((requests s).foldl (Request.tally strlen) ⟨0, args, mem⟩).length

/-! ## The length of a conversion -/

/-- Two lengths that agree, or are both too much for the buffer. -/
def FitsAlike (a b : Nat) : Prop := a = b ∨ bufSize ≤ a ∧ bufSize ≤ b

theorem FitsAlike.of_le {a : Nat} (h : bufSize ≤ a) : FitsAlike a (2 ^ 31 - 1) :=
  .inr ⟨h, by decide⟩

theorem length_le_padText (room : Int) (head tail : List Byte) (type : Word) :
    (head ++ tail).length ≤ (padText room head tail type).length := by
  rw [padText]
  simp only [List.length_append]
  omega

theorem padText_fitsAlike {width : Int} (hlo : -2 ^ 31 ≤ width) (hhi : width < 2 ^ 31)
    (head tail : List Byte) (type : Word) :
    FitsAlike (padText (int32 (width - (head ++ tail).length)) head tail type).length
      (fieldLength (padTests type) width (head ++ tail).length) := by
  have hsize : bufSize = 1024 := rfl
  rw [fieldLength]
  split
  case isTrue hless =>
    apply FitsAlike.of_le
    rcases Nat.lt_or_ge (head ++ tail).length (2 ^ 30) with hshort | hlong
    · have hlonger := length_padText_overflow head tail (by omega) hless
      omega
    · have hle := length_le_padText (int32 (width - (head ++ tail).length)) head tail type
      omega
  case isFalse hroom =>
    left
    rw [padText_justify rfl (Int.not_lt.mp hroom) (by omega), length_justify]

theorem printNumber_fitsAlike {base : Int} (hbase : 2 ≤ base ∧ base ≤ 36) (type : Word)
    {width : Int} (hlo : -2 ^ 31 ≤ width) (hhi : width < 2 ^ 31) (d : Parse)
    (hprecision : d.precision < 2 ^ 31) :
    ∃ text, printNumber base type width d = .ok (d.printer.vaArg.2.put text) ∧
      FitsAlike text.length (fieldLength (padTests type) width
        (numberHead d.printer.vaArg.1 base type ++
          numberTail d.printer.vaArg.1 base d.precision type).length) := by
  refine ⟨_, printNumber_eq base hbase type width d, ?_⟩
  rw [numberText, number_eq _ _ _ hbase hprecision, Option.getD_some, padRoom]
  exact padText_fitsAlike hlo hhi _ _ type

/-- From the least `int` on the first decrement leaves the greatest. -/
theorem padBefore_least : (padBefore (-2 ^ 31)).2.length = 2 ^ 31 - 1 := by
  have hwrap : int32 (-2 ^ 31 - 1) = 2 ^ 31 - 1 := by decide
  rw [padBefore, hwrap, padBeforeLoop_eq _ (by decide) (by decide), List.length_replicate]
  omega

/-- The blanks behind a character. -/
theorem charTrail_fitsAlike {width : Int} (hlo : -2 ^ 31 ≤ width) (hhi : width < 2 ^ 31) :
    FitsAlike (1 + (padBefore width).2.length) (fieldLength 0 width 1) := by
  have hsize : bufSize = 1024 := rfl
  rw [fieldLength]
  split
  case isTrue hless =>
    have hleast : width = -2 ^ 31 := by omega
    rw [hleast, padBefore_least]
    exact FitsAlike.of_le (by omega)
  case isFalse hroom =>
    left
    rw [padBefore_eq width (by omega) hhi, List.length_replicate]
    omega

/-- The blanks around a character. -/
theorem charBlanks_fitsAlike {width : Int} (hlo : -2 ^ 31 ≤ width) (hhi : width < 2 ^ 31) :
    FitsAlike ((padBefore width).2.length + 1 + (padBefore (padBefore width).1).2.length)
      (fieldLength 1 width 1) := by
  have hsize : bufSize = 1024 := rfl
  rw [fieldLength]
  split
  case isTrue hless =>
    apply FitsAlike.of_le
    rcases Int.lt_or_eq_of_le hlo with hlt | hleast
    · -- the first loop stops at the least `int`
      have hfirst : (padBefore width).1 = -2 ^ 31 := by
        rw [padBefore_eq width hlt hhi]
        dsimp only
        omega
      rw [hfirst, padBefore_least]
      omega
    · rw [← hleast, padBefore_least]
      omega
  case isFalse hroom =>
    left
    rw [padBefore_eq width (by omega) hhi]
    dsimp only
    rw [padBefore_eq _ (by omega) (by omega), List.length_replicate, List.length_replicate]
    omega

theorem printChar_fitsAlike {d : Parse} (hlo : -2 ^ 31 ≤ d.fieldWidth)
    (hhi : d.fieldWidth < 2 ^ 31) :
    ∃ text, printChar d = d.printer.vaArg.2.put text ∧
      FitsAlike text.length (fieldLength (leadTests d.flags) d.fieldWidth 1) := by
  refine ⟨_, rfl, ?_⟩
  simp only [List.length_append, List.length_singleton, leadTests]
  cases has d.flags left with
  | true => exact charTrail_fitsAlike hlo hhi
  | false => exact charBlanks_fitsAlike hlo hhi

/-- The blanks around `len` bytes of a string. -/
theorem stringBlanks_fitsAlike (type : Word) {width len : Int} (hlo : -2 ^ 31 ≤ width)
    (hhi : width < 2 ^ 31) (hlen : -2 ^ 31 ≤ len) :
    let lead := if has type left then (width, []) else pad (ch ' ') len width
    FitsAlike (lead.2.length + len.toNat + (pad (ch ' ') len lead.1).2.length)
      (stringLength (leadTests type) width len) := by
  have hsize : bufSize = 1024 := rfl
  have hpad := pad_eq (ch ' ') len width hlen hhi
  rw [stringLength, leadTests]
  by_cases hleft : has type left = true
  · rw [if_pos hleft, if_pos hleft, if_neg (by omega)]
    left
    rw [hpad]
    simp only [List.length_nil, List.length_replicate]
    omega
  · rw [if_neg hleft, if_neg hleft, hpad]
    dsimp only
    rw [pad_eq (ch ' ') len _ hlen (int32_lt _)]
    simp only [List.length_replicate]
    split
    case isTrue hless =>
      -- the counter wraps, and the second loop goes on from the greatest `int`
      have hmin : min len width = -2 ^ 31 := by omega
      have hwrap : int32 (-2 ^ 31 - 1) = 2 ^ 31 - 1 := by decide
      rw [hmin, hwrap]
      apply FitsAlike.of_le
      omega
    case isFalse hroom =>
      left
      rw [int32_eq (by omega) (by omega)]
      omega

theorem printString_fitsAlike {strlen : Memory → Word → Int} (hstrlen : ∀ m a, -2 ^ 31 ≤ strlen m a)
    {d : Parse} (hlo : -2 ^ 31 ≤ d.fieldWidth) (hhi : d.fieldWidth < 2 ^ 31) :
    let len := strlen d.printer.mem d.printer.vaArg.1
    let len := if d.precision < 0 then len else min len d.precision
    ∃ text, printString strlen d = d.printer.vaArg.2.put text ∧
      FitsAlike text.length (stringLength (leadTests d.flags) d.fieldWidth len) := by
  intro len₀ len
  have hcut : (if d.precision < 0 then len₀ else if d.precision < len₀ then d.precision else len₀) =
      len := by
    dsimp only [len]
    split
    · rfl
    · split <;> omega
  have hlen : -2 ^ 31 ≤ len := by
    have := hstrlen d.printer.mem d.printer.vaArg.1
    dsimp only [len, len₀]
    split <;> omega
  refine ⟨_, rfl, ?_⟩
  have hblanks := stringBlanks_fitsAlike d.flags hlo hhi hlen
  simp only [List.length_append, length_bytesFrom]
  rw [← hcut] at hblanks ⊢
  exact hblanks

/-! ## The length of a text -/

/-- `t` counts what `p` has stored, as long as it fits. -/
def Counts (p : Printer) (t : Tally) : Prop :=
  t = ⟨p.str.length, p.args, p.mem⟩ ∨ bufSize ≤ t.length ∧ bufSize ≤ p.str.length

/-- The text of a conversion is stored after its argument has been taken. -/
theorem counts_take {p : Printer} {text : List Byte} {n : Nat} (h : FitsAlike text.length n) :
    Counts (p.vaArg.2.put text) (Tally.take ⟨p.str.length, p.args, p.mem⟩ n) := by
  have hlength : (p.vaArg.2.put text).str.length = p.str.length + text.length :=
    List.length_append
  rcases h with heq | ⟨htext, hn⟩
  · left
    rw [hlength, heq]
    rfl
  · right
    rw [hlength]
    exact ⟨Nat.le_add_left_of_le hn, Nat.le_add_left_of_le htext⟩

/-- What holds of the requests of a format: a number is an `int`, and no
character is the zero behind the format. -/
def Request.Valid : Request → Prop
  | conversion _ width precision c =>
      (-2 ^ 31 ≤ width ∧ width < 2 ^ 31) ∧ precision < 2 ^ 31 ∧ c ≠ 0
  | _ => True

theorem Directive.request_valid {d : Directive} (h : d.conv ≠ some 0) : d.request.Valid := by
  rw [Directive.request]
  cases hconv : d.conv with
  | none => trivial
  | some c =>
      refine ⟨⟨?_, int32_lt _⟩, ?_, fun hc => h (hc ▸ hconv)⟩
      · have hle := Int.le_bmod (x := d.width.value) (m := 2 ^ 32) (by decide)
        rw [int32]
        omega
      · cases d.precision with
        | none => decide
        | some f =>
            have hlt := int32_lt f.value
            rw [precisionRead]
            omega

theorem scanRequest_valid {s : List Byte} (hs : ∀ c ∈ s, c ≠ 0) : (scanRequest s).1.Valid := by
  rw [scanRequest]
  split
  · trivial
  · split
    · trivial
    · exact Directive.request_valid fun hconv =>
        hs 0 ((scanned_suffix s).mem (List.mem_of_mem_head? hconv)) rfl

theorem requests_valid {s : List Byte} (hs : ∀ c ∈ s, c ≠ 0) : ∀ r ∈ requests s, r.Valid := by
  induction s using requests.induct with
  | case1 =>
      rw [requests_nil]
      exact fun r hr => absurd hr List.not_mem_nil
  | case2 s ih =>
      have hrest : ∀ c ∈ s, c ≠ 0 := fun c hc => hs c (List.mem_cons_of_mem _ hc)
      rw [requests_percent]
      exact List.forall_mem_cons.mpr ⟨scanRequest_valid hrest,
        ih fun c hc => hrest c ((scanRequest_suffix s).mem hc)⟩
  | case3 c s hc ih =>
      rw [requests_byte hc]
      exact List.forall_mem_cons.mpr ⟨trivial, ih fun c hc => hs c (List.mem_cons_of_mem _ hc)⟩

variable {strlen : Memory → Word → Int}

theorem convertKnown_counts (hstrlen : ∀ m a, -2 ^ 31 ≤ strlen m a) (type : Word)
    {width precision : Int} (hwidth : -2 ^ 31 ≤ width ∧ width < 2 ^ 31)
    (hprecision : precision < 2 ^ 31) (fmt : List Byte) (p : Printer) (c : Byte)
    {known : Conversion} (hknown : known ≠ .other) :
    ∃ p', convertKnown strlen ⟨type, width, precision, fmt, p⟩ known = .ok p' ∧
      Counts p' (Tally.conversion strlen ⟨p.str.length, p.args, p.mem⟩ type width precision c
        known) := by
  obtain ⟨hlo, hhi⟩ := hwidth
  have hnumber : ∀ base : Int, 2 ≤ base ∧ base ≤ 36 → ∀ (type : Word) {width : Int},
      -2 ^ 31 ≤ width → width < 2 ^ 31 → ∀ flags fieldWidth,
      ∃ p', printNumber base type width ⟨flags, fieldWidth, precision, fmt, p⟩ = .ok p' ∧
        Counts p' (Tally.number ⟨p.str.length, p.args, p.mem⟩ base type width precision) := by
    intro base hbase type width hlo hhi flags fieldWidth
    obtain ⟨text, htext, hfits⟩ := printNumber_fitsAlike hbase type hlo hhi
      ⟨flags, fieldWidth, precision, fmt, p⟩ hprecision
    exact ⟨_, htext, counts_take hfits⟩
  cases known with
  | char =>
      obtain ⟨text, htext, hfits⟩ :=
        printChar_fitsAlike (d := ⟨type, width, precision, fmt, p⟩) hlo hhi
      exact ⟨_, congrArg Except.ok htext, counts_take hfits⟩
  | string =>
      obtain ⟨text, htext, hfits⟩ :=
        printString_fitsAlike hstrlen (d := ⟨type, width, precision, fmt, p⟩) hlo hhi
      exact ⟨_, congrArg Except.ok htext, counts_take hfits⟩
  | octal => exact hnumber 8 (by decide) type hlo hhi _ _
  | pointer =>
      rw [convertKnown, Tally.conversion]
      dsimp only
      split
      · exact hnumber 16 (by decide) _ (by decide) (by decide) _ _
      · exact hnumber 16 (by decide) _ hlo hhi _ _
  | hexLower => exact hnumber 16 (by decide) _ hlo hhi _ _
  | hexUpper => exact hnumber 16 (by decide) _ hlo hhi _ _
  | decimal => exact hnumber 10 (by decide) _ hlo hhi _ _
  | unsigned => exact hnumber 10 (by decide) _ hlo hhi _ _
  | count => exact ⟨_, rfl, .inl rfl⟩
  | other => exact absurd rfl hknown

/-- Bytes stored for no argument. -/
theorem counts_add (p : Printer) (text : List Byte) :
    Counts (p.put text) (Tally.add ⟨p.str.length, p.args, p.mem⟩ text.length) := by
  left
  rw [Printer.put_str, List.length_append]
  rfl

/-- A request is performed, and counted from an exact count. -/
theorem Request.counts_exact (hstrlen : ∀ m a, -2 ^ 31 ≤ strlen m a) {r : Request} (hr : r.Valid)
    (p : Printer) :
    ∃ p', r.perform strlen p = .ok p' ∧ p.str <+: p'.str ∧
      Counts p' (r.tally strlen ⟨p.str.length, p.args, p.mem⟩) := by
  cases r with
  | byte c => exact ⟨_, rfl, List.prefix_append .., counts_add p [c]⟩
  | unfinished => exact ⟨_, rfl, List.prefix_append .., counts_add p [ch '%']⟩
  | star =>
      rw [perform, printOther_eq (by decide)]
      exact ⟨_, rfl, List.prefix_append .., counts_take (.inl rfl)⟩
  | conversion type width precision c =>
      obtain ⟨hwidth, hprecision, hzero⟩ := hr
      rw [perform, tally]
      by_cases hc : conversionOf c = .other
      · rw [hc]
        dsimp only
        rw [printOther_eq hzero]
        exact ⟨_, rfl, List.prefix_append .., counts_add p (otherText c)⟩
      · obtain ⟨p', hp', hcounts⟩ := convertKnown_counts hstrlen type hwidth hprecision
          [c] p c hc
        obtain ⟨p'', hp'', hprefix⟩ := convertKnown_prefix strlen ⟨type, width, precision, [c], p⟩
          (conversionOf c)
        obtain rfl := Except.ok.inj (hp'.symm.trans hp'')
        refine ⟨p', ?_, hprefix, hcounts⟩
        split
        · contradiction
        · exact hp'

theorem Tally.length_conversion (t : Tally) (type : Word) (width precision : Int) (c : Byte)
    (known : Conversion) :
    t.length ≤ (t.conversion strlen type width precision c known).length := by
  cases known with
  | pointer =>
      rw [Tally.conversion]
      split
      · exact Nat.le_add_right ..
      · exact Nat.le_add_right ..
  | char | string | octal | hexLower | hexUpper | decimal | unsigned | count | other =>
      exact Nat.le_add_right ..

theorem Request.length_tally (t : Tally) (r : Request) : t.length ≤ (r.tally strlen t).length := by
  cases r with
  | byte | unfinished | star => exact Nat.le_add_right ..
  | conversion type width precision c => exact Tally.length_conversion ..

/-- A count stays one through a request. -/
theorem Request.counts (hstrlen : ∀ m a, -2 ^ 31 ≤ strlen m a) {r : Request} (hr : r.Valid)
    {p : Printer} {t : Tally} (h : Counts p t) :
    ∃ p', r.perform strlen p = .ok p' ∧ Counts p' (r.tally strlen t) := by
  obtain ⟨p', hp', hprefix, hexact⟩ := Request.counts_exact hstrlen hr p
  refine ⟨p', hp', ?_⟩
  obtain rfl | ⟨ht, hp⟩ := h
  · exact hexact
  · -- too much has been stored already
    right
    exact ⟨ht.trans (Request.length_tally t r), hp.trans hprefix.length_le⟩

theorem requests_count (hstrlen : ∀ m a, -2 ^ 31 ≤ strlen m a) {l : List Request}
    (hl : ∀ r ∈ l, r.Valid) {p : Printer} {t : Tally} (h : Counts p t) :
    ∃ p', l.foldlM (Request.perform strlen) p = .ok p' ∧
      Counts p' (l.foldl (Request.tally strlen) t) := by
  induction l generalizing p t with
  | nil => exact ⟨p, rfl, h⟩
  | cons r l ih =>
      obtain ⟨hr, hrest⟩ := List.forall_mem_cons.mp hl
      obtain ⟨q, hq, hcounts⟩ := Request.counts hstrlen hr h
      obtain ⟨p', hp', hcounts'⟩ := ih hrest hcounts
      refine ⟨p', ?_, hcounts'⟩
      rw [List.foldlM_cons, hq]
      exact hp'

/-- What `vsprintf` stores stays in the buffer exactly when the text asked for,
with its zero, is no longer. -/
theorem vsprintf_in_buf_iff (hstrlen : ∀ m a, -2 ^ 31 ≤ strlen m a) {s : List Byte}
    (hs : ∀ c ∈ s, c ≠ 0) (args : Nat → Word) (mem : Memory) :
    ∃ r, vsprintf strlen (s ++ [0]) args mem = .ok r ∧
      ((∀ i, i < r.buf.length → i < bufSize) ↔ textLength strlen s args mem < bufSize) := by
  have hlt : s.length < (s ++ [0]).length := by
    rw [List.length_append]
    exact Nat.lt_succ_self _
  obtain ⟨p, hp, hcounts⟩ := requests_count hstrlen (requests_valid hs) (p := ⟨[], args, mem⟩)
    (t := ⟨0, args, mem⟩) (.inl rfl)
  refine ⟨⟨p.str ++ [0], int32 p.str.length, p.args, p.mem⟩, ?_, ?_⟩
  · rw [vsprintf, vsprintfLoop_performs strlen hs hlt, hp]
    rfl
  · rw [List.length_append, List.length_singleton]
    have hfits : (∀ i, i < p.str.length + 1 → i < bufSize) ↔ p.str.length < bufSize :=
      ⟨fun h => h _ (Nat.lt_succ_self _),
        fun h i hi => Nat.lt_of_le_of_lt (Nat.le_of_lt_succ hi) h⟩
    rw [hfits, textLength]
    rcases hcounts with heq | ⟨ht, hlong⟩
    · rw [heq]
    · exact iff_of_false (Nat.not_lt.mpr hlong) (Nat.not_lt.mpr ht)

/-- On every format and every argument list: `printk` prints what `vsprintf` left
in `buf`, and every byte stored, the zero included, has an index below the size
of `buf` exactly when the text asked for is shorter than `buf`. Whatever word
`strlen` leaves in `eax` is taken for an `int`. -/
theorem printk_in_buf_iff (strlen : Memory → Word → Word) {s : List Byte}
    (hs : ∀ c ∈ s, c ≠ 0) (args : Nat → Word) (k : Console) :
    let len := fun m a => (strlen m a).toInt
    ∃ r, vsprintf len (s ++ [0]) args k.mem = .ok r ∧
      printk len (s ++ [0]) args k = .ok (consolePrint r.buf { k with mem := r.mem }) ∧
      ((∀ i, i < r.buf.length → i < bufSize) ↔ textLength len s args k.mem < bufSize) := by
  intro len
  have hlen : ∀ m a, -2 ^ 31 ≤ len m a := fun m a => BitVec.le_toInt _
  obtain ⟨r, hr, hiff⟩ := vsprintf_in_buf_iff hlen hs args k.mem
  exact ⟨r, hr, printk_eq hr, hiff⟩

/-- The length of a format of one decimal conversion. -/
theorem textLength_decimal {s : List Byte} {width : Int}
    (h : scanRequest s = (.conversion 0 width (-1) (ch 'd'), [])) (args : Nat → Word)
    (mem : Memory) :
    textLength strlen (ch '%' :: s) args mem =
      fieldLength (padTests signed) width
        (numberHead (args 0) 10 signed ++ numberTail (args 0) 10 (-1) signed).length := by
  have hkind : conversionOf (ch 'd') = .decimal := rfl
  have hflags : (0 : Word) ||| signed = signed := rfl
  rw [textLength, requests_percent, h, requests_nil]
  change ((Tally.mk 0 args mem).conversion strlen 0 width (-1) (ch 'd')
    (conversionOf (ch 'd'))).length = _
  rw [hkind, Tally.conversion, hflags]
  exact Nat.zero_add _

/-- The text of `printk("%1023d", 1)` just fits. -/
theorem printk_in_buf_iff_width :
    let len := fun (_ : Memory) (_ : Word) => (0 : Word).toInt
    let s := ch '%' :: ['1', '0', '2', '3', 'd'].map ch
    let k := modeConsole 80 25
    ∃ r : Printed, printk len (s ++ [0]) (fun _ => 1) k =
        .ok (consolePrint r.buf { k with mem := r.mem }) ∧
      ∀ i, i < r.buf.length → i < bufSize := by
  intro len s k
  obtain ⟨r, -, hprintk, hiff⟩ := printk_in_buf_iff (fun _ _ => 0) (s := s) (by decide)
    (fun _ => 1) k
  have hscan : scanRequest (['1', '0', '2', '3', 'd'].map ch) =
      (.conversion 0 1023 (-1) (ch 'd'), []) := rfl
  refine ⟨r, hprintk, hiff.mpr ?_⟩
  rw [textLength_decimal hscan]
  decide

/-- The zero behind that of `printk("%1024d", 1)` is stored behind `buf`. -/
theorem printk_leaves_buf :
    let len := fun (_ : Memory) (_ : Word) => (0 : Int)
    let s := ch '%' :: ['1', '0', '2', '4', 'd'].map ch
    let k := modeConsole 80 25
    ∃ r, vsprintf len (s ++ [0]) (fun _ => 1) k.mem = .ok r ∧
      printk len (s ++ [0]) (fun _ => 1) k = .ok (consolePrint r.buf { k with mem := r.mem }) ∧
      ¬ ∀ i, i < r.buf.length → i < bufSize := by
  intro len s k
  have hlen : ∀ m a, -2 ^ 31 ≤ len m a := fun _ _ => by decide
  have hscan : scanRequest (['1', '0', '2', '4', 'd'].map ch) =
      (.conversion 0 1024 (-1) (ch 'd'), []) := rfl
  obtain ⟨r, hr, hiff⟩ := vsprintf_in_buf_iff hlen (s := s) (by decide) (fun _ => 1) k.mem
  refine ⟨r, hr, printk_eq hr, ?_⟩
  rw [hiff, textLength_decimal hscan]
  decide

/-! ## The message of `panic` -/

/-- `"Kernel panic: %s\n\r"`. -/
def kernelPanic : List Byte :=
  ['K', 'e', 'r', 'n', 'e', 'l', ' ', 'p', 'a', 'n', 'i', 'c', ':', ' ', '%', 's',
    '\n', '\r'].map ch

/-- `panic`, up to the loop it does not leave. -/
def panic (strlen : Memory → Word → Int) (s : Word) (k : Console) : Except Fault Console :=
  printk strlen (kernelPanic ++ [0]) (fun _ => s) k

theorem requests_literal {l : List Byte} (h : ch '%' ∉ l) (s : List Byte) :
    requests (l ++ s) = l.map .byte ++ requests s := by
  induction l with
  | nil => rfl
  | cons c l ih =>
      obtain ⟨hc, hl⟩ := not_or.mp (mt List.mem_cons.mpr h)
      rw [List.cons_append, requests_byte (Ne.symm hc), ih hl]
      rfl

theorem tally_literal (l : List Byte) (t : Tally) :
    (l.map Request.byte).foldl (Request.tally strlen) t = t.add l.length := by
  induction l generalizing t with
  | nil => rfl
  | cons c l ih =>
      rw [List.map_cons, List.foldl_cons, ih, List.length_cons, Nat.add_comm]
      simp only [Request.tally, Tally.add, Nat.add_assoc]

theorem requests_kernelPanic : requests kernelPanic = (kernelPanic.take 14).map .byte ++
    [.conversion 0 (-1) (-1) (ch 's'), .byte (ch '\n'), .byte (ch '\r')] := by
  have hsplit : kernelPanic =
      kernelPanic.take 14 ++ ch '%' :: ch 's' :: [ch '\n', ch '\r'] := by decide
  have hscan : scanRequest (ch 's' :: [ch '\n', ch '\r']) =
      (.conversion 0 (-1) (-1) (ch 's'), [ch '\n', ch '\r']) := rfl
  conv => lhs; rw [hsplit]
  rw [requests_literal (by decide), requests_percent, hscan, requests_byte (by decide),
    requests_byte (by decide), requests_nil]

/-- A message for which `strlen` gives `n` makes a text of `n + 16`. -/
theorem textLength_panic {s : Word} {mem : Memory} {n : Nat} (h : strlen mem s = n) :
    textLength strlen kernelPanic (fun _ => s) mem = n + 16 := by
  have hstring : stringLength (leadTests 0) (-1) n = n := by
    have htests : leadTests 0 = 1 := rfl
    rw [stringLength, htests, if_neg (by omega)]
    omega
  have hmessage : ∀ t : Tally, t.args 0 = s → t.mem = mem →
      Request.tally strlen t (.conversion 0 (-1) (-1) (ch 's')) = t.take n := by
    rintro t hargs rfl
    change t.take (stringLength (leadTests 0) (-1) (strlen t.mem (t.args 0))) = t.take n
    rw [hargs, h, hstring]
  rw [textLength, requests_kernelPanic, List.foldl_append, tally_literal, List.foldl_cons,
    hmessage _ rfl rfl]
  change 0 + 14 + n + 1 + 1 = n + 16
  omega

/-- What `panic` stores stays in `buf` exactly if `strlen` gives less than 1008 for its
message. -/
theorem panic_in_buf_iff (hstrlen : ∀ m a, -2 ^ 31 ≤ strlen m a) {s : Word} {k : Console} {n : Nat}
    (h : strlen k.mem s = n) :
    ∃ r, vsprintf strlen (kernelPanic ++ [0]) (fun _ => s) k.mem = .ok r ∧
      panic strlen s k = .ok (consolePrint r.buf { k with mem := r.mem }) ∧
      ((∀ i, i < r.buf.length → i < bufSize) ↔ n < 1008) := by
  obtain ⟨r, hr, hiff⟩ := vsprintf_in_buf_iff hstrlen (s := kernelPanic) (by decide)
    (fun _ => s) k.mem
  refine ⟨r, hr, printk_eq hr, ?_⟩
  rw [hiff, textLength_panic h, bufSize]
  omega

end MySystem
