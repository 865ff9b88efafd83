import MySystem.Print.Request
import Mathlib.Tactic.SplitIfs

/-!
# `vsprintf` prints what its format means

A directive asks for what its scan denotes, so a whole call does what the items
of the format denote. Stars are excluded here, and so are numbers of 2^31 and
more.
-/

namespace MySystem

open Machine

/-! ## Scanning and reading -/

/-- A field that is no star and, if digits, an `int`. -/
def Field.Plain : Field → Prop
  | absent => True
  | digits ds => decimalFrom 0 ds < 2 ^ 31
  | star => False

/-- The same for a precision. -/
def PlainPrecision : Option Field → Prop
  | none => True
  | some f => f.Plain

/-- A width as a directive gives it. -/
private theorem Field.value_range {f : Field} (h : f.Plain) : -1 ≤ f.value ∧ f.value < 2 ^ 31 := by
  cases f with
  | absent => exact ⟨Int.le_refl _, by decide⟩
  | digits ds =>
      have : decimalFrom 0 ds < 2 ^ 31 := h
      simp only [Field.value]
      omega
  | star => exact absurd h not_false

/-- Such a field is read as it stands. -/
theorem Field.int32_value {f : Field} (h : f.Plain) : int32 f.value = f.value := by
  obtain ⟨hlo, hhi⟩ := Field.value_range h
  exact int32_eq (by omega) hhi

theorem precisionRead_plain {f : Option Field} (h : PlainPrecision f) :
    precisionRead f = precisionValue f := by
  cases f with
  | none => rfl
  | some f =>
      rw [precisionRead, Field.int32_value h]
      cases f with
      | absent => rfl
      | digits ds => exact Int.max_eq_right (Int.natCast_nonneg _)
      | star => rfl

/-! ## The conversions -/

theorem padBeforeLoop_eq (width : Int) (hlo : -2 ^ 31 ≤ width) (hhi : width < 2 ^ 31) :
    padBeforeLoop width.toNat width =
      (min width 0, List.replicate width.toNat (ch ' ')) := by
  generalize h : width.toNat = turns
  induction turns generalizing width with
  | zero =>
      rw [padBeforeLoop, Int.min_eq_left (by omega)]
      rfl
  | succ turns ih =>
      have hwidth : int32 (width - 1) = width - 1 := int32_eq (by omega) (by omega)
      rw [padBeforeLoop, if_pos (by omega), hwidth, ih _ (by omega) (by omega) (by omega),
        Int.min_eq_right (by omega), Int.min_eq_right (by omega)]
      rfl

/-- The first loop of case `c` leaves nothing for the second one to do. -/
theorem padBefore_eq (width : Int) (hlo : -2 ^ 31 < width) (hhi : width < 2 ^ 31) :
    padBefore width = (min (width - 1) 0, List.replicate (width - 1).toNat (ch ' ')) := by
  have hwidth : int32 (width - 1) = width - 1 := int32_eq (by omega) (by omega)
  rw [padBefore, hwidth]
  exact padBeforeLoop_eq _ (by omega) (by omega)

theorem printChar_eq (d : Parse) (hlo : -1 ≤ d.fieldWidth) (hhi : d.fieldWidth < 2 ^ 31) :
    printChar d = d.printer.vaArg.2.put (field (has d.flags left) d.fieldWidth.toNat
      [d.printer.vaArg.1.setWidth 8]) := by
  have hpad := padBefore_eq d.fieldWidth (by omega) hhi
  have hnat : (d.fieldWidth - 1).toNat = d.fieldWidth.toNat - 1 := by omega
  rw [printChar, field]
  cases hleft : has d.flags left with
  | true =>
      simp only [if_true, hpad, hnat, List.nil_append, List.length_singleton]
  | false =>
      have hrest := padBefore_eq (min (d.fieldWidth - 1) 0) (by omega) (by omega)
      have hzero : (min (d.fieldWidth - 1) 0 - 1).toNat = 0 := by omega
      rw [hzero] at hrest
      simp only [Bool.false_eq_true, if_false, hpad, hrest, hnat, List.length_singleton,
        List.replicate_zero, List.append_nil]

theorem printString_eq (strlen : Memory → Word → Int) (d : Parse)
    (hlen : 0 ≤ strlen d.printer.mem d.printer.vaArg.1)
    (hmax : strlen d.printer.mem d.printer.vaArg.1 < 2 ^ 31)
    (hlo : -1 ≤ d.fieldWidth) (hhi : d.fieldWidth < 2 ^ 31) :
    printString strlen d =
      let len := (strlen d.printer.mem d.printer.vaArg.1).toNat
      let len := if d.precision < 0 then len else min len d.precision.toNat
      d.printer.vaArg.2.put (field (has d.flags left) d.fieldWidth.toNat
        (bytesFrom d.printer.mem.bytes d.printer.vaArg.1 len)) := by
  have hmem : d.printer.vaArg.2.mem = d.printer.mem := rfl
  obtain ⟨n, hn⟩ := Int.eq_ofNat_of_zero_le hlen
  simp only [printString, hmem, hn, Int.toNat_natCast]
  generalize hcut : (if d.precision < 0 then ((n : Nat) : Int)
    else if d.precision < n then d.precision else n) = len
  have hnat : (if d.precision < 0 then n else min n d.precision.toNat) = len.toNat := by
    rw [← hcut]
    split
    · exact (Int.toNat_natCast n).symm
    · split <;> omega
  have hrange : 0 ≤ len ∧ len < 2 ^ 31 := by
    rw [← hcut]
    split
    · omega
    · split <;> omega
  have hpad := pad_eq (ch ' ') len d.fieldWidth (by omega) hhi
  have hfill : (d.fieldWidth - len).toNat = d.fieldWidth.toNat - len.toNat := by omega
  rw [hnat, field, length_bytesFrom]
  cases hleft : has d.flags left with
  | true =>
      simp only [if_true, hpad, hfill, List.nil_append]
  | false =>
      have hexact : int32 (min len d.fieldWidth - 1) = min len d.fieldWidth - 1 :=
        int32_eq (by omega) (by omega)
      have hrest := pad_eq (ch ' ') len (min len d.fieldWidth - 1)
        (by omega) (by omega)
      have hzero : (min len d.fieldWidth - 1 - len).toNat = 0 := by omega
      rw [hzero] at hrest
      simp only [Bool.false_eq_true, if_false, hpad, hfill, hexact, hrest, List.replicate_zero,
        List.append_nil]

theorem printNumber_eq (base : Int) (hbase : 2 ≤ base ∧ base ≤ 36) (type : Word)
    (width : Int) (d : Parse) :
    printNumber base type width d =
      .ok (d.printer.vaArg.2.put
        (numberText d.printer.vaArg.1 base width d.precision type)) := by
  have hrange : ¬ (base < 2 ∨ 36 < base) := by omega
  simp only [printNumber, numberText, number, if_neg hrange, Option.getD_some]

/-! ## A directive -/

/-- The bytes from `a` on are a string of length `n`. -/
structure IsCString (m : Memory) (a : Word) (n : Nat) : Prop where
  length_lt : n < 2 ^ 31
  nonzero : ∀ i, i < n → m.bytes (a + Word.of i) ≠ 0
  terminated : m.bytes (a + Word.of n) = 0

/-- `strlen` returns the length of its argument. -/
def StrlenCorrect (strlen : Memory → Word → Int) : Prop :=
  ∀ m a n, IsCString m a n → strlen m a = n

/-- The nonzero bytes from `a` on, of the first `n`. -/
def scanBytes (m : Memory) : Word → Nat → Nat
  | _, 0 => 0
  | a, n + 1 => if m.bytes a = 0 then 0 else scanBytes m (a + 1) n + 1

theorem scanBytes_eq {m : Memory} {a : Word} {n : Nat} (h : IsCString m a n) {turns : Nat}
    (hn : n < turns) : scanBytes m a turns = n := by
  induction n generalizing a turns with
  | zero =>
      obtain ⟨turns, rfl⟩ := Nat.exists_eq_add_one_of_ne_zero (Nat.ne_of_gt hn)
      have hzero : m.bytes a = 0 := by simpa using h.terminated
      rw [scanBytes, if_pos hzero]
  | succ n ih =>
      obtain ⟨turns, rfl⟩ := Nat.exists_eq_add_one_of_ne_zero (Nat.ne_of_gt
        (Nat.lt_of_le_of_lt (Nat.zero_le _) hn))
      have hfirst : m.bytes a ≠ 0 := by simpa using h.nonzero 0 (Nat.succ_pos n)
      have hnext : ∀ i, a + 1 + Word.of i = a + Word.of (i + 1) := by
        intro i
        rw [BitVec.add_assoc, show (1 : Word) = Word.of 1 from rfl, Word.of_add_of, Nat.add_comm]
      have hrest : IsCString m (a + 1) n := by
        refine ⟨Nat.lt_of_succ_lt h.length_lt, fun i hi => ?_, ?_⟩
        · rw [hnext]
          exact h.nonzero (i + 1) (Nat.succ_lt_succ hi)
        · rw [hnext]
          exact h.terminated
      rw [scanBytes, if_neg hfirst, ih hrest (Nat.lt_of_succ_lt_succ hn)]

/-- A `strlen` that scans for the zero. -/
def scanLength (m : Memory) (a : Word) : Int := scanBytes m a (2 ^ 31)

theorem scanLength_correct : StrlenCorrect scanLength := by
  intro m a n h
  exact congrArg Nat.cast (scanBytes_eq h h.length_lt)

/-- The width and the precision are no stars and fit an `int`. -/
def Directive.Plain (d : Directive) : Prop := d.width.Plain ∧ PlainPrecision d.precision

/-- The argument of a directive for strings is a string. -/
def Directive.Matches (d : Directive) (p : Printer) : Prop :=
  d.conv = some (ch 's') → ∃ n, IsCString p.mem (p.args 0) n

variable {strlen : Memory → Word → Int}

private theorem has_flag_left : ∀ c : Byte,
    has ((flagTable.lookup c).getD 0) left = (c == ch '-') := by
  decide

/-- The flag for `number` is there for the character. -/
theorem Directive.has_left (d : Directive) : has d.type left = d.leftJustified := by
  have hflags : ∀ (flags : List Byte) (w : Word),
      has (flags.foldl (fun w c => w ||| (flagTable.lookup c).getD 0) w) left =
        (has w left || flags.contains (ch '-')) := by
    intro flags
    induction flags with
    | nil => exact fun w => (Bool.or_false _).symm
    | cons c flags ih =>
        intro w
        rw [List.foldl_cons, ih, has_or, has_flag_left, List.contains_cons, Bool.or_assoc,
          Bool.beq_comm]
  rw [type, hflags]
  rfl

private theorem kind_string : ∀ c : Byte,
    kindTable.lookup c = some .string → c = ch 's' := by
  decide

/-- A conversion in the switch does what the directive denotes. -/
private theorem convertKnown_eq (hstrlen : StrlenCorrect strlen) {d : Directive} (h : d.Plain)
    {p : Printer} (hm : d.Matches p) {c : Byte} (hconv : d.conv = some c) {kind : Kind}
    (hkind : kindTable.lookup c = some kind) (fmt : List Byte) :
    convertKnown strlen ⟨d.type, d.width.value, precisionValue d.precision, fmt, p⟩
      (conversionOf c) = .ok (d.denoteKind strlen p kind) := by
  obtain ⟨hlo, hhi⟩ := Field.value_range h.1
  have hnone : d.type ||| 0 = d.type := BitVec.or_zero
  have hstring : kind = .string → ∃ n, IsCString p.mem (p.args 0) n :=
    fun hs => hm (kind_string c (hs ▸ hkind) ▸ hconv)
  rw [lookup_kindTable] at hkind
  generalize conversionOf c = conversion at hkind ⊢
  cases conversion with
  | char =>
      cases hkind
      rw [Directive.denoteKind, ← d.has_left]
      exact congrArg Except.ok (printChar_eq _ hlo hhi)
  | string =>
      cases hkind
      obtain ⟨n, hn⟩ := hstring rfl
      have hlen : strlen p.mem p.vaArg.1 = n := hstrlen _ _ _ hn
      have hmax := hn.length_lt
      rw [Directive.denoteKind, Directive.denoteString, ← d.has_left]
      exact congrArg Except.ok (printString_eq strlen
        ⟨d.type, d.width.value, precisionValue d.precision, fmt, p⟩
        (by rw [hlen]; omega) (by rw [hlen]; omega) hlo hhi)
  | octal =>
      cases hkind
      rw [Directive.denoteKind, hnone]
      exact printNumber_eq 8 (by decide) _ _ _
  | pointer =>
      cases hkind
      simp only [convertKnown, Directive.denoteKind]
      split
      · exact printNumber_eq 16 (by decide) _ _ _
      · exact printNumber_eq 16 (by decide) _ _ _
  | hexLower =>
      cases hkind
      exact printNumber_eq 16 (by decide) _ _ _
  | hexUpper =>
      cases hkind
      rw [Directive.denoteKind, hnone]
      exact printNumber_eq 16 (by decide) _ _ _
  | decimal =>
      cases hkind
      exact printNumber_eq 10 (by decide) _ _ _
  | unsigned =>
      cases hkind
      rw [Directive.denoteKind, hnone]
      exact printNumber_eq 10 (by decide) _ _ _
  | count =>
      cases hkind
      rfl
  | other => cases hkind

/-- A directive without stars asks for what it denotes. -/
theorem request_denotes (hstrlen : StrlenCorrect strlen) {d : Directive} (h : d.Plain)
    {p : Printer} (hm : d.Matches p) (hzero : d.conv ≠ some 0) :
    d.request.perform strlen p = .ok (d.denote strlen p) := by
  rw [Directive.request, Directive.denote]
  cases hconv : d.conv with
  | none => rfl
  | some c =>
      have hc : c ≠ 0 := fun hc => hzero (hc ▸ hconv)
      dsimp only
      rw [Field.int32_value h.1, precisionRead_plain h.2]
      cases hkind : kindTable.lookup c with
      | none =>
          have hother : conversionOf c = .other := by
            rwa [lookup_kindTable, Conversion.kind_eq_none_iff] at hkind
          simp only [Request.perform, hother, printOther_eq hc]
      | some kind =>
          have hknown := convertKnown_eq hstrlen h hm hconv hkind [c]
          rw [Request.perform]
          split
          case h_1 hother =>
            rw [lookup_kindTable, hother, Conversion.kind] at hkind
            cases hkind
          case h_2 => exact hknown

/-- Without stars a scan is a request. -/
theorem scanRequest_plain {s : List Byte} (h : (scanDirective s).1.Plain) :
    scanRequest s = ((scanDirective s).1.request, (scanDirective s).2) := by
  have hwidth : (scanField (s.dropWhile isFlag)).1.Plain := h.1
  have hprecision : PlainPrecision (scanPrecision (scanField (s.dropWhile isFlag)).2).1 := h.2
  have hstar : (scanField (s.dropWhile isFlag)).1 ≠ .star := by
    intro hstar
    rw [hstar] at hwidth
    exact hwidth
  have hstar' : (scanPrecision (scanField (s.dropWhile isFlag)).2).1 ≠ some .star := by
    intro hstar'
    rw [hstar'] at hprecision
    exact hprecision
  simp only [scanRequest, if_neg hstar, if_neg hstar']

/-! ## The whole format -/

/-- No item has a star, and every number fits an `int`. -/
def PlainItems (l : List Item) : Prop := ∀ d, Item.directive d ∈ l → d.Plain

/-- Every string directive finds a string when its turn comes. -/
def MatchesItems (strlen : Memory → Word → Int) : List Item → Printer → Prop
  | [], _ => True
  | .byte c :: l, p => MatchesItems strlen l (p.put [c])
  | .directive d :: l, p => d.Matches p ∧ MatchesItems strlen l (d.denote strlen p)

/-- The requests of such a format are performed as its items denote. -/
theorem requests_denote (hstrlen : StrlenCorrect strlen) {s : List Byte} (hs : ∀ c ∈ s, c ≠ 0)
    (hplain : PlainItems (items s)) {p : Printer} (hm : MatchesItems strlen (items s) p) :
    (requests s).foldlM (Request.perform strlen) p = .ok (denote strlen (items s) p) := by
  induction s using items.induct generalizing p with
  | case1 =>
      rw [items, requests_nil]
      rfl
  | case2 s ih =>
      rw [items_percent] at hplain hm ⊢
      have hdirective : (scanDirective s).1.Plain := hplain _ (List.mem_cons_self ..)
      have htail : ∀ c ∈ s, c ≠ 0 := fun c hc => hs c (List.mem_cons_of_mem _ hc)
      have hrest : ∀ c ∈ (scanDirective s).2, c ≠ 0 :=
        fun c hc => htail c ((scanned_suffix s).mem (List.mem_of_mem_tail hc))
      have hzero : (scanDirective s).1.conv ≠ some 0 :=
        fun hconv => htail 0 ((scanned_suffix s).mem (List.mem_of_mem_head? hconv)) rfl
      rw [requests_percent, scanRequest_plain hdirective, List.foldlM_cons,
        request_denotes hstrlen hdirective hm.1 hzero]
      exact ih hrest (fun d hd => hplain d (List.mem_cons_of_mem _ hd)) hm.2
  | case3 c s hc ih =>
      rw [items_byte hc] at hplain hm ⊢
      rw [requests_byte hc]
      exact ih (fun c hc => hs c (List.mem_cons_of_mem _ hc))
        (fun d hd => hplain d (List.mem_cons_of_mem _ hd)) hm

/-- A format without stars prints what its items denote, in order, and then the
terminating zero; the value returned counts the bytes before it. -/
theorem vsprintf_denotes {strlen : Memory → Word → Int} (hstrlen : StrlenCorrect strlen)
    (s : List Byte) (hs : ∀ c ∈ s, c ≠ 0) (hplain : PlainItems (items s)) (args : Nat → Word)
    (mem : Memory) (hm : MatchesItems strlen (items s) ⟨[], args, mem⟩) :
    let p := denote strlen (items s) ⟨[], args, mem⟩
    vsprintf strlen (s ++ [0]) args mem =
      .ok ⟨p.str ++ [0], int32 p.str.length, p.args, p.mem⟩ := by
  have hlt : s.length < (s ++ [0]).length := by
    rw [List.length_append]
    exact Nat.lt_succ_self _
  rw [vsprintf, vsprintfLoop_performs strlen hs hlt, requests_denote hstrlen hs hplain hm]
  rfl

/-- The format `%s:%-4d` with the string `hd` and a number. -/
theorem vsprintf_denotes_drive :
    let s := [ch '%', ch 's', ch ':', ch '%', ch '-', ch '4', ch 'd']
    let args : Nat → Word := fun n => if n = 0 then 0x1000 else 301
    let mem : Memory :=
      ⟨fun a => if a = 0x1000 then ch 'h' else if a = 0x1001 then ch 'd' else 0, []⟩
    let p := denote scanLength (items s) ⟨[], args, mem⟩
    vsprintf scanLength (s ++ [0]) args mem =
      .ok ⟨p.str ++ [0], int32 p.str.length, p.args, p.mem⟩ := by
  intro s args mem
  have hitems : items s =
      [.directive ⟨[], .absent, none, none, some (ch 's')⟩, .byte (ch ':'),
        .directive ⟨[ch '-'], .digits [ch '4'], none, none, some (ch 'd')⟩] := by
    have hs : scanDirective [ch 's', ch ':', ch '%', ch '-', ch '4', ch 'd'] =
        (⟨[], .absent, none, none, some (ch 's')⟩, [ch ':', ch '%', ch '-', ch '4', ch 'd']) := by
      decide
    have hd : scanDirective [ch '-', ch '4', ch 'd'] =
        (⟨[ch '-'], .digits [ch '4'], none, none, some (ch 'd')⟩, []) := by decide
    rw [items_percent, hs, items_byte (by decide), items_percent, hd, items]
  have hstring : IsCString mem 0x1000 2 := by
    refine ⟨by decide, fun i hi => ?_, rfl⟩
    obtain rfl | rfl : i = 0 ∨ i = 1 := by omega
    · decide
    · decide
  refine vsprintf_denotes scanLength_correct s (by decide) ?_ args mem ?_
  · rw [hitems]
    intro d hd
    simp only [List.mem_cons, Item.directive.injEq, reduceCtorEq, List.not_mem_nil, or_false,
      false_or] at hd
    obtain rfl | rfl := hd
    · exact ⟨trivial, trivial⟩
    · exact ⟨show decimalFrom 0 [ch '4'] < 2 ^ 31 by decide, trivial⟩
  · rw [hitems]
    exact ⟨fun _ => ⟨2, hstring⟩, fun h => absurd h (by decide), trivial⟩

end MySystem
