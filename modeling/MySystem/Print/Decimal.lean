import MySystem.Print.Layout
import MySystem.Print.Meaning

/-!
# Decimal printing and reading

`skip_atoi` on what `number` writes in base 10: the loop that multiplies and
adds takes back the loop that divides.
-/

namespace MySystem

open Machine

/-! ## The value of printed digits -/

theorem decimalFrom_append (n : Nat) (a b : List Byte) :
    decimalFrom n (a ++ b) = decimalFrom (decimalFrom n a) b :=
  List.foldl_append

theorem digitChar_decimal (lower : Bool) {d : Nat} (h : d < 10) :
    isDigit (digitChar lower d) = true ∧ decimalDigits.idxOf (digitChar lower d) = d := by
  have hdigit : ∀ lower, ∀ d < 10, isDigit (digitChar lower d) = true ∧
      decimalDigits.idxOf (digitChar lower d) = d := by decide
  exact hdigit lower d h

/-- Digits in reverse order, as `number` stores them. -/
theorem decimalFrom_reverse (lower : Bool) {ds : List Nat} (h : ∀ d ∈ ds, d < 10) :
    decimalFrom 0 (ds.reverse.map (digitChar lower)) = Nat.ofDigits 10 ds := by
  induction ds with
  | nil => rfl
  | cons d ds ih =>
      have hd : d < 10 := h d List.mem_cons_self
      have hlast : ∀ n, decimalFrom n [digitChar lower d] = n * 10 + d := by
        intro n
        show n * 10 + decimalDigits.idxOf (digitChar lower d) = _
        rw [(digitChar_decimal lower hd).2]
      rw [List.reverse_cons, List.map_append, decimalFrom_append,
        ih fun d' hd' => h d' (List.mem_cons_of_mem d hd'), List.map_singleton, hlast,
        Nat.ofDigits_cons]
      omega

theorem decimalFrom_digitText (lower : Bool) (n : Nat) :
    decimalFrom 0 (digitText lower 10 n) = n := by
  rw [digitText]
  split
  case isTrue hzero =>
    rw [hzero]
    rfl
  case isFalse =>
    rw [decimalFrom_reverse lower fun d hd => Nat.digits_lt_base (by decide) hd]
    exact Nat.ofDigits_digits 10 n

/-- Leading zeros do not count. -/
theorem decimalFrom_zeros (k : Nat) (ds : List Byte) :
    decimalFrom 0 (List.replicate k (ch '0') ++ ds) = decimalFrom 0 ds := by
  induction k with
  | zero => rfl
  | succ k ih => exact ih

theorem isDigit_digitText (lower : Bool) (n : Nat) {b : Byte} (hb : b ∈ digitText lower 10 n) :
    isDigit b = true := by
  rw [digitText] at hb
  split at hb
  · rw [List.mem_singleton.mp hb]
    decide
  · obtain ⟨d, hd, rfl⟩ := List.mem_map.mp hb
    have hlt : d < 10 := Nat.digits_lt_base (by decide) (List.mem_reverse.mp hd)
    exact (digitChar_decimal lower hlt).1

/-! ## The law -/

/-- A non-negative number has no sign of its own. -/
theorem numberHead_decimal {n : Nat} (hn : n < 2 ^ 31) {type : Word}
    (hplus : has type plus = false) (hspace : has type space = false) :
    numberHead (Word.of n) 10 type = [] := by
  have hint : (Word.of n).toInt = n := Word.toInt_of hn
  have hsign : signText (Word.of n) type = [] := by
    rw [signText, hint, hplus, hspace, if_neg (by omega)]
    rfl
  have hspecial : specialText 10 type = [] := by
    rw [specialText, if_neg (by simp), if_neg (by simp)]
  rw [numberHead, hsign, hspecial]
  rfl

theorem magnitude_decimal {n : Nat} (hn : n < 2 ^ 31) (type : Word) :
    magnitude (Word.of n) type = n := by
  have hnat : (Word.of n).toNat = n := Word.toNat_of (by omega)
  have hint : (Word.of n).toInt = n := Word.toInt_of hn
  rw [magnitude, hint, hnat, if_neg (by omega)]

/-- The digits of a number with the zeros of its precision. -/
theorem numberTail_decimal {n : Nat} (hn : n < 2 ^ 31) (precision : Int) (type : Word) :
    ∃ k, numberTail (Word.of n) 10 precision type =
      List.replicate k (ch '0') ++ digitText (has type small) 10 n := by
  refine ⟨(precision - (digitText (has type small) 10 n).length).toNat, ?_⟩
  rw [numberTail, magnitude_decimal hn]
  rfl

/-- With neither sign nor leading blanks the text is zeros, digits and blanks. -/
theorem numberLayout_decimal {n : Nat} (hn : n < 2 ^ 31) {size precision : Int} {type : Word}
    (hplus : has type plus = false) (hspace : has type space = false)
    (hjustify : has type left = true ∨ has type zeropad = true ∨
      size ≤ (numberTail (Word.of n) 10 precision type).length) :
    ∃ k j, numberLayout (Word.of n) 10 size precision type =
      (List.replicate k (ch '0') ++ digitText (has type small) 10 n) ++
        List.replicate j (ch ' ') := by
  obtain ⟨k, htail⟩ := numberTail_decimal hn precision type
  rw [numberLayout, numberHead_decimal hn hplus hspace, justify]
  by_cases hfits : size ≤ (numberTail (Word.of n) 10 precision type).length
  · rw [List.nil_append, if_pos hfits]
    exact ⟨k, 0, htail.trans (List.append_nil _).symm⟩
  · rw [List.nil_append, if_neg hfits, List.nil_append]
    by_cases hleft : has type left = true
    · rw [if_pos hleft, htail]
      exact ⟨k, _, rfl⟩
    · have hzeropad : has type zeropad = true := by
        rcases hjustify with h | h | h
        · exact absurd h hleft
        · exact h
        · exact absurd h hfits
      rw [if_neg hleft, if_pos hzeropad, htail, ← List.append_assoc,
        List.replicate_append_replicate]
      exact ⟨_, 0, (List.append_nil _).symm⟩

/-- The padding loops do not run out of room. -/
theorem padRoom_decimal {n : Nat} (hn : n < 2 ^ 31) {size precision : Int} {type : Word}
    (hsize : -2 ^ 30 < size) (hprecision : precision < 2 ^ 30)
    (hplus : has type plus = false) (hspace : has type space = false) :
    padTests type - 2 ^ 31 ≤ padRoom (Word.of n) 10 size precision type := by
  have hdigits : (digitText (has type small) 10 n).length ≤ 32 :=
    length_digitText _ (by decide) (by omega)
  have htests := (padTests_range type).2
  have hlength : (numberTail (Word.of n) 10 precision type).length < 2 ^ 30 := by
    rw [numberTail, magnitude_decimal hn, List.length_append, List.length_replicate]
    change (precision - (digitText (has type small) 10 n).length).toNat +
      (digitText (has type small) 10 n).length < 2 ^ 30
    omega
  rw [padRoom, numberHead_decimal hn hplus hspace, List.nil_append]
  omega

/-- `skip_atoi` reads back what `number` wrote for `n`, whatever follows it but a
digit, and stops behind the digits. -/
theorem skip_atoi_number {n : Nat} (hn : n < 2 ^ 31) (size precision : Int) (type : Word)
    (hsize : -2 ^ 30 < size ∧ size < 2 ^ 30) (hprecision : -2 ^ 30 < precision ∧ precision < 2 ^ 30)
    (hplus : has type plus = false) (hspace : has type space = false)
    (hjustify : has type left = true ∨ has type zeropad = true ∨
      size ≤ (numberTail (Word.of n) 10 precision type).length)
    {c : Byte} (hc : isDigit c = false) (rest : List Byte) :
    ∃ ds tail, number n 10 size precision type = some (ds ++ tail) ∧
      (∀ b ∈ ds, isDigit b = true) ∧ (∀ b ∈ tail, isDigit b = false) ∧
      skipAtoi 0 ((ds ++ tail) ++ c :: rest) = .ok ((n : Int), tail ++ c :: rest) := by
  have hint : (Word.of n).toInt = n := Word.toInt_of hn
  have hroom := padRoom_decimal hn hsize.1 hprecision.2 hplus hspace
  have htext := (number_layout_iff (Word.of n) type (by decide) hsize hprecision).mpr hroom
  obtain ⟨k, j, hlayout⟩ := numberLayout_decimal hn hplus hspace hjustify
  rw [hint, hlayout] at htext
  have hds : ∀ b ∈ List.replicate k (ch '0') ++ digitText (has type small) 10 n,
      isDigit b = true := by
    intro b hb
    rcases List.mem_append.mp hb with hzero | hdigit
    · rw [List.eq_of_mem_replicate hzero]
      decide
    · exact isDigit_digitText _ n hdigit
  have hvalue :
      decimalFrom 0 (List.replicate k (ch '0') ++ digitText (has type small) 10 n) = n := by
    rw [decimalFrom_zeros, decimalFrom_digitText]
  have htail : ∀ b ∈ List.replicate j (ch ' '), isDigit b = false := by
    intro b hb
    rw [List.eq_of_mem_replicate hb]
    decide
  refine ⟨_, _, htext, hds, htail, ?_⟩
  obtain ⟨c', rest', hafter, hc'⟩ : ∃ c' rest',
      List.replicate j (ch ' ') ++ c :: rest = c' :: rest' ∧ isDigit c' = false := by
    cases j with
    | zero => exact ⟨c, rest, rfl, hc⟩
    | succ j => exact ⟨ch ' ', _, rfl, by decide⟩
  have hread := skipAtoi_digits (n := 0) hds hc' rest'
  rw [hvalue, int32_eq (by omega) (by omega), int32_eq (by omega) (by omega)] at hread
  rw [List.append_assoc, hafter]
  exact hread

/-- The greatest `int` with a precision of 12 in a field of 15, left justified. -/
theorem skip_atoi_number_greatest : ∃ ds tail,
    number ((2 ^ 31 - 1 : Nat) : Int) 10 15 12 (signed + left) = some (ds ++ tail) ∧
      skipAtoi 0 ((ds ++ tail) ++ [ch '.', 0]) = .ok (((2 ^ 31 - 1 : Nat) : Int),
        tail ++ [ch '.', 0]) := by
  obtain ⟨ds, tail, htext, -, -, hread⟩ := skip_atoi_number (n := 2 ^ 31 - 1) (by decide) 15 12
    (signed + left) (by decide) (by decide) (by decide) (by decide) (.inl (by decide))
    (c := ch '.') (by decide) [0]
  exact ⟨ds, tail, htext, hread⟩

end MySystem
