import MySystem.Print.Number
import Mathlib.Data.Nat.Digits.Lemmas

/-!
# The layout of a printed number

What `number` is for: a sign, the prefix of a special form, the digits of the
magnitude with the zeros the precision asks for, and padding up to the width.
The four padding loops of the source share one counter, the room left. They
produce this layout exactly as long as none of their tests takes the room below
the range of an `int`.
-/

namespace MySystem

open Machine

/-! ## The specified text -/

def signText (num type : Word) : List Byte :=
  if has type signed ∧ num.toInt < 0 then [ch '-']
  else if has type plus then [ch '+']
  else if has type space then [ch ' ']
  else []

/-- The value printed: the absolute value behind a minus sign, else the
unsigned value. -/
def magnitude (num type : Word) : Nat :=
  if has type signed ∧ num.toInt < 0 then num.toInt.natAbs else num.toNat

/-- The digits of all bases up to 36, the letters in the upper or the lower case. -/
def digitTable (lower : Bool) : List Byte :=
  ['0', '1', '2', '3', '4', '5', '6', '7', '8', '9'].map ch ++
    if lower then
      ['a', 'b', 'c', 'd', 'e', 'f', 'g', 'h', 'i', 'j', 'k', 'l', 'm', 'n', 'o', 'p', 'q', 'r',
        's', 't', 'u', 'v', 'w', 'x', 'y', 'z'].map ch
    else
      ['A', 'B', 'C', 'D', 'E', 'F', 'G', 'H', 'I', 'J', 'K', 'L', 'M', 'N', 'O', 'P', 'Q', 'R',
        'S', 'T', 'U', 'V', 'W', 'X', 'Y', 'Z'].map ch

def digitChar (lower : Bool) (d : Nat) : Byte := (digitTable lower).getD d 0

/-- The digits of a value, most significant first. -/
def digitText (lower : Bool) (base value : Nat) : List Byte :=
  if value = 0 then [ch '0'] else ((Nat.digits base value).reverse).map (digitChar lower)

def specialText (base : Int) (type : Word) : List Byte :=
  if has type special ∧ base = 8 then [ch '0']
  else if has type special ∧ base = 16 then
    [ch '0', if has type small then ch 'x' else ch 'X']
  else []

/-- Padding stands after the text, between its head and its tail, or before it. -/
def justify (head tail : List Byte) (size : Int) (type : Word) : List Byte :=
  let room := (size - (head ++ tail).length).toNat
  if size ≤ (head ++ tail).length then head ++ tail
  else if has type left then head ++ tail ++ List.replicate room (ch ' ')
  else if has type zeropad then head ++ List.replicate room (ch '0') ++ tail
  else List.replicate room (ch ' ') ++ (head ++ tail)

def numberHead (num : Word) (base : Int) (type : Word) : List Byte :=
  signText num type ++ specialText base type

def numberTail (num : Word) (base precision : Int) (type : Word) : List Byte :=
  let text := digitText (has type small) base.toNat (magnitude num type)
  List.replicate (precision - text.length).toNat (ch '0') ++ text

def numberLayout (num : Word) (base size precision : Int) (type : Word) : List Byte :=
  justify (numberHead num base type) (numberTail num base precision type) size type

/-- The room the width leaves beside the text, negative for a text that is longer. -/
def padRoom (num : Word) (base size precision : Int) (type : Word) : Int :=
  size - (numberHead num base type ++ numberTail num base precision type).length

/-- The failing tests of a padding loop that another one follows. -/
def padTests (type : Word) : Int :=
  if has type left then 0 else if has type zeropad then 1 else 2

/-! ## Flags -/

theorem has_mask (type : Word) {flag : Word} (h : ~~~zeropad &&& flag = flag) :
    has (type &&& ~~~zeropad) flag = has type flag := by
  rw [has, has, BitVec.and_assoc, h]

theorem has_masked (type : Word) {flag : Word} (h : ~~~zeropad &&& flag = flag) :
    has (if has type left then type &&& ~~~zeropad else type) flag = has type flag := by
  split
  · exact has_mask type h
  · rfl

/-- Left justification switches zero padding off. -/
theorem has_masked_zeropad (type : Word) :
    has (if has type left then type &&& ~~~zeropad else type) zeropad =
      (has type zeropad && !has type left) := by
  split
  case isTrue h =>
    have hzero : ~~~zeropad &&& zeropad = 0 := by decide
    have hmask : type &&& ~~~zeropad &&& zeropad = 0 := by
      rw [BitVec.and_assoc, hzero]
      exact BitVec.and_zero
    rw [has, hmask, h, Bool.not_true, Bool.and_false]
    rfl
  case isFalse h =>
    simp [h]

theorem has_zeropad_left (type : Word) :
    has type (zeropad + left) = (has type zeropad || has type left) := by
  have hor : zeropad + left = zeropad ||| left := by decide
  have hswap : ∀ flag, has type flag = has flag type := fun flag => by
    rw [has, has, BitVec.and_comm]
  rw [hor, hswap, has_or, ← hswap, ← hswap]

/-! ## Digits -/

/-- The table of the source. -/
theorem digits_eq (lower : Bool) {d : Nat} (h : d < 36) : digits lower d = digitChar lower d := by
  have hsame : ∀ lower, ∀ d < 36, digits lower d = digitChar lower d := by decide
  exact hsame lower d h

theorem digitLoop_eq (lower : Bool) {base : Nat} (hbase : 2 ≤ base) {turns num : Nat}
    (h : num < base ^ turns) (tmp : List Byte) :
    digitLoop lower base turns num tmp =
      ((Nat.digits base num).reverse).map (digits lower) ++ tmp := by
  induction turns generalizing num tmp with
  | zero =>
      have hzero : num = 0 := by
        rw [Nat.pow_zero] at h
        omega
      rw [digitLoop, hzero, Nat.digits_zero]
      rfl
  | succ turns ih =>
      rw [digitLoop]
      split
      case isTrue hzero =>
        rw [hzero, Nat.digits_zero]
        rfl
      case isFalse hnum =>
        have hdiv : num / base < base ^ turns := by
          rw [Nat.div_lt_iff_lt_mul (by omega), ← Nat.pow_succ]
          exact h
        have hdigits : Nat.digits base num = num % base :: Nat.digits base (num / base) :=
          Nat.digits_def' (by omega) (Nat.pos_of_ne_zero hnum)
        rw [ih hdiv, hdigits, List.reverse_cons, List.map_append, List.append_assoc]
        rfl

/-- The digits of a value below `2 ^ 32`, the number as the loop sees it. -/
theorem numberDigits_eq (lower : Bool) {base : Nat} (hbase : 2 ≤ base ∧ base ≤ 36) {num : Int}
    {value : Nat} (hvalue : (num % 2 ^ 32).toNat = value) (hnum : num = 0 ↔ value = 0) :
    numberDigits lower num base = digitText lower base value := by
  rw [numberDigits, digitText]
  by_cases hzero : num = 0
  · rw [if_pos hzero, if_pos (hnum.mp hzero)]
  · have hlt : value < base ^ 32 := by
      have hpow : 2 ^ 32 ≤ base ^ 32 := Nat.pow_le_pow_left hbase.1 32
      omega
    rw [if_neg hzero, if_neg (fun h => hzero (hnum.mpr h)), hvalue, digitLoop_eq lower hbase.1 hlt,
      List.append_nil]
    refine List.map_congr_left fun d hd => digits_eq lower ?_
    have hdigit : d < base := Nat.digits_lt_base (by omega) (List.mem_reverse.mp hd)
    omega

theorem length_digitText (lower : Bool) {base value : Nat} (hbase : 2 ≤ base)
    (hvalue : value < 2 ^ 32) : (digitText lower base value).length ≤ 32 := by
  rw [digitText]
  split
  · show 1 ≤ 32
    decide
  · have hpow : 2 ^ 32 ≤ base ^ 32 := Nat.pow_le_pow_left hbase 32
    rw [List.length_map, List.length_reverse, Nat.digits_length_le_iff hbase]
    exact Nat.lt_of_lt_of_le hvalue hpow

theorem magnitude_lt (num type : Word) : magnitude num type < 2 ^ 32 := by
  have hlo := BitVec.le_toInt num
  have hlt := num.isLt
  rw [magnitude]
  split
  · omega
  · exact hlt

/-- The number left for the digits has the specified magnitude, `INT_MIN` included. -/
theorem numberSign_magnitude (num type : Word) :
    ((numberSign num.toInt type).2 % 2 ^ 32).toNat = magnitude num type ∧
      ((numberSign num.toInt type).2 = 0 ↔ magnitude num type = 0) := by
  have hlo := BitVec.le_toInt num
  have hhi := BitVec.toInt_lt (x := num)
  have hint := BitVec.toInt_eq_toNat_cond num
  have hlt := num.isLt
  rw [numberSign, magnitude]
  split
  case isTrue h =>
    obtain ⟨value, hvalue⟩ : ∃ value : Nat, num.toInt = -value :=
      ⟨num.toInt.natAbs, Int.eq_neg_comm.mp (Int.ofNat_natAbs_of_nonpos (Int.le_of_lt h.2))⟩
    have hneg : -num.toInt = value := by omega
    have habs : num.toInt.natAbs = value := by omega
    rw [hneg, habs]
    rcases Nat.lt_or_ge value (2 ^ 31) with hsmall | hlarge
    · rw [int32_eq (by omega) (by omega)]
      omega
    · -- the negation of the least `int` is itself
      have hmin : value = 2 ^ 31 := by omega
      subst hmin
      decide
  case isFalse =>
    dsimp only
    omega

/-- The sign byte is the specified sign, zero standing for none. -/
theorem numberSign_text (num type : Word) :
    (if (numberSign num.toInt type).1 ≠ 0 then [(numberSign num.toInt type).1] else []) =
      signText num type := by
  rw [numberSign, signText]
  split
  · rfl
  · dsimp only
    split
    · rfl
    · split
      · rfl
      · rfl

theorem numberPrefix_eq (base : Int) (type : Word) :
    numberPrefix (has type small) base type = specialText base type := by
  rw [numberPrefix, specialText]
  cases has type special with
  | false => rfl
  | true =>
      simp only [if_true, true_and]
      cases has type small with
      | false => rfl
      | true => rfl

theorem length_signText_le (num type : Word) : (signText num type).length ≤ 1 := by
  rw [signText]
  split
  · exact Nat.le_refl 1
  · split
    · exact Nat.le_refl 1
    · split
      · exact Nat.le_refl 1
      · exact Nat.zero_le 1

theorem length_specialText_le (base : Int) (type : Word) : (specialText base type).length ≤ 2 := by
  rw [specialText]
  split
  · exact Nat.le_succ 1
  · split
    · exact Nat.le_refl 2
    · exact Nat.zero_le 2

/-- The sign and the prefix are taken off the width. -/
theorem numberSize_sub (num : Word) (base size : Int) (type : Word) (n : Int) :
    int32 (numberSize (numberSign num.toInt type).1 base size type - n) =
      int32 (size - (numberHead num base type).length - n) := by
  have hsign : ∀ n, int32 ((if (numberSign num.toInt type).1 ≠ 0 then int32 (size - 1) else size) -
      n) = int32 (size - (signText num type).length - n) := by
    intro n
    rw [← numberSign_text]
    split
    · exact int32_sub_left (size - 1) n
    · rw [List.length_nil, Int.ofNat_zero, Int.sub_zero]
  rw [numberSize, numberHead, List.length_append, specialText]
  cases has type special with
  | false =>
      simp only [Bool.false_eq_true, false_and, if_false, hsign, List.length_nil, Nat.add_zero]
  | true =>
      simp only [if_true, true_and]
      split
      case isTrue hbase =>
        have hother : ¬ base = 8 := by omega
        rw [if_neg hother, int32_sub_left, Int.sub_sub, hsign]
        congr 1
        simp only [List.length_cons, List.length_nil]
        omega
      case isFalse =>
        split
        case isTrue =>
          rw [int32_sub_left, Int.sub_sub, hsign]
          congr 1
          simp only [List.length_cons, List.length_nil]
          omega
        case isFalse => rw [hsign, List.length_nil, Nat.add_zero]

/-! ## The padding loops -/

theorem numberSign_masked (num : Int) (type : Word) :
    numberSign num (if has type left then type &&& ~~~zeropad else type) =
      numberSign num type := by
  rw [numberSign, numberSign, has_masked type (by decide), has_masked type (by decide),
    has_masked type (by decide)]

theorem numberSize_masked (sign : Byte) (base size : Int) (type : Word) :
    numberSize sign base size (if has type left then type &&& ~~~zeropad else type) =
      numberSize sign base size type := by
  rw [numberSize, numberSize, has_masked type (by decide)]

theorem numberPrefix_masked (lower : Bool) (base : Int) (type : Word) :
    numberPrefix lower base (if has type left then type &&& ~~~zeropad else type) =
      numberPrefix lower base type := by
  rw [numberPrefix, numberPrefix, has_masked type (by decide)]

/-- The three loops that share the room left, around the text they pad. -/
def padText (room : Int) (head tail : List Byte) (type : Word) : List Byte :=
  let c := if has type zeropad && !has type left then ch '0' else ch ' '
  let (size, lead) :=
    if (has type zeropad && !has type left) || has type left then (room, [])
    else pad (ch ' ') 0 room
  let (size, fill) := if has type left then (size, []) else pad c 0 size
  let (_, trail) := pad (ch ' ') 0 size
  lead ++ head ++ fill ++ tail ++ trail

/-- `number` in terms of the specified text and the room around it. -/
theorem number_eq (num : Word) {base : Int} (size : Int) {precision : Int} (type : Word)
    (hbase : 2 ≤ base ∧ base ≤ 36) (hprecision : precision < 2 ^ 31) :
    number num.toInt base size precision type =
      some (padText (int32 (padRoom num base size precision type)) (numberHead num base type)
        (numberTail num base precision type) type) := by
  obtain ⟨hvalue, hzero⟩ := numberSign_magnitude num type
  have hdigits : numberDigits (has type small) (numberSign num.toInt type).2 base.toNat =
      digitText (has type small) base.toNat (magnitude num type) :=
    numberDigits_eq _ (by omega) hvalue hzero
  have hlength : (digitText (has type small) base.toNat (magnitude num type)).length ≤ 32 :=
    length_digitText _ (by omega) (magnitude_lt num type)
  have hroom : padRoom num base size precision type =
      size - (numberHead num base type).length -
        (if precision < (digitText (has type small) base.toNat (magnitude num type)).length then
          ((digitText (has type small) base.toNat (magnitude num type)).length : Int)
        else precision) := by
    rw [padRoom, numberTail, List.length_append, List.length_append, List.length_replicate]
    split
    · omega
    · omega
  have hzeros : (pad (ch '0') (digitText (has type small) base.toNat (magnitude num type)).length
      (if precision < (digitText (has type small) base.toNat (magnitude num type)).length then
        ((digitText (has type small) base.toNat (magnitude num type)).length : Int)
      else precision)).2 = List.replicate
        (precision - (digitText (has type small) base.toNat (magnitude num type)).length).toNat
        (ch '0') := by
    rw [pad_eq _ _ _ (by omega) (by split <;> omega)]
    show List.replicate _ _ = List.replicate _ _
    congr 1
    split
    · omega
    · rfl
  have hleft : ~~~zeropad &&& left = left := by decide
  rw [number, if_neg (by omega)]
  dsimp only
  simp only [numberSign_masked, numberSize_masked, numberPrefix_masked, has_zeropad_left,
    has_masked_zeropad, has_masked type hleft, hdigits, numberSize_sub, ← hroom, numberPrefix_eq,
    numberSign_text, hzeros]
  rw [padText]
  simp only [numberHead, numberTail, List.append_assoc]

/-- What a padding loop leaves in the counter. -/
def roomAfter (room : Int) : Int := int32 (min 0 room - 1)

theorem int32_lt (n : Int) : int32 n < 2 ^ 31 := by
  have h := Int.bmod_lt (x := n) (m := 2 ^ 32) (by decide)
  rw [int32]
  omega

theorem roomAfter_toNat {room : Int} (hlo : -2 ^ 31 < room) :
    roomAfter room = min 0 room - 1 ∧ (roomAfter room).toNat = 0 := by
  have h : roomAfter room = min 0 room - 1 := int32_eq (by omega) (by omega)
  omega

/-- A test of the least `int` leaves the greatest one. -/
theorem roomAfter_least : roomAfter (-2 ^ 31) = 2 ^ 31 - 1 := by
  decide

theorem padText_eq {room : Int} (hroom : room < 2 ^ 31) (head tail : List Byte) (type : Word) :
    padText room head tail type =
      if has type left then head ++ tail ++ List.replicate room.toNat (ch ' ')
      else if has type zeropad then
        head ++ List.replicate room.toNat (ch '0') ++ tail ++
          List.replicate (roomAfter room).toNat (ch ' ')
      else
        List.replicate room.toNat (ch ' ') ++ head ++
          List.replicate (roomAfter room).toNat (ch ' ') ++ tail ++
            List.replicate (roomAfter (roomAfter room)).toNat (ch ' ') := by
  have hpad : ∀ (c : Byte) {room : Int}, room < 2 ^ 31 →
      pad c 0 room = (roomAfter room, List.replicate room.toNat c) := by
    intro c room h
    rw [pad_eq c 0 room (by decide) h, Int.sub_zero]
    rfl
  have hafter : ∀ room : Int, roomAfter room < 2 ^ 31 := fun _ => int32_lt _
  rw [padText]
  cases has type left with
  | true => simp [hpad _ hroom]
  | false =>
      cases has type zeropad with
      | true => simp [hpad _ hroom, hpad _ (hafter _)]
      | false => simp [hpad _ hroom, hpad _ (hafter _)]

theorem padTests_range (type : Word) : 0 ≤ padTests type ∧ padTests type ≤ 2 := by
  rw [padTests]
  split
  · decide
  · split <;> decide

/-- Room enough in an `int`: the loops lay the text out as specified. -/
theorem padText_justify {size room : Int} {head tail : List Byte} {type : Word}
    (hroom : room = size - (head ++ tail).length) (hlo : padTests type - 2 ^ 31 ≤ room)
    (hhi : room < 2 ^ 31) : padText (int32 room) head tail type = justify head tail size type := by
  have htests := (padTests_range type).1
  rw [int32_eq (by omega) hhi, padText_eq hhi, justify, ← hroom]
  rw [padTests] at hlo
  have hnone : size ≤ (head ++ tail).length → room.toNat = 0 := by omega
  by_cases hl : has type left
  · rw [if_pos hl, if_pos hl]
    split
    case isTrue h => rw [hnone h, List.replicate_zero, List.append_nil]
    case isFalse => rfl
  · rw [if_neg hl] at hlo
    rw [if_neg hl, if_neg hl]
    by_cases hz : has type zeropad
    · rw [if_pos hz] at hlo
      rw [if_pos hz, if_pos hz, (roomAfter_toNat (by omega)).2, List.replicate_zero,
        List.append_nil]
      split
      case isTrue h => rw [hnone h, List.replicate_zero, List.append_nil]
      case isFalse => rfl
    · rw [if_neg hz] at hlo
      obtain ⟨hafter, hzero⟩ := roomAfter_toNat (show -2 ^ 31 < room by omega)
      rw [if_neg hz, if_neg hz, hzero, (roomAfter_toNat (by omega)).2, List.replicate_zero,
        List.append_nil, List.append_nil, List.append_assoc]
      split
      case isTrue h => rw [hnone h, List.replicate_zero, List.nil_append]
      case isFalse => rfl

/-- With less room a loop that has already failed runs again. -/
theorem length_padText_overflow {room : Int} {type : Word} (head tail : List Byte)
    (hlo : -2 ^ 31 - 2 ^ 30 ≤ room) (h : room < padTests type - 2 ^ 31) :
    (head ++ tail).length + 2 ^ 30 ≤ (padText (int32 room) head tail type).length := by
  have hleast : int32 (-2 ^ 31) = -2 ^ 31 := by decide
  have hsecond : int32 (-2 ^ 31 + 1) = -2 ^ 31 + 1 := by decide
  have hafter : roomAfter (-2 ^ 31 + 1) = -2 ^ 31 := by decide
  have hleft : room < -2 ^ 31 ∨ room = -2 ^ 31 ∧ ¬ has type left ∨
      room = -2 ^ 31 + 1 ∧ ¬ has type left ∧ ¬ has type zeropad := by
    rw [padTests] at h
    split at h
    case isTrue => exact Or.inl (by omega)
    case isFalse hl =>
      split at h
      case isTrue =>
        rcases Int.lt_or_le room (-2 ^ 31) with hlt | hge
        · exact Or.inl hlt
        · exact Or.inr (Or.inl ⟨by omega, hl⟩)
      case isFalse hz =>
        have : room < -2 ^ 31 ∨ room = -2 ^ 31 ∨ room = -2 ^ 31 + 1 := by omega
        rcases this with h | h | h
        · exact Or.inl h
        · exact Or.inr (Or.inl ⟨h, hl⟩)
        · exact Or.inr (Or.inr ⟨h, hl, hz⟩)
  rw [padText_eq (int32_lt room), List.length_append]
  rcases hleft with hbelow | ⟨rfl, hl⟩ | ⟨rfl, hl, hz⟩
  · have hwrapped : int32 room = room + 2 ^ 32 := by
      rw [int32, Int.bmod_def]
      omega
    rw [hwrapped]
    split
    · simp only [List.length_append, List.length_replicate]
      omega
    · split
      · simp only [List.length_append, List.length_replicate]
        omega
      · simp only [List.length_append, List.length_replicate]
        omega
  · rw [hleast, if_neg hl, roomAfter_least]
    split
    · simp only [List.length_append, List.length_replicate]
      omega
    · simp only [List.length_append, List.length_replicate]
      omega
  · rw [hsecond, if_neg hl, if_neg hz, hafter, roomAfter_least]
    simp only [List.length_append, List.length_replicate]
    omega

/-! ## The law -/

theorem length_numberBody (num : Word) {base precision : Int} (type : Word) (hbase : 2 ≤ base)
    (hprecision : precision < 2 ^ 30) :
    (numberHead num base type ++ numberTail num base precision type).length < 3 + 2 ^ 30 := by
  have hsign := length_signText_le num type
  have hspecial := length_specialText_le base type
  have hdigits : (digitText (has type small) base.toNat (magnitude num type)).length ≤ 32 :=
    length_digitText _ (by omega) (magnitude_lt num type)
  rw [List.length_append, numberHead, numberTail, List.length_append, List.length_append,
    List.length_replicate]
  omega

/-- The width is reached by padding alone. -/
theorem length_justify (head tail : List Byte) (size : Int) (type : Word) :
    (justify head tail size type).length = max (head ++ tail).length size.toNat := by
  rw [justify]
  split
  · omega
  · split
    · rw [List.length_append, List.length_replicate]
      omega
    · split
      · simp only [List.length_append, List.length_replicate] at *
        omega
      · rw [List.length_append, List.length_replicate]
        omega

/-- `number` stores the specified text exactly when the room left stays in the
range of an `int` through the loops that test it. -/
theorem number_layout_iff (num : Word) {base size precision : Int} (type : Word)
    (hbase : 2 ≤ base ∧ base ≤ 36) (hsize : -2 ^ 30 < size ∧ size < 2 ^ 30)
    (hprecision : -2 ^ 30 < precision ∧ precision < 2 ^ 30) :
    number num.toInt base size precision type = some (numberLayout num base size precision type) ↔
      padTests type - 2 ^ 31 ≤ padRoom num base size precision type := by
  have hlength := length_numberBody num type hbase.1 hprecision.2
  have hroom : padRoom num base size precision type =
      size - (numberHead num base type ++ numberTail num base precision type).length := rfl
  rw [number_eq num size type hbase (by omega), Option.some_inj]
  refine ⟨fun h => ?_, fun h => padText_justify hroom h (by omega)⟩
  apply Int.not_lt.mp
  intro hlt
  have hlonger := length_padText_overflow (numberHead num base type)
    (numberTail num base precision type) (by omega) hlt
  rw [h, numberLayout, length_justify] at hlonger
  omega

/-- `number` as a store: what it writes at `str`, and the pointer it returns. -/
def numberStr (str : Word) (num base size precision : Int) (type : Word) (m : Memory) :
    Memory × Word :=
  match number num base size precision type with
  | none => (m, 0)
  | some text => Memory.storeBytes text str m

/-- The specified text is stored from `str` on and nothing else, the pointer
just past it is returned, and the digits fit their 36 slots. -/
theorem number_lays_out (num : Word) (base size precision : Int) (type : Word)
    (hbase : 2 ≤ base ∧ base ≤ 36) (hsize : -2 ^ 30 < size ∧ size < 2 ^ 30)
    (hprecision : -2 ^ 30 < precision ∧ precision < 2 ^ 30)
    (hroom : padTests type - 2 ^ 31 ≤ padRoom num base size precision type)
    (str : Word) (m : Memory) :
    let text := numberLayout num base size precision type
    ∃ m', numberStr str num.toInt base size precision type m =
        (m', str + Word.of text.length) ∧
      bytesFrom m'.bytes str text.length = text ∧
      (∀ a, text.length ≤ (a - str).toNat → m'.bytes a = m.bytes a) ∧
      (numberDigits (has type small) (numberSign num.toInt type).2 base.toNat).length ≤ 36 := by
  obtain ⟨hvalue, hzero⟩ := numberSign_magnitude num type
  have hdigits : (digitText (has type small) base.toNat (magnitude num type)).length ≤ 32 :=
    length_digitText _ (by omega) (magnitude_lt num type)
  have htext := (number_layout_iff num type hbase hsize hprecision).mpr hroom
  have hlength : (numberLayout num base size precision type).length ≤ 2 ^ 32 := by
    have hbody := length_numberBody num type hbase.1 hprecision.2
    rw [numberLayout, length_justify]
    omega
  have hstr : numberStr str num.toInt base size precision type m =
      ((Memory.storeBytes (numberLayout num base size precision type) str m).1,
        str + Word.of (numberLayout num base size precision type).length) := by
    rw [numberStr, htext, ← Memory.storeBytes_str _ str m]
  refine ⟨_, hstr, Memory.bytesFrom_storeBytes str m hlength,
    fun a h => Memory.storeBytes_frame m h, ?_⟩
  rw [numberDigits_eq _ (by omega) hvalue hzero]
  omega

/-- `0x0000ff` in eight columns. -/
theorem number_lays_out_hex :
    numberLayout 0xff 16 8 (-1) (zeropad + special + small) =
        [ch '0', ch 'x', ch '0', ch '0', ch '0', ch '0', ch 'f', ch 'f'] ∧
      ∃ m', numberStr 0x1000 255 16 8 (-1) (zeropad + special + small) ⟨fun _ => 0, []⟩ =
          (m', 0x1000 + Word.of 8) ∧
        bytesFrom m'.bytes 0x1000 8 =
          [ch '0', ch 'x', ch '0', ch '0', ch '0', ch '0', ch 'f', ch 'f'] := by
  have hdigits : Nat.digits 16 255 = [15, 15] := by simp
  have htail : numberTail 0xff 16 (-1) (zeropad + special + small) = [ch 'f', ch 'f'] := by
    have htext : digitText true 16 255 = [ch 'f', ch 'f'] := by
      rw [digitText, if_neg (by decide), hdigits]
      decide
    rw [numberTail]
    exact congrArg (fun text => List.replicate ((-1 : Int) - text.length).toNat (ch '0') ++ text)
      htext
  have htext : numberLayout 0xff 16 8 (-1) (zeropad + special + small) =
      [ch '0', ch 'x', ch '0', ch '0', ch '0', ch '0', ch 'f', ch 'f'] := by
    rw [numberLayout, htail]
    decide
  have hroom : padTests (zeropad + special + small) - 2 ^ 31 ≤
      padRoom 0xff 16 8 (-1) (zeropad + special + small) := by
    rw [padRoom, htail]
    decide
  have h := number_lays_out 0xff 16 8 (-1) (zeropad + special + small) (by decide) (by decide)
    (by decide) hroom 0x1000 ⟨fun _ => 0, []⟩
  rw [htext] at h
  obtain ⟨m', hstr, hbytes, -, -⟩ := h
  exact ⟨htext, m', hstr, hbytes⟩

/-- A precision and a negative width at the ends of their ranges: the room for
padding is one below the least `int`, and comes out as the greatest. -/
theorem number_room_overflow :
    (-2 ^ 30 < -(2 ^ 30 - 1 : Int) ∧ (2 ^ 30 - 1 : Int) < 2 ^ 30) ∧
      number (5 : Word).toInt 16 (-(2 ^ 30 - 1)) (2 ^ 30 - 1) (plus + special) ≠
        some (numberLayout 5 16 (-(2 ^ 30 - 1)) (2 ^ 30 - 1) (plus + special)) := by
  refine ⟨by decide, fun h => ?_⟩
  have hroom := (number_layout_iff 5 (plus + special) (by decide) (by decide) (by decide)).mp h
  have htests : padTests (plus + special) = 2 := by decide
  have hhead : (numberHead 5 16 (plus + special)).length = 3 := by decide
  rw [htests, padRoom, List.length_append, hhead, numberTail, List.length_append,
    List.length_replicate] at hroom
  omega

end MySystem
