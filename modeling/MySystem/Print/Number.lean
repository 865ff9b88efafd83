import MySystem.Machine.Memory
import Mathlib.Tactic.SplitIfs

/-!
# Printing a number

`number` of `kernel/vsprintf.c`. Each loop and branch that stores through `str`
is modelled by the list of bytes it stores, in order. An `int` is an integer
kept in range by `int32` wherever an operation could leave it.
-/

namespace MySystem

open Machine

/-! ## Flags -/

def zeropad : Word := 1
def signed : Word := 2
def plus : Word := 4
def space : Word := 8
def left : Word := 16
def special : Word := 32
def small : Word := 64

/-- The test `type&flag`. -/
def has (type flag : Word) : Bool := type &&& flag != 0

theorem has_or (type type' flag : Word) :
    has (type ||| type') flag = (has type flag || has type' flag) := by
  rw [has, has, has, BitVec.and_comm, BitVec.and_or_distrib_left, BitVec.and_comm flag,
    BitVec.and_comm flag, Bool.eq_iff_iff]
  simp only [bne_iff_ne, ne_eq, Bool.or_eq_true]
  rw [show (type &&& flag ||| type' &&& flag = 0) ↔ _ from BitVec.or_eq_zero_iff, not_and_or]
  rfl

/-! ## Padding loops -/

/-- `while (len < width--) *str++ = c;` with `turns` turns to go: the final
`width` and the bytes stored. The failing test still decrements. -/
def padLoop (c : Byte) (len : Int) : Nat → Int → Int × List Byte
  | 0, width => (int32 (width - 1), [])
  | turns + 1, width =>
      if len < width then
        let (width, text) := padLoop c len turns (int32 (width - 1))
        (width, c :: text)
      else (int32 (width - 1), [])

/-- The same loop with the turns it takes. -/
def pad (c : Byte) (len width : Int) : Int × List Byte :=
  padLoop c len (width - len).toNat width

/-! ## Digits -/

/-- `digits[d]`, in the upper or the lower case table. -/
def digits (lower : Bool) (d : Nat) : Byte :=
  if d < 10 then BitVec.ofNat 8 (48 + d)
  else if lower then BitVec.ofNat 8 (87 + d)
  else BitVec.ofNat 8 (55 + d)

/-- `while (num!=0) tmp[i++]=digits[do_div(num,base)];` where `do_div` divides
without sign. The last digit stored in `tmp` is the head of the list. -/
def digitLoop (lower : Bool) (base : Nat) : Nat → Nat → List Byte → List Byte
  | 0, _, tmp => tmp
  | turns + 1, num, tmp =>
      if num = 0 then tmp
      else digitLoop lower base turns (num / base) (digits lower (num % base) :: tmp)

/-- The digits of `num` in `tmp`; 32 turns are enough for every base. -/
def numberDigits (lower : Bool) (num : Int) (base : Nat) : List Byte :=
  if num = 0 then [ch '0'] else digitLoop lower base 32 (num % 2 ^ 32).toNat []

/-! ## The function -/

/-- The sign character, zero for none, and the number without it. -/
def numberSign (num : Int) (type : Word) : Byte × Int :=
  if has type signed ∧ num < 0 then (ch '-', int32 (-num))
  else (if has type plus then ch '+' else if has type space then ch ' ' else 0, num)

/-- The part of `size` left for digits and padding. -/
def numberSize (sign : Byte) (base size : Int) (type : Word) : Int :=
  let size := if sign ≠ 0 then int32 (size - 1) else size
  if has type special then
    if base = 16 then int32 (size - 2) else if base = 8 then int32 (size - 1) else size
  else size

/-- The prefix of a special form. -/
def numberPrefix (lower : Bool) (base : Int) (type : Word) : List Byte :=
  if has type special then
    if base = 8 then [ch '0']
    else if base = 16 then [ch '0', digits lower 33]
    else []
  else []

/-- `number`: the bytes it stores at `str`, or nothing for a base out of range,
where it returns the null pointer. -/
def number (num base size precision : Int) (type : Word) : Option (List Byte) :=
  let lower := has type small
  let type := if has type left then type &&& ~~~zeropad else type
  if base < 2 ∨ 36 < base then none
  else
    let c := if has type zeropad then ch '0' else ch ' '
    let (sign, num) := numberSign num type
    let size := numberSize sign base size type
    let tmp := numberDigits lower num base.toNat
    let i : Int := tmp.length
    let precision := if precision < i then i else precision
    let size := int32 (size - precision)
    let (size, lead) := if has type (zeropad + left) then (size, []) else pad (ch ' ') 0 size
    let signText := if sign ≠ 0 then [sign] else []
    let (size, fill) := if has type left then (size, []) else pad c 0 size
    let (_, zeros) := pad (ch '0') i precision
    let (_, trail) := pad (ch ' ') 0 size
    some (lead ++ signText ++ numberPrefix lower base type ++ fill ++ zeros ++ tmp ++ trail)

/-! ## Padding in closed form -/

theorem pad_eq (c : Byte) (len width : Int) (hlo : -2 ^ 31 ≤ len) (hhi : width < 2 ^ 31) :
    pad c len width = (int32 (min len width - 1), List.replicate (width - len).toNat c) := by
  rw [pad]
  generalize h : (width - len).toNat = turns
  induction turns generalizing width with
  | zero =>
      rw [padLoop, Int.min_eq_right (by omega)]
      rfl
  | succ turns ih =>
      have hwidth : int32 (width - 1) = width - 1 := int32_eq (by omega) (by omega)
      rw [padLoop, if_pos (by omega), hwidth, ih _ (by omega) (by omega),
        Int.min_eq_left (by omega), Int.min_eq_left (by omega)]
      rfl

/-- A padding loop stores its fill byte only. -/
theorem mem_pad {c b : Byte} {len width : Int} (h : b ∈ (pad c len width).2) : b = c := by
  rw [pad] at h
  generalize (width - len).toNat = turns at h
  induction turns generalizing width with
  | zero => cases h
  | succ turns ih =>
      rw [padLoop] at h
      split at h
      · obtain rfl | hrest := List.mem_cons.mp h
        · rfl
        · exact ih hrest
      · cases h

/-- So does one that is skipped in some cases. -/
theorem mem_skipPad {skip : Prop} [Decidable skip] {c b : Byte} {size len width : Int}
    (h : b ∈ (if skip then (size, []) else pad c len width).2) : b = c := by
  split at h
  · cases h
  · exact mem_pad h

/-! ## The characters of a number -/

theorem mem_digitLoop {lower : Bool} {base : Nat} (hbase : 0 < base) {turns num : Nat}
    {tmp : List Byte} {b : Byte} (h : b ∈ digitLoop lower base turns num tmp) :
    b ∈ tmp ∨ ∃ d, d < base ∧ b = digits lower d := by
  induction turns generalizing num tmp with
  | zero => exact Or.inl h
  | succ turns ih =>
      rw [digitLoop] at h
      split at h
      · exact Or.inl h
      · obtain hcons | hdigit := ih h
        · obtain rfl | htmp := List.mem_cons.mp hcons
          · exact Or.inr ⟨num % base, Nat.mod_lt _ hbase, rfl⟩
          · exact Or.inl htmp
        · exact Or.inr hdigit

/-- A byte that `number` may store: a blank, a sign or one of its digits. -/
def Numeric (b : Byte) : Prop :=
  b = ch ' ' ∨ b = ch '-' ∨ b = ch '+' ∨ ∃ lower d, d < 36 ∧ b = digits lower d

theorem Numeric.zero : Numeric (ch '0') :=
  Or.inr (Or.inr (Or.inr ⟨false, 0, by decide, rfl⟩))

theorem numeric_numberDigits {lower : Bool} {num : Int} {base : Nat} (hlo : 0 < base)
    (hhi : base ≤ 36) {b : Byte} (h : b ∈ numberDigits lower num base) : Numeric b := by
  rw [numberDigits] at h
  split at h
  · rw [List.mem_singleton.mp h]
    exact .zero
  · obtain htmp | ⟨d, hd, rfl⟩ := mem_digitLoop hlo h
    · cases htmp
    · exact Or.inr (Or.inr (Or.inr ⟨lower, d, Nat.lt_of_lt_of_le hd hhi, rfl⟩))

theorem numeric_numberSign {num : Int} {type : Word} (h : (numberSign num type).1 ≠ 0) :
    Numeric (numberSign num type).1 := by
  rw [numberSign] at h ⊢
  split
  · exact Or.inr (Or.inl rfl)
  · rename_i hneg
    rw [if_neg hneg] at h
    dsimp only at h ⊢
    split
    · exact Or.inr (Or.inr (Or.inl rfl))
    · split
      · exact Or.inl rfl
      · rename_i hplus hspace
        rw [if_neg hplus, if_neg hspace] at h
        exact absurd rfl h

theorem numeric_numberPrefix {lower : Bool} {base : Int} {type : Word} {b : Byte}
    (h : b ∈ numberPrefix lower base type) : Numeric b := by
  rw [numberPrefix] at h
  split_ifs at h
  · rw [List.mem_singleton.mp h]
    exact .zero
  · obtain rfl | h := List.mem_cons.mp h
    · exact .zero
    · rw [List.mem_singleton.mp h]
      exact Or.inr (Or.inr (Or.inr ⟨lower, 33, by decide, rfl⟩))
  · cases h
  · cases h

theorem numeric_number {num base size precision : Int} {type : Word} {text : List Byte}
    (h : number num base size precision type = some text) {b : Byte} (hb : b ∈ text) :
    Numeric b := by
  rw [number] at h
  dsimp only at h
  generalize (if has type left = true then type &&& ~~~zeropad else type) = masked at h
  split at h
  · cases h
  · rename_i hbase
    cases Option.some.inj h
    simp only [List.mem_append] at hb
    obtain (((((hlead | hsign) | hprefix) | hfill) | hzeros) | hdigits) | htrail := hb
    · rw [mem_skipPad hlead]
      exact Or.inl rfl
    · split at hsign
      · rename_i hsome
        rw [List.mem_singleton.mp hsign]
        exact numeric_numberSign hsome
      · cases hsign
    · exact numeric_numberPrefix hprefix
    · rw [mem_skipPad hfill]
      split
      · exact .zero
      · exact Or.inl rfl
    · rw [mem_pad hzeros]
      exact .zero
    · exact numeric_numberDigits (by omega) (by omega) hdigits
    · rw [mem_pad htrail]
      exact Or.inl rfl

end MySystem
