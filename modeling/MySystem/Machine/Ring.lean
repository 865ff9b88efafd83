import Mathlib.Data.Fin.Basic
import Mathlib.Logic.Function.Basic

/-!
# Rings of slots

A ring holds a FIFO queue in a fixed array: entries go in at `head`, come out at
`tail`, and both positions wrap. A ring of `n` slots holds at most `n - 1`
entries, because an `n`-th one would make the two positions equal, which reads
as empty (`contents_push_full`).
-/

namespace Machine

structure Ring (α : Type) (n : Nat) where
  head : Fin n
  tail : Fin n
  slots : Fin n → α

namespace Ring

variable {α : Type} {n : Nat}

/-- The position after `i`. -/
def next (i : Fin n) : Fin n :=
  if h : i.val + 1 < n then ⟨i.val + 1, h⟩ else ⟨0, i.pos⟩

/-- The position before `i`. -/
def prev (i : Fin n) : Fin n :=
  if h : 0 < i.val then ⟨i.val - 1, by omega⟩ else ⟨n - 1, Nat.sub_lt i.pos Nat.one_pos⟩

/-- Steps from position `i` forward to position `j`. -/
def distance (i j : Fin n) : Nat :=
  if i.val ≤ j.val then j.val - i.val else j.val + n - i.val

/-- The entries of `k` slots from position `i` on. -/
def entries (slots : Fin n → α) : Nat → Fin n → List α
  | 0, _ => []
  | k + 1, i => slots i :: entries slots k (next i)

def count (r : Ring α n) : Nat := distance r.tail r.head

/-- The queued entries, oldest first. -/
def contents (r : Ring α n) : List α := entries r.slots r.count r.tail

def push (a : α) (r : Ring α n) : Ring α n :=
  { r with slots := Function.update r.slots r.head a, head := next r.head }

def pop (r : Ring α n) : α × Ring α n :=
  (r.slots r.tail, { r with tail := next r.tail })

/-- The entry that came in last. -/
def newest (r : Ring α n) : α := r.slots (prev r.head)

/-- The entry that came in last is taken back. -/
def unpush (r : Ring α n) : Ring α n := { r with head := prev r.head }

theorem next_val (i : Fin n) : (next i).val = if i.val + 1 < n then i.val + 1 else 0 := by
  rw [next]
  split <;> rfl

theorem prev_val (i : Fin n) : (prev i).val = if 0 < i.val then i.val - 1 else n - 1 := by
  rw [prev]
  split <;> rfl

theorem distance_lt (i j : Fin n) : distance i j < n := by
  have := i.isLt
  have := j.isLt
  rw [distance]
  split <;> omega

theorem distance_eq_zero {i j : Fin n} : distance i j = 0 ↔ i = j := by
  have := i.isLt
  have := j.isLt
  rw [distance, Fin.ext_iff]
  split <;> omega

/-- Moving the first position forward shortens the way to the second. -/
theorem distance_next_left {i j : Fin n} (h : i ≠ j) :
    distance (next i) j + 1 = distance i j := by
  have := j.isLt
  have hne : i.val ≠ j.val := fun he => h (Fin.ext he)
  rw [distance, distance, next_val]
  split <;> split <;> split <;> omega

/-- Moving the second position forward lengthens the way, unless it closes the ring. -/
theorem distance_next_right (i j : Fin n) :
    distance i (next j) = if distance i j + 1 = n then 0 else distance i j + 1 := by
  have := i.isLt
  have := j.isLt
  rw [distance, distance, next_val]
  split <;> split <;> split <;> split <;> omega

/-- Moving the second position back shortens the way. -/
theorem distance_prev_right {i j : Fin n} (h : i ≠ j) :
    distance i (prev j) + 1 = distance i j := by
  have := i.isLt
  have := j.isLt
  have hne : i.val ≠ j.val := fun he => h (Fin.ext he)
  rw [distance, distance, prev_val]
  split <;> split <;> split <;> omega

@[simp] theorem length_entries (slots : Fin n → α) (k : Nat) (i : Fin n) :
    (entries slots k i).length = k := by
  induction k generalizing i with
  | zero => rfl
  | succ k ih => rw [entries, List.length_cons, ih]

@[simp] theorem length_contents (r : Ring α n) : r.contents.length = r.count :=
  length_entries ..

theorem count_lt (r : Ring α n) : r.count < n := distance_lt ..

/-- Writing the slot after the last entry appends to the entries. -/
private theorem entries_update {slots : Fin n → α} {i j : Fin n} {k : Nat} (a : α)
    (h : distance i j = k) :
    entries (Function.update slots j a) (k + 1) i = entries slots k i ++ [a] := by
  induction k generalizing i with
  | zero =>
      obtain rfl := distance_eq_zero.mp h
      simp [entries]
  | succ k ih =>
      have hne : i ≠ j := by
        rintro rfl
        rw [distance_eq_zero.mpr rfl] at h
        cases h
      have hrest : distance (next i) j = k := by
        have := distance_next_left hne
        omega
      rw [entries, ih hrest, Function.update_of_ne hne, entries, List.cons_append]

/-- The last of some entries. -/
private theorem entries_concat (slots : Fin n → α) {i j : Fin n} {k : Nat}
    (h : distance i j = k) : entries slots (k + 1) i = entries slots k i ++ [slots j] := by
  induction k generalizing i with
  | zero =>
      obtain rfl := distance_eq_zero.mp h
      rfl
  | succ k ih =>
      have hne : i ≠ j := by
        rintro rfl
        rw [distance_eq_zero.mpr rfl] at h
        cases h
      have hrest : distance (next i) j = k := by
        have := distance_next_left hne
        omega
      rw [entries, ih hrest, entries, List.cons_append]

theorem count_push (r : Ring α n) (a : α) :
    (r.push a).count = if r.count + 1 = n then 0 else r.count + 1 :=
  distance_next_right ..

theorem contents_push {r : Ring α n} (a : α) (h : r.count + 1 < n) :
    (r.push a).contents = r.contents ++ [a] := by
  have hcount : (r.push a).count = r.count + 1 := by
    rw [count_push, if_neg (by omega)]
  rw [contents, hcount]
  exact entries_update a rfl

/-- A push onto the last free slot makes the ring look empty. -/
theorem contents_push_full {r : Ring α n} (a : α) (h : r.count + 1 = n) :
    (r.push a).contents = [] := by
  rw [← List.length_eq_zero_iff, length_contents, count_push, if_pos h]

theorem count_pop {r : Ring α n} (h : 0 < r.count) : r.pop.2.count + 1 = r.count := by
  refine distance_next_left fun (he : r.tail = r.head) => ?_
  rw [count, distance_eq_zero.mpr he] at h
  exact absurd h (Nat.lt_irrefl 0)

theorem contents_pop {r : Ring α n} (h : 0 < r.count) :
    r.contents = r.pop.1 :: r.pop.2.contents := by
  rw [contents, ← count_pop h]
  rfl

theorem count_unpush {r : Ring α n} (h : 0 < r.count) : r.unpush.count + 1 = r.count := by
  refine distance_prev_right fun (he : r.tail = r.head) => ?_
  rw [count, distance_eq_zero.mpr he] at h
  exact absurd h (Nat.lt_irrefl 0)

theorem contents_unpush {r : Ring α n} (h : 0 < r.count) :
    r.contents = r.unpush.contents ++ [r.newest] := by
  rw [contents, ← count_unpush h]
  exact entries_concat r.slots rfl

end Ring

end Machine
