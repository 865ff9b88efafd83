import MySystem.Machine.Ring
import MySystem.Machine.Word

/-!
# Terminal queues

`struct tty_queue` of `linux/tty.h` with the macros that work on it. The masks
of the macros keep both indices below `TTY_BUF_SIZE`, which the record carries
as fields. A queue is a ring of bytes (`TtyQueue.ring`), and each macro is the
ring's operation. `data` and `proc_list` are left out: no function touches them.
-/

namespace MySystem

open Machine

/-- `TTY_BUF_SIZE`. -/
def ttyBufSize : Nat := 1024

/-- The mask `TTY_BUF_SIZE-1` of the queue macros. -/
def ttyBufMask : Word := Word.of (ttyBufSize - 1)

structure TtyQueue where
  head : Word
  tail : Word
  buf : Fin ttyBufSize → Byte
  head_lt : head.toNat < ttyBufSize
  tail_lt : tail.toNat < ttyBufSize

namespace TtyQueue

/-- `INC(a)`. -/
def inc (a : Word) : Word := (a + 1) &&& ttyBufMask

theorem toNat_mask (a : Word) : (a &&& ttyBufMask).toNat = a.toNat % ttyBufSize := by
  rw [BitVec.toNat_and]
  exact Nat.and_two_pow_sub_one_eq_mod _ 10

theorem inc_lt (a : Word) : (inc a).toNat < ttyBufSize := by
  rw [inc, toNat_mask]
  exact Nat.mod_lt _ (by decide)

/-- `DEC(a)`. -/
def dec (a : Word) : Word := (a - 1) &&& ttyBufMask

theorem dec_lt (a : Word) : (dec a).toNat < ttyBufSize := by
  rw [dec, toNat_mask]
  exact Nat.mod_lt _ (by decide)

/-- `EMPTY(a)`. -/
def empty (q : TtyQueue) : Bool := q.head == q.tail

/-- `LAST(a)`, whose index is masked as in `DEC`. -/
def last (q : TtyQueue) : Byte := q.buf ⟨(ttyBufMask &&& (q.head - 1)).toNat, by
  rw [BitVec.and_comm]
  exact dec_lt q.head⟩

/-- `LEFT(a)`: the free slots. -/
def left (q : TtyQueue) : Word := (q.tail - q.head - 1) &&& ttyBufMask

/-- `FULL(a)`. -/
def full (q : TtyQueue) : Bool := q.left == 0

/-- `CHARS(a)`: the queued bytes. -/
def chars (q : TtyQueue) : Word := (q.head - q.tail) &&& ttyBufMask

/-- `GETCH(queue,c)`. -/
def getch (q : TtyQueue) : Byte × TtyQueue :=
  (q.buf ⟨q.tail.toNat, q.tail_lt⟩, { q with tail := inc q.tail, tail_lt := inc_lt _ })

/-- `PUTCH(c,queue)`. -/
def putch (c : Byte) (q : TtyQueue) : TtyQueue :=
  { q with
    buf := Function.update q.buf ⟨q.head.toNat, q.head_lt⟩ c
    head := inc q.head
    head_lt := inc_lt _ }

/-- `DEC(q->head)`. -/
def decHead (q : TtyQueue) : TtyQueue := { q with head := dec q.head, head_lt := dec_lt _ }

/-- The queue `tty_init` stores: `{0,0,0,0,""}`. -/
def initial : TtyQueue where
  head := 0
  tail := 0
  buf _ := 0
  head_lt := by decide
  tail_lt := by decide

/-! ## A queue is a ring -/

def ring (q : TtyQueue) : Ring Byte ttyBufSize where
  head := ⟨q.head.toNat, q.head_lt⟩
  tail := ⟨q.tail.toNat, q.tail_lt⟩
  slots := q.buf

/-- The queued bytes, oldest first. -/
def contents (q : TtyQueue) : List Byte := q.ring.contents

/-- The bytes a queue can hold: one slot stays free. -/
def capacity : Nat := ttyBufSize - 1

theorem toNat_inc {a : Word} (h : a.toNat < ttyBufSize) :
    (inc a).toNat = (Ring.next (⟨a.toNat, h⟩ : Fin ttyBufSize)).val := by
  have hone : (a + 1).toNat = a.toNat + 1 := by
    rw [ttyBufSize] at h
    bv_omega
  have hnext := Ring.next_val (⟨a.toNat, h⟩ : Fin ttyBufSize)
  rw [inc, toNat_mask, hone, hnext]
  split
  case isTrue hlt => exact Nat.mod_eq_of_lt hlt
  case isFalse hge =>
    have : a.toNat + 1 = ttyBufSize := Nat.le_antisymm h (Nat.le_of_not_lt hge)
    rw [this, Nat.mod_self]

theorem ring_putch (c : Byte) (q : TtyQueue) : (q.putch c).ring = q.ring.push c := by
  simp only [ring, putch, Ring.push, toNat_inc q.head_lt]

theorem ring_getch (q : TtyQueue) : q.getch.2.ring = q.ring.pop.2 := by
  simp only [ring, getch, Ring.pop, toNat_inc q.tail_lt]

private theorem length_contents_eq (q : TtyQueue) :
    q.contents.length = if q.tail.toNat ≤ q.head.toNat then q.head.toNat - q.tail.toNat
      else q.head.toNat + 1024 - q.tail.toNat :=
  Ring.length_contents _

theorem toNat_chars (q : TtyQueue) : q.chars.toNat = q.contents.length := by
  have hh : q.head.toNat < 1024 := q.head_lt
  have ht : q.tail.toNat < 1024 := q.tail_lt
  rw [chars, toNat_mask, length_contents_eq, ttyBufSize]
  split <;> bv_omega

theorem full_iff (q : TtyQueue) : q.full = true ↔ q.contents.length = capacity := by
  have hh : q.head.toNat < 1024 := q.head_lt
  have ht : q.tail.toNat < 1024 := q.tail_lt
  have hleft : q.left = 0 ↔ q.left.toNat = 0 :=
    ⟨fun h => by rw [h]; rfl, fun h => BitVec.eq_of_toNat_eq h⟩
  rw [full, beq_iff_eq, hleft, left, toNat_mask, length_contents_eq, capacity, ttyBufSize]
  split <;> bv_omega

theorem length_contents_le (q : TtyQueue) : q.contents.length ≤ capacity := by
  have := q.ring.count_lt
  rw [contents, Ring.length_contents, capacity]
  omega

theorem contents_putch {q : TtyQueue} (c : Byte) (h : q.contents.length < capacity) :
    (q.putch c).contents = q.contents ++ [c] := by
  rw [contents, Ring.length_contents] at h
  rw [contents, ring_putch, contents, Ring.contents_push c (by rw [capacity] at h; omega)]

/-- `PUTCH` onto a full queue makes it look empty. -/
theorem contents_putch_full {q : TtyQueue} (c : Byte) (h : q.contents.length = capacity) :
    (q.putch c).contents = [] := by
  rw [contents, Ring.length_contents, capacity] at h
  rw [contents, ring_putch, Ring.contents_push_full c (by rw [h]; rfl)]

theorem contents_getch {q : TtyQueue} (h : 0 < q.contents.length) :
    q.contents = q.getch.1 :: q.getch.2.contents := by
  rw [contents, Ring.length_contents] at h
  rw [contents, Ring.contents_pop h, contents, ring_getch]
  rfl

theorem toNat_dec {a : Word} (h : a.toNat < ttyBufSize) :
    (dec a).toNat = (Ring.prev (⟨a.toNat, h⟩ : Fin ttyBufSize)).val := by
  have hlt : a.toNat < 1024 := h
  have hprev := Ring.prev_val (⟨a.toNat, h⟩ : Fin ttyBufSize)
  rw [dec, toNat_mask, hprev]
  change _ % 1024 = if 0 < a.toNat then a.toNat - 1 else 1024 - 1
  split
  case isTrue hpos =>
    have hone : (a - 1).toNat = a.toNat - 1 := by bv_omega
    rw [hone]
    exact Nat.mod_eq_of_lt (by omega)
  case isFalse hzero => bv_omega

theorem ring_decHead (q : TtyQueue) : q.decHead.ring = q.ring.unpush := by
  simp only [ring, decHead, Ring.unpush, toNat_dec q.head_lt]

theorem last_eq (q : TtyQueue) : q.last = q.ring.newest := by
  have hindex : (ttyBufMask &&& (q.head - 1)).toNat = (dec q.head).toNat := by
    rw [BitVec.and_comm]
    rfl
  simp only [last, hindex, toNat_dec q.head_lt]
  rfl

theorem contents_decHead {q : TtyQueue} (h : 0 < q.contents.length) :
    q.contents = q.decHead.contents ++ [q.last] := by
  rw [contents, Ring.length_contents] at h
  rw [contents, Ring.contents_unpush h, contents, ring_decHead, last_eq]

theorem empty_iff (q : TtyQueue) : q.empty = true ↔ q.contents.length = 0 := by
  have hh : q.head.toNat < 1024 := q.head_lt
  have ht : q.tail.toNat < 1024 := q.tail_lt
  rw [empty, beq_iff_eq, ← BitVec.toNat_inj, length_contents_eq]
  split <;> omega

theorem length_pos {q : TtyQueue} (h : q.empty = false) : 0 < q.contents.length := by
  rw [Nat.pos_iff_ne_zero, Ne, ← empty_iff, h]
  exact Bool.false_ne_true

theorem empty_of_pos {q : TtyQueue} (h : 0 < q.contents.length) : q.empty = false := by
  rw [← Bool.not_eq_true, empty_iff]
  exact Nat.ne_of_gt h

/-- What is queued and what is free make up all slots but one. -/
theorem toNat_left (q : TtyQueue) : q.left.toNat = capacity - q.contents.length := by
  have hh : q.head.toNat < 1024 := q.head_lt
  have ht : q.tail.toNat < 1024 := q.tail_lt
  rw [left, toNat_mask, length_contents_eq, capacity, ttyBufSize]
  split <;> bv_omega

end TtyQueue

end MySystem
