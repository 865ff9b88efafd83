import MySystem.Tty.Queue

/-!
# A terminal queue is a bounded FIFO

The macros of `linux/tty.h` in any order, each used only where its test allows:
a queue of `tty_init` then behaves as a list of at most `TTY_BUF_SIZE-1` bytes,
which grows at its end and shrinks at either end.
-/

namespace MySystem

open Machine

/-- What is done to a queue. -/
inductive QueueEvent where
  | put (c : Byte)
  /-- A `GETCH` that gave `c`. -/
  | got (c : Byte)
  /-- `DEC(head)`. -/
  | dropped
  deriving DecidableEq

/-- One use of a macro, with the test before it. -/
inductive QueueStep : TtyQueue → QueueEvent → TtyQueue → Prop where
  | putch (q : TtyQueue) (c : Byte) (h : q.full = false) : QueueStep q (.put c) (q.putch c)
  | getch (q : TtyQueue) (h : q.empty = false) : QueueStep q (.got q.getch.1) q.getch.2
  | dec (q : TtyQueue) (h : q.empty = false) : QueueStep q .dropped q.decHead

inductive QueueRun : TtyQueue → List QueueEvent → TtyQueue → Prop where
  | nil (q : TtyQueue) : QueueRun q [] q
  | cons {q q' r : TtyQueue} {e : QueueEvent} {es : List QueueEvent} (h : QueueStep q e q')
      (hs : QueueRun q' es r) : QueueRun q (e :: es) r

/-! ## The list a queue stands for -/

/-- The bytes held, oldest first, before and after an event. -/
inductive Held : List Byte → QueueEvent → List Byte → Prop where
  | put (l : List Byte) (c : Byte) (h : l.length < TtyQueue.capacity) : Held l (.put c) (l ++ [c])
  | got (l : List Byte) (c : Byte) : Held (c :: l) (.got c) l
  | dropped (l : List Byte) (c : Byte) : Held (l ++ [c]) .dropped l

inductive HeldRun : List Byte → List QueueEvent → List Byte → Prop where
  | nil (l : List Byte) : HeldRun l [] l
  | cons {l l' l'' : List Byte} {e : QueueEvent} {es : List QueueEvent} (h : Held l e l')
      (hs : HeldRun l' es l'') : HeldRun l (e :: es) l''

/-- The bytes put, in order. -/
def puts : List QueueEvent → List Byte
  | [] => []
  | .put c :: es => c :: puts es
  | _ :: es => puts es

/-- The bytes got, in order. -/
def gots : List QueueEvent → List Byte
  | [] => []
  | .got c :: es => c :: gots es
  | _ :: es => gots es

def drops (es : List QueueEvent) : Nat := es.count .dropped

/-- What came out and what is held came in before, in the same order. -/
theorem HeldRun.sublist {l l' : List Byte} {es : List QueueEvent} (h : HeldRun l es l') :
    (gots es ++ l').Sublist (l ++ puts es) := by
  induction h with
  | nil l => simp [gots, puts]
  | cons h hs ih =>
      cases h with
      | put c hroom => simpa [gots, puts] using ih
      | got c => exact ih.cons_cons _
      | dropped c =>
          refine ih.trans ?_
          rw [List.append_assoc]
          exact List.Sublist.append_left (List.sublist_append_right ..) _

/-- Besides what was dropped nothing is lost. -/
theorem HeldRun.length {l l' : List Byte} {es : List QueueEvent} (h : HeldRun l es l') :
    (gots es).length + l'.length + drops es = l.length + (puts es).length := by
  induction h with
  | nil l => simp [gots, puts, drops]
  | cons h hs ih =>
      rw [drops] at ih ⊢
      cases h with
      | put c hroom =>
          rw [List.count_cons_of_ne (by simp)]
          simp only [gots, puts, List.length_cons, List.length_append, List.length_nil] at ih ⊢
          omega
      | got c =>
          rw [List.count_cons_of_ne (by simp)]
          simp only [gots, puts, List.length_cons] at ih ⊢
          omega
      | dropped c =>
          rw [List.count_cons_self]
          simp only [gots, puts, List.length_append, List.length_cons, List.length_nil] at ih ⊢
          omega

/-! ## Refinement -/

/-- A macro does to the list what its name says. -/
theorem QueueStep.held {q q' : TtyQueue} {e : QueueEvent} (h : QueueStep q e q') :
    Held q.contents e q'.contents := by
  cases h with
  | putch c hroom =>
      have hne : q.contents.length ≠ TtyQueue.capacity := by
        intro hfull
        rw [(TtyQueue.full_iff q).mpr hfull] at hroom
        cases hroom
      have hlt : q.contents.length < TtyQueue.capacity :=
        Nat.lt_of_le_of_ne q.length_contents_le hne
      rw [TtyQueue.contents_putch _ hlt]
      exact .put _ _ hlt
  | getch hsome =>
      rw [TtyQueue.contents_getch (TtyQueue.length_pos hsome)]
      exact .got _ _
  | dec hsome =>
      have hdrop := Held.dropped q.decHead.contents q.last
      rwa [← TtyQueue.contents_decHead (TtyQueue.length_pos hsome)] at hdrop

/-- Where the list can make a step, so can the queue. -/
theorem Held.step {q : TtyQueue} {l : List Byte} {e : QueueEvent} (h : Held q.contents e l) :
    ∃ q', QueueStep q e q' ∧ q'.contents = l := by
  generalize hq : q.contents = held at h
  cases h with
  | put _ c hroom =>
      refine ⟨q.putch c, .putch q c ?_, ?_⟩
      · rw [← Bool.not_eq_true, TtyQueue.full_iff, hq]
        exact Nat.ne_of_lt hroom
      · rw [TtyQueue.contents_putch c (by rw [hq]; exact hroom), hq]
  | got c =>
      have hpos : 0 < q.contents.length := by
        rw [hq]
        exact Nat.succ_pos _
      have hstep := QueueStep.getch q (TtyQueue.empty_of_pos hpos)
      rw [TtyQueue.contents_getch hpos] at hq
      obtain ⟨hbyte, hrest⟩ := List.cons.inj hq
      rw [hbyte] at hstep
      exact ⟨_, hstep, hrest⟩
  | dropped c =>
      have hpos : 0 < q.contents.length := by
        rw [hq, List.length_append]
        exact Nat.succ_pos _
      refine ⟨q.decHead, .dec q (TtyQueue.empty_of_pos hpos), ?_⟩
      rw [TtyQueue.contents_decHead hpos] at hq
      exact (List.append_inj' hq rfl).1

theorem QueueRun.held {q q' : TtyQueue} {es : List QueueEvent} (h : QueueRun q es q') :
    HeldRun q.contents es q'.contents := by
  induction h with
  | nil q => exact .nil _
  | cons h hs ih => exact .cons h.held ih

theorem HeldRun.run {q : TtyQueue} {l : List Byte} {es : List QueueEvent}
    (h : HeldRun q.contents es l) : ∃ q', QueueRun q es q' ∧ q'.contents = l := by
  generalize hq : q.contents = held at h
  induction h generalizing q with
  | nil l => exact ⟨q, .nil q, hq⟩
  | cons h hs ih =>
      rw [← hq] at h
      obtain ⟨q', hstep, hq'⟩ := h.step
      obtain ⟨r, hrun, hr⟩ := ih hq'
      exact ⟨r, .cons hstep hrun, hr⟩

/-! ## Every run from `tty_init` -/

/-- A queue that `tty_init` made is a FIFO of `TTY_BUF_SIZE-1` bytes, from which
the newest byte may be taken back; its macros tell how many bytes it holds. -/
theorem tty_queue_is_fifo {es : List QueueEvent} {q : TtyQueue} (h : QueueRun .initial es q) :
    HeldRun [] es q.contents ∧ (gots es ++ q.contents).Sublist (puts es) ∧
      (gots es).length + q.contents.length + drops es = (puts es).length ∧
      q.head.toNat < ttyBufSize ∧ q.tail.toNat < ttyBufSize ∧
      q.chars.toNat = q.contents.length ∧
      q.chars + q.left = Word.of (ttyBufSize - 1) ∧
      (q.empty = true ↔ q.chars = 0) ∧
      (q.full = true ↔ q.chars = Word.of (ttyBufSize - 1)) ∧
      (q.empty = false → q.contents.getLast? = some q.last) := by
  have hheld : HeldRun [] es q.contents := h.held
  have hle : q.contents.length ≤ 1023 := q.length_contents_le
  have hleft : q.left.toNat = 1023 - q.contents.length := q.toNat_left
  have hchars := q.toNat_chars
  have hsize : ttyBufSize - 1 = 1023 := rfl
  refine ⟨hheld, hheld.sublist, ?_, q.head_lt, q.tail_lt, hchars, ?_, ?_, ?_, ?_⟩
  · rw [hheld.length]
    exact Nat.zero_add _
  · rw [hsize]
    bv_omega
  · rw [TtyQueue.empty_iff, ← hchars]
    bv_omega
  · rw [TtyQueue.full_iff, ← hchars, TtyQueue.capacity, hsize]
    bv_omega
  · intro hsome
    rw [TtyQueue.contents_decHead (TtyQueue.length_pos hsome), List.getLast?_concat]

/-- Two bytes in, the newer one taken back, a third in, and the first out. -/
theorem tty_queue_is_fifo_three : ∃ q : TtyQueue,
    HeldRun [] [.put 1, .put 2, .dropped, .put 3, .got 1] q.contents ∧
      q.chars.toNat = q.contents.length ∧ q.contents.getLast? = some q.last := by
  let q₂ := (TtyQueue.initial.putch 1).putch 2
  let q₃ := q₂.decHead.putch 3
  have hgot : QueueStep q₃ (.got 1) q₃.getch.2 := by
    have hone : q₃.getch.1 = 1 := by decide
    rw [← hone]
    exact .getch q₃ (by decide)
  have hrun : QueueRun .initial [.put 1, .put 2, .dropped, .put 3, .got 1] q₃.getch.2 :=
    .cons (.putch _ 1 (by decide)) (.cons (.putch _ 2 (by decide)) (.cons (.dec q₂ (by decide))
      (.cons (.putch _ 3 (by decide)) (.cons hgot (.nil _)))))
  obtain ⟨hheld, -, -, -, -, hchars, -, -, -, hlast⟩ := tty_queue_is_fifo hrun
  exact ⟨_, hheld, hchars, hlast (by decide)⟩

end MySystem
