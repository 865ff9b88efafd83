import MySystem.Machine.Memory
import MySystem.Tty.Write

/-!
# What `tty_write` delivers

`tty_write` tests for a free slot once per input byte, but a newline takes two.
With exactly one slot free the second byte closes the ring, and everything
queued so far is lost (`Overruns`). The law of a call therefore holds exactly
when no newline of the buffer meets a queue with one free slot, and the law of
repeated calls exactly when that is so at every call (`Splits`).
-/

namespace MySystem

open Machine

/-- The bytes queued for one input byte. -/
def expandByte (c : Byte) : List Byte := if c = 10 then [13, 10] else [c]

/-- The output a buffer stands for. -/
def expand : List Byte → List Byte
  | [] => []
  | c :: s => expandByte c ++ expand s

/-- Writing `s` to a queue of `used` bytes, a newline meets exactly one free slot. -/
def Overruns (used : Nat) (s : List Byte) : Prop :=
  ∃ a rest, s = a ++ 10 :: rest ∧ used + (expand a).length + 1 = TtyQueue.capacity

/-- The longest prefix of `s` whose expansion fits `room` slots. -/
def fitting : Nat → List Byte → List Byte
  | _, [] => []
  | room, c :: s =>
      if (expandByte c).length ≤ room then c :: fitting (room - (expandByte c).length) s else []

/-- Cut greedily into prefixes that fit an empty queue, no piece of `s` overruns it. -/
inductive Splits : List Byte → Prop where
  | nil : Splits []
  | call {s : List Byte} (nonempty : s ≠ []) (fits : ¬ Overruns 0 s)
      (rest : Splits (s.drop (fitting TtyQueue.capacity s).length)) : Splits s

theorem Splits.cut {s : List Byte} (h : Splits s) (hs : s ≠ []) :
    ¬ Overruns 0 s ∧ Splits (s.drop (fitting TtyQueue.capacity s).length) := by
  cases h with
  | nil => exact absurd rfl hs
  | call _ fits rest => exact ⟨fits, rest⟩

theorem expandByte_length_pos (c : Byte) : 0 < (expandByte c).length := by
  rw [expandByte]
  split <;> exact Nat.succ_pos _

@[simp] theorem expand_append (s t : List Byte) : expand (s ++ t) = expand s ++ expand t := by
  induction s with
  | nil => rfl
  | cons c s ih => simp [expand, ih]

theorem length_le_expand (s : List Byte) : s.length ≤ (expand s).length := by
  induction s with
  | nil => exact Nat.le_refl 0
  | cons c s ih =>
      have := expandByte_length_pos c
      rw [expand, List.length_append, List.length_cons]
      omega

/-- Bytes that fit the free slots do not overrun them. -/
theorem not_overruns_of_le {used : Nat} {s : List Byte}
    (h : used + (expand s).length ≤ TtyQueue.capacity) : ¬ Overruns used s := by
  rintro ⟨a, rest, rfl, hlast⟩
  have hten : (expandByte 10).length = 2 := rfl
  rw [expand_append, expand, List.length_append, List.length_append, hten] at h
  omega

theorem fitting_eq_self {room : Nat} {s : List Byte} (h : (expand s).length ≤ room) :
    fitting room s = s := by
  induction s generalizing room with
  | nil => rfl
  | cons c s ih =>
      rw [expand, List.length_append] at h
      rw [fitting, if_pos (by omega), ih (by omega)]

/-! ## One turn of the loop -/

/-- The byte taken from the buffer fits, as one queued byte or as two. -/
theorem contents_ttyPut {q : TtyQueue} {c : Byte}
    (h : q.contents.length + (expandByte c).length ≤ TtyQueue.capacity) :
    (ttyPut c q).contents = q.contents ++ expandByte c := by
  by_cases hc : c = 10
  · subst hc
    have hlen : (expandByte 10).length = 2 := rfl
    have hfirst := TtyQueue.contents_putch (q := q) 13 (by omega)
    change ((q.putch 13).putch 10).contents = _
    rw [TtyQueue.contents_putch 10 (by rw [hfirst, List.length_append]; simp; omega), hfirst]
    exact List.append_assoc ..
  · have hexpand : expandByte c = [c] := if_neg hc
    rw [hexpand] at h ⊢
    rw [ttyPut, if_neg hc]
    exact TtyQueue.contents_putch c h

/-- A newline at the last free slot empties the queue. -/
theorem contents_ttyPut_newline {q : TtyQueue}
    (h : q.contents.length + 1 = TtyQueue.capacity) : (ttyPut 10 q).contents = [] := by
  have hfirst := TtyQueue.contents_putch (q := q) 13 (by omega)
  change ((q.putch 13).putch 10).contents = []
  refine TtyQueue.contents_putch_full 10 ?_
  rw [hfirst, List.length_append]
  exact h

/-! ## The loop -/

/-- The outcome of the loop of `tty_write` that takes `n` of `nr` bytes at `b`
and turns the queue `q` into `q'`. -/
structure Accepts (fs : Word → Byte) (nr : Nat) (b : Word) (q q' : TtyQueue) (n : Nat) :
    Prop where
  le : n ≤ nr
  progress : 0 < nr → q.contents.length < TtyQueue.capacity → 0 < n
  clean : ¬ Overruns q.contents.length (bytesFrom fs b nr) →
    q'.contents = q.contents ++ expand (bytesFrom fs b n) ∧
      bytesFrom fs b n =
        fitting (TtyQueue.capacity - q.contents.length) (bytesFrom fs b nr)
  lost : Overruns q.contents.length (bytesFrom fs b nr) →
    q'.contents.length < q.contents.length + (expand (bytesFrom fs b n)).length

namespace Accepts

variable {fs : Word → Byte} {nr n : Nat} {b : Word} {q q' : TtyQueue}

/-- Whatever happens, nothing is queued twice. -/
theorem bound (h : Accepts fs nr b q q' n) :
    q'.contents.length ≤ q.contents.length + (expand (bytesFrom fs b n)).length := by
  by_cases hover : Overruns q.contents.length (bytesFrom fs b nr)
  · exact Nat.le_of_lt (h.lost hover)
  · rw [(h.clean hover).1, List.length_append]

/-- The loop stops at a full queue. -/
theorem full (hfull : q.contents.length = TtyQueue.capacity) : Accepts fs (nr + 1) b q q 0 where
  le := Nat.zero_le _
  progress _ hlt := absurd hfull (Nat.ne_of_lt hlt)
  clean _ := by
    have hpos := expandByte_length_pos (fs b)
    refine ⟨(List.append_nil _).symm, ?_⟩
    rw [hfull, Nat.sub_self, bytesFrom, bytesFrom, fitting, if_neg (by omega)]
  lost := by
    rintro ⟨a, rest, -, hlast⟩
    omega

/-- A byte that fits is queued, and the loop goes on with it in the queue. -/
theorem put (hfits : q.contents.length + (expandByte (fs b)).length ≤ TtyQueue.capacity)
    (h : Accepts fs nr (b + 1) (ttyPut (fs b) q) q' n) : Accepts fs (nr + 1) b q q' (n + 1) := by
  have hput := contents_ttyPut hfits
  have hlength : (ttyPut (fs b) q).contents.length =
      q.contents.length + (expandByte (fs b)).length := by
    rw [hput, List.length_append]
  have hexpand : (expand (bytesFrom fs b (n + 1))).length =
      (expandByte (fs b)).length + (expand (bytesFrom fs (b + 1) n)).length :=
    List.length_append
  have hshift : Overruns q.contents.length (bytesFrom fs b (nr + 1)) ↔
      Overruns (ttyPut (fs b) q).contents.length (bytesFrom fs (b + 1) nr) := by
    rw [hlength]
    constructor
    · rintro ⟨a, rest, hsplit, hlast⟩
      cases a with
      | nil =>
          -- the first byte would be the offending newline, but it fits
          have hten : fs b = 10 := (List.cons.inj hsplit).1
          have hnil : (expand []).length = 0 := rfl
          have htwo : (expandByte (fs b)).length = 2 := by rw [hten]; rfl
          omega
      | cons c a =>
          obtain ⟨hc, hs⟩ := List.cons.inj hsplit
          have hcons : (expand (c :: a)).length =
              (expandByte c).length + (expand a).length := List.length_append
          have hbyte : (expandByte (fs b)).length = (expandByte c).length := by rw [hc]
          exact ⟨a, rest, hs, by omega⟩
    · rintro ⟨a, rest, hsplit, hlast⟩
      have hcons : (expand (fs b :: a)).length =
          (expandByte (fs b)).length + (expand a).length := List.length_append
      refine ⟨fs b :: a, rest, ?_, by omega⟩
      rw [bytesFrom, hsplit, List.cons_append]
  refine ⟨Nat.succ_le_succ h.le, fun _ _ => Nat.succ_pos n, fun hclean => ?_, fun hover => ?_⟩
  · obtain ⟨hcontents, hbytes⟩ := h.clean (mt hshift.mpr hclean)
    constructor
    · rw [hcontents, hput, bytesFrom, expand, List.append_assoc]
    · rw [bytesFrom, bytesFrom, fitting, if_pos (by omega), hbytes, hlength, Nat.sub_add_eq]
  · have := h.lost (hshift.mp hover)
    omega

/-- A newline at the last free slot loses what was queued. -/
theorem newline (hc : fs b = 10) (hlast : q.contents.length + 1 = TtyQueue.capacity)
    (h : Accepts fs nr (b + 1) (ttyPut (fs b) q) q' n) : Accepts fs (nr + 1) b q q' (n + 1) := by
  have hover : Overruns q.contents.length (bytesFrom fs b (nr + 1)) := by
    refine ⟨[], bytesFrom fs (b + 1) nr, ?_, hlast⟩
    rw [bytesFrom, hc, List.nil_append]
  refine ⟨Nat.succ_le_succ h.le, fun _ _ => Nat.succ_pos n, fun hclean => absurd hover hclean,
    fun _ => ?_⟩
  have hempty : (ttyPut (fs b) q).contents.length = 0 := by
    rw [hc, contents_ttyPut_newline hlast]
    rfl
  have hexpand : (expand (bytesFrom fs b (n + 1))).length =
      (expandByte (fs b)).length + (expand (bytesFrom fs (b + 1) n)).length :=
    List.length_append
  have := h.bound
  have := expandByte_length_pos (fs b)
  have : 0 < TtyQueue.capacity := by decide
  omega

end Accepts

theorem ttyWriteLoop_accepts (fs : Word → Byte) (nr : Nat) (b : Word) (q : TtyQueue) :
    ∃ n, (ttyWriteLoop fs nr b q).1 = b + Word.of n ∧
      Accepts fs nr b q (ttyWriteLoop fs nr b q).2 n := by
  induction nr generalizing b q with
  | zero =>
      refine ⟨0, (BitVec.add_zero b).symm, Nat.le_refl 0, fun h => absurd h (Nat.lt_irrefl 0),
        fun _ => ⟨(List.append_nil _).symm, rfl⟩, ?_⟩
      rintro ⟨a, rest, hsplit, -⟩
      cases a <;> cases hsplit
  | succ nr ih =>
      by_cases hfull : q.full = true
      · rw [ttyWriteLoop, if_pos hfull]
        exact ⟨0, (BitVec.add_zero b).symm, .full (q.full_iff.mp hfull)⟩
      · obtain ⟨n, hb, haccepts⟩ := ih (b + 1) (ttyPut (fs b) q)
        have hroom : q.contents.length < TtyQueue.capacity :=
          Nat.lt_of_le_of_ne q.length_contents_le (mt q.full_iff.mpr hfull)
        have haddr : b + 1 + Word.of n = b + Word.of (n + 1) := by
          rw [← Word.of_add_of, BitVec.add_assoc, BitVec.add_comm (Word.of n)]
          rfl
        rw [ttyWriteLoop, if_neg hfull]
        refine ⟨n + 1, hb.trans haddr, ?_⟩
        by_cases hlast : fs b = 10 ∧ q.contents.length + 1 = TtyQueue.capacity
        · exact .newline hlast.1 hlast.2 haccepts
        · refine .put ?_ haccepts
          by_cases hc : fs b = 10
          · have htwo : (expandByte (fs b)).length = 2 := by rw [hc]; rfl
            have hne : q.contents.length + 1 ≠ TtyQueue.capacity := fun he => hlast ⟨hc, he⟩
            omega
          · have hone : (expandByte (fs b)).length = 1 := by rw [expandByte, if_neg hc]; rfl
            omega

/-! ## A call -/

/-- A call on console `i` that delivers `out` and leaves the queue empty. -/
structure Writes (i : Fin maxConsoles) (k k' : Kernel) (out : List Byte) : Prop where
  console : k'.console = setCursor i (out.foldl (fun s c => conChar i c s) k.console)
  taken : k'.taken = k.taken ++ out
  empty : (k'.writeQueue i).contents = []
  conTable : k'.conTable = k.conTable

variable {k : Kernel} {i : Fin maxConsoles}

/-- `tty_write` on an initialised console terminal runs its loop and `con_write`. -/
theorem ttyWrite_eq (fs : Word → Byte) (buf nr : Word) (hi : k.conTable i = consoleTty i) :
    ttyWrite fs (Word.of (i.val + 1)) buf nr k =
      (conWrite (i.val : Nat) (k.setWriteQueue i
        (ttyWriteLoop fs nr.toInt.toNat buf (k.writeQueue i)).2)).map fun k' =>
          ((ttyWriteLoop fs nr.toInt.toNat buf (k.writeQueue i)).1 - buf, k') := by
  have hlt : i.val < 8 := i.isLt
  have hrange : ¬ Word.of maxConsoles < Word.of (i.val + 1) := by
    have : maxConsoles = 8 := rfl
    rw [Word.of_lt_of (by omega) (by omega)]
    omega
  have hzero : ¬ Word.of (i.val + 1) = 0 := by
    have hof : (0 : Word) = Word.of 0 := rfl
    rw [hof, Word.of_inj (by omega) (by omega)]
    omega
  have hindex : (Word.of (i.val + 1)).toNat - 1 = i.val := by
    rw [Word.toNat_of (by omega), Nat.add_sub_cancel]
  have hqueue : k.conQueues (consoleQueue i 1) = k.writeQueue i := rfl
  have hset : ∀ q, k.setQueue (consoleQueue i 1) q = k.setWriteQueue i q := fun _ => rfl
  simp only [ttyWrite, dif_neg hrange, dif_neg hzero, hindex, Fin.eta, hi, consoleTty]
  simp only [reduceCtorEq, false_and, if_false, hqueue, hset]
  cases conWrite (i.val : Nat) (k.setWriteQueue i
    (ttyWriteLoop fs nr.toInt.toNat buf (k.writeQueue i)).2) <;> rfl

/-- What its loop queued is what `con_write` takes out. -/
theorem ttyWrite_writes (fs : Word → Byte) (buf nr : Word) (hi : k.conTable i = consoleTty i) :
    ∃ n q' k', ttyWrite fs (Word.of (i.val + 1)) buf nr k = .ok (Word.of n, k') ∧
      Accepts fs nr.toInt.toNat buf (k.writeQueue i) q' n ∧ Writes i k k' q'.contents := by
  obtain ⟨n, hb, haccepts⟩ :=
    ttyWriteLoop_accepts fs nr.toInt.toNat buf (k.writeQueue i)
  obtain ⟨k', hwrite, hdrains⟩ := conWrite_eq (i := i)
    (k := k.setWriteQueue i (ttyWriteLoop fs nr.toInt.toNat buf (k.writeQueue i)).2) hi
  have hconsole := hdrains.console
  have htaken := hdrains.taken
  rw [Kernel.writeQueue_setWriteQueue] at hconsole htaken
  have hdelta : buf + Word.of n - buf = Word.of n := by
    rw [BitVec.add_comm, BitVec.add_sub_cancel]
  refine ⟨n, _, k', ?_, haccepts, ⟨hconsole, htaken, hdrains.empty, hdrains.conTable⟩⟩
  rw [ttyWrite_eq fs buf nr hi, hwrite, hb, hdelta]
  rfl

/-- A call leaves the queues of all other terminals alone, and those two of its
own that it does not write to. -/
theorem ttyWrite_conQueues {fs : Word → Byte} {buf nr n : Word} {k' : Kernel}
    (hi : k.conTable i = consoleTty i)
    (h : ttyWrite fs (Word.of (i.val + 1)) buf nr k = .ok (n, k'))
    {p : Fin conQueuesSize} (hp : p ≠ consoleQueue i 1) : k'.conQueues p = k.conQueues p := by
  obtain ⟨k'', hwrite, hdrains⟩ := conWrite_eq (i := i)
    (k := k.setWriteQueue i (ttyWriteLoop fs nr.toInt.toNat buf (k.writeQueue i)).2) hi
  rw [ttyWrite_eq fs buf nr hi, hwrite] at h
  obtain ⟨-, rfl⟩ := Prod.mk.inj (Except.ok.inj h)
  exact (hdrains.others p hp).trans (Function.update_of_ne hp ..)

/-- The law of one call: the value returned counts the bytes of the buffer
whose expansion was delivered. -/
def Delivers (fs : Word → Byte) (i : Fin maxConsoles) (buf nr : Word) (k : Kernel) : Prop :=
  ∃ n k', ttyWrite fs (Word.of (i.val + 1)) buf nr k = .ok (Word.of n, k') ∧
    n ≤ nr.toNat ∧ (0 < nr.toNat → 0 < n) ∧
    k'.taken = k.taken ++ expand (bytesFrom fs buf n) ∧ (k'.writeQueue i).contents = []

/-- Calling `tty_write` on what the call before left over, at most `calls`
times: the bytes left and the final state. -/
def ttyWriteAll (fs : Word → Byte) (channel : Word) :
    Nat → Word → Word → Kernel → Except Fault (Word × Kernel)
  | 0, _, nr, k => .ok (nr, k)
  | calls + 1, buf, nr, k =>
      if nr = 0 then .ok (nr, k)
      else match ttyWrite fs channel buf nr k with
        | .error e => .error e
        | .ok (n, k) => ttyWriteAll fs channel calls (buf + n) (nr - n) k

theorem toInt_toNat_of {m : Nat} (h : m < 2 ^ 31) : (Word.of m).toInt.toNat = m := by
  rw [Word.toInt_of h, Int.toNat_natCast]

theorem delivers_iff (fs : Word → Byte) (buf : Word) {m : Nat} (hm : m < 2 ^ 31)
    (hi : k.conTable i = consoleTty i) (hempty : (k.writeQueue i).contents = []) :
    Delivers fs i buf (Word.of m) k ↔ ¬ Overruns 0 (bytesFrom fs buf m) := by
  obtain ⟨n, q', k', hcall, haccepts, hwrites⟩ := ttyWrite_writes fs buf (Word.of m) hi
  have hlen : (k.writeQueue i).contents.length = 0 := by rw [hempty]; rfl
  rw [toInt_toNat_of hm] at haccepts
  have hle := haccepts.le
  rw [Delivers, Word.toNat_of (by omega)]
  constructor
  · rintro ⟨n', k'', hcall', hle', -, htaken, -⟩ hover
    rw [hcall] at hcall'
    obtain ⟨hn, rfl⟩ := Prod.mk.inj (Except.ok.inj hcall')
    obtain rfl : n = n' := (Word.of_inj (by omega) (by omega)).mp hn
    have hlost := haccepts.lost (by rw [hlen]; exact hover)
    have hout := List.append_cancel_left (htaken.symm.trans hwrites.taken)
    rw [hlen, hout] at hlost
    omega
  · intro hclean
    obtain ⟨hcontents, -⟩ := haccepts.clean (by rw [hlen]; exact hclean)
    refine ⟨n, k', hcall, hle, ?_, ?_, hwrites.empty⟩
    · intro hpos
      exact haccepts.progress hpos (by rw [hlen]; decide)
    · rw [hwrites.taken, hcontents, hempty, List.nil_append]

theorem bytesFrom_split (fs : Word → Byte) (buf : Word) {m n : Nat} (h : n ≤ m) :
    bytesFrom fs buf m = bytesFrom fs buf n ++ bytesFrom fs (buf + Word.of n) (m - n) := by
  rw [← bytesFrom_add, Nat.add_sub_cancel' h]

/-- A call that took `n` bytes, and the calls after it: together they deliver the buffer
exactly when it splits, if the later ones deliver the rest exactly when that splits. -/
theorem Accepts.splits_iff {fs : Word → Byte} {buf : Word} {m n : Nat} {q q' : TtyQueue}
    (h : Accepts fs m buf q q' n) (hempty : q.contents = []) (hm : m ≠ 0) {rest : List Byte}
    (hbound : rest.length ≤ (expand (bytesFrom fs (buf + Word.of n) (m - n))).length)
    (hrest : rest = expand (bytesFrom fs (buf + Word.of n) (m - n)) ↔
      Splits (bytesFrom fs (buf + Word.of n) (m - n))) :
    q'.contents ++ rest = expand (bytesFrom fs buf m) ↔ Splits (bytesFrom fs buf m) := by
  have hlen : q.contents.length = 0 := by rw [hempty]; rfl
  have hsplit := bytesFrom_split fs buf h.le
  have hexpand := congrArg expand hsplit
  rw [expand_append] at hexpand
  have hbytes : bytesFrom fs buf m ≠ [] := by
    intro hnil
    exact hm (by rw [← length_bytesFrom fs buf m, hnil]; rfl)
  by_cases hover : Overruns 0 (bytesFrom fs buf m)
  · -- what this call lost, the later ones cannot make up for
    have hlost := h.lost (by rw [hlen]; exact hover)
    constructor
    · intro heq
      have hlength := congrArg List.length heq
      rw [hexpand, List.length_append, List.length_append] at hlength
      omega
    · intro hsplits
      exact absurd hover (hsplits.cut hbytes).1
  · obtain ⟨hcontents, hprefix⟩ := h.clean (by rw [hlen]; exact hover)
    rw [hempty, List.nil_append] at hcontents
    rw [hlen, Nat.sub_zero] at hprefix
    have hdrop : (bytesFrom fs buf m).drop
        (fitting TtyQueue.capacity (bytesFrom fs buf m)).length =
        bytesFrom fs (buf + Word.of n) (m - n) := by
      rw [← hprefix, hsplit, List.drop_left]
    rw [hexpand, hcontents, List.append_cancel_left_eq, hrest, ← hdrop]
    constructor
    · intro hsplits
      exact .call hbytes hover hsplits
    · intro hsplits
      exact (hsplits.cut hbytes).2

/-- Repeated calls use up the buffer; they deliver its expansion exactly when
the buffer splits without an overrun. -/
theorem ttyWriteAll_delivers (fs : Word → Byte) (calls : Nat) (buf : Word) {m : Nat}
    (hm : m < 2 ^ 31) (hcalls : m ≤ calls) (hi : k.conTable i = consoleTty i)
    (hempty : (k.writeQueue i).contents = []) :
    ∃ k' out, ttyWriteAll fs (Word.of (i.val + 1)) calls buf (Word.of m) k = .ok (0, k') ∧
      k'.taken = k.taken ++ out ∧ (k'.writeQueue i).contents = [] ∧
      out.length ≤ (expand (bytesFrom fs buf m)).length ∧
      (out = expand (bytesFrom fs buf m) ↔ Splits (bytesFrom fs buf m)) := by
  induction calls generalizing buf m k with
  | zero =>
      obtain rfl := Nat.le_zero.mp hcalls
      exact ⟨k, [], rfl, (List.append_nil _).symm, hempty, Nat.le_refl 0,
        ⟨fun _ => .nil, fun _ => rfl⟩⟩
  | succ calls ih =>
      by_cases hzero : m = 0
      · subst hzero
        exact ⟨k, [], rfl, (List.append_nil _).symm, hempty, Nat.le_refl 0,
          ⟨fun _ => .nil, fun _ => rfl⟩⟩
      · have hne : ¬ Word.of m = 0 := by
          have hof : (0 : Word) = Word.of 0 := rfl
          rw [hof, Word.of_inj (by omega) (by omega)]
          exact hzero
        obtain ⟨n, q', k', hcall, haccepts, hwrites⟩ := ttyWrite_writes fs buf (Word.of m) hi
        have hlen : (k.writeQueue i).contents.length = 0 := by rw [hempty]; rfl
        rw [toInt_toNat_of hm] at haccepts
        have hle := haccepts.le
        have hprogress := haccepts.progress (Nat.pos_of_ne_zero hzero) (by rw [hlen]; decide)
        obtain ⟨k'', rest, hrest, htaken, hdone, hbound, hiff⟩ :=
          ih (k := k') (m := m - n) (buf + Word.of n) (by omega) (by omega)
            (by rw [hwrites.conTable]; exact hi) hwrites.empty
        have hexpand := congrArg expand (bytesFrom_split fs buf hle)
        rw [expand_append] at hexpand
        have hboth : q'.contents.length ≤ (expand (bytesFrom fs buf n)).length := by
          have := haccepts.bound
          omega
        refine ⟨k'', q'.contents ++ rest, ?_, ?_, hdone, ?_,
          haccepts.splits_iff hempty hzero hbound hiff⟩
        · rw [ttyWriteAll, if_neg hne, hcall]
          simp only [Word.of_sub_of (by omega : m < 2 ^ 32) hle]
          exact hrest
        · rw [htaken, hwrites.taken, List.append_assoc]
        · rw [hexpand, List.length_append, List.length_append]
          omega

/-- On an initialised terminal with an empty queue, a call delivers what it
reports exactly when no newline of the buffer overruns the queue, and repeated
calls deliver the whole buffer exactly when it splits without an overrun. -/
theorem tty_write_delivers_iff (fs : Word → Byte) (buf nr : Word) (hnr : 0 ≤ nr.toInt)
    (hi : k.conTable i = consoleTty i) (hempty : (k.writeQueue i).contents = []) :
    (Delivers fs i buf nr k ↔ ¬ Overruns 0 (bytesFrom fs buf nr.toNat)) ∧
      ∃ k', ttyWriteAll fs (Word.of (i.val + 1)) nr.toNat buf nr k = .ok (0, k') ∧
        (k'.taken = k.taken ++ expand (bytesFrom fs buf nr.toNat) ↔
          Splits (bytesFrom fs buf nr.toNat)) := by
  have hlt : nr.toNat < 2 ^ 31 := by
    have hbound := nr.isLt
    rw [BitVec.toInt_eq_toNat_cond] at hnr
    split at hnr <;> omega
  have hof : nr = Word.of nr.toNat := (Word.of_toNat nr).symm
  have hdelivers := delivers_iff fs buf hlt hi hempty
  obtain ⟨k', out, hcalls, htaken, -, -, hiff⟩ :=
    ttyWriteAll_delivers fs nr.toNat buf hlt (Nat.le_refl _) hi hempty
  rw [← hof] at hdelivers hcalls
  refine ⟨hdelivers, k', hcalls, ?_⟩
  rw [htaken, List.append_cancel_left_eq]
  exact hiff

/-- The law at three letters written to the first terminal. -/
theorem tty_write_delivers_letters :
    (Delivers (fun _ => 97) 0 0 3
        (Kernel.initial (Console.static ⟨fun _ => 0, []⟩ ⟨0, fun _ => 0⟩)) ↔
      ¬ Overruns 0 [97, 97, 97]) ∧
      ∃ k', ttyWriteAll (fun _ => 97) 1 3 0 3
          (Kernel.initial (Console.static ⟨fun _ => 0, []⟩ ⟨0, fun _ => 0⟩)) = .ok (0, k') ∧
        (k'.taken = [97, 97, 97] ↔ Splits [97, 97, 97]) :=
  tty_write_delivers_iff (fun _ => 97) 0 3 (by decide) rfl rfl

/-- 1022 letters and a newline. -/
def lettersNewline (a : Word) : Byte := if a.toNat = 1022 then 10 else 97

private theorem bytesFrom_letters {n : Nat} (b : Word) (h : b.toNat + n ≤ 1022) :
    bytesFrom lettersNewline b n = List.replicate n 97 := by
  induction n generalizing b with
  | zero => rfl
  | succ n ih =>
      have hnext : (b + 1).toNat = b.toNat + 1 := by bv_omega
      rw [bytesFrom, ih (b + 1) (by omega), lettersNewline, if_neg (by omega), List.replicate_succ]

private theorem expand_letters (n : Nat) : expand (List.replicate n 97) = List.replicate n 97 := by
  induction n with
  | zero => rfl
  | succ n ih =>
      rw [List.replicate_succ, expand, ih]
      rfl

/-- The newline needs two slots where one is free, and the law fails. -/
theorem tty_write_loses_newline :
    let k := Kernel.initial (Console.static ⟨fun _ => 0, []⟩ ⟨0, fun _ => 0⟩)
    k.conTable 0 = consoleTty 0 ∧ (k.writeQueue 0).contents = [] ∧
      ¬ Delivers lettersNewline 0 0 1023 k := by
  refine ⟨rfl, rfl, ?_⟩
  have hof : (1023 : Word) = Word.of 1023 := rfl
  rw [hof, delivers_iff lettersNewline 0 (by decide) rfl rfl, not_not]
  have hletters : bytesFrom lettersNewline 0 1022 = List.replicate 1022 97 :=
    bytesFrom_letters 0 (by decide)
  have hnewline : bytesFrom lettersNewline (0 + Word.of 1022) 1 = [10] := by
    rw [bytesFrom, bytesFrom, lettersNewline, if_pos (by decide)]
  refine ⟨List.replicate 1022 97, [], ?_, ?_⟩
  · rw [show 1023 = 1022 + 1 from rfl, bytesFrom_add, hletters, hnewline]
  · rw [expand_letters, List.length_replicate]
    rfl

end MySystem
