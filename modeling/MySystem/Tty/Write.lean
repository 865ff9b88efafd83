import MySystem.Console.Driver
import MySystem.Tty.Queue

/-!
# Writing to a console terminal

`tty_write` of `kernel/chr_drv/tty_io.c` and the routine it calls, `con_write`
of `console.c`. A `Kernel` is the console driver with the terminal tables over
it. User memory is read through the segment `fs`, here a function from addresses
to bytes.

Of `struct tty_struct` only the members these functions read are kept. `taken`
is a ghost: it records what `GETCH` hands to `con_write`, so that delivery can
be stated for a run.
-/

namespace MySystem

open Machine

/-- `CON_QUEUES`. -/
def conQueuesSize : Nat := 3 * maxConsoles

/-- `EIO`. -/
def eio : Word := 5

/-- The routines a `write` member points to. -/
inductive WriteRoutine where
  | conWrite
  deriving DecidableEq, Repr

/-- `struct tty_struct`; `none` is the null pointer. -/
structure TtyStruct where
  write : Option WriteRoutine
  readQ : Option (Fin conQueuesSize)
  writeQ : Option (Fin conQueuesSize)
  secondary : Option (Fin conQueuesSize)

structure Kernel where
  console : Console
  conQueues : Fin conQueuesSize → TtyQueue
  conTable : Fin maxConsoles → TtyStruct
  taken : List Byte

namespace Kernel

def setQueue (k : Kernel) (q : Fin conQueuesSize) (queue : TtyQueue) : Kernel :=
  { k with conQueues := Function.update k.conQueues q queue }

/-- `GETCH` on a queue of the table. -/
def getch (k : Kernel) (q : Fin conQueuesSize) : Byte × Kernel :=
  let (c, queue) := (k.conQueues q).getch
  (c, { k.setQueue q queue with taken := k.taken ++ [c] })

end Kernel

/-- The loop of `con_write`, `nr` turns long. -/
def conWriteLoop (currcons : Nat) (q : Fin conQueuesSize) : Nat → Kernel → Kernel
  | 0, k => k
  | nr + 1, k =>
      let (c, k) := k.getch q
      conWriteLoop currcons q nr { k with console := conChar currcons c k.console }

/-- `con_write`; the argument is the offset of its pointer in `con_table`. -/
def conWrite (tty : Int) (k : Kernel) : Except Fault Kernel :=
  if h : maxConsoles ≤ tty ∨ tty < 0 then .error (.panic "con_write: illegal tty")
  else
    let currcons : Fin maxConsoles := ⟨tty.toNat, by omega⟩
    match (k.conTable currcons).writeQ with
    | none => .error .nullPointer
    | some q =>
        let k := conWriteLoop currcons q (k.conQueues q).chars.toNat k
        .ok { k with console := setCursor currcons k.console }

/-- The body of the loop of `tty_write`: a newline goes in as two bytes. -/
def ttyPut (c : Byte) (q : TtyQueue) : TtyQueue :=
  let q := if c = 10 then q.putch 13 else q
  q.putch c

/-- The loop of `tty_write` for a positive `nr`: the final `b` and the queue. -/
def ttyWriteLoop (fs : Word → Byte) : Nat → Word → TtyQueue → Word × TtyQueue
  | 0, b, q => (b, q)
  | nr + 1, b, q => if q.full then (b, q) else ttyWriteLoop fs nr (b + 1) (ttyPut (fs b) q)

/-- `tty_write`. Channel 0 is not excluded by the test and makes `tty` point
before the table. -/
def ttyWrite (fs : Word → Byte) (channel buf nr : Word) (k : Kernel) :
    Except Fault (Word × Kernel) :=
  if h : Word.of maxConsoles < channel then .ok (-eio, k)
  else if h0 : channel = 0 then .error .outOfBounds
  else
    have hlt : channel.toNat - 1 < maxConsoles := by
      have : 0 < channel.toNat := Nat.pos_of_ne_zero fun hz => h0 (BitVec.eq_of_toNat_eq hz)
      rw [BitVec.not_lt, BitVec.le_def, Word.toNat_of (by decide)] at h
      omega
    let tty := k.conTable ⟨channel.toNat - 1, hlt⟩
    if tty.writeQ = none ∧ tty.readQ = none ∧ tty.secondary = none then .ok (-eio, k)
    else match tty.writeQ with
      | none => .error .nullPointer
      | some q =>
          let (b, queue) := ttyWriteLoop fs nr.toInt.toNat buf (k.conQueues q)
          match tty.write with
          | none => .error .nullPointer
          | some .conWrite => do
              let k ← conWrite (channel.toNat - 1 : Nat) (k.setQueue q queue)
              return (b - buf, k)

/-! ## What `con_write` does -/

/-- The three queues of a console's terminal. -/
def consoleQueue (i : Fin maxConsoles) (j : Fin 3) : Fin conQueuesSize :=
  ⟨i.val * 3 + j.val, by have := i.isLt; have := j.isLt; rw [conQueuesSize]; omega⟩

/-- The record `tty_init` stores for console `i`. -/
def consoleTty (i : Fin maxConsoles) : TtyStruct where
  write := some .conWrite
  readQ := some (consoleQueue i 0)
  writeQ := some (consoleQueue i 1)
  secondary := some (consoleQueue i 2)

/-- The write queue of console `i`. -/
def Kernel.writeQueue (k : Kernel) (i : Fin maxConsoles) : TtyQueue :=
  k.conQueues (consoleQueue i 1)

def Kernel.setWriteQueue (k : Kernel) (i : Fin maxConsoles) (queue : TtyQueue) : Kernel :=
  k.setQueue (consoleQueue i 1) queue

/-- The tables `tty_init` leaves when all consoles exist, over a given driver. -/
def Kernel.initial (console : Console) : Kernel where
  console := console
  conQueues _ := TtyQueue.initial
  conTable := consoleTty
  taken := []

@[simp] theorem Kernel.writeQueue_setWriteQueue (k : Kernel) (i : Fin maxConsoles)
    (queue : TtyQueue) : (k.setWriteQueue i queue).writeQueue i = queue :=
  Function.update_self ..

/-- A queue after `n` bytes have been taken from it. -/
def TtyQueue.taken (q : TtyQueue) (n : Nat) : TtyQueue := (fun q => q.getch.2)^[n] q

/-- The loop hands every queued byte to the console, in order, and empties the queue. -/
theorem conWriteLoop_eq (currcons : Nat) (q : Fin conQueuesSize) {nr : Nat} {k : Kernel}
    (h : (k.conQueues q).contents.length = nr) :
    let k' := conWriteLoop currcons q nr k
    k'.console = (k.conQueues q).contents.foldl (fun s c => conChar currcons c s) k.console ∧
      k'.conQueues q = (k.conQueues q).taken nr ∧ (k'.conQueues q).contents = [] ∧
      k'.taken = k.taken ++ (k.conQueues q).contents ∧
      k'.conTable = k.conTable ∧ ∀ p, p ≠ q → k'.conQueues p = k.conQueues p := by
  induction nr generalizing k with
  | zero =>
      have hnil := List.length_eq_zero_iff.mp h
      simp [conWriteLoop, TtyQueue.taken, hnil]
  | succ nr ih =>
      have hcons := TtyQueue.contents_getch (q := k.conQueues q) (by omega)
      have hqueue : (k.getch q).2.conQueues q = (k.conQueues q).getch.2 :=
        Function.update_self ..
      obtain ⟨hconsole, hrest, hempty, htaken, htable, hothers⟩ :=
        ih (k := { (k.getch q).2 with
          console := conChar currcons (k.getch q).1 (k.getch q).2.console }) (by
            rw [hcons, List.length_cons] at h
            exact (congrArg (fun q : TtyQueue => q.contents.length) hqueue).trans
              (Nat.succ.inj h))
      simp only [hqueue] at hconsole hrest htaken
      refine ⟨?_, hrest, hempty, ?_, htable, fun p hp => ?_⟩
      · rw [conWriteLoop, hconsole, hcons]
        rfl
      · rw [conWriteLoop, htaken, hcons]
        simp [Kernel.getch]
      · rw [conWriteLoop, hothers p hp]
        exact Function.update_of_ne hp ..

/-- The terminal of console `i` prints everything in its write queue. -/
structure Drains (i : Fin maxConsoles) (k k' : Kernel) : Prop where
  console : k'.console = setCursor i ((k.writeQueue i).contents.foldl
    (fun s c => conChar i c s) k.console)
  queue : k'.writeQueue i = (k.writeQueue i).taken (k.writeQueue i).contents.length
  empty : (k'.writeQueue i).contents = []
  taken : k'.taken = k.taken ++ (k.writeQueue i).contents
  conTable : k'.conTable = k.conTable
  others : ∀ p, p ≠ consoleQueue i 1 → k'.conQueues p = k.conQueues p

/-- `con_write` on an initialised terminal. -/
theorem conWrite_eq {k : Kernel} {i : Fin maxConsoles} (hi : k.conTable i = consoleTty i) :
    ∃ k', conWrite (i.val : Nat) k = .ok k' ∧ Drains i k k' := by
  have hlt := i.isLt
  have hrange : ¬ ((maxConsoles : Int) ≤ (i.val : Nat) ∨ ((i.val : Nat) : Int) < 0) := by omega
  have hchars := (k.conQueues (consoleQueue i 1)).toNat_chars
  obtain ⟨hconsole, hqueue, hempty, htaken, htable, hothers⟩ :=
    conWriteLoop_eq i (consoleQueue i 1) hchars.symm
  have hwrite : conWrite (i.val : Nat) k = .ok
      { conWriteLoop i (consoleQueue i 1) (k.conQueues (consoleQueue i 1)).chars.toNat k with
        console := setCursor i (conWriteLoop i (consoleQueue i 1)
          (k.conQueues (consoleQueue i 1)).chars.toNat k).console } := by
    simp only [conWrite, dif_neg hrange, Int.toNat_natCast, Fin.eta, hi, consoleTty]
  rw [hchars] at hqueue
  rw [hchars] at hconsole hempty htaken htable hothers hwrite
  exact ⟨_, hwrite, congrArg (setCursor i) hconsole, hqueue, hempty, htaken, htable, hothers⟩

end MySystem
