import MySystem.Console.Frame
import MySystem.Console.Partition
import MySystem.Print.StarLaw
import MySystem.Tty.Run

/-!
# Initialising the terminals

`tty_init` of `kernel/chr_drv/tty_io.c` with the two messages it prints, and
what `tty_write` does on every channel afterwards. The tables `tty_init` leaves
have a terminal for each console there is and null pointers beyond, and no later
operation changes them.
-/

namespace MySystem

open Machine

/-- A `struct tty_struct` full of null pointers. -/
def TtyStruct.null : TtyStruct where
  write := none
  readQ := none
  writeQ := none
  secondary := none

/-- `printk`: the message goes to the foreground console. -/
def printk (strlen : Memory → Word → Int) (fmt : List Byte) (args : Nat → Word) (k : Console) :
    Except Fault Console := do
  let printed ← vsprintf strlen fmt args k.mem
  return consolePrint printed.buf { k with mem := printed.mem }

theorem printk_eq {strlen : Memory → Word → Int} {fmt : List Byte} {args : Nat → Word}
    {k : Console} {printed : Printed} (h : vsprintf strlen fmt args k.mem = .ok printed) :
    printk strlen fmt args k = .ok (consolePrint printed.buf { k with mem := printed.mem }) := by
  rw [printk, h]
  rfl

/-- `"end console init\n"`. -/
def endConsoleInit : List Byte :=
  ['e', 'n', 'd', ' ', 'c', 'o', 'n', 's', 'o', 'l', 'e', ' ', 'i', 'n', 'i', 't', '\n'].map ch

/-- `"%d virtual consoles\n\r"`. -/
def virtualConsoles : List Byte :=
  ['%', 'd', ' ', 'v', 'i', 'r', 't', 'u', 'a', 'l', ' ', 'c', 'o', 'n', 's', 'o', 'l', 'e', 's',
    '\n', '\r'].map ch

/-- The last loop of `tty_init`, with `n` turns to go. -/
def ttyInitLoop : Nat → Nat → (Fin maxConsoles → TtyStruct) →
    Except Fault (Fin maxConsoles → TtyStruct)
  | 0, _, table => .ok table
  | n + 1, i, table =>
      if h : i < maxConsoles then
        ttyInitLoop n (i + 1) (Function.update table ⟨i, h⟩ (consoleTty ⟨i, h⟩))
      else .error .outOfBounds

/-- `tty_init`. Its first two loops assign every element of the tables. -/
def ttyInit (strlen : Memory → Word → Int) (k : Kernel) : Except Fault Kernel := do
  let console ← conInit k.console
  let console ← printk strlen (endConsoleInit ++ [0]) (fun _ => 0) console
  let table ← ttyInitLoop console.nrConsoles.toInt.toNat 0 (fun _ => .null)
  let console ← printk strlen (virtualConsoles ++ [0]) (fun _ => console.nrConsoles) console
  return { k with
    console := console
    conQueues := fun _ => TtyQueue.initial
    conTable := table }

/-! ## The tables -/

/-- A terminal for each of the first `n` consoles. -/
def terminals (n : Nat) (i : Fin maxConsoles) : TtyStruct :=
  if i.val < n then consoleTty i else TtyStruct.null

theorem ttyInitLoop_eq {n i : Nat} (h : i + n ≤ maxConsoles) :
    ttyInitLoop n i (terminals i) = .ok (terminals (i + n)) := by
  induction n generalizing i with
  | zero => rfl
  | succ n ih =>
      have hlt : i < maxConsoles := by omega
      have hnext : Function.update (terminals i) ⟨i, hlt⟩ (consoleTty ⟨i, hlt⟩) =
          terminals (i + 1) := by
        funext j
        by_cases heq : j = ⟨i, hlt⟩
        · subst heq
          rw [Function.update_self, terminals, if_pos (Nat.lt_succ_self i)]
        · have hne : j.val ≠ i := fun hval => heq (Fin.ext hval)
          rw [Function.update_of_ne heq, terminals, terminals]
          by_cases hj : j.val < i
          · rw [if_pos hj, if_pos (Nat.lt_succ_of_lt hj)]
          · rw [if_neg hj, if_neg (by omega)]
      rw [ttyInitLoop, dif_pos hlt, hnext, ih (by omega), Nat.add_right_comm, Nat.add_assoc]

/-- What holds of the tables from `tty_init` on. -/
structure Tabled (k : Kernel) : Prop where
  one_le : 1 ≤ k.console.nrConsoles.toNat
  le_max : k.console.nrConsoles.toNat ≤ maxConsoles
  conTable : k.conTable = terminals k.console.nrConsoles.toNat

namespace Tabled

variable {k k' : Kernel} {i : Fin maxConsoles}

theorem consoleTty (h : Tabled k) (hi : i.val < k.console.nrConsoles.toNat) :
    k.conTable i = consoleTty i := by
  rw [h.conTable, terminals, if_pos hi]

theorem null (h : Tabled k) (hi : k.console.nrConsoles.toNat ≤ i.val) :
    k.conTable i = TtyStruct.null := by
  rw [h.conTable, terminals, if_neg (Nat.not_lt.mpr hi)]

theorem of_eq (h : Tabled k) (hnr : k'.console.nrConsoles = k.console.nrConsoles)
    (htable : k'.conTable = k.conTable) : Tabled k' := by
  refine ⟨?_, ?_, ?_⟩
  · rw [hnr]
    exact h.one_le
  · rw [hnr]
    exact h.le_max
  · rw [hnr, htable]
    exact h.conTable

end Tabled

theorem printk_spec (strlen : Memory → Word → Int) {s : List Byte} (hs : ∀ c ∈ s, c ≠ 0)
    (args : Nat → Word) (k : Console) :
    ∃ k', printk strlen (s ++ [0]) args k = .ok k' ∧
      ∃ buf mem, k' = consolePrint buf { k with mem := mem } := by
  obtain ⟨printed, hprinted⟩ := vsprintf_returns strlen hs args k.mem
  exact ⟨_, printk_eq hprinted, _, _, rfl⟩

theorem printk_nrConsoles {k : Console} {buf : List Byte} {mem : Memory} :
    (consolePrint buf { k with mem := mem }).nrConsoles = k.nrConsoles :=
  (Touches.consolePrint buf { k with mem := mem }).nrConsoles

/-- The consoles after the two messages of `tty_init`. -/
def Announced (c c' : Console) : Prop :=
  ∃ buf mem buf' mem', c' = consolePrint buf'
    { consolePrint buf { c with mem := mem } with mem := mem' }

theorem Announced.nrConsoles {c c' : Console} (h : Announced c c') :
    c'.nrConsoles = c.nrConsoles := by
  obtain ⟨buf, mem, buf', mem', rfl⟩ := h
  rw [printk_nrConsoles, printk_nrConsoles]

/-- `tty_init` returns if `con_init` does. -/
theorem ttyInit_returns (strlen : Memory → Word → Int) {k : Kernel} {c : Console}
    (hinit : conInit k.console = .ok c) (hone : 1 ≤ c.nrConsoles.toNat)
    (hmax : c.nrConsoles.toNat ≤ maxConsoles) :
    ∃ k', ttyInit strlen k = .ok k' ∧ Announced c k'.console ∧ Tabled k' ∧
      ∀ q, k'.conQueues q = TtyQueue.initial := by
  have hmax' : maxConsoles = 8 := rfl
  obtain ⟨c₁, hprint, buf, mem, hc₁⟩ :=
    printk_spec strlen (s := endConsoleInit) (by decide) (fun _ => 0) c
  obtain ⟨c₂, hprint', buf', mem', hc₂⟩ :=
    printk_spec strlen (s := virtualConsoles) (by decide) (fun _ => c₁.nrConsoles) c₁
  have hannounced : Announced c c₂ := ⟨buf, mem, buf', mem', by rw [hc₂, hc₁]⟩
  have hnr : c₁.nrConsoles = c.nrConsoles := by rw [hc₁, printk_nrConsoles]
  have hcount : c₁.nrConsoles.toInt.toNat = c.nrConsoles.toNat := by
    rw [hnr, BitVec.toInt_eq_toNat_of_lt (by omega), Int.toNat_natCast]
  have hnull : (fun _ => TtyStruct.null) = terminals 0 := funext fun i => rfl
  have hloop := ttyInitLoop_eq (n := c.nrConsoles.toNat) (i := 0) (by omega)
  rw [Nat.zero_add] at hloop
  refine ⟨{ k with
    console := c₂
    conQueues := fun _ => TtyQueue.initial
    conTable := terminals c.nrConsoles.toNat }, ?_, hannounced, ⟨?_, ?_, ?_⟩, fun _ => rfl⟩
  · simp only [ttyInit, hinit, hprint, hcount, hnull, hloop, hprint', bind, Except.bind, pure,
      Except.pure]
  · exact hannounced.nrConsoles ▸ hone
  · exact hannounced.nrConsoles ▸ hmax
  · dsimp only
    rw [hannounced.nrConsoles]

/-- A screen without a cell is a division by zero. -/
theorem conInit_cells {k k' : Console} (h : conInit k = .ok k') :
    1 ≤ (origVideoCols k.mem).toNat ∧ 1 ≤ (origVideoLines k.mem).toNat := by
  have hscreen : ¬ origVideoLines k.mem * (origVideoCols k.mem * 2) = 0 := by
    intro hzero
    have hdef : conInit k = if origVideoLines k.mem * (origVideoCols k.mem * 2) = 0 then
      .error .divideError else _ := rfl
    rw [hdef, if_pos hzero] at h
    cases h
  constructor
  · refine Nat.pos_of_ne_zero fun hzero => hscreen ?_
    have hcols : origVideoCols k.mem = 0 := BitVec.eq_of_toNat_eq hzero
    rw [hcols]
    simp
  · refine Nat.pos_of_ne_zero fun hzero => hscreen ?_
    have hlines : origVideoLines k.mem = 0 := BitVec.eq_of_toNat_eq hzero
    rw [hlines]
    simp

/-- Whenever `tty_init` returns it has set up the tables. -/
theorem ttyInit_tabled {strlen : Memory → Word → Int} {k k' : Kernel}
    (h : ttyInit strlen k = .ok k') : Tabled k' := by
  cases hinit : conInit k.console with
  | error e =>
      simp only [ttyInit, hinit, bind, Except.bind] at h
      cases h
  | ok c =>
      obtain ⟨hcolumns, hlines⟩ := conInit_cells hinit
      obtain ⟨c', hinit', hshares⟩ := conInit_shares hcolumns hlines
      obtain rfl := Except.ok.inj (hinit.symm.trans hinit')
      have hmax : consolesFor (reportedScreen k.console.mem) ≤ 8 := consolesFor_le _
      have hnr : c.nrConsoles.toNat = consolesFor (reportedScreen k.console.mem) := by
        rw [hshares.nrConsoles, Word.toNat_of (by omega)]
      obtain ⟨k'', hk'', -, htabled, -⟩ := ttyInit_returns strlen hinit
        (hnr ▸ one_le_consolesFor _) (hnr ▸ hmax)
      obtain rfl := Except.ok.inj (h.symm.trans hk'')
      exact htabled

/-! ## Runs -/

namespace Tabled

variable {k k' : Kernel}

/-- No operation changes the tables. -/
theorem run (h : Tabled k) (op : Op) (hc : op.console k < k.console.nrConsoles.toNat)
    (hrun : op.run k = .ok k') : Tabled k' := by
  cases op with
  | conWrite c queue =>
      obtain ⟨k'', hwrite, hdrains⟩ :=
        conWrite_eq (k := k.setWriteQueue c queue) (h.consoleTty hc)
      obtain rfl := Except.ok.inj (hwrite.symm.trans hrun)
      refine h.of_eq ?_ hdrains.conTable
      rw [hdrains.console]
      exact ((Touches.conChars c _ _).trans (.setCursor ..)).nrConsoles
  | ttyWrite c fs buf nr =>
      obtain ⟨n, q', k'', hwrite, -, hwrites⟩ := ttyWrite_writes fs buf nr (h.consoleTty hc)
      rw [Op.run, hwrite] at hrun
      obtain rfl := Except.ok.inj hrun
      refine h.of_eq ?_ hwrites.conTable
      change k''.console.nrConsoles = _
      rw [hwrites.console]
      exact ((Touches.conChars c _ _).trans (.setCursor ..)).nrConsoles
  | consolePrint b =>
      obtain rfl := Except.ok.inj hrun
      exact h.of_eq (Touches.consolePrint b _).nrConsoles rfl
  | gotoxy c newX newY =>
      obtain rfl := Except.ok.inj hrun
      exact h.of_eq (Touches.gotoxy c newX newY _).nrConsoles rfl
  | lf c =>
      obtain rfl := Except.ok.inj hrun
      exact h.of_eq (Touches.lf c _).nrConsoles rfl
  | cr c =>
      obtain rfl := Except.ok.inj hrun
      exact h.of_eq rfl rfl
  | del c =>
      obtain rfl := Except.ok.inj hrun
      exact h.of_eq (Touches.del c _).nrConsoles rfl
  | scrup c =>
      obtain rfl := Except.ok.inj hrun
      exact h.of_eq (Touches.scrup c _).nrConsoles rfl
  | scrdown c =>
      obtain rfl := Except.ok.inj hrun
      exact h.of_eq (Touches.scrdown c _).nrConsoles rfl
  | foreground c =>
      obtain rfl := Except.ok.inj hrun
      exact h.of_eq rfl rfl

theorem reaches (h : Tabled k) (hrun : Reaches k k') : Tabled k' := by
  induction hrun with
  | start => exact h
  | step _ op valid next ih => exact ih.run op valid next

end Tabled

/-! ## What `tty_write` does on a channel -/

/-- A call on console `i` works on that console and its own write queue: the
queue takes what fits of the buffer, and the console prints all that is queued. -/
structure ServedBy (fs : Word → Byte) (i : Fin maxConsoles) (buf nr r : Word) (k k' : Kernel) :
    Prop where
  delivers : ∃ n q', r = Word.of n ∧ Accepts fs nr.toInt.toNat buf (k.writeQueue i) q' n ∧
    Writes i k k' q'.contents
  queues : ∀ q, q ≠ consoleQueue i 1 → k'.conQueues q = k.conQueues q
  console : Touches i k.console k'.console

/-- `tty_write` serves the channels that have a console, and refuses all others
without touching anything. -/
def Validates (fs : Word → Byte) (channel buf nr : Word) (k : Kernel) : Prop :=
  (∀ i : Fin maxConsoles, channel.toNat = i.val + 1 →
    channel.toNat ≤ k.console.nrConsoles.toNat →
      ∃ r k', ttyWrite fs channel buf nr k = .ok (r, k') ∧ ServedBy fs i buf nr r k k') ∧
  (¬ (1 ≤ channel.toNat ∧ channel.toNat ≤ k.console.nrConsoles.toNat) →
    ttyWrite fs channel buf nr k = .ok (-eio, k))

/-- A channel without a console finds null queues, or is past the table. -/
theorem ttyWrite_refused {k : Kernel} (h : Tabled k) {channel : Word} (hzero : channel ≠ 0)
    (hgt : k.console.nrConsoles.toNat < channel.toNat) (fs : Word → Byte) (buf nr : Word) :
    ttyWrite fs channel buf nr k = .ok (-eio, k) := by
  have hof : (Word.of maxConsoles).toNat = maxConsoles := rfl
  by_cases hrange : Word.of maxConsoles < channel
  · rw [ttyWrite, dif_pos hrange]
  · have hle : channel.toNat ≤ maxConsoles := by
      rw [BitVec.not_lt, BitVec.le_def, hof] at hrange
      exact hrange
    have hnull := h.null (i := ⟨channel.toNat - 1, by omega⟩) (Nat.le_sub_one_of_lt hgt)
    simp only [ttyWrite, dif_neg hrange, dif_neg hzero, hnull, TtyStruct.null]
    rfl

theorem validates_iff {k : Kernel} (h : Tabled k) (fs : Word → Byte) (channel buf nr : Word) :
    Validates fs channel buf nr k ↔ channel ≠ 0 := by
  constructor
  · rintro ⟨-, hrefused⟩ rfl
    have hnone : ¬ (1 ≤ (0 : Word).toNat ∧ (0 : Word).toNat ≤ k.console.nrConsoles.toNat) := by
      rintro ⟨hone, -⟩
      exact absurd hone (by decide)
    have hfault : ttyWrite fs 0 buf nr k = .error .outOfBounds := rfl
    rw [hfault] at hrefused
    cases hrefused hnone
  · intro hzero
    constructor
    · intro i hi hle
      have hchannel : channel = Word.of (i.val + 1) := by rw [← hi, Word.of_toNat]
      have htty := h.consoleTty (i := i) (by omega)
      obtain ⟨n, q', k', hwrite, haccepts, hwrites⟩ := ttyWrite_writes fs buf nr htty
      have htouches : Touches i k.console k'.console := by
        rw [hwrites.console]
        exact (Touches.conChars i _ _).trans (.setCursor ..)
      rw [hchannel]
      exact ⟨_, k', hwrite, ⟨n, q', rfl, haccepts, hwrites⟩,
        fun q hq => ttyWrite_conQueues htty hwrite hq, htouches⟩
    · intro hout
      have hpos : 1 ≤ channel.toNat :=
        Nat.pos_of_ne_zero fun hz => hzero (BitVec.eq_of_toNat_eq hz)
      exact ttyWrite_refused h hzero (by omega) fs buf nr

/-- In every state after `tty_init`, whatever the screen size, `tty_write`
validates its channel exactly when the channel is not zero. -/
theorem tty_write_validates_iff {strlen : Memory → Word → Int} {start booted k : Kernel}
    (hinit : ttyInit strlen start = .ok booted) (hrun : Reaches booted k) (fs : Word → Byte)
    (channel buf nr : Word) : Validates fs channel buf nr k ↔ channel ≠ 0 :=
  validates_iff ((ttyInit_tabled hinit).reaches hrun) fs channel buf nr

/-- The terminals of the text-mode machine before `tty_init`. -/
def textKernel : Kernel := Kernel.initial (modeConsole 80 25)

theorem ttyInit_textKernel (strlen : Memory → Word → Int) :
    ∃ booted, ttyInit strlen textKernel = .ok booted := by
  obtain ⟨c, hinit, hshares⟩ := conInit_shares (k := modeConsole 80 25) (by decide) (by decide)
  have hscreen : reportedScreen (modeConsole 80 25).mem = 4000 := by decide
  rw [hscreen] at hshares
  have hnr : c.nrConsoles.toNat = 2 := by
    rw [hshares.nrConsoles]
    decide
  obtain ⟨booted, hbooted, -⟩ := ttyInit_returns strlen (k := textKernel) hinit
    (by omega) (by rw [hnr]; decide)
  exact ⟨booted, hbooted⟩

theorem tty_write_validates_text :
    ∃ booted, ttyInit scanLength textKernel = .ok booted ∧
      (Validates (fun _ => 97) 3 0 1 booted ↔ (3 : Word) ≠ 0) := by
  obtain ⟨booted, hbooted⟩ := ttyInit_textKernel scanLength
  exact ⟨booted, hbooted, tty_write_validates_iff hbooted .start (fun _ => 97) 3 0 1⟩

/-- Channel zero makes the terminal before the first one the one to write to. -/
theorem tty_write_channel_zero :
    ∃ booted, ttyInit scanLength textKernel = .ok booted ∧
      ¬ Validates (fun _ => 97) 0 0 1 booted := by
  obtain ⟨booted, hbooted⟩ := ttyInit_textKernel scanLength
  refine ⟨booted, hbooted, ?_⟩
  rw [validates_iff (ttyInit_tabled hbooted)]
  exact not_not_intro rfl

end MySystem
