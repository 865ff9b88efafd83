import MySystem.Console.Operation
import MySystem.Tty.Delivery

/-!
# Runs of the console subsystem

From the state `con_init` leaves, the rest of the kernel may write to any
terminal, print, and call the cursor and scroll helpers on any console, in any
order. `Sound` is the invariant of such runs: every console's record represents
a window that stays in the share `con_init` gave it.
-/

namespace MySystem

open Machine

/-- What the rest of the kernel can ask of the consoles. -/
inductive Op where
  /-- `con_write` for console `c` with the given write queue. -/
  | conWrite (c : Fin maxConsoles) (queue : TtyQueue)
  | ttyWrite (c : Fin maxConsoles) (fs : Word → Byte) (buf nr : Word)
  | consolePrint (b : List Byte)
  | gotoxy (c : Nat) (newX newY : Word)
  | lf (c : Nat)
  | cr (c : Nat)
  | del (c : Nat)
  | scrup (c : Nat)
  | scrdown (c : Nat)
  /-- An assignment to `fg_console`. -/
  | foreground (c : Nat)

namespace Op

/-- The console an operation is called for. -/
def console (k : Kernel) : Op → Nat
  | conWrite c _ => c
  | ttyWrite c _ _ _ => c
  | consolePrint _ => k.console.fgConsole
  | gotoxy c _ _ => c
  | lf c => c
  | cr c => c
  | del c => c
  | scrup c => c
  | scrdown c => c
  | foreground c => c

def run (k : Kernel) : Op → Except Fault Kernel
  | conWrite c queue => MySystem.conWrite (c.val : Nat) (k.setWriteQueue c queue)
  | ttyWrite c fs buf nr => (MySystem.ttyWrite fs (Word.of (c.val + 1)) buf nr k).map Prod.snd
  | consolePrint b => .ok { k with console := MySystem.consolePrint b k.console }
  | gotoxy c newX newY => .ok { k with console := MySystem.gotoxy c newX newY k.console }
  | lf c => .ok { k with console := MySystem.lf c k.console }
  | cr c => .ok { k with console := MySystem.cr c k.console }
  | del c => .ok { k with console := MySystem.del c k.console }
  | scrup c => .ok { k with console := MySystem.scrup c k.console }
  | scrdown c => .ok { k with console := MySystem.scrdown c k.console }
  | foreground c => .ok { k with console := { k.console with fgConsole := c } }

end Op

/-- The state after `con_init`, with the terminals of its consoles set up. -/
structure Booted (g : Geometry) (k : Kernel) : Prop where
  init : ∃ before, Reports before.mem g ∧ before.fgConsole < g.consoles ∧
    conInit before = .ok k.console
  tables : ∀ i : Fin maxConsoles, i.val < g.consoles → k.conTable i = consoleTty i

/-- The states reached by operations on the consoles that exist. -/
inductive Reaches (k : Kernel) : Kernel → Prop where
  | start : Reaches k k
  | step {k' k'' : Kernel} (run : Reaches k k') (op : Op)
      (valid : op.console k' < k'.console.nrConsoles.toNat) (next : op.run k' = .ok k'') :
      Reaches k k''

/-- Every console's screen is in its share of the video memory. -/
structure Sound (g : Geometry) (k : Kernel) : Prop where
  ready : Ready g k.console
  nrConsoles : k.console.nrConsoles = Word.of g.consoles
  fgConsole : k.console.fgConsole < g.consoles
  tables : ∀ i : Fin maxConsoles, i.val < g.consoles → k.conTable i = consoleTty i
  placed : ∀ c (hc : c < g.consoles), ∃ w : Window g, w.Represents (k.console.vcCons c) ∧
    w.start = (Window.initial g c hc).start ∧ w.stop = (Window.initial g c hc).stop

namespace Sound

variable {g : Geometry} {c : Nat} {k k' : Kernel}

theorem boot (h : Booted g k) : Sound g k := by
  obtain ⟨before, hreports, hfg, hinit⟩ := h.init
  obtain ⟨k', hinit', hk'⟩ := conInit_spec hreports
  obtain rfl := Except.ok.inj (hinit.symm.trans hinit')
  refine ⟨hk'.ready, hk'.nrConsoles, ?_, h.tables, ?_⟩
  · rw [hk'.fgConsole]
    exact hfg
  · intro c hc
    exact ⟨_, (hk'.fresh c hc).represents, rfl, rfl⟩

theorem toNat_nrConsoles (h : Sound g k) : k.console.nrConsoles.toNat = g.consoles := by
  have hle : g.consoles ≤ 8 := g.consoles_le
  rw [h.nrConsoles, Word.toNat_of (by omega)]

/-- What an operation on console `c` may do to memory. -/
def Contained (c : Nat) (k k' : Kernel) : Prop :=
  Memory.Writes (k.console.vcCons c).videoMemStart.toNat (k.console.vcCons c).videoMemEnd.toNat
    k.console.mem k'.console.mem

/-- A step on one console keeps the state sound and inside that console's share. -/
theorem of_step {w w' : Window g} (h : Sound g k) (hc : c < g.consoles)
    (hw : w.Represents (k.console.vcCons c)) (hstart : w.start = (Window.initial g c hc).start)
    (hstop : w.stop = (Window.initial g c hc).stop) (hs : Step c w w' k.console k'.console)
    (htable : k'.conTable = k.conTable) : Sound g k' ∧ Contained c k k' := by
  have hb := w.bounds
  constructor
  · refine ⟨hs.ready, hs.nrConsoles.trans h.nrConsoles, ?_, ?_, ?_⟩
    · rw [hs.fgConsole]
      exact h.fgConsole
    · rw [htable]
      exact h.tables
    · intro d hd
      by_cases heq : d = c
      · subst heq
        exact ⟨w', hs.represents, hs.start.trans hstart, hs.stop.trans hstop⟩
      · rw [hs.others d heq]
        exact h.placed d hd
  · rw [Contained, hw.videoMemStart, hw.videoMemEnd, Word.toNat_of (by omega),
      Word.toNat_of (by omega)]
    exact hs.writes

theorem of_local {f : Console → Console} (h : Sound g k) (hc : c < g.consoles) (hf : Local c f)
    (hconsole : k'.console = f k.console) (htable : k'.conTable = k.conTable) :
    Sound g k' ∧ Contained c k k' := by
  obtain ⟨w, hw, hstart, hstop⟩ := h.placed c hc
  obtain ⟨w', hs⟩ := hf h.ready hw
  rw [← hconsole] at hs
  exact of_step h hc hw hstart hstop hs htable

/-- An operation on an existing console returns, and keeps the state sound. -/
theorem run (h : Sound g k) (op : Op) (hc : op.console k < g.consoles) :
    ∃ k', op.run k = .ok k' ∧ Sound g k' ∧ Contained (op.console k) k k' := by
  cases op with
  | conWrite c queue =>
      obtain ⟨k', hwrite, hdrains⟩ :=
        conWrite_eq (k := k.setWriteQueue c queue) (h.tables c hc)
      exact ⟨k', hwrite, h.of_local hc
        ((Local.setCursor c).comp (Local.foldl (Local.conChar c) _)) hdrains.console
        hdrains.conTable⟩
  | ttyWrite c fs buf nr =>
      obtain ⟨n, q', k', hwrite, -, hwrites⟩ := ttyWrite_writes fs buf nr (h.tables c hc)
      refine ⟨k', ?_, h.of_local hc
        ((Local.setCursor c).comp (Local.foldl (Local.conChar c) _)) hwrites.console
        hwrites.conTable⟩
      rw [Op.run, hwrite]
      rfl
  | consolePrint b =>
      obtain ⟨w, hw, hstart, hstop⟩ := h.placed _ h.fgConsole
      obtain ⟨w', hs⟩ := Local.consolePrint b h.ready hw
      exact ⟨_, rfl, h.of_step h.fgConsole hw hstart hstop hs rfl⟩
  | gotoxy c newX newY => exact ⟨_, rfl, h.of_local hc (.gotoxy c newX newY) rfl rfl⟩
  | lf c => exact ⟨_, rfl, h.of_local hc (.lf c) rfl rfl⟩
  | cr c => exact ⟨_, rfl, h.of_local hc (.cr c) rfl rfl⟩
  | del c => exact ⟨_, rfl, h.of_local hc (.del c) rfl rfl⟩
  | scrup c => exact ⟨_, rfl, h.of_local hc (.scrup c) rfl rfl⟩
  | scrdown c => exact ⟨_, rfl, h.of_local hc (.scrdown c) rfl rfl⟩
  | foreground c =>
      have hr := h.ready
      exact ⟨_, rfl, ⟨⟨hr.columns, hr.lines, hr.sizeRow, hr.memBase, hr.type, hr.portReg,
        hr.portVal⟩, h.nrConsoles, hc, h.tables, h.placed⟩, .refl ..⟩

/-- The invariant of a run. -/
theorem reaches (h : Sound g k) (hrun : Reaches k k') : Sound g k' := by
  induction hrun with
  | start => exact h
  | step _ op hc next ih =>
      rw [ih.toNat_nrConsoles] at hc
      obtain ⟨k'', hnext, hsound, -⟩ := ih.run op hc
      obtain rfl := Except.ok.inj (next.symm.trans hnext)
      exact hsound

/-- The shares are inside the video memory, and no two of them overlap. -/
theorem shares (h : Sound g k) (hc : c < g.consoles) :
    0xb8000 ≤ (k.console.vcCons c).videoMemStart.toNat ∧
      (k.console.vcCons c).videoMemEnd.toNat ≤ 0xba000 ∧
      ∀ d, d < g.consoles → c < d →
        (k.console.vcCons c).videoMemEnd.toNat ≤ (k.console.vcCons d).videoMemStart.toNat := by
  obtain ⟨w, hw, -, hstop⟩ := h.placed c hc
  have hb := w.bounds
  rw [hw.videoMemStart, hw.videoMemEnd, Word.toNat_of (by omega), Word.toNat_of (by omega)]
  refine ⟨by omega, by omega, ?_⟩
  intro d hd hlt
  obtain ⟨w', hw', hstart, -⟩ := h.placed d hd
  have hb' := w'.bounds
  have := Window.initial_disjoint hc hd hlt
  rw [hw'.videoMemStart, Word.toNat_of (by omega)]
  omega

end Sound

/-! ## A machine in 80 by 25 text mode -/

def vgaText : Geometry where
  columns := 80
  lines := 25
  columns_even := rfl
  columns_pos := by decide
  lines_pos := by decide
  fits := by decide

/-- What the BIOS leaves for that mode. -/
def biosMemory : Memory where
  bytes a := if a = 0x90007 then 80 else if a = 0x9000e then 25 else 0
  trace := []

def staticConsole : Console := Console.static biosMemory ⟨0, fun _ => 0⟩

/-- The kernel once `con_init` has run on that machine. -/
def bootKernel : Kernel :=
  Kernel.initial ((conInit staticConsole).toOption.getD staticConsole)

theorem booted_bootKernel : Booted vgaText bootKernel ∧ bootKernel.console.fgConsole = 0 := by
  have hreports : Reports staticConsole.mem vgaText := ⟨by decide, by decide⟩
  obtain ⟨k', hinit, hk'⟩ := conInit_spec hreports
  have hconsole : bootKernel.console = k' := by
    rw [bootKernel, hinit]
    rfl
  refine ⟨⟨⟨staticConsole, hreports, by decide, ?_⟩, fun _ _ => rfl⟩, ?_⟩
  · rw [hconsole]
    exact hinit
  · rw [hconsole]
    exact hk'.fgConsole

/-- In every reachable state every console is consistent, the shares of the
consoles are disjoint parts of the video memory, and every further operation
returns having stored inside the share of its own console only. -/
theorem console_containment {g : Geometry} {k k' : Kernel} (hboot : Booted g k)
    (hrun : Reaches k k') :
    k'.console.nrConsoles.toNat = g.consoles ∧
      (∀ c, c < g.consoles → ConsoleInvariant k'.console c ∧
        0xb8000 ≤ (k'.console.vcCons c).videoMemStart.toNat ∧
        (k'.console.vcCons c).videoMemEnd.toNat ≤ 0xba000 ∧
        ∀ d, d < g.consoles → c < d →
          (k'.console.vcCons c).videoMemEnd.toNat ≤ (k'.console.vcCons d).videoMemStart.toNat) ∧
      ∀ op : Op, op.console k' < g.consoles →
        ∃ k'', op.run k' = .ok k'' ∧ Sound.Contained (op.console k') k' k'' := by
  have hsound := (Sound.boot hboot).reaches hrun
  refine ⟨hsound.toNat_nrConsoles, ?_, ?_⟩
  · intro c hc
    obtain ⟨w, hw, -⟩ := hsound.placed c hc
    exact ⟨hw.invariant hsound.ready, hsound.shares hc⟩
  · intro op hc
    obtain ⟨k'', hnext, -, hcontained⟩ := hsound.run op hc
    exact ⟨k'', hnext, hcontained⟩

/-- The second console of the text-mode machine, after a line feed on it. -/
theorem console_containment_vga :
    ∃ k', Reaches bootKernel k' ∧ ConsoleInvariant k'.console 1 ∧
      ∃ k'', (Op.scrup 1).run k' = .ok k'' ∧ Sound.Contained 1 k' k'' := by
  have hcount := (Sound.boot booted_bootKernel.1).toNat_nrConsoles
  have hrun : Reaches bootKernel { bootKernel with console := lf 1 bootKernel.console } :=
    .step .start (.lf 1) (by rw [hcount]; decide) rfl
  have h := console_containment booted_bootKernel.1 hrun
  exact ⟨_, hrun, (h.2.1 1 (by decide)).1, h.2.2 (.scrup 1) (by decide : 1 < vgaText.consoles)⟩

end MySystem
