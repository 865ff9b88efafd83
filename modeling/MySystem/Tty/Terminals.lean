import MySystem.Console.Track
import MySystem.Machine.Refinement
import MySystem.Print.Quiet
import MySystem.Tty.Display
import MySystem.Tty.Interleaving

/-!
# The terminals of the machine

What the console subsystem is for, with every console and every entry into it
at once: some reference terminals, one of them in the foreground, each output
path written as an operation on terminals. The kernel refines this model over
all runs from `tty_init` on, answers included, and what the controller shows is
the foreground's terminal whenever the model says that it has been loaded.
-/

namespace MySystem

open Machine

variable {g : Geometry}

/-- The terminals as their users see them. -/
structure Terminals (g : Geometry) where
  screen : Nat → Screen g
  foreground : Nat
  /-- The controller has the origin of the foreground's screen. -/
  originLoaded : Bool
  /-- The controller has the cursor of the foreground. -/
  cursorLoaded : Bool

/-- A call into the console subsystem. -/
inductive TerminalCall where
  | op (op : Op)
  /-- `update_screen`, after an assignment to `fg_console`. -/
  | updateScreen
  | printk (fmt : List Byte) (args : Nat → Word)

/-- A call on the kernel; only `tty_write` has an answer. -/
def TerminalCall.run (strlen : Memory → Word → Int) :
    TerminalCall → Kernel → Except Fault (Option Word × Kernel)
  | op (.ttyWrite c fs buf nr), k =>
      (ttyWrite fs (Word.of (c.val + 1)) buf nr k).map fun (n, k) => (some n, k)
  | op o, k => (o.run k).map fun k => (none, k)
  | updateScreen, k => .ok (none, { k with console := MySystem.updateScreen k.console })
  | printk fmt args, k =>
      (MySystem.printk strlen (fmt ++ [0]) args k.console).map fun console =>
        (none, { k with console := console })

/-! ## The write queue of a call -/

/-- A queue of contents `s` after one input byte: a newline that finds one free
slot empties it. -/
def queueByte (c : Byte) (s : List Byte) : List Byte :=
  if c = 10 ∧ s.length + 1 = TtyQueue.capacity then [] else s ++ expandByte c

/-- The bytes taken from a buffer by a queue of contents `s`, and its contents then. -/
def offer : List Byte → List Byte → Nat × List Byte
  | [], s => (0, s)
  | c :: b, s =>
      if s.length = TtyQueue.capacity then (0, s)
      else ((offer b (queueByte c s)).1 + 1, (offer b (queueByte c s)).2)

namespace Terminals

variable (d : Terminals g)

/-- The texts of `console_print` and of a write queue on a screen of the attribute
`con_init` sets. -/
def printed (b : List Byte) (t : Screen g) : Screen g :=
  (b.takeWhile (· ≠ 0)).foldl (fun t b => Screen.print 0x07 0x0720 b t) t

def written (s : List Byte) (t : Screen g) : Screen g :=
  s.foldl (fun t b => Screen.write 0x07 0x0720 b t) t

/-- An operation on terminal `c` that ends with `loaded` for the cursor. -/
def draw (c : Nat) (f : Screen g → Screen g) (loaded : Bool) : Terminals g where
  screen := Function.update d.screen c (f (d.screen c))
  foreground := d.foreground
  originLoaded := d.originLoaded
  cursorLoaded := if c = d.foreground then loaded else d.cursorLoaded

def step : TerminalCall → Terminals g → Option Word × Terminals g
  | .op (.conWrite c queue), d => (none, d.draw c (written queue.contents) true)
  | .op (.ttyWrite c fs buf nr), d =>
      let (n, s) := offer (bytesFrom fs buf nr.toInt.toNat) []
      (some (Word.of n), d.draw c (written s) true)
  | .op (.consolePrint b), d => (none, d.draw d.foreground (printed b) true)
  | .op (.gotoxy c x y), d => (none, d.draw c (fun t => t.goto x.toNat y.toNat) false)
  | .op (.lf c), d => (none, d.draw c (Terminal.lineFeed 0x0720) false)
  | .op (.cr c), d => (none, d.draw c Terminal.carriageReturn false)
  | .op (.del c), d => (none, d.draw c (Terminal.delete 0x0720) false)
  | .op (.scrup c), d => (none, d.draw c (Terminal.scrollUp 0x0720) false)
  | .op (.scrdown c), d => (none, d.draw c (Terminal.scrollDown 0x0720) false)
  | .op (.foreground c), d =>
      (none, { d with foreground := c, originLoaded := false, cursorLoaded := false })
  | .updateScreen, d => (none, { d with originLoaded := true, cursorLoaded := true })
  | .printk fmt args, d => (none, d.draw d.foreground (printed (formatText fmt args)) true)

/-- The console a call is for. -/
def console (d : Terminals g) : Op → Nat
  | .conWrite c _ => c
  | .ttyWrite c _ _ _ => c
  | .consolePrint _ => d.foreground
  | .gotoxy c _ _ => c
  | .lf c => c
  | .cr c => c
  | .del c => c
  | .scrup c => c
  | .scrdown c => c
  | .foreground c => c

/-- Calls are for consoles that exist, and a format prints without looking at memory. -/
def Legal : TerminalCall → Terminals g → Prop
  | .op o, d => d.console o < g.consoles
  | .updateScreen, _ => True
  | .printk fmt _, _ => (∀ c ∈ fmt, c ≠ 0) ∧ PlainItems (items fmt) ∧ QuietItems (items fmt)

end Terminals

/-! ## The relation -/

/-- The kernel state `k` holds the terminals `d`. -/
structure Holds (d : Terminals g) (k : Kernel) : Prop where
  sound : Sound g k
  foreground : k.console.fgConsole = d.foreground
  shows : ∀ c (hc : c < g.consoles), ∃ w : Window g,
    w.start = (Window.initial g c hc).start ∧ w.stop = (Window.initial g c hc).stop ∧
      Mirrors c 0x07 0x0720 (d.screen c) w k.console ∧
      (c = d.foreground → (d.originLoaded → OriginShown w k.console) ∧
        (d.cursorLoaded → CursorShown w k.console))
  idle : ∀ i : Fin maxConsoles, i.val < g.consoles → (k.writeQueue i).contents = []

namespace Holds

variable {d : Terminals g} {k n : Kernel} {c : Nat} {f : Console → Console}
  {f' : Screen g → Screen g}

/-- An operation on one console that ends with `loaded` for its cursor. -/
theorem draw (h : Holds d k) (hc : c < g.consoles) (hf : Tracks g c 0x07 0x0720 f f')
    (console : n.console = f k.console) (conTable : n.conTable = k.conTable)
    (idle : ∀ i : Fin maxConsoles, i.val < g.consoles → (n.writeQueue i).contents = [])
    {loaded : Bool} (hloaded : loaded → c = d.foreground → ∀ w : Window g,
      w.Represents (n.console.vcCons c) → CursorShown w n.console) :
    Holds (d.draw c f' loaded) n := by
  obtain ⟨w, hstart, hstop, hm, hfront⟩ := h.shows c hc
  obtain ⟨w', hs, hm'⟩ := hf hm
  rw [← console] at hs hm'
  refine ⟨(h.sound.of_step hc hm.represents hstart hstop hs conTable).1,
    hs.fgConsole.trans h.foreground, ?_, idle⟩
  intro e he
  by_cases heq : e = c
  · subst heq
    refine ⟨w', hs.start.trans hstart, hs.stop.trans hstop, ?_, ?_⟩
    · simp only [Terminals.draw, Function.update_self]
      exact hm'
    · intro hfg
      have hfg' : e = k.console.fgConsole := hfg.trans h.foreground.symm
      refine ⟨fun ho => hs.shown hfg' ((hfront hfg).1 ho), fun hcursor => ?_⟩
      simp only [Terminals.draw] at hfg hcursor
      rw [if_pos hfg] at hcursor
      exact hloaded hcursor hfg w' hs.represents
  · obtain ⟨v, hstart', hstop', hv, hfront'⟩ := h.shows e he
    have hapart : w.stop ≤ v.start ∨ v.stop ≤ w.start := by
      rw [hstart, hstop, hstart', hstop']
      obtain hlt | hgt := Nat.lt_or_gt_of_ne heq
      · exact Or.inr (Window.initial_disjoint he hc hlt)
      · exact Or.inl (Window.initial_disjoint hc he hgt)
    refine ⟨v, hstart', hstop', ?_, ?_⟩
    · simp only [Terminals.draw, Function.update_of_ne heq]
      exact hv.other hs heq hapart
    · -- the foreground is another console, and the controller is left alone
      intro hfg
      have hne : c ≠ d.foreground := fun hcfg => heq (hfg.trans hcfg.symm)
      have hcrtc : n.console.crtc = k.console.crtc :=
        hs.background (fun hcfg => hne (hcfg.trans h.foreground))
      have hflags := hfront' hfg
      simp only [Terminals.draw, if_neg hne, OriginShown, CursorShown, Console.crtcAddress, hcrtc]
      exact hflags

/-- The same for an operation that ends with `set_cursor`. -/
theorem draw_cursor (h : Holds d k) (hc : c < g.consoles) (hf : Tracks g c 0x07 0x0720 f f')
    (console : n.console = setCursor c (f k.console)) (conTable : n.conTable = k.conTable)
    (idle : ∀ i : Fin maxConsoles, i.val < g.consoles → (n.writeQueue i).contents = []) :
    Holds (d.draw c f' true) n := by
  have hset : Tracks g c 0x07 0x0720 (setCursor c) id := by
    intro t w k h
    exact ⟨w, setCursor_step h.ready h.represents, h.setCursor⟩
  refine h.draw hc (hset.comp hf) console conTable idle fun _ hfg w hw => ?_
  obtain ⟨v, -, -, hv, -⟩ := h.shows c hc
  obtain ⟨v', hs, hv'⟩ := hf hv
  have hfront : (f k.console).fgConsole = c := hs.fgConsole.trans (h.foreground.trans hfg.symm)
  have hrecord : (setCursor c (f k.console)).vcCons = (f k.console).vcCons := by
    rw [setCursor_crtc]
  have hshown := setCursor_shows hs.ready (w := w) (by
    rw [hfront, ← congrFun hrecord c, ← console]
    exact hw)
  rw [hfront, ← console] at hshown
  exact hshown

/-- `console_print` works on the foreground. -/
theorem print (h : Holds d k) (b : List Byte) :
    Holds (d.draw d.foreground (Terminals.printed b) true)
      { k with console := consolePrint b k.console } := by
  have hfg := h.foreground
  refine h.draw_cursor (hfg ▸ h.sound.fgConsole) (Tracks.consolePrintLoop b) ?_ rfl h.idle
  simp only [consolePrint, hfg]

end Holds

namespace Terminals

/-- The terminals of `con_init`, showing the memory it finds. -/
def initial (g : Geometry) (m : Memory) (foreground : Nat) : Terminals g where
  screen c :=
    { grid := fun r col => m.cell (0xb8000 + c * g.share + r.val * g.rowBytes + 2 * col.val)
      x := 0
      y := 0
      x_le := g.zero_le_columns
      y_lt := g.lines_pos }
  foreground := foreground
  originLoaded := true
  cursorLoaded := true

/-- The messages of `tty_init`. -/
def messages (g : Geometry) : List TerminalCall :=
  [.printk endConsoleInit fun _ => 0, .printk virtualConsoles fun _ => Word.of g.consoles]

/-- The terminals after `tty_init`. -/
def booted (g : Geometry) (m : Memory) (foreground : Nat) : Terminals g :=
  (runModel step (messages g) (initial g m foreground)).2

end Terminals

end MySystem
