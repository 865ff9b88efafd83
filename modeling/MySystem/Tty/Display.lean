import MySystem.Console.Picture
import MySystem.Tty.Run

/-!
# What the hardware shows

Every return of `console_print` and of `con_write` on the foreground terminal
leaves on the screen what a reference terminal fed with the same bytes shows.
The two output paths of the kernel, `console_print` and `tty_write`, have the
same effect on text that fits the write queue.
-/

namespace MySystem

open Machine

/-- A call that writes to the foreground console. -/
inductive Call where
  | consolePrint (b : List Byte)
  /-- `con_write` with the given write queue. -/
  | conWrite (queue : TtyQueue)

namespace Call

/-- The call on console 0. -/
def op : Call → Op
  | consolePrint b => .consolePrint b
  | conWrite queue => .conWrite 0 queue

/-- The same call on the reference terminal. -/
def reference {g : Geometry} (attr : Byte) (erase : Half) : Call → Screen g → Screen g
  | consolePrint b, t =>
      (b.takeWhile (· ≠ 0)).foldl (fun t b => Screen.print attr erase b t) t
  | conWrite queue, t => queue.contents.foldl (fun t b => Screen.write attr erase b t) t

def runAll : List Call → Kernel → Except Fault Kernel
  | [], k => .ok k
  | call :: calls, k =>
      match call.op.run k with
      | .error e => .error e
      | .ok k => runAll calls k

end Call

/-- The cells and the cursor the controller makes visible are the terminal's. -/
structure Displays {g : Geometry} (t : Screen g) (k : Console) : Prop where
  cells : ∀ (r : Fin g.lines) (c : Fin g.columns),
    k.mem.cell (0xb8000 + 2 * k.crtcAddress 12 + r.val * g.rowBytes + 2 * c.val) = t.grid r c
  cursor : k.crtcAddress 14 = k.crtcAddress 12 + t.y * g.columns + t.x

/-- The terminal that shows the memory `con_init` found, with the cursor in the corner. -/
def Screen.initial (g : Geometry) (m : Memory) : Screen g where
  grid r c := m.cell (0xb8000 + r.val * g.rowBytes + 2 * c.val)
  x := 0
  y := 0
  x_le := g.zero_le_columns
  y_lt := g.lines_pos

/-- Console 0 is in the foreground and displays the terminal `t`. -/
structure Shows {g : Geometry} (t : Screen g) (k : Kernel) : Prop where
  fgConsole : k.console.fgConsole = 0
  table : k.conTable 0 = consoleTty 0
  shown : ∃ w : Window g, w.start = 0xb8000 ∧ Mirrors 0 0x07 0x0720 t w k.console ∧
    OriginShown w k.console ∧ CursorShown w k.console

namespace Shows

variable {g : Geometry} {t : Screen g} {k k' : Kernel}

theorem boot (h : Booted g k) (hfg : k.console.fgConsole = 0) :
    Shows (Screen.initial g k.console.mem) k := by
  obtain ⟨before, hreports, hlt, hinit⟩ := h.init
  obtain ⟨k', hinit', hk'⟩ := conInit_spec hreports
  obtain rfl := Except.ok.inj (hinit.symm.trans hinit')
  have hbefore : before.fgConsole = 0 := hk'.fgConsole.symm.trans hfg
  have horigin := hk'.originShown
  have hcursor := hk'.cursorShown
  simp only [hbefore] at horigin hcursor
  have hfresh := hk'.fresh 0 g.consoles_pos
  have hstart : (Window.initial g 0 g.consoles_pos).origin = 0xb8000 := by
    simp [Window.origin, Window.initial]
  refine ⟨hfg, h.tables 0 g.consoles_pos, _, ?_, ⟨hk'.ready, hfresh.represents, hfresh.attr,
    hfresh.eraseChar, rfl, rfl, ?_⟩, horigin g.consoles_pos, hcursor g.consoles_pos⟩
  · simp [Window.initial]
  · funext r c
    rw [Window.picture, hstart]
    rfl

/-- The registers hold addresses in cells, and the window starts on a cell. -/
theorem displays (h : Shows t k) : Displays t k.console := by
  obtain ⟨w, hstart, hm, horigin, hcursor⟩ := h.shown
  have hrow : w.row * g.rowBytes = 2 * (w.row * g.columns) := by
    rw [Geometry.rowBytes, Nat.mul_left_comm]
  have hy : w.y * g.rowBytes = 2 * (w.y * g.columns) := by
    rw [Geometry.rowBytes, Nat.mul_left_comm]
  have hw : w.origin = 0xb8000 + 2 * (w.row * g.columns) := by
    rw [Window.origin, hstart, hrow]
  have hpos : w.pos = w.origin + w.y * g.rowBytes + 2 * w.x := rfl
  rw [OriginShown] at horigin
  rw [CursorShown] at hcursor
  have haddr : 0xb8000 + 2 * k.console.crtcAddress 12 = w.origin := by omega
  constructor
  · intro r c
    rw [haddr, hm.grid]
    rfl
  · rw [hm.x, hm.y]
    omega

/-- A tracked operation followed by `set_cursor` moves the display along. -/
theorem of_tracks {f : Console → Console} {f' : Screen g → Screen g}
    (h : Shows t k) (hf : Tracks g 0 0x07 0x0720 f f')
    (hconsole : k'.console = setCursor 0 (f k.console)) (htable : k'.conTable = k.conTable) :
    Shows (f' t) k' := by
  obtain ⟨w, hstart, hm, horigin, -⟩ := h.shown
  obtain ⟨w', hs, hm'⟩ := hf hm
  have hset := setCursor_step hs.ready hs.represents
  have hfg : (f k.console).fgConsole = 0 := hs.fgConsole.trans h.fgConsole
  have hshown := hs.shown h.fgConsole.symm horigin
  have hcursor := setCursor_shows hs.ready (by rw [hfg]; exact hs.represents)
  rw [hfg] at hcursor
  refine ⟨?_, htable ▸ h.table, w', hs.start.trans hstart, ?_, ?_, ?_⟩
  all_goals rw [hconsole]
  · exact hset.fgConsole.trans hfg
  · exact hm'.setCursor
  · exact hset.shown hfg.symm hshown
  · exact hcursor

/-- A call returns, and the terminal it is repeated on is shown. -/
theorem call (h : Shows t k) (call : Call) :
    ∃ k', call.op.run k = .ok k' ∧ Shows (call.reference 0x07 0x0720 t) k' := by
  cases call with
  | consolePrint b =>
      refine ⟨_, rfl, h.of_tracks (Tracks.consolePrintLoop b) ?_ rfl⟩
      simp only [consolePrint, h.fgConsole]
  | conWrite queue =>
      obtain ⟨k', hwrite, hdrains⟩ := conWrite_eq (k := k.setWriteQueue 0 queue) h.table
      have hconsole := hdrains.console
      rw [Kernel.writeQueue_setWriteQueue] at hconsole
      exact ⟨k', hwrite, h.of_tracks (Tracks.foldl Tracks.conChar queue.contents) hconsole
        hdrains.conTable⟩

theorem runAll (h : Shows t k) (calls : List Call) :
    ∃ k', Call.runAll calls k = .ok k' ∧
      Shows (calls.foldl (fun t call => call.reference 0x07 0x0720 t) t) k' := by
  induction calls generalizing t k with
  | nil => exact ⟨k, rfl, h⟩
  | cons call calls ih =>
      obtain ⟨k', hrun, hshows⟩ := h.call call
      obtain ⟨k'', hrest, hshows'⟩ := ih hshows
      refine ⟨k'', ?_, hshows'⟩
      rw [Call.runAll, hrun]
      exact hrest

end Shows

/-- After any sequence of calls on the foreground console, what the hardware
displays is the reference terminal after the same calls. -/
theorem console_refines_terminal {g : Geometry} {k : Kernel} (hboot : Booted g k)
    (hfg : k.console.fgConsole = 0) (calls : List Call) :
    ∃ k', Call.runAll calls k = .ok k' ∧
      Displays (calls.foldl (fun t call => call.reference 0x07 0x0720 t)
        (Screen.initial g k.console.mem)) k'.console := by
  obtain ⟨k', hrun, hshows⟩ := (Shows.boot hboot hfg).runAll calls
  exact ⟨k', hrun, hshows.displays⟩

/-- A greeting printed on the text-mode machine. -/
theorem console_refines_terminal_vga :
    ∃ k', Call.runAll [.consolePrint [72, 105, 10]] bootKernel = .ok k' ∧
      Displays (Call.reference 0x07 0x0720 (.consolePrint [72, 105, 10])
        (Screen.initial vgaText bootKernel.console.mem)) k'.console :=
  console_refines_terminal booted_bootKernel.1 booted_bootKernel.2 [.consolePrint [72, 105, 10]]

/-! ## Two output paths -/

/-- A text is made of the bytes both paths interpret alike. -/
def IsText (s : List Byte) : Prop := ∀ b ∈ s, b = 10 ∨ b = 13 ∨ 32 ≤ b.toNat ∧ b.toNat ≤ 126

instance (s : List Byte) : Decidable (IsText s) :=
  inferInstanceAs (Decidable (∀ b ∈ s, b = 10 ∨ b = 13 ∨ 32 ≤ b.toNat ∧ b.toNat ≤ 126))

/-- A text byte does the same whether it is printed or expanded and queued. -/
private theorem conChar_expandByte (c : Nat) {b : Byte}
    (h : b = 10 ∨ b = 13 ∨ 32 ≤ b.toNat ∧ b.toNat ≤ 126) (rest : List Byte) (k : Console) :
    consolePrintLoop c (b :: rest) k =
      consolePrintLoop c rest ((expandByte b).foldl (fun k b => conChar c b k) k) := by
  obtain rfl | rfl | hglyph := h
  · rfl
  · rfl
  · have hnz : b ≠ 0 := by
      rintro rfl
      exact absurd hglyph.1 (by decide)
    have hlf : b ≠ 10 := by
      rintro rfl
      exact absurd hglyph.1 (by decide)
    have hcr : b ≠ 13 := by
      rintro rfl
      exact absurd hglyph.1 (by decide)
    have hchar : conChar c b k = putGlyph c b k := if_pos ((Tracks.printable_iff b).mpr hglyph)
    rw [consolePrintLoop, if_neg hnz, if_neg hlf, if_neg hcr, expandByte, if_neg hlf,
      List.foldl_cons, List.foldl_nil, hchar]

theorem consolePrintLoop_eq_conChar (c : Nat) {s : List Byte} (h : IsText s) (k : Console) :
    consolePrintLoop c s k = (expand s).foldl (fun k b => conChar c b k) k := by
  induction s generalizing k with
  | nil => rfl
  | cons b s ih =>
      obtain ⟨hb, hs⟩ := List.forall_mem_cons.mp h
      rw [conChar_expandByte c hb, ih hs, expand, List.foldl_append]

/-- In every reachable state, writing a text that fits the empty queue of the
foreground terminal returns its length and has the effect of printing it. -/
theorem tty_write_eq_console_print {g : Geometry} {k₀ k : Kernel} (hboot : Booted g k₀)
    (hrun : Reaches k₀ k) (i : Fin maxConsoles) (hfg : k.console.fgConsole = i)
    (hempty : (k.writeQueue i).contents = []) (fs : Word → Byte) (buf : Word) (s : List Byte)
    (hs : bytesFrom fs buf s.length = s) (htext : IsText s)
    (hfits : (expand s).length ≤ TtyQueue.capacity) :
    ∃ k', ttyWrite fs (Word.of (k.console.fgConsole + 1)) buf (Word.of s.length) k =
        .ok (Word.of s.length, k') ∧ k'.console = consolePrint s k.console := by
  have hsound := (Sound.boot hboot).reaches hrun
  have hi : k.conTable i = consoleTty i := hsound.tables i (hfg ▸ hsound.fgConsole)
  have hcapacity : TtyQueue.capacity = 1023 := rfl
  have hlen := length_le_expand s
  have hint : (Word.of s.length).toInt.toNat = s.length := toInt_toNat_of (by omega)
  have hused : (k.writeQueue i).contents.length = 0 := by rw [hempty]; rfl
  obtain ⟨n, q', k', hcall, haccepts, hwrites⟩ := ttyWrite_writes fs buf (Word.of s.length) hi
  rw [hint] at haccepts
  obtain ⟨hcontents, hbytes⟩ := haccepts.clean (not_overruns_of_le (by rw [hs, hused]; omega))
  rw [hs, hused, Nat.sub_zero, fitting_eq_self hfits] at hbytes
  have hn : n = s.length := by rw [← length_bytesFrom fs buf n, hbytes]
  subst hn
  refine ⟨k', ?_, ?_⟩
  · rw [hfg]
    exact hcall
  · rw [hwrites.console, hcontents, hempty, List.nil_append, hs,
      ← consolePrintLoop_eq_conChar i htext]
    simp only [consolePrint, hfg]

/-- A newline written and printed on the text-mode machine. -/
theorem tty_write_eq_console_print_vga :
    ∃ k', ttyWrite (fun _ => 10) (Word.of (bootKernel.console.fgConsole + 1)) 0 (Word.of 1)
        bootKernel = .ok (Word.of 1, k') ∧
      k'.console = consolePrint [10] bootKernel.console :=
  tty_write_eq_console_print booted_bootKernel.1 .start 0 booted_bootKernel.2 rfl
    (fun _ => 10) 0 [10] rfl (by decide) (by decide)

end MySystem
