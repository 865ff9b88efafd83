import MySystem.Console.Step

/-!
# Initialisation

`con_init` divides the video memory among as many consoles as fit, eight at
most, and puts every one of them at the start of its share with the cursor in
the corner (`Window.initial`).
-/

namespace MySystem

open Machine

variable {g : Geometry} {c : Nat} {w : Window g} {k : Console}

namespace Geometry

variable (g : Geometry)

/-- The number of consoles `con_init` sets up. -/
def consoles : Nat := min maxConsoles (0x2000 / g.screenBytes)

/-- The bytes of video memory of each console. -/
def share : Nat := 0x2000 / g.consoles

theorem screenBytes_pos : 0 < g.screenBytes :=
  Nat.lt_of_lt_of_le (by have := g.rowBytes_pos; omega) g.rowBytes_le

theorem consoles_pos : 0 < g.consoles :=
  Nat.lt_min.mpr ⟨by decide, Nat.div_pos g.screenBytes_le g.screenBytes_pos⟩

theorem consoles_le : g.consoles ≤ maxConsoles := Nat.min_le_left _ _

theorem screenBytes_le_share : g.screenBytes ≤ g.share := by
  rw [share, Nat.le_div_iff_mul_le g.consoles_pos, Nat.mul_comm]
  exact (Nat.le_div_iff_mul_le g.screenBytes_pos).mp (Nat.min_le_right _ _)

theorem consoles_mul_share_le : g.consoles * g.share ≤ 0x2000 := Nat.mul_div_le _ _

/-- The share of console `c` ends inside the video memory. -/
theorem share_le (hc : c < g.consoles) : c * g.share + g.share ≤ 0x2000 := by
  rw [← Nat.succ_mul]
  exact Nat.le_trans (Nat.mul_le_mul_right _ hc) g.consoles_mul_share_le

end Geometry

/-- The window of console `c` after initialisation. -/
def Window.initial (g : Geometry) (c : Nat) (hc : c < g.consoles) : Window g where
  start := 0xb8000 + c * g.share
  stop := 0xb8000 + c * g.share + g.share
  row := 0
  x := 0
  y := 0
  x_le := g.zero_le_columns
  y_lt := g.lines_pos
  base_le := Nat.le_add_right _ _
  stop_le := by have := g.share_le hc; omega
  fits := by have := g.screenBytes_le_share; omega

/-- The shares of two consoles do not overlap. -/
theorem Window.initial_disjoint {d : Nat} (hc : c < g.consoles) (hd : d < g.consoles)
    (h : c < d) : (Window.initial g c hc).stop ≤ (Window.initial g d hd).start := by
  have := Nat.mul_le_mul_right g.share (Nat.succ_le_of_lt h)
  rw [Nat.succ_mul] at this
  simp only [initial]
  omega

/-- The BIOS has left the geometry `g` where `con_init` reads it. -/
structure Reports (m : Memory) (g : Geometry) : Prop where
  columns : origVideoCols m = Word.of g.columns
  lines : origVideoLines m = Word.of g.lines

/-- The controller's cursor address is the cursor of the window, in cells. -/
def CursorShown (w : Window g) (k : Console) : Prop :=
  k.crtcAddress 14 = (w.pos - 0xb8000) / 2

/-! ## The last step: showing the screen -/

theorem setCursor_shows (h : Ready g k) (hw : w.Represents (k.vcCons k.fgConsole)) :
    CursorShown w (setCursor k.fgConsole k) := by
  have hb := w.bounds
  have hready : Ready g { k with blankcount := k.blankinterval } :=
    h.update ..
  simp only [setCursor, ne_eq, not_true_eq_false, if_false, setAddress_eq hready, hw.pos]
  exact crtcAddress_loaded hready (by omega) (by omega)

/-- What `con_init` establishes for console `c`. -/
structure Fresh (g : Geometry) (c : Nat) (hc : c < g.consoles) (v : Vc) : Prop where
  represents : (Window.initial g c hc).Represents v
  attr : v.attr = 0x07
  eraseChar : v.videoEraseChar = 0x0720

/-- Everything but the console records is as in `k`. -/
structure SameStatics (k k' : Console) : Prop where
  mem : k'.mem = k.mem
  crtc : k'.crtc = k.crtc
  fgConsole : k'.fgConsole = k.fgConsole
  nrConsoles : k'.nrConsoles = k.nrConsoles
  blankinterval : k'.blankinterval = k.blankinterval

/-! ## The records in closed form -/

/-- `gotoxy(currcons,0,0)` is inside any screen that has a line. -/
theorem gotoxy_home (h : k.videoNumLines ≠ 0) :
    gotoxy c 0 0 k = k.setVc c fun v => { v with x := 0, y := 0, pos := v.origin } := by
  have hin : ¬ (k.videoNumColumns < 0 ∨ k.videoNumLines ≤ 0) := by
    rintro (hcol | hline)
    · exact BitVec.not_lt_zero hcol
    · exact h (BitVec.le_zero_iff.mp hline)
  have hzero : ∀ v : Vc,
      v.origin + (0 : Word) * k.videoSizeRow + ((0 : Word) <<< 1) = v.origin := by
    intro v
    simp
  rw [gotoxy, if_neg hin]
  exact congrArg (k.setVc c) (funext fun v => by rw [hzero])

/-- A record moved to the share from `start` to `stop`, with the cursor in the corner. -/
def Vc.placed (v : Vc) (start stop screen : Word) : Vc :=
  { v with
    origin := start
    scrEnd := start + screen
    pos := start
    x := 0
    y := 0
    videoMemStart := start
    videoMemEnd := stop }

theorem conInitConsole_eq (h : k.videoNumLines ≠ 0) (base term : Word) :
    conInitConsole c base term k = k.setVc c fun _ =>
      (k.vcCons 0).placed base term (k.videoNumLines * k.videoSizeRow) := by
  rw [conInitConsole]
  simp only [Console.setVc_setVc]
  rw [gotoxy_home (by exact h), Console.setVc_setVc]
  rfl

/-- The loop places the consoles from `c` on, one share after the other. -/
theorem conInitLoop_eq (videoMemory : Word) (n : Nat) {c : Nat} (base term : Word)
    (h : k.videoNumLines ≠ 0) (hpos : 0 < c) :
    conInitLoop videoMemory n c base term k =
      { k with
        vcCons := fun d =>
          if c ≤ d ∧ d < c + n then
            (k.vcCons 0).placed (base + Word.of (d + 1 - c) * videoMemory)
              (term + Word.of (d + 1 - c) * videoMemory) (k.videoNumLines * k.videoSizeRow)
          else k.vcCons d } := by
  induction n generalizing c base term k with
  | zero =>
      have hnone : ∀ d, ¬ (c ≤ d ∧ d < c + 0) := fun d => by omega
      simp only [conInitLoop, if_neg (hnone _)]
  | succ n ih =>
      have hshift : ∀ (a : Word) {d : Nat}, c < d →
          a + videoMemory + Word.of (d + 1 - (c + 1)) * videoMemory =
            a + Word.of (d + 1 - c) * videoMemory := by
        intro a d hd
        have hone : d + 1 - c = d + 1 - (c + 1) + 1 := by omega
        rw [hone, ← Word.of_add_of, BitVec.add_mul, BitVec.add_comm (Word.of _ * _),
          BitVec.one_mul, BitVec.add_assoc]
      rw [conInitLoop, conInitConsole_eq h, ih _ _ (by exact h) (Nat.succ_pos c)]
      simp only [Console.setVc]
      congr 1
      funext d
      by_cases hrest : c + 1 ≤ d ∧ d < c + 1 + n
      · rw [if_pos hrest, if_pos (by omega), hshift base (by omega), hshift term (by omega),
          Function.update_of_ne (by omega)]
      · rw [if_neg hrest]
        by_cases heq : d = c
        · subst heq
          have hone : d + 1 - d = 1 := by omega
          rw [if_pos (by omega), Function.update_self, hone]
          simp
        · rw [if_neg (by omega), Function.update_of_ne heq]

/-- The members of the first console's record that its place does not determine. -/
def Vc.started (v : Vc) (lines : Word) : Vc :=
  { v with
    videoEraseChar := 0x0720
    attr := 0x07
    defAttr := 0x07
    boldAttr := -1
    ques := 0
    checkin := 0
    top := 0
    bottom := lines
    iscolor := 0 }

theorem conInitFirst_eq (h : k.videoNumLines ≠ 0) (videoMemory : Word) :
    conInitFirst videoMemory k = k.setVc 0 fun v => (v.started k.videoNumLines).placed
      k.videoMemBase (k.videoMemBase + videoMemory) (k.videoNumLines * k.videoSizeRow) := by
  rw [conInitFirst, gotoxy_home (by exact h), Console.setVc_setVc]
  rfl

/-- The number of consoles for a screen of `screen` bytes. -/
def consolesFor (screen : Nat) : Nat := max 1 (min maxConsoles (0x2000 / screen))

theorem one_le_consolesFor (screen : Nat) : 1 ≤ consolesFor screen := Nat.le_max_left ..

theorem consolesFor_le (screen : Nat) : consolesFor screen ≤ maxConsoles :=
  Nat.max_le.mpr ⟨by decide, Nat.min_le_left ..⟩

theorem clamp_eq {screen : Nat} (h : screen < 2 ^ 32) :
    clampConsoles (0x2000 / Word.of screen) = Word.of (consolesFor screen) := by
  have hle : 0x2000 / screen ≤ 0x2000 := Nat.div_le_self _ _
  have hdiv : (0x2000 / Word.of screen : Word) = Word.of (0x2000 / screen) := by
    apply BitVec.eq_of_toNat_eq
    rw [BitVec.toNat_udiv, Word.toNat_of h, Word.toNat_of (by omega)]
    rfl
  have hslt : (8 : Word).slt (Word.of (0x2000 / screen)) = true ↔ 8 < 0x2000 / screen := by
    rw [BitVec.slt_iff_toInt_lt, Word.toInt_of (by omega)]
    have : (8 : Word).toInt = 8 := rfl
    omega
  have hzero : (0 : Word) = Word.of 0 := rfl
  have hmax : maxConsoles = 8 := rfl
  rw [hdiv, clampConsoles, consolesFor, hmax]
  by_cases h8 : 8 < 0x2000 / screen
  · rw [if_pos (hslt.mpr h8), Nat.min_eq_left (by omega)]
    rfl
  · rw [if_neg (mt hslt.mp h8), Nat.min_eq_right (by omega), hzero]
    by_cases h0 : 0x2000 / screen = 0
    · rw [h0, if_pos rfl]
      rfl
    · rw [if_neg (by rw [Word.of_inj (by omega) (by omega)]; exact h0),
        Nat.max_eq_right (Nat.pos_of_ne_zero h0)]

theorem share_eq {n : Nat} (h8 : n ≤ maxConsoles) :
    (0x2000 : Word).sdiv (Word.of n) = Word.of (0x2000 / n) := by
  have hmax : maxConsoles = 8 := rfl
  have hshare : 0x2000 / n ≤ 0x2000 := Nat.div_le_self _ _
  have hmsb : (Word.of n).msb = false := by
    rw [BitVec.msb_eq_false_iff_two_mul_lt, Word.toNat_of (by omega)]
    omega
  have hmsb' : (0x2000 : Word).msb = false := by decide
  apply BitVec.eq_of_toNat_eq
  rw [BitVec.sdiv_eq, hmsb, hmsb', BitVec.udiv_eq, BitVec.toNat_udiv,
    Word.toNat_of (by omega), Word.toNat_of (by omega)]
  rfl

/-! ## The records of a geometry that fits -/

theorem Ready.lines_ne_zero (h : Ready g k) : k.videoNumLines ≠ 0 := by
  have hl := g.lines_le
  have hpos := g.lines_pos
  have hzero : (0 : Word) = Word.of 0 := rfl
  rw [h.lines, hzero, ne_eq, Word.of_inj (by omega) (by omega)]
  omega

theorem Ready.screen (h : Ready g k) :
    k.videoNumLines * k.videoSizeRow = Word.of g.screenBytes := by
  rw [h.lines, h.sizeRow, Word.of_mul_of, Geometry.screenBytes]

theorem Geometry.consoles_eq (g : Geometry) : consolesFor g.screenBytes = g.consoles :=
  Nat.max_eq_right g.consoles_pos

/-- A record moved to the share of console `c` represents its initial window. -/
theorem fresh_placed {v : Vc} (htop : v.top = 0) (hbottom : v.bottom = Word.of g.lines)
    (hattr : v.attr = 0x07) (herase : v.videoEraseChar = 0x0720) (hc : c < g.consoles) :
    Fresh g c hc (v.placed (Word.of (0xb8000 + c * g.share))
      (Word.of (0xb8000 + c * g.share + g.share)) (Word.of g.screenBytes)) := by
  have horigin : (Window.initial g c hc).origin = 0xb8000 + c * g.share := by
    simp [Window.origin, Window.initial]
  have hpos : (Window.initial g c hc).pos = 0xb8000 + c * g.share := by
    rw [Window.pos, horigin]
    simp [Window.initial]
  refine ⟨⟨?_, ?_, ?_, rfl, rfl, htop, hbottom, rfl, rfl⟩, hattr, herase⟩
  · rw [horigin]
    rfl
  · rw [Window.scrEnd, horigin, ← Word.of_add_of _ g.screenBytes]
    rfl
  · rw [hpos]
    rfl

theorem conInitLoop_spec {n : Nat} {base term : Word} {h0 : 0 < g.consoles} (h : Ready g k)
    (hbase : base = Word.of 0xb8000)
    (hterm : term = Word.of (0xb8000 + g.share)) (hfresh : Fresh g 0 h0 (k.vcCons 0)) :
    let k' := conInitLoop (Word.of g.share) n 1 base term k
    Ready g k' ∧ SameStatics k k' ∧
      ∀ d (hd : d < g.consoles), d < 1 + n → Fresh g d hd (k'.vcCons d) := by
  rw [conInitLoop_eq (Word.of g.share) n base term h.lines_ne_zero Nat.one_pos, h.screen]
  refine ⟨h.update .., ⟨rfl, rfl, rfl, rfl, rfl⟩, ?_⟩
  intro d hd hlt
  by_cases hzero : d = 0
  · subst hzero
    dsimp only
    rw [if_neg (by omega)]
    exact hfresh
  · have hstart : base + Word.of (d + 1 - 1) * Word.of g.share =
        Word.of (0xb8000 + d * g.share) := by
      rw [hbase, Nat.add_sub_cancel, Word.of_mul_of, Word.of_add_of]
    have hstop : term + Word.of (d + 1 - 1) * Word.of g.share =
        Word.of (0xb8000 + d * g.share + g.share) := by
      rw [hterm, Nat.add_sub_cancel, Word.of_mul_of, Word.of_add_of, Nat.add_right_comm]
    dsimp only
    rw [if_pos (by omega), hstart, hstop]
    exact fresh_placed hfresh.represents.top hfresh.represents.bottom hfresh.attr
      hfresh.eraseChar hd

/-! ## The whole of `con_init` -/

/-- The state `con_init` leaves behind. -/
structure Initialised (g : Geometry) (k k' : Console) : Prop where
  ready : Ready g k'
  nrConsoles : k'.nrConsoles = Word.of g.consoles
  fresh : ∀ c (hc : c < g.consoles), Fresh g c hc (k'.vcCons c)
  mem : k'.mem = k.mem
  fgConsole : k'.fgConsole = k.fgConsole
  originShown : ∀ hc : k.fgConsole < g.consoles,
    OriginShown (Window.initial g k.fgConsole hc) k'
  cursorShown : ∀ hc : k.fgConsole < g.consoles,
    CursorShown (Window.initial g k.fgConsole hc) k'

theorem conInitStatics_ready (h : Reports k.mem g) : Ready g (conInitStatics k) where
  columns := h.columns
  lines := h.lines
  sizeRow := by
    have htwo : (2 : Word) = Word.of 2 := rfl
    change origVideoCols k.mem * 2 = _
    rw [h.columns, htwo, Word.of_mul_of, Geometry.rowBytes, Nat.mul_comm]
  memBase := rfl
  type := rfl
  portReg := rfl
  portVal := rfl

theorem conInitFirst_fresh (h : Ready g k) :
    ∃ f, conInitFirst (Word.of g.share) k = k.setVc 0 f ∧
      Fresh g 0 g.consoles_pos (f (k.vcCons 0)) := by
  have hfresh := fresh_placed (v := (k.vcCons 0).started k.videoNumLines) rfl h.lines rfl rfl
    g.consoles_pos
  rw [Nat.zero_mul, Nat.add_zero, ← Word.of_add_of, ← h.screen, ← h.memBase] at hfresh
  exact ⟨_, conInitFirst_eq h.lines_ne_zero _, hfresh⟩

/-- `update_screen` changes the controller and the blanking counter only. -/
theorem updateScreen_eq (h : Ready g k) :
    updateScreen k =
      { k with
        blankcount := k.blankinterval
        crtc := loadedCrtc 14 (k.vcCons k.fgConsole).pos
          { k with
            blankcount := k.blankinterval
            crtc := loadedCrtc 12 (k.vcCons k.fgConsole).origin k } } := by
  have horigin : setOrigin k.fgConsole k =
      { k with crtc := loadedCrtc 12 (k.vcCons k.fgConsole).origin k } := by
    rw [setOrigin, if_neg (not_not.mpr rfl), setAddress_eq h]
  have hready : Ready g { k with
      blankcount := k.blankinterval
      crtc := loadedCrtc 12 (k.vcCons k.fgConsole).origin k } :=
    h.update ..
  rw [updateScreen, horigin]
  simp only [setCursor, ne_eq, not_true_eq_false, if_false, setAddress_eq hready]

theorem updateScreen_shows (h : Ready g k) (hw : w.Represents (k.vcCons k.fgConsole)) :
    OriginShown w (updateScreen k) ∧ CursorShown w (updateScreen k) := by
  have hb := w.bounds
  have hready : Ready g { k with
      blankcount := k.blankinterval
      crtc := loadedCrtc 12 (k.vcCons k.fgConsole).origin k } :=
    h.update ..
  rw [updateScreen_eq h, hw.pos, hw.origin]
  constructor
  · exact (crtcAddress_loaded_ne _ (by decide)).trans
      (crtcAddress_loaded h (by omega) (by omega))
  · rw [hw.origin] at hready
    exact crtcAddress_loaded hready (by omega) (by omega)

/-- The statics once the number of consoles is known. -/
def countedStatics (g : Geometry) (k : Console) : Console :=
  { conInitStatics k with nrConsoles := Word.of g.consoles }

/-- `con_init` with its divisions carried out, for a screen of any size. -/
theorem conInit_counted {screen : Nat}
    (h : origVideoLines k.mem * (origVideoCols k.mem * 2) = Word.of screen) (hpos : 0 < screen)
    (hlt : screen < 2 ^ 32) :
    let share := Word.of (0x2000 / consolesFor screen)
    conInit k = .ok (updateScreen (conInitLoop share (consolesFor screen - 1) 1
      (Word.of 0xb8000) (Word.of 0xb8000 + share) (conInitFirst share
        { conInitStatics k with nrConsoles := Word.of (consolesFor screen) }))) := by
  have hmemory : (conInitStatics k).videoMemTerm - (conInitStatics k).videoMemBase = 0x2000 := by
    change (0xba000 : Word) - 0xb8000 = 0x2000
    decide
  have hscreen : (conInitStatics k).videoNumLines * (conInitStatics k).videoSizeRow =
      Word.of screen := h
  have hzero : (0 : Word) = Word.of 0 := rfl
  have hne : ¬ Word.of screen = 0 := by
    rw [hzero, Word.of_inj hlt (by omega)]
    omega
  have hlines : origVideoLines k.mem ≠ 0 := by
    intro hl
    rw [hl] at h
    exact hne (h.symm.trans BitVec.zero_mul)
  have hle : consolesFor screen ≤ 8 := consolesFor_le screen
  have hcount : (Word.of (consolesFor screen)).toInt.toNat - 1 = consolesFor screen - 1 := by
    rw [Word.toInt_of (by omega), Int.toNat_natCast]
  simp only [conInit, hmemory, hscreen, if_neg hne, clamp_eq hlt, share_eq hle]
  rw [← hcount, conInitFirst_eq (by exact hlines)]
  rfl

/-- `con_init` on a geometry that fits. -/
theorem conInit_eq (h : Reports k.mem g) :
    conInit k = .ok (updateScreen (conInitLoop (Word.of g.share) (g.consoles - 1) 1
      (Word.of 0xb8000) (Word.of 0xb8000 + Word.of g.share)
      (conInitFirst (Word.of g.share) (countedStatics g k)))) := by
  have hscreen : origVideoLines k.mem * (origVideoCols k.mem * 2) = Word.of g.screenBytes :=
    (conInitStatics_ready h).screen
  have hle := g.screenBytes_le
  have hcounted := conInit_counted hscreen g.screenBytes_pos (by omega)
  rwa [g.consoles_eq] at hcounted

/-- For every geometry that fits, `con_init` returns, and every console it
counts starts at its own share of the video memory. -/
theorem conInit_spec (h : Reports k.mem g) : ∃ k', conInit k = .ok k' ∧ Initialised g k k' := by
  have hstatics := conInitStatics_ready h
  have hready : Ready g (countedStatics g k) :=
    ⟨hstatics.columns, hstatics.lines, hstatics.sizeRow, rfl, rfl, rfl, rfl⟩
  obtain ⟨f, hfirst, hf⟩ := conInitFirst_fresh hready
  have hready' : Ready g ((countedStatics g k).setVc 0 f) :=
    ⟨hstatics.columns, hstatics.lines, hstatics.sizeRow, rfl, rfl, rfl, rfl⟩
  have hconsoles := g.consoles_pos
  obtain ⟨hr, hs, hall⟩ := conInitLoop_spec (n := g.consoles - 1) hready' rfl
    (Word.of_add_of 0xb8000 g.share)
    (by
      rw [Console.setVc_vcCons_same]
      exact hf)
  refine ⟨_, conInit_eq h, ?_⟩
  rw [hfirst]
  generalize conInitLoop (Word.of g.share) (g.consoles - 1) 1 (Word.of 0xb8000)
    (Word.of 0xb8000 + Word.of g.share) ((countedStatics g k).setVc 0 f) = k' at hr hs hall
  have heq := updateScreen_eq hr
  have hfg : k'.fgConsole = k.fgConsole := hs.fgConsole
  have hshows : ∀ hc : k.fgConsole < g.consoles,
      OriginShown (Window.initial g k.fgConsole hc) (updateScreen k') ∧
        CursorShown (Window.initial g k.fgConsole hc) (updateScreen k') := by
    intro hc
    refine updateScreen_shows hr ?_
    rw [hfg]
    exact (hall _ hc (by omega)).represents
  refine ⟨?_, ?_, ?_, ?_, ?_, fun hc => (hshows hc).1, fun hc => (hshows hc).2⟩
  all_goals rw [heq]
  · exact ⟨hr.columns, hr.lines, hr.sizeRow, hr.memBase, hr.type, hr.portReg, hr.portVal⟩
  · exact hs.nrConsoles
  · intro c hc
    exact hall c hc (by omega)
  · exact hs.mem
  · exact hfg

end MySystem
