import MySystem.Console.Window

/-!
# What each driver operation does to its console

`Step` is the frame of an operation on one console: its record represents the
new window, no other record changes, only bytes of its region are stored to,
and the controller changes only for the foreground console. Each helper of the
driver gets one `Step` lemma, and every later result about the driver composes
these lemmas instead of unfolding the code again.
-/

namespace MySystem

open Machine

variable {g : Geometry} {c : Nat} {w w' w'' : Window g} {k k' k'' : Console}

/-- The address held by a pair of controller registers, high byte first. -/
def Console.crtcAddress (k : Console) (reg : Byte) : Nat :=
  (k.crtc.regs reg).toNat * 256 + (k.crtc.regs (reg + 1)).toNat

/-- The statics `con_init` sets up for the geometry `g`. -/
structure Ready (g : Geometry) (k : Console) : Prop where
  columns : k.videoNumColumns = Word.of g.columns
  lines : k.videoNumLines = Word.of g.lines
  sizeRow : k.videoSizeRow = Word.of g.rowBytes
  memBase : k.videoMemBase = Word.of 0xb8000
  type : k.videoType = videoTypeEgac
  portReg : k.videoPortReg = 0x3d4
  portVal : k.videoPortVal = 0x3d5

/-- Memory, controller, records and the blanking counter are no part of `Ready`. -/
theorem Ready.update (h : Ready g k) (m : Memory) (crtc : Crtc) (blankcount : Word)
    (vcCons : Nat → Vc) :
    Ready g
      { k with mem := m, crtc := crtc, blankcount := blankcount, vcCons := vcCons } :=
  ⟨h.columns, h.lines, h.sizeRow, h.memBase, h.type, h.portReg, h.portVal⟩

/-- The controller's start address is the origin of the window, in cells. -/
def OriginShown (w : Window g) (k : Console) : Prop :=
  k.crtcAddress 12 = (w.origin - 0xb8000) / 2

/-- The effect of an operation on console `c` that moves its screen from `w` to `w'`. -/
structure Step (c : Nat) (w w' : Window g) (k k' : Console) : Prop where
  ready : Ready g k'
  represents : w'.Represents (k'.vcCons c)
  attr : (k'.vcCons c).attr = (k.vcCons c).attr
  eraseChar : (k'.vcCons c).videoEraseChar = (k.vcCons c).videoEraseChar
  others : ∀ d, d ≠ c → k'.vcCons d = k.vcCons d
  writes : Memory.Writes w.start w.stop k.mem k'.mem
  start : w'.start = w.start
  stop : w'.stop = w.stop
  fgConsole : k'.fgConsole = k.fgConsole
  nrConsoles : k'.nrConsoles = k.nrConsoles
  background : c ≠ k.fgConsole → k'.crtc = k.crtc
  shown : c = k.fgConsole → OriginShown w k → OriginShown w' k'

namespace Step

theorem refl (h : Ready g k) (hw : w.Represents (k.vcCons c)) : Step c w w k k where
  ready := h
  represents := hw
  attr := rfl
  eraseChar := rfl
  others _ _ := rfl
  writes := .refl ..
  start := rfl
  stop := rfl
  fgConsole := rfl
  nrConsoles := rfl
  background _ := rfl
  shown _ h := h

theorem trans (h : Step c w w' k k') (h' : Step c w' w'' k' k'') : Step c w w'' k k'' where
  ready := h'.ready
  represents := h'.represents
  attr := h'.attr.trans h.attr
  eraseChar := h'.eraseChar.trans h.eraseChar
  others d hd := (h'.others d hd).trans (h.others d hd)
  writes := by
    have hw := h'.writes
    rw [h.start, h.stop] at hw
    exact h.writes.trans hw
  start := h'.start.trans h.start
  stop := h'.stop.trans h.stop
  fgConsole := h'.fgConsole.trans h.fgConsole
  nrConsoles := h'.nrConsoles.trans h.nrConsoles
  background hc := (h'.background (by rw [h.fgConsole]; exact hc)).trans (h.background hc)
  shown hc ho := h'.shown (by rw [h.fgConsole]; exact hc) (h.shown hc ho)

end Step

/-! ## The controller -/

private theorem lowByte_toNat (v : Word) :
    (((0xff : Word) &&& v).setWidth 8).toNat = v.toNat % 256 := by
  have h : (0xff : Word).toNat &&& v.toNat = v.toNat % 256 := by
    rw [Nat.and_comm]
    exact Nat.and_two_pow_sub_one_eq_mod _ 8
  rw [BitVec.toNat_setWidth, BitVec.toNat_and, h]
  exact Nat.mod_mod _ _

/-- A port write touches the controller only. -/
theorem outbP_crtc (k : Console) (value : Byte) (port : Half) :
    k.outbP value port = { k with crtc := (k.outbP value port).crtc } := by
  rw [Console.outbP]
  split
  · rfl
  · split <;> rfl

theorem setAddress_crtc (reg : Byte) (a : Word) (k : Console) :
    setAddress reg a k = { k with crtc := (setAddress reg a k).crtc } := by
  rw [setAddress, outbP_crtc, outbP_crtc (Console.outbP _ _ _), outbP_crtc (Console.outbP _ _ _),
    outbP_crtc k]

theorem setOrigin_crtc (c : Nat) (k : Console) :
    setOrigin c k = { k with crtc := (setOrigin c k).crtc } := by
  rw [setOrigin]
  split
  · rfl
  · exact setAddress_crtc ..

theorem setCursor_crtc (c : Nat) (k : Console) :
    setCursor c k =
      { k with blankcount := k.blankinterval, crtc := (setCursor c k).crtc } := by
  rw [setCursor]
  dsimp only
  split
  · rfl
  · exact setAddress_crtc 14 _ { k with blankcount := k.blankinterval }

/-- The controller after an address has been loaded into a register pair. -/
def loadedCrtc (reg : Byte) (a : Word) (k : Console) : Crtc where
  index := reg + 1
  regs := Function.update
    (Function.update k.crtc.regs reg (((0xff : Word) &&& ((a - k.videoMemBase) >>> 9)).setWidth 8))
    (reg + 1) (((0xff : Word) &&& ((a - k.videoMemBase) >>> 1)).setWidth 8)

theorem setAddress_eq (h : Ready g k) (reg : Byte) (a : Word) :
    setAddress reg a k = { k with crtc := loadedCrtc reg a k } := by
  simp [setAddress, Console.outbP, h.portReg, h.portVal, loadedCrtc]

/-- The shift-and-mask split of an address in the video window loses nothing. -/
theorem crtcAddress_loaded (h : Ready g k) {reg : Byte} {a : Nat}
    (hlo : 0xb8000 ≤ a) (hhi : a ≤ 0xba000) :
    { k with crtc := loadedCrtc reg (Word.of a) k }.crtcAddress reg = (a - 0xb8000) / 2 := by
  have hne : reg ≠ reg + 1 := by bv_omega
  have hsub : Word.of a - Word.of 0xb8000 = Word.of (a - 0xb8000) :=
    Word.of_sub_of (by omega) hlo
  rw [Console.crtcAddress, loadedCrtc]
  simp only [Function.update_self, Function.update_of_ne hne, lowByte_toNat, h.memBase, hsub]
  rw [Word.of_shiftRight (by omega), Word.of_shiftRight (by omega), Word.toNat_of (by omega),
    Word.toNat_of (by omega)]
  omega

/-- Loading a register pair leaves the other pair alone. -/
theorem crtcAddress_loaded_ne {reg reg' : Byte} (a : Word)
    (h : reg' ≠ reg ∧ reg' ≠ reg + 1 ∧ reg' + 1 ≠ reg) :
    { k with crtc := loadedCrtc reg a k }.crtcAddress reg' = k.crtcAddress reg' := by
  have h3 : reg' + 1 ≠ reg + 1 := by
    intro he
    exact h.1 (by bv_omega)
  simp only [Console.crtcAddress, loadedCrtc, Function.update_of_ne h.1,
    Function.update_of_ne h.2.1, Function.update_of_ne h.2.2, Function.update_of_ne h3]

/-! ## Operations on the record alone -/

/-- An assignment to the record that keeps the origin where it is. -/
theorem Step.setVc {f : Vc → Vc} (h : Ready g k) (hw : w'.Represents (f (k.vcCons c)))
    (attr : (f (k.vcCons c)).attr = (k.vcCons c).attr)
    (eraseChar : (f (k.vcCons c)).videoEraseChar = (k.vcCons c).videoEraseChar)
    (start : w'.start = w.start) (stop : w'.stop = w.stop) (origin : w'.origin = w.origin) :
    Step c w w' k (k.setVc c f) where
  ready := h.update ..
  represents := by rwa [Console.setVc_vcCons_same]
  attr := by rwa [Console.setVc_vcCons_same]
  eraseChar := by rwa [Console.setVc_vcCons_same]
  others d hd := Console.setVc_vcCons_ne _ _ hd
  writes := .refl ..
  start := start
  stop := stop
  fgConsole := rfl
  nrConsoles := rfl
  background _ := rfl
  shown _ ho := by
    rw [OriginShown, origin]
    exact ho

theorem cr_step (h : Ready g k) (hw : w.Represents (k.vcCons c)) :
    Step c w w.carriageReturn k (cr c k) := by
  have hb := w.bounds
  have hpos : w.carriageReturn.pos = w.pos - 2 * w.x := by
    simp only [Window.pos, Window.carriageReturn, Window.origin]
    omega
  have hx : 2 * w.x ≤ w.pos := by
    rw [Window.pos]
    omega
  refine Step.setVc h ⟨hw.origin, hw.scrEnd, ?_, rfl, hw.y, hw.top, hw.bottom,
    hw.videoMemStart, hw.videoMemEnd⟩ rfl rfl rfl rfl rfl
  rw [hpos, ← Word.of_sub_of (by omega) hx, ← Word.of_shiftLeft_one, ← hw.pos, ← hw.x]

/-- `y + 1 < bottom` compares the numbers the record represents. -/
theorem lf_test (hw : w.Represents (k.vcCons c)) :
    (k.vcCons c).y + 1 < (k.vcCons c).bottom ↔ w.y + 1 < g.lines := by
  have := w.y_lt
  have := g.lines_le
  have h1 : Word.of w.y + 1 = Word.of (w.y + 1) := Word.of_add_of w.y 1
  rw [hw.y, hw.bottom, h1, Word.of_lt_of (by omega) (by omega)]

theorem lf_down_step (h : Ready g k) (hw : w.Represents (k.vcCons c))
    (hy : w.y + 1 < g.lines) : Step c w w.lineFeed k (lf c k) := by
  have hlf : lf c k =
      k.setVc c fun v => { v with y := v.y + 1, pos := v.pos + k.videoSizeRow } := by
    simp only [lf, if_pos ((lf_test hw).mpr hy)]
  have hline : w.lineFeed = { w with y := w.y + 1, y_lt := hy } := dif_pos hy
  have hpos : w.lineFeed.pos = w.pos + g.rowBytes := by
    simp only [hline, Window.pos, Window.origin, Nat.succ_mul]
    omega
  rw [hlf, hline]
  rw [hline] at hpos
  refine Step.setVc h ⟨hw.origin, hw.scrEnd, ?_, hw.x, ?_, hw.top, hw.bottom,
    hw.videoMemStart, hw.videoMemEnd⟩ rfl rfl rfl rfl rfl
  · rw [hpos, ← Word.of_add_of, ← hw.pos, ← h.sizeRow]
  · rw [← Word.of_add_of, ← hw.y]
    rfl

/-- `gotoxy` either moves the cursor inside the screen or does nothing. -/
theorem gotoxy_step (h : Ready g k) (hw : w.Represents (k.vcCons c)) (newX newY : Word) :
    ∃ w', Step c w w' k (gotoxy c newX newY k) := by
  have hb := w.bounds
  by_cases hout : k.videoNumColumns < newX ∨ k.videoNumLines ≤ newY
  · rw [gotoxy, if_pos hout]
    exact ⟨w, .refl h hw⟩
  · have hs := g.screenBytes_le
    have hc := g.columns_le
    have hl := g.lines_le
    rw [gotoxy, if_neg hout]
    rw [not_or, BitVec.not_lt, BitVec.not_le, h.columns, h.lines, BitVec.le_def,
      BitVec.lt_def, Word.toNat_of (by omega), Word.toNat_of (by omega)] at hout
    refine ⟨w.moveTo newX.toNat newY.toNat hout.1 hout.2, Step.setVc h
      ⟨hw.origin, hw.scrEnd, ?_, (Word.of_toNat _).symm, (Word.of_toNat _).symm, hw.top,
        hw.bottom, hw.videoMemStart, hw.videoMemEnd⟩ rfl rfl rfl rfl rfl⟩
    have hpos : (w.moveTo newX.toNat newY.toNat hout.1 hout.2).pos =
        w.origin + newY.toNat * g.rowBytes + 2 * newX.toNat := rfl
    rw [hpos, ← Word.of_add_of, ← Word.of_add_of, ← Word.of_mul_of, ← Word.of_shiftLeft_one,
      Word.of_toNat, Word.of_toNat, ← hw.origin, ← h.sizeRow]

/-! ## Scrolling -/

/-- The memory after a full-screen scroll of the window `w`. -/
def Window.scrollMem (w : Window g) (erase : Half) (m : Memory) : Memory :=
  if w.Slides then Memory.repStosw 2 erase g.columns (Word.of w.scrEnd) m
  else
    Memory.repStosw 2 erase g.columns (Word.of (w.start + (g.lines - 1) * g.rowBytes))
      (Memory.repMovsl 4 ((g.lines - 1) * g.columns / 2) (Word.of (w.origin + g.rowBytes))
        (Word.of w.start) m).1

/-- The record after a full-screen scroll of the window `w`. -/
def Window.scrollVc (w : Window g) (v : Vc) : Vc :=
  { v with
    origin := Word.of w.scroll.origin
    pos := Word.of w.scroll.pos
    scrEnd := Word.of w.scroll.scrEnd }

theorem Window.scrollVc_represents {v : Vc} (hw : w.Represents v) :
    w.scroll.Represents (w.scrollVc v) where
  origin := rfl
  scrEnd := rfl
  pos := rfl
  x := by rw [w.scroll_x]; exact hw.x
  y := by rw [w.scroll_y]; exact hw.y
  top := hw.top
  bottom := hw.bottom
  videoMemStart := by rw [w.scroll_start]; exact hw.videoMemStart
  videoMemEnd := by rw [w.scroll_stop]; exact hw.videoMemEnd

private theorem slideOrigin_vc (h : Ready g k) (hw : w.Represents (k.vcCons c)) :
    (slideOrigin c k).vcCons c =
      { k.vcCons c with
        origin := Word.of (w.origin + g.rowBytes)
        pos := Word.of (w.pos + g.rowBytes)
        scrEnd := Word.of (w.scrEnd + g.rowBytes) } := by
  rw [slideOrigin, Console.setVc_vcCons_same, hw.origin, hw.pos, hw.scrEnd, h.sizeRow,
    Word.of_add_of, Word.of_add_of, Word.of_add_of]

/-- The slid window is compared with the end of the region. -/
private theorem slide_test (hw : w.Represents (k.vcCons c)) :
    (k.vcCons c).videoMemEnd < Word.of (w.scrEnd + g.rowBytes) ↔ ¬ w.Slides := by
  have hb := w.bounds
  have := g.rowBytes_le
  have := g.screenBytes_le
  rw [hw.videoMemEnd, Word.of_lt_of (by omega) (by omega), Window.Slides, Window.scrEnd,
    Window.origin, Nat.succ_mul]
  omega

private theorem scrupErase_eq (h : Ready g k) (hw : w.Represents (k.vcCons c))
    (hs : w.Slides) :
    scrupErase c (slideOrigin c k) =
      { k with mem := w.scrollMem (k.vcCons c).videoEraseChar k.mem }.setVc c w.scrollVc := by
  have hb := w.bounds
  have hcol := g.columns_le
  have hedi : Word.of (w.scrEnd + g.rowBytes) - k.videoSizeRow = Word.of w.scrEnd := by
    rw [h.sizeRow, ← Word.of_add_of, BitVec.add_sub_cancel]
  have horigin := Window.scroll_origin_of_slides hs
  have hpos : w.scroll.pos = w.pos + g.rowBytes := by
    rw [Window.pos, horigin, w.scroll_x, w.scroll_y, Window.pos]
    omega
  have hend : w.scroll.scrEnd = w.scrEnd + g.rowBytes := by
    rw [Window.scrEnd, horigin, Window.scrEnd]
    omega
  have hcols : (slideOrigin c k).videoNumColumns.toNat = g.columns :=
    (congrArg BitVec.toNat h.columns).trans (Word.toNat_of (by omega))
  have hvc : (slideOrigin c k).vcCons =
      Function.update k.vcCons c (w.scrollVc (k.vcCons c)) := by
    rw [slideOrigin, Console.setVc, Window.scrollVc, horigin, hpos, hend, hw.origin, hw.pos,
      hw.scrEnd, h.sizeRow, Word.of_add_of, Word.of_add_of, Word.of_add_of]
  have hsize : (slideOrigin c k).videoSizeRow = k.videoSizeRow := rfl
  simp only [scrupErase, slideOrigin_vc h hw, hsize, hedi, hcols, hvc, Window.scrollMem,
    if_pos hs, Console.setVc]
  rfl

/-- The dword count of `n` rows, computed in 32-bit arithmetic. -/
theorem dwords_toNat {n : Nat} (hn : n ≤ g.lines) :
    ((Word.of n * Word.of g.columns) >>> 1).toNat = n * g.columns / 2 := by
  have hrows := Nat.mul_le_mul_right g.rowBytes hn
  have hcells : n * g.rowBytes = 2 * (n * g.columns) := by
    rw [Geometry.rowBytes, Nat.mul_left_comm]
  have : g.lines * g.rowBytes = g.screenBytes := rfl
  have := g.screenBytes_le
  rw [Word.of_mul_of, Word.of_shiftRight (by omega), Word.toNat_of (by omega), Nat.pow_one]

private theorem scrupRewind_mem (h : Ready g k) (hw : w.Represents (k.vcCons c))
    (hs : ¬ w.Slides) :
    (scrupRewind c (slideOrigin c k)).mem =
      w.scrollMem (k.vcCons c).videoEraseChar k.mem := by
  have hpos := g.lines_pos
  have hl := g.lines_le
  have hcol := g.columns_le
  have hcols : g.columns < 2 ^ 32 := by omega
  have hlines : (slideOrigin c k).videoNumLines - 1 = Word.of (g.lines - 1) := by
    have hone : (1 : Word) = Word.of 1 := rfl
    have hlines' : (slideOrigin c k).videoNumLines = Word.of g.lines := h.lines
    rw [hlines', hone, Word.of_sub_of (by omega) hpos]
  have hcolumns : (slideOrigin c k).videoNumColumns = Word.of g.columns := h.columns
  have hedi : Word.of w.start + Word.of ((g.lines - 1) * g.columns / 2) * 4 =
      Word.of (w.start + (g.lines - 1) * g.rowBytes) := by
    have hfour : (4 : Word) = Word.of 4 := rfl
    rw [hfour, Word.of_mul_of, Word.of_add_of, Nat.mul_comm _ 4, g.rows_dwords]
  simp only [scrupRewind, slideOrigin_vc h hw, hlines, hcolumns, dwords_toNat (Nat.sub_le _ _),
    Memory.repMovsl_edi, hw.videoMemStart, hedi, Word.toNat_of hcols, Window.scrollMem,
    if_neg hs, Console.setVc]
  rfl

private theorem scrupRewind_vcCons (h : Ready g k) (hw : w.Represents (k.vcCons c))
    (hs : ¬ w.Slides) :
    (scrupRewind c (slideOrigin c k)).vcCons =
      Function.update k.vcCons c (w.scrollVc (k.vcCons c)) := by
  have hb := w.bounds
  have hrow := g.rowBytes_le
  have hscreen := g.screenBytes_le
  have horigin := Window.scroll_origin_of_not_slides hs
  have hposw : w.pos = w.origin + w.y * g.rowBytes + 2 * w.x := rfl
  have hpos : w.scroll.pos = w.pos - (w.origin - w.start) := by
    rw [Window.pos, horigin, w.scroll_x, w.scroll_y]
    omega
  have hend : w.scroll.scrEnd = w.scrEnd - (w.origin - w.start) := by
    rw [Window.scrEnd, horigin, Window.scrEnd]
    omega
  -- both words are moved back by the distance the origin has slid
  have hdelta : Word.of (w.origin + g.rowBytes) - Word.of w.scroll.origin =
      Word.of (w.origin + g.rowBytes - w.start) := by
    rw [horigin, Word.of_sub_of (by omega) (by omega)]
  have hpos' : Word.of (w.pos + g.rowBytes) - Word.of (w.origin + g.rowBytes - w.start) =
      Word.of w.scroll.pos := by
    rw [Word.of_sub_of (by omega) (by omega), hpos]
    congr 1
    omega
  have hend' : Word.of (w.scrEnd + g.rowBytes) - Word.of (w.origin + g.rowBytes - w.start) =
      Word.of w.scroll.scrEnd := by
    rw [Word.of_sub_of (by omega) (by omega), hend]
    congr 1
    omega
  have hstart : (k.vcCons c).videoMemStart = Word.of w.scroll.origin := by
    rw [horigin, hw.videoMemStart]
  have hvc : (slideOrigin c k).vcCons = Function.update k.vcCons c
      { k.vcCons c with
        origin := Word.of (w.origin + g.rowBytes)
        pos := Word.of (w.pos + g.rowBytes)
        scrEnd := Word.of (w.scrEnd + g.rowBytes) } := by
    rw [← slideOrigin_vc h hw, slideOrigin, Console.setVc_vcCons_same, Console.setVc]
  simp only [scrupRewind, Console.setVc, hvc, Function.update_self, Function.update_idem,
    hdelta, hpos', hend', Window.scrollVc, hstart]

/-- The scroll region, the whole screen, is not empty. -/
private theorem region_open (hw : w.Represents (k.vcCons c)) :
    ¬ (k.vcCons c).bottom ≤ (k.vcCons c).top := by
  have hl := g.lines_le
  have hpos := g.lines_pos
  have hzero : (0 : Word) = Word.of 0 := rfl
  rw [hw.bottom, hw.top, hzero, Word.of_le_of (by omega) (by omega)]
  omega

/-- A full-screen scroll in closed form, whichever of its two paths runs. -/
theorem scrup_eq (h : Ready g k) (hw : w.Represents (k.vcCons c)) :
    scrup c k = setOrigin c
      ({ k with mem := w.scrollMem (k.vcCons c).videoEraseChar k.mem }.setVc c w.scrollVc) := by
  have hb := w.bounds
  have hl := g.lines_le
  have hpos := g.lines_pos
  have hopen := region_open hw
  have hfull : (k.vcCons c).top = 0 ∧ (k.vcCons c).bottom = k.videoNumLines :=
    ⟨hw.top, hw.bottom.trans h.lines.symm⟩
  have htest : ((slideOrigin c k).vcCons c).videoMemEnd < ((slideOrigin c k).vcCons c).scrEnd ↔
      ¬ w.Slides := by
    rw [slideOrigin_vc h hw]
    exact slide_test hw
  have hega : k.videoType = videoTypeEgac ∨ k.videoType = videoTypeEgam := Or.inl h.type
  simp only [scrup, if_neg hopen, if_pos hega, if_pos hfull]
  by_cases hs : w.Slides
  · rw [if_neg (by rw [htest]; exact not_not.mpr hs), scrupErase_eq h hw hs]
  · rw [if_pos (htest.mpr hs)]
    have hrest : scrupRewind c (slideOrigin c k) =
        { k with
          mem := (scrupRewind c (slideOrigin c k)).mem
          vcCons := (scrupRewind c (slideOrigin c k)).vcCons } := rfl
    rw [hrest, scrupRewind_mem h hw hs, scrupRewind_vcCons h hw hs]
    rfl

theorem scrollMem_writes (w : Window g) (erase : Half) (m : Memory) :
    Memory.Writes w.start w.stop m (w.scrollMem erase m) := by
  have hb := w.bounds
  have hrow : g.rowBytes = 2 * g.columns := rfl
  have hlast := g.last_row
  have hfits := w.fits
  rw [Window.scrollMem]
  split
  case isTrue hs =>
    rw [Window.Slides, Nat.succ_mul] at hs
    have hend : w.scrEnd = w.start + w.row * g.rowBytes + g.screenBytes := rfl
    exact Memory.Writes.repStosw_up _ _ (by omega) (by omega) (by omega)
  case isFalse =>
    have hcopy : Memory.Writes w.start w.stop m _ :=
      Memory.Writes.repMovsl_up (w.origin + g.rowBytes) ((g.lines - 1) * g.columns / 2)
        (Nat.le_refl _) (by rw [g.rows_dwords]; omega) (by omega)
    exact hcopy.trans (Memory.Writes.repStosw_up _ _ (by omega) (by omega) (by omega))

/-- `set_origin` shows the origin of the console it is called for. -/
theorem setOrigin_step (h : Ready g k') (hw : w'.Represents (k'.vcCons c))
    (attr : (k'.vcCons c).attr = (k.vcCons c).attr)
    (eraseChar : (k'.vcCons c).videoEraseChar = (k.vcCons c).videoEraseChar)
    (others : ∀ d, d ≠ c → k'.vcCons d = k.vcCons d)
    (writes : Memory.Writes w.start w.stop k.mem k'.mem)
    (start : w'.start = w.start) (stop : w'.stop = w.stop)
    (fgConsole : k'.fgConsole = k.fgConsole) (nrConsoles : k'.nrConsoles = k.nrConsoles)
    (crtc : k'.crtc = k.crtc) : Step c w w' k (setOrigin c k') := by
  by_cases hc : c = k'.fgConsole
  · have heq : setOrigin c k' =
        { k' with crtc := loadedCrtc 12 (k'.vcCons c).origin k' } := by
      rw [setOrigin, if_neg (not_not.mpr hc), setAddress_eq h]
    rw [heq]
    exact {
      ready := h.update ..
      represents := hw
      attr := attr
      eraseChar := eraseChar
      others := others
      writes := writes
      start := start
      stop := stop
      fgConsole := fgConsole
      nrConsoles := nrConsoles
      background := fun hne => absurd (hc.trans fgConsole) hne
      shown := fun _ _ => by
        have hb := w'.bounds
        rw [OriginShown, hw.origin]
        exact crtcAddress_loaded h (by omega) (by omega) }
  · have heq : setOrigin c k' = k' := by rw [setOrigin, if_pos hc]
    rw [heq]
    exact {
      ready := h
      represents := hw
      attr := attr
      eraseChar := eraseChar
      others := others
      writes := writes
      start := start
      stop := stop
      fgConsole := fgConsole
      nrConsoles := nrConsoles
      background := fun _ => crtc
      shown := fun heq => absurd (heq.trans fgConsole.symm) hc }

theorem scrup_step (h : Ready g k) (hw : w.Represents (k.vcCons c)) :
    Step c w w.scroll k (scrup c k) := by
  rw [scrup_eq h hw]
  apply setOrigin_step
  case h => exact h.update ..
  case hw =>
    rw [Console.setVc_vcCons_same]
    exact Window.scrollVc_represents hw
  case attr => rw [Console.setVc_vcCons_same]; rfl
  case eraseChar => rw [Console.setVc_vcCons_same]; rfl
  case others => exact fun d hd => Console.setVc_vcCons_ne _ _ hd
  case writes => exact scrollMem_writes w _ _
  case start => exact w.scroll_start
  case stop => exact w.scroll_stop
  all_goals rfl

theorem lf_step (h : Ready g k) (hw : w.Represents (k.vcCons c)) :
    Step c w w.lineFeed k (lf c k) := by
  by_cases hy : w.y + 1 < g.lines
  · exact lf_down_step h hw hy
  · have hlf : lf c k = scrup c k := by
      simp only [lf, if_neg (mt (lf_test hw).mp hy)]
    have hline : w.lineFeed = w.scroll := dif_neg hy
    rw [hlf, hline]
    exact scrup_step h hw

/-! ## Stores inside the screen -/

/-- A change of memory alone, inside the console's region. -/
theorem Step.store {m : Memory} (h : Ready g k) (hw : w.Represents (k.vcCons c))
    (writes : Memory.Writes w.start w.stop k.mem m) : Step c w w k { k with mem := m } where
  ready := h.update ..
  represents := hw
  attr := rfl
  eraseChar := rfl
  others _ _ := rfl
  writes := writes
  start := rfl
  stop := rfl
  fgConsole := rfl
  nrConsoles := rfl
  background _ := rfl
  shown _ ho := ho

/-- `del` erases the cell before the cursor, unless the row begins there. -/
theorem del_step (h : Ready g k) (hw : w.Represents (k.vcCons c)) :
    ∃ w', Step c w w' k (del c k) := by
  have hb := w.bounds
  have hpos : w.pos = w.origin + w.y * g.rowBytes + 2 * w.x := rfl
  by_cases hx : (k.vcCons c).x ≠ 0
  · have hdel : del c k =
        { k with mem := k.mem.store16 ((k.vcCons c).pos - 2) (k.vcCons c).videoEraseChar }.setVc c
          fun v => { v with pos := v.pos - 2, x := v.x - 1 } := by
      simp only [del, if_pos hx]
    have hwx : 0 < w.x := by
      refine Nat.pos_of_ne_zero fun hz => hx ?_
      rw [hw.x, hz]
      rfl
    have htwo : (2 : Word) = Word.of 2 := rfl
    have hpos2 : (k.vcCons c).pos - 2 = Word.of (w.pos - 2) := by
      rw [hw.pos, htwo, Word.of_sub_of (by omega) (by omega)]
    have hretreat : w.retreat.pos = w.pos - 2 := by
      simp only [Window.pos, Window.retreat, Window.origin]
      omega
    have hxle := w.x_le
    have hcol := g.columns_le
    have hstore : Step c w w k
        { k with mem := k.mem.store16 ((k.vcCons c).pos - 2) (k.vcCons c).videoEraseChar } := by
      refine Step.store h hw ?_
      rw [hpos2]
      exact Memory.Writes.store16 _ (by omega) (by omega) (by omega)
    rw [hdel]
    refine ⟨w.retreat, hstore.trans (Step.setVc hstore.ready ?_ rfl rfl rfl rfl rfl)⟩
    refine ⟨hw.origin, hw.scrEnd, ?_, ?_, hw.y, hw.top, hw.bottom, hw.videoMemStart,
      hw.videoMemEnd⟩
    · rw [hretreat, ← hpos2]
    · have hx1 : w.retreat.x = w.x - 1 := rfl
      rw [hx1, ← Word.of_sub_of (by omega) hwx, ← hw.x]
      rfl
  · rw [show del c k = k by simp only [del, if_neg hx]]
    exact ⟨w, .refl h hw⟩

/-- The memory after `scrdown` on the window `w`. -/
def Window.scrollDownMem (w : Window g) (erase : Half) (m : Memory) : Memory :=
  Memory.repStosw (-2) erase g.columns (Word.of (w.origin + 2 * g.columns - 2))
    (Memory.repMovsl (-4) ((g.lines - 1) * g.columns / 2)
      (Word.of (w.origin + 4 * ((g.lines - 1) * g.columns / 2) - 4))
      (Word.of (w.origin + g.rowBytes + 4 * ((g.lines - 1) * g.columns / 2) - 4)) m).1

theorem scrdown_eq (h : Ready g k) (hw : w.Represents (k.vcCons c)) :
    scrdown c k = { k with mem := w.scrollDownMem (k.vcCons c).videoEraseChar k.mem } := by
  have hb := w.bounds
  have hl := g.lines_le
  have hpos := g.lines_pos
  have hrow := g.rowBytes_pos
  have hrowle := g.rowBytes_le
  have hscreen := g.screenBytes_le
  have hrow2 : g.rowBytes = 2 * g.columns := rfl
  have hopen := region_open hw
  have hlast := g.last_row
  have hscr : g.lines * g.rowBytes = g.screenBytes := rfl
  have hone : (1 : Word) = Word.of 1 := rfl
  have hfour : (4 : Word) = Word.of 4 := rfl
  have hbottom1 : (k.vcCons c).bottom - 1 = Word.of (g.lines - 1) := by
    rw [hw.bottom, hone, Word.of_sub_of (by omega) hpos]
  have hcount : (k.vcCons c).bottom - (k.vcCons c).top - 1 = Word.of (g.lines - 1) := by
    rw [hw.top, ← hbottom1]
    exact congrArg (· - 1) (BitVec.sub_zero _)
  have hdwords := g.rows_dwords (g.lines - 1)
  have hsrc : (k.vcCons c).origin + k.videoSizeRow * Word.of (g.lines - 1) - 4 =
      Word.of (w.origin + 4 * ((g.lines - 1) * g.columns / 2) - 4) := by
    rw [hw.origin, h.sizeRow, Word.of_mul_of, Word.of_add_of, hfour, Nat.mul_comm g.rowBytes,
      Word.of_sub_of (by omega) (by omega), hdwords]
  have hdst : (k.vcCons c).origin + k.videoSizeRow * (k.vcCons c).bottom - 4 =
      Word.of (w.origin + g.rowBytes + 4 * ((g.lines - 1) * g.columns / 2) - 4) := by
    rw [hw.origin, h.sizeRow, hw.bottom, Word.of_mul_of, Word.of_add_of, hfour,
      Nat.mul_comm g.rowBytes, Word.of_sub_of (by omega) (by omega), hdwords]
    congr 1
    omega
  -- the copy leaves `edi` four bytes below the second row
  have hedi : Word.of (w.origin + g.rowBytes + 4 * ((g.lines - 1) * g.columns / 2) - 4) +
      Word.of ((g.lines - 1) * g.columns / 2) * -4 + 2 =
      Word.of (w.origin + 2 * g.columns - 2) := by
    have hneg : Word.of ((g.lines - 1) * g.columns / 2) * (-4 : Word) =
        -(Word.of (4 * ((g.lines - 1) * g.columns / 2))) := by
      rw [← Word.of_mul_of, ← hfour, BitVec.mul_comm, BitVec.neg_mul]
    have htwo : (2 : Word) = Word.of 2 := rfl
    rw [hneg, ← BitVec.sub_eq_add_neg, Word.of_sub_of (by omega) (by omega), htwo,
      Word.of_add_of]
    congr 1
    omega
  have hcols : g.columns < 2 ^ 32 := by omega
  have hsame : scrdown c k = scrdownRegion c k := by
    simp only [scrdown, if_neg hopen, ite_self]
  rw [hsame]
  simp only [scrdownRegion, hcount, hbottom1, hsrc, hdst, h.columns,
    dwords_toNat (Nat.sub_le _ _), Memory.repMovsl_edi, hedi, Word.toNat_of hcols,
    Window.scrollDownMem]

theorem scrdown_step (h : Ready g k) (hw : w.Represents (k.vcCons c)) :
    Step c w w k (scrdown c k) := by
  have hb := w.bounds
  have hrow := g.rowBytes_pos
  have hrow2 : g.rowBytes = 2 * g.columns := rfl
  have hlast := g.last_row
  have hend : w.scrEnd = w.origin + g.screenBytes := rfl
  have hdwords := g.rows_dwords (g.lines - 1)
  have hsub : ∀ {a b : Nat}, a < 2 ^ 32 → b ≤ a → Word.of (a - b) = Word.of a - Word.of b :=
    fun ha hle => (Word.of_sub_of ha hle).symm
  rw [scrdown_eq h hw]
  refine Step.store h hw ?_
  rw [Window.scrollDownMem, hsub (by omega) (by omega), hsub (by omega) (by omega),
    hsub (by omega) (by omega)]
  exact (Memory.Writes.repMovsl_down _ (by omega) (by omega) (by omega)).trans
    (Memory.Writes.repStosw_down _ _ (by omega) (by omega) (by omega))

/-! ## Output -/

/-- The test for a full row compares the numbers the record represents. -/
private theorem wrap_test (h : Ready g k) (hw : w.Represents (k.vcCons c)) :
    k.videoNumColumns ≤ (k.vcCons c).x ↔ w.x = g.columns := by
  have hcol := g.columns_le
  have hxle := w.x_le
  rw [h.columns, hw.x, Word.of_le_of (by omega) (by omega)]
  omega

theorem wrapLine_step (h : Ready g k) (hw : w.Represents (k.vcCons c)) (hx : w.x = g.columns) :
    Step c w w.carriageReturn k (wrapLine c k) := by
  have hb := w.bounds
  have hpos : w.carriageReturn.pos = w.pos - g.rowBytes := by
    simp only [Window.pos, Window.carriageReturn, Window.origin, hx, Geometry.rowBytes]
    omega
  have hrow : g.rowBytes ≤ w.pos := by
    rw [Window.pos, Geometry.rowBytes, hx]
    omega
  refine Step.setVc h ⟨hw.origin, hw.scrEnd, ?_, ?_, hw.y, hw.top, hw.bottom,
    hw.videoMemStart, hw.videoMemEnd⟩ rfl rfl rfl rfl rfl
  · rw [hpos, ← Word.of_sub_of (by omega) hrow, ← hw.pos, ← h.sizeRow]
  · rw [h.columns, hw.x, hx, BitVec.sub_self]
    rfl

theorem wrap_eq_lf (h : Ready g k) (hw : w.Represents (k.vcCons c)) (hx : w.x = g.columns) :
    wrap c k = lf c (wrapLine c k) :=
  if_pos ((wrap_test h hw).mpr hx)

theorem wrap_eq_self (h : Ready g k) (hw : w.Represents (k.vcCons c)) (hx : w.x ≠ g.columns) :
    wrap c k = k :=
  if_neg (mt (wrap_test h hw).mp hx)

theorem wrap_step (h : Ready g k) (hw : w.Represents (k.vcCons c)) :
    Step c w w.wrap k (wrap c k) := by
  by_cases hx : w.x = g.columns
  · have hline := wrapLine_step h hw hx
    rw [wrap_eq_lf h hw hx, Window.wrap, if_pos hx]
    exact hline.trans (lf_step hline.ready hline.represents)
  · rw [wrap_eq_self h hw hx, Window.wrap, if_neg hx]
    exact .refl h hw

/-- The window after a glyph. -/
def Window.glyph (w : Window g) : Window g := w.wrap.advance w.wrap_x_lt

theorem putGlyph_step (h : Ready g k) (hw : w.Represents (k.vcCons c)) (b : Byte) :
    Step c w w.glyph k (putGlyph c b k) := by
  have hwrap := wrap_step h hw
  have hb := w.wrap.bounds
  have hcell := w.wrap.cell_le w.wrap.y_lt w.wrap_x_lt
  have hpos : w.wrap.pos = w.wrap.origin + w.wrap.y * g.rowBytes + 2 * w.wrap.x := rfl
  have hstore : Step c w.wrap w.wrap (wrap c k)
      { wrap c k with
        mem := (wrap c k).mem.store16 ((wrap c k).vcCons c).pos
          (((wrap c k).vcCons c).attr ++ b) } := by
    refine Step.store hwrap.ready hwrap.represents ?_
    rw [hwrap.represents.pos]
    exact Memory.Writes.store16 _ (by omega) (by omega) (by omega)
  have hrep := hstore.represents
  have hnextPos : w.glyph.pos = w.wrap.pos + 2 := by
    simp only [Window.glyph, Window.pos, Window.advance, Window.origin]
    omega
  have hnextX : w.glyph.x = w.wrap.x + 1 := rfl
  have hadvance : w.glyph.Represents
      { (wrap c k).vcCons c with
        pos := ((wrap c k).vcCons c).pos + 2
        x := ((wrap c k).vcCons c).x + 1 } := by
    refine ⟨hrep.origin, hrep.scrEnd, ?_, ?_, hrep.y, hrep.top, hrep.bottom,
      hrep.videoMemStart, hrep.videoMemEnd⟩
    · rw [hnextPos, ← Word.of_add_of, ← hrep.pos]
      rfl
    · rw [hnextX, ← Word.of_add_of, ← hrep.x]
      rfl
  exact hwrap.trans (hstore.trans (Step.setVc (w := w.wrap)
    (f := fun v => { v with pos := v.pos + 2, x := v.x + 1 }) hstore.ready hadvance
    rfl rfl rfl rfl rfl))

theorem setCursor_step (h : Ready g k) (hw : w.Represents (k.vcCons c)) :
    Step c w w k (setCursor c k) := by
  have hready : Ready g { k with blankcount := k.blankinterval } :=
    h.update ..
  by_cases hc : c = k.fgConsole
  · have heq : setCursor c k =
        { k with
          blankcount := k.blankinterval
          crtc := loadedCrtc 14 (k.vcCons c).pos { k with blankcount := k.blankinterval } } := by
      simp only [setCursor, if_neg (not_not.mpr hc), setAddress_eq hready]
    rw [heq]
    exact {
      ready := h.update ..
      represents := hw
      attr := rfl
      eraseChar := rfl
      others := fun _ _ => rfl
      writes := .refl ..
      start := rfl
      stop := rfl
      fgConsole := rfl
      nrConsoles := rfl
      background := fun hne => absurd hc hne
      shown := fun _ ho =>
        (crtcAddress_loaded_ne (k := { k with blankcount := k.blankinterval })
          _ (by decide)).trans ho }
  · have heq : setCursor c k = { k with blankcount := k.blankinterval } := by
      simp only [setCursor, if_pos hc]
    rw [heq]
    exact {
      ready := hready
      represents := hw
      attr := rfl
      eraseChar := rfl
      others := fun _ _ => rfl
      writes := .refl ..
      start := rfl
      stop := rfl
      fgConsole := rfl
      nrConsoles := rfl
      background := fun _ => rfl
      shown := fun heq => absurd heq hc }

end MySystem
