import MySystem.Fault
import MySystem.Machine.Memory

/-!
# The console driver

The output half of `kernel/chr_drv/console.c`: the per-console record, the
cursor and scroll helpers, initialisation, and the polling printer
`console_print`. All arithmetic is the wrapping 32-bit arithmetic of the
source's `unsigned long`.

The statics of the file are the fields of `Console`, with physical memory and
the display controller they drive. Members of `vc_cons` that no function of
the file touches are left out. The inline assembly is modelled by the string
instructions of `Machine.Memory`; `cli`/`sti` around the port writes have no
effect on any field.
-/

namespace MySystem

open Machine

/-- `MAX_CONSOLES` of `linux/tty.h`. -/
def maxConsoles : Nat := 8

instance : NeZero maxConsoles := ⟨by decide⟩

def videoTypeEgam : Byte := 0x20
def videoTypeEgac : Byte := 0x21

/-- One element of `vc_cons`. -/
structure Vc where
  videoEraseChar : Half
  attr : Byte
  defAttr : Byte
  boldAttr : Word
  ques : Word
  checkin : Word
  origin : Word
  scrEnd : Word
  pos : Word
  x : Word
  y : Word
  top : Word
  bottom : Word
  videoMemStart : Word
  videoMemEnd : Word
  iscolor : Word

/-- The display controller behind the ports 0x3d4 and 0x3d5. -/
structure Crtc where
  index : Byte
  regs : Byte → Byte

/-- The statics of `console.c` and the machine they act on. -/
structure Console where
  mem : Memory
  crtc : Crtc
  fgConsole : Nat
  nrConsoles : Word
  videoType : Byte
  videoNumColumns : Word
  videoMemBase : Word
  videoMemTerm : Word
  videoSizeRow : Word
  videoNumLines : Word
  videoPage : Byte
  videoPortReg : Half
  videoPortVal : Half
  canDoColour : Word
  blankinterval : Word
  blankcount : Word
  vcCons : Nat → Vc

namespace Console

/-- Assignment to the members of `vc_cons[currcons]`. -/
def setVc (k : Console) (currcons : Nat) (f : Vc → Vc) : Console :=
  { k with vcCons := Function.update k.vcCons currcons (f (k.vcCons currcons)) }

@[simp] theorem setVc_vcCons_same (k : Console) (c : Nat) (f : Vc → Vc) :
    (k.setVc c f).vcCons c = f (k.vcCons c) := by
  simp [setVc]

theorem setVc_setVc (k : Console) (c : Nat) (f f' : Vc → Vc) :
    (k.setVc c f).setVc c f' = k.setVc c fun v => f' (f v) := by
  simp only [setVc, Function.update_self, Function.update_idem]

@[simp] theorem setVc_vcCons_ne (k : Console) {c d : Nat} (f : Vc → Vc) (h : d ≠ c) :
    (k.setVc c f).vcCons d = k.vcCons d := by
  simp [setVc, h]

/-- A byte written to a port. The controller's ports are fixed by the hardware;
a write to its value port goes to the register selected last. -/
def outbP (k : Console) (value : Byte) (port : Half) : Console :=
  if port = 0x3d4 then { k with crtc := { k.crtc with index := value } }
  else if port = 0x3d5 then
    { k with crtc := { k.crtc with regs := Function.update k.crtc.regs k.crtc.index value } }
  else k

end Console

open Console

/-! ## Cursor and origin -/

def gotoxy (currcons : Nat) (newX newY : Word) (k : Console) : Console :=
  if k.videoNumColumns < newX ∨ k.videoNumLines ≤ newY then k
  else k.setVc currcons fun v =>
    { v with x := newX, y := newY, pos := v.origin + newY * k.videoSizeRow + (newX <<< 1) }

/-- The four port writes by which `set_origin` and `set_cursor` load a video
address into a register pair: the offset in cells, high byte first. -/
def setAddress (reg : Byte) (a : Word) (k : Console) : Console :=
  let k := k.outbP reg k.videoPortReg
  let k := k.outbP (((0xff : Word) &&& ((a - k.videoMemBase) >>> 9)).setWidth 8) k.videoPortVal
  let k := k.outbP (reg + 1) k.videoPortReg
  k.outbP (((0xff : Word) &&& ((a - k.videoMemBase) >>> 1)).setWidth 8) k.videoPortVal

def setOrigin (currcons : Nat) (k : Console) : Console :=
  if currcons ≠ k.fgConsole then k
  else setAddress 12 (k.vcCons currcons).origin k

def setCursor (currcons : Nat) (k : Console) : Console :=
  let k := { k with blankcount := k.blankinterval }
  if currcons ≠ k.fgConsole then k
  else setAddress 14 (k.vcCons currcons).pos k

def updateScreen (k : Console) : Console :=
  setCursor k.fgConsole (setOrigin k.fgConsole k)

/-! ## Scrolling -/

/-- `origin`, `pos` and `scr_end` slide one row down the video memory. -/
def slideOrigin (currcons : Nat) (k : Console) : Console :=
  k.setVc currcons fun v =>
    { v with
      origin := v.origin + k.videoSizeRow
      pos := v.pos + k.videoSizeRow
      scrEnd := v.scrEnd + k.videoSizeRow }

/-- The slid window has run past the region: copy all but its last row back to
the start of the region, erase the row after them, and move the window there.
The assembly's `%1` is the second input operand, `ecx`. -/
def scrupRewind (currcons : Nat) (k : Console) : Console :=
  let v := k.vcCons currcons
  let (m, edi) := Memory.repMovsl 4 (((k.videoNumLines - 1) * k.videoNumColumns) >>> 1).toNat
    v.origin v.videoMemStart k.mem
  let m := Memory.repStosw 2 v.videoEraseChar k.videoNumColumns.toNat edi m
  { k with mem := m }.setVc currcons fun v =>
    { v with
      scrEnd := v.scrEnd - (v.origin - v.videoMemStart)
      pos := v.pos - (v.origin - v.videoMemStart)
      origin := v.videoMemStart }

/-- The slid window still fits: erase its new last row. -/
def scrupErase (currcons : Nat) (k : Console) : Console :=
  let v := k.vcCons currcons
  let edi := v.scrEnd - k.videoSizeRow
  { k with mem := Memory.repStosw 2 v.videoEraseChar k.videoNumColumns.toNat edi k.mem }

/-- The plain copy of rows `top+1 .. bottom` one row up, used for a partial
region and for a display without an origin register. -/
def scrupRegion (currcons : Nat) (k : Console) : Console :=
  let v := k.vcCons currcons
  let (m, edi) := Memory.repMovsl 4
    (((v.bottom - v.top - 1) * k.videoNumColumns) >>> 1).toNat
    (v.origin + k.videoSizeRow * (v.top + 1)) (v.origin + k.videoSizeRow * v.top) k.mem
  { k with mem := Memory.repStosw 2 v.videoEraseChar k.videoNumColumns.toNat edi m }

def scrup (currcons : Nat) (k : Console) : Console :=
  let v := k.vcCons currcons
  if v.bottom ≤ v.top then k
  else if k.videoType = videoTypeEgac ∨ k.videoType = videoTypeEgam then
    if v.top = 0 ∧ v.bottom = k.videoNumLines then
      let k := slideOrigin currcons k
      let v := k.vcCons currcons
      let k := if v.videoMemEnd < v.scrEnd then scrupRewind currcons k
        else scrupErase currcons k
      setOrigin currcons k
    else scrupRegion currcons k
  else scrupRegion currcons k

/-- The descending copy of `scrdown`, the same for every display type. -/
def scrdownRegion (currcons : Nat) (k : Console) : Console :=
  let v := k.vcCons currcons
  let (m, edi) := Memory.repMovsl (-4)
    (((v.bottom - v.top - 1) * k.videoNumColumns) >>> 1).toNat
    (v.origin + k.videoSizeRow * (v.bottom - 1) - 4)
    (v.origin + k.videoSizeRow * v.bottom - 4) k.mem
  { k with mem := Memory.repStosw (-2) v.videoEraseChar k.videoNumColumns.toNat (edi + 2) m }

def scrdown (currcons : Nat) (k : Console) : Console :=
  let v := k.vcCons currcons
  if v.bottom ≤ v.top then k
  else if k.videoType = videoTypeEgac ∨ k.videoType = videoTypeEgam then
    scrdownRegion currcons k
  else scrdownRegion currcons k

/-! ## Cursor motion -/

def lf (currcons : Nat) (k : Console) : Console :=
  let v := k.vcCons currcons
  if v.y + 1 < v.bottom then
    k.setVc currcons fun v => { v with y := v.y + 1, pos := v.pos + k.videoSizeRow }
  else scrup currcons k

def cr (currcons : Nat) (k : Console) : Console :=
  k.setVc currcons fun v => { v with pos := v.pos - (v.x <<< 1), x := 0 }

def del (currcons : Nat) (k : Console) : Console :=
  let v := k.vcCons currcons
  if v.x ≠ 0 then
    { k with mem := k.mem.store16 (v.pos - 2) v.videoEraseChar }.setVc currcons fun v =>
      { v with pos := v.pos - 2, x := v.x - 1 }
  else k

/-! ## Output -/

/-- The cursor of a full row goes back to its start. -/
def wrapLine (currcons : Nat) (k : Console) : Console :=
  k.setVc currcons fun v =>
    { v with x := v.x - k.videoNumColumns, pos := v.pos - k.videoSizeRow }

/-- A cursor past the last column first goes to the next line. -/
def wrap (currcons : Nat) (k : Console) : Console :=
  if k.videoNumColumns ≤ (k.vcCons currcons).x then lf currcons (wrapLine currcons k) else k

/-- What both output loops do with a glyph: wrap, then store it with the
attribute in the high byte (`movb attr,%ah; movw %ax,(pos)`) and advance. -/
def putGlyph (currcons : Nat) (c : Byte) (k : Console) : Console :=
  let k := wrap currcons k
  let v := k.vcCons currcons
  { k with mem := k.mem.store16 v.pos (v.attr ++ c) }.setVc currcons fun v =>
    { v with pos := v.pos + 2, x := v.x + 1 }

/-- The body of the loop of `con_write` after `GETCH`; `c` is a signed `char`. -/
def conChar (currcons : Nat) (c : Byte) (k : Console) : Console :=
  if 31 < c.toInt ∧ c.toInt < 127 then putGlyph currcons c k
  else if c = 10 ∨ c = 11 ∨ c = 12 then lf currcons k
  else if c = 13 then cr currcons k
  else k

/-- The loop of `console_print`. The list holds the bytes from `b` on, its end
standing for the terminating zero. -/
def consolePrintLoop (currcons : Nat) : List Byte → Console → Console
  | [], k => k
  | c :: b, k =>
      if c = 0 then k
      else if c = 10 then consolePrintLoop currcons b (lf currcons (cr currcons k))
      else if c = 13 then consolePrintLoop currcons b (cr currcons k)
      else consolePrintLoop currcons b (putGlyph currcons c k)

def consolePrint (b : List Byte) (k : Console) : Console :=
  let currcons := k.fgConsole
  setCursor currcons (consolePrintLoop currcons b k)

/-! ## Initialisation -/

/-- The console record of zeroed static storage. -/
def Vc.zero : Vc where
  videoEraseChar := 0
  attr := 0
  defAttr := 0
  boldAttr := 0
  ques := 0
  checkin := 0
  origin := 0
  scrEnd := 0
  pos := 0
  x := 0
  y := 0
  top := 0
  bottom := 0
  videoMemStart := 0
  videoMemEnd := 0
  iscolor := 0

/-- The statics before `con_init`, over a given machine. -/
def Console.static (mem : Memory) (crtc : Crtc) : Console where
  mem := mem
  crtc := crtc
  fgConsole := 0
  nrConsoles := 0
  videoType := 0
  videoNumColumns := 0
  videoMemBase := 0
  videoMemTerm := 0
  videoSizeRow := 0
  videoNumLines := 0
  videoPage := 0
  videoPortReg := 0
  videoPortVal := 0
  canDoColour := 0
  blankinterval := 0
  blankcount := 0
  vcCons _ := Vc.zero

/-- `ORIG_VIDEO_PAGE`, truncated by its assignment to an `unsigned char`. -/
def origVideoPage (m : Memory) : Byte := (m.load16 0x90004).setWidth 8

def origVideoCols (m : Memory) : Word := (((m.load16 0x90006).setWidth 32) &&& 0xff00) >>> 8

def origVideoLines (m : Memory) : Word := ((m.load16 0x9000e).setWidth 32) &&& 0xff

/-- The body of the loop of `con_init`: a copy of the first console's record,
moved to the share from `base` to `term`. -/
def conInitConsole (currcons : Nat) (base term : Word) (k : Console) : Console :=
  let k := k.setVc currcons fun _ => k.vcCons 0
  let k := k.setVc currcons fun v =>
    { v with
      origin := base
      videoMemStart := base
      scrEnd := base + k.videoNumLines * k.videoSizeRow
      videoMemEnd := term }
  gotoxy currcons 0 0 k

/-- The loop of `con_init` over the consoles after the first, `n` turns long. -/
def conInitLoop (videoMemory : Word) : Nat → Nat → Word → Word → Console → Console
  | 0, _, _, _, k => k
  | n + 1, currcons, base, term, k =>
      let base := base + videoMemory
      let term := term + videoMemory
      conInitLoop videoMemory n (currcons + 1) base term (conInitConsole currcons base term k)

/-- The clamps on the number of consoles: at most `MAX_CONSOLES`, at least one. -/
def clampConsoles (n : Word) : Word :=
  let n := if (8 : Word).slt n then 8 else n
  if n = 0 then 1 else n

/-- The file's scalars, from what the BIOS left in low memory. -/
def conInitStatics (k : Console) : Console :=
  { k with
    videoNumColumns := origVideoCols k.mem
    videoSizeRow := origVideoCols k.mem * 2
    videoNumLines := origVideoLines k.mem
    videoPage := origVideoPage k.mem
    blankcount := k.blankinterval
    canDoColour := 1
    videoMemBase := 0xb8000
    videoPortReg := 0x3d4
    videoPortVal := 0x3d5
    videoType := videoTypeEgac
    videoMemTerm := 0xba000 }

/-- The record of the first console. -/
def conInitFirst (videoMemory : Word) (k : Console) : Console :=
  let base := k.videoMemBase
  gotoxy 0 0 0 (k.setVc 0 fun v =>
    { v with
      videoEraseChar := 0x0720
      origin := base
      videoMemStart := base
      videoMemEnd := base + videoMemory
      scrEnd := base + k.videoNumLines * k.videoSizeRow
      top := 0
      bottom := k.videoNumLines
      attr := 0x07
      defAttr := 0x07
      checkin := 0
      ques := 0
      iscolor := 0
      boldAttr := -1 })

/-- A screen without a cell divides by zero. The first quotient is unsigned,
the second one signed. -/
def conInit (k : Console) : Except Fault Console :=
  let k := conInitStatics k
  let videoMemory := k.videoMemTerm - k.videoMemBase
  let screen := k.videoNumLines * k.videoSizeRow
  if screen = 0 then .error .divideError
  else
    let k := { k with nrConsoles := clampConsoles (videoMemory / screen) }
    let videoMemory := videoMemory.sdiv k.nrConsoles
    let base := k.videoMemBase
    let k := conInitFirst videoMemory k
    .ok (updateScreen
      (conInitLoop videoMemory (k.nrConsoles.toInt.toNat - 1) 1 base (base + videoMemory) k))

end MySystem
