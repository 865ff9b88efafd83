import MySystem.Boot.Chain
import MySystem.Boot.Start

/-!
# From the firmware to `main`

The start of the kernel takes over where `setup` has entered it. It leaves the
parameters of the machine alone, so `main` of `init/main.c` and what it calls find
the memory and the screen the firmware has told of. The direction flag is set then.
-/

namespace MySystem

open Machine

/-- `EXT_MEM_K` -/
def extMemK (m : Memory) : Half := m.load16 0x90002

/-- The processor the system goes on with. -/
def systemProcessor {D : Type} (c : Startup D) (cr3 : Word) : Processor :=
  { c.toCpu with
    cr0 := c.cr0
    cr3 := cr3
    gdtr := c.gdtr
    idtr := c.idtr
    scanned := [] }

/-- What the linker promises of an image, wherever it is loaded: the start finds its
own data in it, and leaves the parameters of the machine alone. -/
def LinkedImage (sym : HeadSymbols) (lay : Layout HeadLabel) (image : List Byte) : Prop :=
  ∀ m, InMemory image 0 40960 m → Linked sym lay m ∧
    Outside sym (m.load32 sym.stack_start) 0x90000 0x90010

/-- What `main` finds: the answers of the firmware where it reads them, and the
memory it was linked for. -/
structure AtMain (sym : HeadSymbols) (a : FirmwareAnswers) (d : Processor) : Prop where
  eip : d.eip = sym.main
  direction : d.direction = true
  paged : IdentityPaged d
  extended : extMemK d.mem = a.extended
  columns : origVideoCols d.mem = (a.mode.extractLsb' 8 8).setWidth 32
  lines : origVideoLines d.mem = 25

theorem AtMain.of_agree {sym : HeadSymbols} {a : FirmwareAnswers} {setupSym : SetupSymbols}
    {setupFile system : List Byte} {cr0 : Word} {p : Startup DiskState} {d : Processor}
    (hhandover : Handover setupSym a setupFile system cr0 p) (heip : d.eip = sym.main)
    (hdirection : d.direction = true) (hpaged : IdentityPaged d)
    (hkept : Memory.AgreeOn 0x90000 0x90010 p.mem d.mem) : AtMain sym a d := by
  have hload : ∀ o, o ≤ 14 →
      d.mem.load16 (Word.of (0x90000 + o)) = p.mem.load16 (Word.of (0x90000 + o)) := fun o ho =>
    hkept.load16 (by omega) (by omega) (by omega)
  constructor
  case eip => exact heip
  case direction => exact hdirection
  case paged => exact hpaged
  case extended => exact (hload 2 (by omega)).trans hhandover.extended
  case columns =>
    have hsame : origVideoCols d.mem = origVideoCols p.mem :=
      congrArg (fun v : Half => ((v.setWidth 32 : Word) &&& 0xff00) >>> 8) (hload 6 (by omega))
    exact hsame.trans hhandover.columns
  case lines =>
    have hsame : origVideoLines d.mem = origVideoLines p.mem :=
      congrArg (fun v : Half => (v.setWidth 32 : Word) &&& 0xff) (hload 14 (by omega))
    exact hsame.trans hhandover.lines

/-- For every firmware that obeys and starts the boot with the direction flag clear, and
every linked system on the disk: the boot gets to `main`, in one state only, with
what the firmware has told of the machine. -/
theorem boot_reaches_main (img bootSector setupFile system : List Byte) (delays : Nat → Delay)
    (himg : 43520 ≤ img.length) (hboot : bootSector.length = 512) (lay : BootLayout)
    (htables : Tables lay.setupSym setupFile) {b : Board DiskState} (hb : b.Obeys)
    {a : FirmwareAnswers} (hg : Gives b a) {c : Startup DiskState} (hup : c.direction = false)
    {sym : HeadSymbols} {hlay : Layout HeadLabel} (hzero : hlay.addr ._start = 0)
    (hlinked : LinkedImage sym hlay system) (cr3 : Word) :
    let drive : Drive := ⟨writeimg img bootSector setupFile system, delays⟩
    ∃ p, (∀ s, BootRuns lay b drive (.firmware, c) s → BootRuns lay b drive s (.system, p)) ∧
      ∃ d, (head sym).Runs hlay (systemProcessor p cr3) d ∧ AtMain sym a d ∧
        ∀ e, (head sym).Runs hlay (systemProcessor p cr3) e → e.eip = sym.main → e = d := by
  intro drive
  obtain ⟨hfile, himage⟩ := writeimg_bytes img bootSector setupFile system delays himg hboot
  obtain ⟨_, p, hcopy, -, hruns, hhandover⟩ :=
    boot_runs hb hg htables hfile himage hup
  refine ⟨p, fun s hs => BootRuns.goes_on (Relation.ReflTransGen.head hcopy hruns) hs, ?_⟩
  obtain ⟨hlink, hout⟩ := hlinked p.mem hhandover.system
  obtain ⟨d, hstart, heip, hdirection, hpaged, hagree⟩ :=
    _start_enters_main 0x90000 0x90010 (c := systemProcessor p cr3) hlink
  have hentered : Routines.enter hlay (systemProcessor p cr3) ._start = systemProcessor p cr3 := by
    have heip' : (systemProcessor p cr3).eip = hlay.addr ._start := hhandover.eip.trans hzero.symm
    rw [Routines.enter, ← heip']
  rw [hentered] at hstart
  refine ⟨d, hstart, .of_agree hhandover heip hdirection hpaged (hagree hout), ?_⟩
  intro e he heeip
  have hlink' : Linked sym hlay (systemProcessor p cr3).mem := hlink
  exact hlink'.main_once he heeip hstart heip

/-- An image with nothing but the pointer to the stack. -/
def stackImage : List Byte := List.replicate 0x7000 0 ++ [0, 0x90, 0, 0]

theorem stackImage_linked : LinkedImage headSymbols headLayout stackImage := by
  intro m hm
  have hpart : [0, 0x90, 0, 0] <+: stackImage.drop 0x7000 :=
    ⟨[], (List.drop_left' List.length_replicate).symm⟩
  have hbyte : ∀ i v, i < 4 → ([0, 0x90, 0, 0] : List Byte)[i]? = some v →
      m.bytes (Word.of (0 + 0x7000 + i)) = v := fun i v hi hv => hm.byte hpart (by omega) hv
  have hstack : m.load32 headSymbols.stack_start = 0x9000 := by
    have h0 : m.bytes 0x7000 = 0 := hbyte 0 _ (by decide) rfl
    have h1 : m.bytes (0x7000 + 1) = 0x90 := hbyte 1 _ (by decide) rfl
    have h2 : m.bytes (0x7000 + 2) = 0 := hbyte 2 _ (by decide) rfl
    have h3 : m.bytes (0x7000 + 3) = 0 := hbyte 3 _ (by decide) rfl
    have hload : m.load32 headSymbols.stack_start = m.bytes (0x7000 + 3) ++
        m.bytes (0x7000 + 2) ++ m.bytes (0x7000 + 1) ++ m.bytes 0x7000 := rfl
    rw [hload, h0, h1, h2, h3]
    rfl
  rw [hstack]
  constructor
  · constructor
    case main => exact fun l => by cases l <;> decide
    all_goals
      try rw [hstack]
      decide
  · constructor <;> decide

/-- A machine with 31 MB of extended memory in text mode. -/
theorem boot_reaches_main_text : ∃ (p : Startup DiskState) (d : Processor),
    BootRuns bootLayout bios ⟨writeimg (List.replicate 43520 0) (List.replicate 512 0x90)
      setupTables stackImage, slower⟩ (.firmware, firmwareState) (.system, p) ∧
    (head headSymbols).Runs headLayout (systemProcessor p 0) d ∧ d.eip = 0x6600 ∧
    d.direction = true ∧ extMemK d.mem = 0x7c00 ∧ origVideoCols d.mem = 80 := by
  obtain ⟨p, hruns, d, hstart, hmain, -⟩ := boot_reaches_main
    (List.replicate 43520 0) (List.replicate 512 0x90) setupTables stackImage slower
    (by rw [List.length_replicate]) List.length_replicate bootLayout setupTables_tables bios_obeys
    bios_gives (c := firmwareState) rfl (by rfl) stackImage_linked 0
  exact ⟨p, d, hruns _ .refl, hstart, hmain.eip, hmain.direction, hmain.extended,
    hmain.columns.trans rfl⟩

end MySystem
