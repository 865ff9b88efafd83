import MySystem.Boot.Disk
import MySystem.Boot.Move
import MySystem.Tools.Writeimg

/-!
# From the image to memory

`tools/writeimg.c`, `boot/bootSect.asm` and `boot/setup.asm` one after the
other: the system that was written to the image ends up at address 0, and
`setup` where the boot sector jumps to.
-/

namespace MySystem

open Machine

/-- A byte of a file that is on the disk. -/
theorem Drive.getElem?_image (drive : Drive) {i : Nat} (hi : i < drive.image.length) :
    drive.image[i]? = some (drive.byteOf i) := by
  rw [Drive.byteOf, List.getD_eq_getElem?_getD, List.getElem?_eq_getElem hi]
  rfl

/-- For every old image: with the stack of the boot sector set up, it loads what
`writeimg` wrote, and when `setup` has moved the system down, memory holds the
image. In between, `setup` may change the memory outside of what was loaded. -/
theorem loaders_read_image (img bootSector setupFile system : List Byte) (delays : Nat → Delay)
    (himg : 43520 ≤ img.length) (hboot : bootSector.length = 512) (lay : Offsets BootLabel)
    (lay' : Offsets SetupLabel) (dev : Device DiskState) {c : RealMode DiskState}
    (heip : c.eip = (lay.addr .read_setup).setWidth 32) (hss : c.ss = INITSEG)
    (hsp : c.sp = 0xfef4) :
    (∃ r, bootSect.Leaves lay (Drive.device ⟨writeimg img bootSector setupFile system, delays⟩) c
      SETUPSEG 0 r) ∧
    ∀ r, bootSect.Leaves lay (Drive.device ⟨writeimg img bootSector setupFile system, delays⟩) c
        SETUPSEG 0 r →
      ∀ d : RealMode DiskState, d.eip = (lay'.addr .move).setWidth 32 →
        Memory.AgreeOn 0x10000 0x1a000 r.mem d.mem →
        Memory.AgreeOn 0x90200 0x90400 r.mem d.mem →
        ∃ e, setup.Runs lay' dev d e ∧ e.eip = (lay'.addr .end_move).setWidth 32 ∧
          (∀ i, i < 40960 →
            (writeimg img bootSector setupFile system)[2560 + i]? = some (e.mem.byteAt i)) ∧
          (∀ i, i < min system.length 40960 → system[i]? = some (e.mem.byteAt i)) ∧
          (∀ i, i < 512 → (writeimg img bootSector setupFile system)[512 + i]? =
            some (e.mem.byteAt (0x90200 + i))) ∧
          (∀ i, i < min setupFile.length 512 →
            setupFile[i]? = some (e.mem.byteAt (0x90200 + i))) ∧
          (∀ a, a < 0x80000 → e.mem.byteAt a = d.mem.byteAt (a + 0x10000)) ∧
          ∀ a : Word, 0x80000 ≤ a.toNat → e.mem.bytes a = d.mem.bytes a := by
  obtain ⟨r, hleaves, hsetup, hsystem⟩ := bootSect_loads
    ⟨writeimg img bootSector setupFile system, delays⟩ lay heip hss hsp
  refine ⟨⟨r, hleaves⟩, ?_⟩
  rintro r' hleaves' d hdeip hsystem' hsetup'
  obtain ⟨-, -, rfl⟩ := hleaves.unique hleaves'
  obtain ⟨e, hruns, heeip, hmoved, hkept⟩ := do_move_moves lay' dev hdeip
  have hroom : 512 * SYS_POSITION ≤ img.length := Nat.le_trans (by decide) himg
  have hlen : img.length ≤ (writeimg img bootSector setupFile system).length :=
    length_le_writeimg hroom
  have hlow : ∀ i, i < 40960 →
      (writeimg img bootSector setupFile system)[2560 + i]? = some (e.mem.byteAt i) := by
    intro i hi
    have hdisk := Drive.getElem?_image ⟨writeimg img bootSector setupFile system, delays⟩
      (i := 2560 + i) (Nat.lt_of_lt_of_le (by omega) hlen)
    have hread : d.mem.byteAt (i + 0x10000) = r.mem.byteAt (0x10000 + i) := by
      rw [Nat.add_comm i]
      apply hsystem'
      all_goals rw [Word.toNat_of (by omega)]; omega
    rw [hmoved i (by omega), hread, hsystem i hi]
    exact hdisk
  have hhigh : ∀ i, i < 512 → (writeimg img bootSector setupFile system)[512 + i]? =
      some (e.mem.byteAt (0x90200 + i)) := by
    intro i hi
    have hdisk := Drive.getElem?_image ⟨writeimg img bootSector setupFile system, delays⟩
      (i := 512 + i) (Nat.lt_of_lt_of_le (by omega) hlen)
    have hread : d.mem.byteAt (0x90200 + i) = r.mem.byteAt (0x90200 + i) := by
      apply hsetup'
      all_goals rw [Word.toNat_of (by omega)]; omega
    have hstays : e.mem.byteAt (0x90200 + i) = d.mem.byteAt (0x90200 + i) := by
      apply hkept
      rw [Word.toNat_of (by omega)]
      omega
    rw [hstays, hread, hsetup i hi]
    exact hdisk
  refine ⟨e, hruns, heeip, hlow, ?_, hhigh, ?_, hmoved, hkept⟩
  · intro i hi
    rw [← hlow i (Nat.lt_of_lt_of_le hi (Nat.min_le_right ..))]
    exact (writeimg_system hroom (Nat.lt_of_lt_of_le hi (Nat.min_le_left ..))).symm
  · intro i hi
    have hlt : i < 512 := Nat.lt_of_lt_of_le hi (Nat.min_le_right ..)
    have hbefore : 512 + i < 512 * SYS_POSITION := by
      show 512 + i < 2560
      omega
    rw [← hhigh i hlt]
    exact (writeimg_setup hroom hboot (Nat.lt_of_lt_of_le hi (Nat.min_le_left ..)) hbefore).symm

/-- The offsets of a boot sector. -/
def bootAddr : BootLabel → Half
  | .read_setup => 0x4c
  | .read_setup_1 => 0x60
  | .readcore => 0x77
  | .readcore_1 => 0x7a
  | .read_hard_disk_0 => 0x83
  | .waits => 0xaf
  | .readw => 0xbf

def bootLabel? (a : Half) : Option BootLabel :=
  [.read_setup, .read_setup_1, .readcore, .readcore_1, .read_hard_disk_0, .waits, .readw].find?
    fun l => bootAddr l = a

def bootOffsets : Offsets BootLabel where
  addr := bootAddr
  label? := bootLabel?
  label_addr l := by cases l <;> decide

def setupAddr : SetupLabel → Half
  | .move => 0x4a
  | .do_move => 0x4e
  | .end_move => 0x66

def setupOffsets : Offsets SetupLabel where
  addr := setupAddr
  label? a := [SetupLabel.move, .do_move, .end_move].find? fun l => setupAddr l = a
  label_addr l := by cases l <;> decide

/-- Behind `go`, with the message printed. -/
def bootState : RealMode DiskState where
  eax := 0x1301
  ecx := 0x15
  edx := 0x1004
  ebx := 7
  ebp := 0xd9
  esi := 0x200
  edi := 0x200
  ds := INITSEG
  es := INITSEG
  fs := 0
  esp := 0xfef4
  ss := INITSEG
  eip := 0x4c
  cs := INITSEG
  eflags := 0x202
  mem := ⟨fun _ => 0, []⟩
  ports := []
  device := ⟨0, 0, 0, 0, 0, 0, [], []⟩

/-- A disk that is busy for longer and longer. -/
def slower (n : Nat) : Delay where
  val := List.replicate n 0x80
  property b hb := by
    rw [List.eq_of_mem_replicate hb]
    decide

/-- Three bytes of a system on an empty disk. -/
theorem loaders_read_image_three : ∃ r d e : RealMode DiskState,
    bootSect.Leaves bootOffsets (Drive.device ⟨writeimg (List.replicate 43520 0)
      (List.replicate 512 0x90) [0xeb, 0xfe] [1, 2, 3], slower⟩) bootState SETUPSEG 0 r ∧
    d.mem = r.mem ∧ setup.Runs setupOffsets (Drive.device ⟨[], slower⟩) d e ∧
    e.mem.byteAt 0 = 1 ∧ e.mem.byteAt 1 = 2 ∧ e.mem.byteAt 2 = 3 ∧
    e.mem.byteAt 0x90200 = 0xeb := by
  obtain ⟨⟨r, hleaves⟩, hall⟩ := loaders_read_image (List.replicate 43520 0)
    (List.replicate 512 0x90) [0xeb, 0xfe] [1, 2, 3] slower (by rw [List.length_replicate])
    List.length_replicate bootOffsets setupOffsets
    (Drive.device ⟨[], slower⟩) (c := bootState) rfl rfl rfl
  let d := RealCode.enter setupOffsets r .move
  obtain ⟨e, hruns, -, -, hsystem, -, hsetup, -⟩ := hall r hleaves d rfl (fun _ _ _ => rfl)
    (fun _ _ _ => rfl)
  refine ⟨r, d, e, hleaves, rfl, hruns, ?_, ?_, ?_, ?_⟩
  · exact (Option.some.inj (hsystem 0 (by decide))).symm
  · exact (Option.some.inj (hsystem 1 (by decide))).symm
  · exact (Option.some.inj (hsystem 2 (by decide))).symm
  · exact (Option.some.inj (hsetup 0 (by decide))).symm

end MySystem
