import MySystem.Tools.Writeimg

/-!
# The image maker

`tools/makeimg.cpp` makes a new `a.img`: the two files of the boot, filled up to
the sector of the system, and then to the size of the disk. What it fills with is
memory from `new`, of which `bzero` clears as many bytes as a pointer has. Two files
that reach into the sector of the system stay alone in the image: the stream refuses
the negative count and takes no more. `tools/writeimg` writes each build over it.
-/

namespace MySystem

open Machine

def SYS_SECTOR_BEG : Nat := 6

def IMG_SECTOR_NUM : Nat := 20160

/-- `ofstream`, with its `badbit`. -/
structure OFStream where
  file : File
  bad : Bool

/-- `out.write`: `n` bytes of `s`. -/
def OFStream.write (s : List Byte) (n : Int) (out : OFStream) : OFStream :=
  if out.bad then out
  else if n < 0 then { out with bad := true }
  else { out with file := fwrite (s.take n.toNat) out.file }

/-- The loop of `copyFile`, which ends with the first short block. -/
def copyLoop (out : OFStream) (inp : File) (count : Int) : OFStream × Int :=
  if _h : (fread 256 inp).1.length = 256 then
    copyLoop (out.write (fread 256 inp).1 256) (fread 256 inp).2 (int32 (count + 256))
  else (out.write (fread 256 inp).1 (fread 256 inp).1.length,
    int32 (count + (fread 256 inp).1.length))
termination_by inp.bytes.length - inp.pos
decreasing_by
  have hread : ((inp.bytes.drop inp.pos).take 256).length = 256 := _h
  have hmin := hread
  rw [List.length_take, List.length_drop] at hmin
  change inp.bytes.length - (inp.pos + ((inp.bytes.drop inp.pos).take 256).length) < _
  omega

/-- `copyFile`, with the bytes of the file it opens. -/
def copyFile (header_len : Nat) (out : OFStream) (filename : String) (content : List Byte) :
    OFStream × Int :=
  let inp := fopen content
  let inp := if filename = "tools/system" then fseek header_len inp else inp
  copyLoop out inp 0

def bzero (s : List Byte) (n : Nat) : List Byte := List.replicate (min n s.length) 0 ++ s.drop n

/-- The size of the pointer `zero` on the host. -/
def sizeofZero : Nat := 8

/-- `main`: the bytes of `a.img` after it, with `fresh` for the memory from `new`. -/
def makeimg (header_len : Nat) (bootSect setup fresh : List Byte) : List Byte :=
  let out : OFStream := ⟨fopen [], false⟩
  let (out, n) := copyFile header_len out "boot/bootSect" bootSect
  let count := n
  let (out, n) := copyFile header_len out "boot/setup" setup
  let count := int32 (count + n)
  let diff := int32 (512 * (SYS_SECTOR_BEG - 1) - count)
  let zero := bzero fresh sizeofZero
  let out := out.write zero diff
  let count := int32 (count + diff)
  (out.write zero (int32 (512 * IMG_SECTOR_NUM - count))).file.bytes

/-! ## What it makes -/

namespace OFStream

variable (s : List Byte) (f : File)

theorem write_good (n : Nat) : write s n ⟨f, false⟩ = ⟨fwrite (s.take n) f, false⟩ := by
  rw [write, if_neg Bool.false_ne_true, if_neg (by omega), Int.toNat_natCast]

theorem write_negative {n : Int} (h : n < 0) : write s n ⟨f, false⟩ = ⟨f, true⟩ := by
  rw [write, if_neg Bool.false_ne_true, if_pos h]

theorem write_bad (n : Int) : write s n ⟨f, true⟩ = ⟨f, true⟩ := if_pos rfl

end OFStream

theorem copyLoop_eq {f : File} (h : f.pos ≤ f.bytes.length) (inp : File) (count : Int) :
    copyLoop ⟨f, false⟩ inp count =
      (⟨fwrite (inp.bytes.drop inp.pos) f, false⟩,
        int32 (count + (inp.bytes.drop inp.pos).length)) := by
  generalize hout : (⟨f, false⟩ : OFStream) = out
  induction out, inp, count using copyLoop.induct generalizing f with
  | case1 out inp count hfull ih =>
      subst hout
      have hwrite : OFStream.write (fread 256 inp).1 256 ⟨f, false⟩ =
          ⟨fwrite (fread 256 inp).1 f, false⟩ := by
        rw [show (256 : Int) = ((256 : Nat) : Int) from rfl, OFStream.write_good,
          List.take_of_length_le (Nat.le_of_eq hfull)]
      have happend := fread_append 256 inp
      have hlength := congrArg List.length happend
      rw [List.length_append, hfull] at hlength
      rw [copyLoop, dif_pos hfull, ih (fwrite_pos_le h _) hwrite.symm, fwrite_append h, happend,
        int32_add_left, Int.add_assoc, ← hlength]
      rfl
  | case2 out inp count hshort =>
      subst hout
      have hall : (fread 256 inp).1 = inp.bytes.drop inp.pos := by
        refine List.take_of_length_le ?_
        by_contra hmore
        refine hshort ?_
        change ((inp.bytes.drop inp.pos).take 256).length = 256
        rw [List.length_take]
        omega
      rw [copyLoop, dif_neg hshort, OFStream.write_good, List.take_length, hall]

/-- The header is skipped for the system only. -/
theorem copyFile_eq (header_len : Nat) {f : File} (h : f.pos ≤ f.bytes.length)
    {filename : String} (hname : filename ≠ "tools/system") (content : List Byte) :
    copyFile header_len ⟨f, false⟩ filename content =
      (⟨fwrite content f, false⟩, int32 content.length) := by
  rw [copyFile, if_neg hname, copyLoop_eq h]
  simp

theorem bzero_length (s : List Byte) (n : Nat) : (bzero s n).length = s.length := by
  rw [bzero, List.length_append, List.length_replicate, List.length_drop]
  omega

/-- Writing to a new file, piece after piece. -/
theorem fwrite_new (a : List Byte) : (fwrite a (fopen [])).bytes = a := by
  rw [fwrite_bytes (fopen_pos_le [])]
  simp

/-- The two files, and what the two `write`s behind them add. -/
theorem makeimg_files (header_len : Nat) {bootSect setup : List Byte} (fresh : List Byte)
    (hsize : bootSect.length + setup.length < 2 ^ 31) :
    makeimg header_len bootSect setup fresh =
      let out : OFStream := ⟨fwrite (bootSect ++ setup) (fopen []), false⟩
      let zero := bzero fresh sizeofZero
      ((out.write zero (2560 - (bootSect.length + setup.length) : Int)).write zero
        (512 * IMG_SECTOR_NUM - 2560 : Nat)).file.bytes := by
  have hnew := fopen_pos_le []
  have hcount : int32 (int32 bootSect.length + int32 setup.length) =
      bootSect.length + setup.length := by
    rw [int32_add_left, int32_add_right, int32_eq (by omega) (by omega)]
  have hplace : (512 * ((SYS_SECTOR_BEG : Int) - 1)) = 2560 := rfl
  have hdiff : int32 (2560 - (bootSect.length + setup.length)) =
      2560 - (bootSect.length + setup.length) := int32_eq (by omega) (by omega)
  have hsystem : int32 (bootSect.length + setup.length + (2560 - (bootSect.length + setup.length)))
      = 2560 := by
    rw [int32_eq (by omega) (by omega)]
    omega
  have hrest : int32 (512 * (IMG_SECTOR_NUM : Int) - 2560) =
      ((512 * IMG_SECTOR_NUM - 2560 : Nat) : Int) := rfl
  rw [makeimg, copyFile_eq header_len hnew (by decide)]
  dsimp only
  rw [copyFile_eq header_len (fwrite_pos_le hnew _) (by decide), fwrite_append hnew]
  dsimp only
  rw [hcount, hplace, hdiff, hsystem, hrest]

theorem makeimg_eq (header_len : Nat) {bootSect setup : List Byte} (fresh : List Byte)
    (hroom : bootSect.length + setup.length ≤ 512 * SYS_POSITION) :
    makeimg header_len bootSect setup fresh =
      bootSect ++ setup ++
        (bzero fresh sizeofZero).take (512 * SYS_POSITION - (bootSect.length + setup.length)) ++
        (bzero fresh sizeofZero).take (512 * IMG_SECTOR_NUM - 512 * SYS_POSITION) := by
  have hnew := fopen_pos_le []
  have hplace : 512 * SYS_POSITION = 2560 := rfl
  have hdiff : (2560 - (bootSect.length + setup.length) : Int) =
      ((2560 - (bootSect.length + setup.length) : Nat) : Int) := by
    omega
  rw [makeimg_files header_len fresh (by omega)]
  dsimp only
  rw [hdiff, OFStream.write_good, OFStream.write_good, fwrite_append hnew, fwrite_append hnew,
    fwrite_new, hplace]

theorem makeimg_length (header_len : Nat) {bootSect setup fresh : List Byte}
    (hfresh : fresh.length = 512 * IMG_SECTOR_NUM)
    (hroom : bootSect.length + setup.length ≤ 512 * SYS_POSITION) :
    (makeimg header_len bootSect setup fresh).length = 512 * IMG_SECTOR_NUM := by
  have h5 : 512 * SYS_POSITION = 2560 := rfl
  have hsize : 512 * IMG_SECTOR_NUM = 10321920 := rfl
  rw [makeimg_eq header_len fresh hroom]
  simp only [List.length_append, List.length_take, bzero_length]
  omega

/-- The negative count stops the stream. -/
theorem makeimg_short (header_len : Nat) {bootSect setup : List Byte} (fresh : List Byte)
    (hsize : bootSect.length + setup.length < 2 ^ 31)
    (hover : 512 * SYS_POSITION < bootSect.length + setup.length) :
    makeimg header_len bootSect setup fresh = bootSect ++ setup := by
  have hplace : 512 * SYS_POSITION = 2560 := rfl
  rw [makeimg_files header_len fresh hsize]
  dsimp only
  rw [OFStream.write_negative _ _ (by omega), OFStream.write_bad]
  exact fwrite_new _

/-! ## Builds -/

/-- The files of a build that fit their places on the disk. -/
structure Build where
  bootSect : List Byte
  setup : List Byte
  system : List Byte
  bootSect_length : bootSect.length = 512
  setup_le : 512 + setup.length ≤ 512 * SYS_POSITION
  system_le : 512 * SYS_POSITION + system.length ≤ 512 * IMG_SECTOR_NUM

/-- `tools/writeimg` after a build. -/
def Build.write (b : Build) (img : List Byte) : List Byte :=
  writeimg img b.bootSect b.setup b.system

/-- The disk after builds, the last one first. -/
def disk (img : List Byte) (builds : List Build) : List Byte := builds.foldr Build.write img

section

variable {img : List Byte} (himg : img.length = 512 * IMG_SECTOR_NUM) (b : Build)
  (builds : List Build)

include himg

theorem system_place : 512 * SYS_POSITION ≤ img.length := by
  rw [himg]
  decide

theorem write_length : (b.write img).length = 512 * IMG_SECTOR_NUM := by
  have hle : img.length ≤ (b.write img).length := length_le_writeimg (system_place himg)
  have hsystem := b.system_le
  have hsetup := b.setup_le
  have hboot := b.bootSect_length
  have hplace := system_place himg
  refine Nat.le_antisymm ?_ (himg ▸ hle)
  refine List.getElem?_eq_none_iff.mp ?_
  rw [Build.write, writeimg_getElem? hplace, if_neg (by omega), if_neg, ← himg]
  · exact List.getElem?_eq_none (Nat.le_refl _)
  · rw [List.length_append]
    omega

theorem disk_length : (disk img builds).length = 512 * IMG_SECTOR_NUM := by
  induction builds with
  | nil => exact himg
  | cons b builds ih => exact write_length ih b

/-- What no system of the builds reaches is as `makeimg` filled it. -/
theorem disk_untouched {i : Nat} (hi : 512 * SYS_POSITION ≤ i)
    (hbuilds : ∀ b ∈ builds, 512 * SYS_POSITION + b.system.length ≤ i) :
    (disk img builds)[i]? = img[i]? := by
  induction builds with
  | nil => rfl
  | cons b builds ih =>
      have hb := hbuilds b (List.mem_cons_self ..)
      have hboot := b.bootSect_length
      have hsetup := b.setup_le
      have hbefore := ih fun b' hb' => hbuilds b' (List.mem_cons_of_mem _ hb')
      change (b.write (disk img builds))[i]? = _
      rw [Build.write, writeimg_getElem? (system_place (disk_length himg builds)),
        if_neg (by omega), if_neg, hbefore]
      rw [List.length_append]
      omega

end

/-- The disk that `makeimg` makes has its size whatever memory it fills it with, and keeps
it through any builds. After each build, the three files are in their places, and
behind the longest system so far the disk is as it was made. Files of the boot
that reach into the system's sector are all that gets into the image. -/
theorem disk_holds_build (header_len : Nat) (bootSect setup fresh : List Byte)
    (hfresh : fresh.length = 512 * IMG_SECTOR_NUM)
    (hsize : bootSect.length + setup.length < 2 ^ 31) :
    let img := makeimg header_len bootSect setup fresh
    (512 * SYS_POSITION < bootSect.length + setup.length → img = bootSect ++ setup) ∧
    (bootSect.length + setup.length ≤ 512 * SYS_POSITION →
      img.length = 512 * IMG_SECTOR_NUM ∧
      ∀ (b : Build) (builds : List Build),
        (disk img (b :: builds)).length = 512 * IMG_SECTOR_NUM ∧
        (∀ i < 512, (disk img (b :: builds))[i]? = b.bootSect[i]?) ∧
        (∀ i < b.setup.length, (disk img (b :: builds))[512 + i]? = b.setup[i]?) ∧
        (∀ i < b.system.length,
          (disk img (b :: builds))[512 * SYS_POSITION + i]? = b.system[i]?) ∧
        ∀ i, 512 * SYS_POSITION ≤ i →
          (∀ b' ∈ b :: builds, 512 * SYS_POSITION + b'.system.length ≤ i) →
          (disk img (b :: builds))[i]? = img[i]?) := by
  intro img
  refine ⟨makeimg_short header_len fresh hsize, fun hroom => ?_⟩
  have himg : img.length = 512 * IMG_SECTOR_NUM := makeimg_length header_len hfresh hroom
  refine ⟨himg, ?_⟩
  intro b builds
  have hplace := system_place (disk_length himg builds)
  have hboot := b.bootSect_length
  have hsetup := b.setup_le
  refine ⟨disk_length himg (b :: builds), ?_, ?_, ?_, fun i => disk_untouched himg _⟩
  · intro i hi
    change (writeimg (disk img builds) b.bootSect b.setup b.system)[i]? = _
    rw [writeimg_getElem? hplace, if_neg (by omega), if_pos, List.getElem?_append_left (by omega)]
    rw [List.length_append]
    omega
  · intro i hi
    exact writeimg_setup hplace hboot hi (by omega)
  · intro i hi
    exact writeimg_system hplace hi

/-- A build with three bytes of system. -/
def smallBuild : Build where
  bootSect := List.replicate 512 0x90
  setup := [0xf4]
  system := [1, 2, 3]
  bootSect_length := List.length_replicate
  setup_le := by decide
  system_le := by decide

/-- On a disk filled with what was in memory. -/
theorem disk_holds_build_small :
    let img := makeimg 0x1000 (List.replicate 512 0x90) [0xf4]
      (List.replicate (512 * IMG_SECTOR_NUM) 0xaa)
    (disk img [smallBuild]).length = 512 * IMG_SECTOR_NUM ∧
      (disk img [smallBuild])[2561]? = some 2 ∧ (disk img [smallBuild])[2563]? = img[2563]? := by
  obtain ⟨-, hfits⟩ := disk_holds_build 0x1000 (List.replicate 512 0x90) [0xf4]
    (List.replicate (512 * IMG_SECTOR_NUM) 0xaa) List.length_replicate
    (by rw [List.length_replicate]; decide)
  obtain ⟨-, hbuild⟩ := hfits (by rw [List.length_replicate]; decide)
  obtain ⟨hlength, -, -, hsystem, hrest⟩ := hbuild smallBuild []
  refine ⟨hlength, hsystem 1 (by decide), hrest 2563 (by decide) ?_⟩
  intro b hb
  obtain rfl := List.mem_singleton.mp hb
  decide

end MySystem
