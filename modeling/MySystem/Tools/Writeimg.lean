import MySystem.Machine.Word

/-!
# The image writer

`tools/writeimg.c` writes three files over the start of `a.img`, 512 bytes at a
time. However a file is cut into blocks, the image gets all its bytes in order.
-/

namespace MySystem

open Machine

/-! ## Files -/

/-- An open file. -/
@[ext]
structure File where
  bytes : List Byte
  pos : Nat

/-- `fopen` of a file with these bytes, neither truncated nor at its end. -/
def fopen (bytes : List Byte) : File where
  bytes := bytes
  pos := 0

/-- `fread` of at most `n` bytes. -/
def fread (n : Nat) (f : File) : List Byte × File :=
  let buf := (f.bytes.drop f.pos).take n
  (buf, { f with pos := f.pos + buf.length })

/-- `fwrite` at the position; a gap before it is filled with zeros. -/
def fwrite (buf : List Byte) (f : File) : File where
  bytes := f.bytes.take f.pos ++ List.replicate (f.pos - f.bytes.length) 0 ++ buf ++
    f.bytes.drop (f.pos + buf.length)
  pos := f.pos + buf.length

/-- `fseek` with `SEEK_SET`. -/
def fseek (pos : Nat) (f : File) : File := { f with pos := pos }

@[simp] theorem fopen_pos (bytes : List Byte) : (fopen bytes).pos = 0 := rfl

@[simp] theorem fopen_bytes (bytes : List Byte) : (fopen bytes).bytes = bytes := rfl

@[simp] theorem fseek_pos (pos : Nat) (f : File) : (fseek pos f).pos = pos := rfl

@[simp] theorem fseek_bytes (pos : Nat) (f : File) : (fseek pos f).bytes = f.bytes := rfl

variable {f : File}

/-- What is read and what is left make up what was left before. -/
theorem fread_append (n : Nat) (f : File) :
    (fread n f).1 ++ (fread n f).2.bytes.drop (fread n f).2.pos = f.bytes.drop f.pos := by
  show (f.bytes.drop f.pos).take n ++
    f.bytes.drop (f.pos + ((f.bytes.drop f.pos).take n).length) = _
  rw [← List.drop_drop, List.length_take, ← List.drop_eq_drop_min]
  exact List.take_append_drop n _

theorem fwrite_bytes (h : f.pos ≤ f.bytes.length) (buf : List Byte) :
    (fwrite buf f).bytes = f.bytes.take f.pos ++ buf ++ f.bytes.drop (f.pos + buf.length) := by
  rw [fwrite, Nat.sub_eq_zero_of_le h, List.replicate_zero, List.append_nil]

theorem fwrite_pos_le (h : f.pos ≤ f.bytes.length) (buf : List Byte) :
    (fwrite buf f).pos ≤ (fwrite buf f).bytes.length := by
  rw [fwrite_bytes h, List.length_append, List.length_append, List.length_take, Nat.min_eq_left h]
  exact Nat.le_add_right _ _

/-- A file never gets shorter. -/
theorem length_le_fwrite (h : f.pos ≤ f.bytes.length) (buf : List Byte) :
    f.bytes.length ≤ (fwrite buf f).bytes.length := by
  rw [fwrite_bytes h, List.length_append, List.length_append, List.length_take, List.length_drop]
  omega

theorem fwrite_nil (h : f.pos ≤ f.bytes.length) : fwrite [] f = f := by
  have hbytes := fwrite_bytes h []
  rw [List.append_nil, List.length_nil, Nat.add_zero, List.take_append_drop] at hbytes
  exact File.ext hbytes rfl

theorem fwrite_getElem? (h : f.pos ≤ f.bytes.length) (buf : List Byte) (i : Nat) :
    (fwrite buf f).bytes[i]? =
      if f.pos ≤ i ∧ i < f.pos + buf.length then buf[i - f.pos]? else f.bytes[i]? := by
  have hlen : (f.bytes.take f.pos).length = f.pos := List.length_take_of_le h
  rw [fwrite_bytes h, List.append_assoc]
  by_cases hbefore : i < f.pos
  · rw [if_neg (by omega), List.getElem?_append_left (by omega), List.getElem?_take_of_lt hbefore]
  · rw [List.getElem?_append_right (by omega), hlen]
    by_cases hin : i < f.pos + buf.length
    · rw [if_pos (by omega), List.getElem?_append_left (by omega)]
    · have hback : f.pos + buf.length + (i - f.pos - buf.length) = i := by omega
      rw [if_neg (by omega), List.getElem?_append_right (by omega), List.getElem?_drop, hback]

/-- Two writes one after the other. -/
theorem fwrite_append (h : f.pos ≤ f.bytes.length) (a b : List Byte) :
    fwrite b (fwrite a f) = fwrite (a ++ b) f := by
  have hpos : (fwrite b (fwrite a f)).pos = (fwrite (a ++ b) f).pos := by
    simp only [fwrite, List.length_append]
    omega
  have hbytes : (fwrite b (fwrite a f)).bytes = (fwrite (a ++ b) f).bytes := by
    apply List.ext_getElem?
    intro i
    have hwritten : (fwrite a f).pos = f.pos + a.length := rfl
    rw [fwrite_getElem? (fwrite_pos_le h a), fwrite_getElem? h, fwrite_getElem? h, hwritten,
      List.length_append]
    by_cases ha : f.pos ≤ i ∧ i < f.pos + a.length
    · rw [if_neg (by omega), if_pos ha, if_pos (by omega), List.getElem?_append_left (by omega)]
    · rw [if_neg ha]
      by_cases hb : f.pos + a.length ≤ i ∧ i < f.pos + a.length + b.length
      · have hback : i - f.pos - a.length = i - (f.pos + a.length) := by omega
        rw [if_pos hb, if_pos (by omega), List.getElem?_append_right (by omega), hback]
      · rw [if_neg hb, if_neg (by omega)]
  exact File.ext hbytes hpos

/-! ## `writeimg` -/

def SYS_POSITION : Nat := 5

/-- The loop of `write_file`: it ends with the first `fread` that returns nothing. -/
def copyBlocks (out inp : File) : File :=
  if _h : (fread 512 inp).1 = [] then out
  else copyBlocks (fwrite (fread 512 inp).1 out) (fread 512 inp).2
termination_by inp.bytes.length - inp.pos
decreasing_by
  have hread : (inp.bytes.drop inp.pos).take 512 ≠ [] := _h
  have hlen : 0 < ((inp.bytes.drop inp.pos).take 512).length := List.length_pos_iff.mpr hread
  have hmin := hlen
  rw [List.length_take, List.length_drop] at hmin
  show inp.bytes.length - (inp.pos + ((inp.bytes.drop inp.pos).take 512).length) < _
  omega

/-- `write_file` with the bytes of the file it opens. -/
def write_file (out : File) (content : List Byte) : File := copyBlocks out (fopen content)

/-- `main`: the bytes of `a.img` after it, from those before it and the three files. -/
def writeimg (img bootSect setup system : List Byte) : List Byte :=
  let out := fopen img
  let out := write_file out bootSect
  let out := write_file out setup
  let out := fseek (512 * SYS_POSITION) out
  (write_file out system).bytes

/-- The blocks make up what is left of the file. -/
theorem copyBlocks_eq (out inp : File) (h : out.pos ≤ out.bytes.length) :
    copyBlocks out inp = fwrite (inp.bytes.drop inp.pos) out := by
  induction out, inp using copyBlocks.induct with
  | case1 out inp hnone =>
      have hrest : inp.bytes.drop inp.pos = [] := by
        have hread : (inp.bytes.drop inp.pos).take 512 = [] := hnone
        rcases List.take_eq_nil_iff.mp hread with hzero | hrest
        · cases hzero
        · exact hrest
      rw [copyBlocks, dif_pos hnone, hrest, fwrite_nil h]
  | case2 out inp hmore ih =>
      rw [copyBlocks, dif_neg hmore, ih (fwrite_pos_le h _), fwrite_append h]
      rw [fread_append]

theorem write_file_eq (out : File) (content : List Byte) (h : out.pos ≤ out.bytes.length) :
    write_file out content = fwrite content out := copyBlocks_eq out (fopen content) h

variable {img bootSect setup system : List Byte}

theorem fopen_pos_le (bytes : List Byte) : (fopen bytes).pos ≤ (fopen bytes).bytes.length :=
  Nat.zero_le _

/-- There is room for `fseek` behind the first two files, which make up one write. -/
theorem fseek_pos_le (h : 512 * SYS_POSITION ≤ img.length) :
    (fseek (512 * SYS_POSITION) (fwrite (bootSect ++ setup) (fopen img))).pos ≤
      (fseek (512 * SYS_POSITION) (fwrite (bootSect ++ setup) (fopen img))).bytes.length :=
  Nat.le_trans h (length_le_fwrite (fopen_pos_le img) _)

theorem writeimg_eq (h : 512 * SYS_POSITION ≤ img.length) :
    writeimg img bootSect setup system =
      (fwrite system
        (fseek (512 * SYS_POSITION) (fwrite (bootSect ++ setup) (fopen img)))).bytes := by
  dsimp only [writeimg]
  rw [write_file_eq _ _ (fopen_pos_le img), write_file_eq _ _ (fwrite_pos_le (fopen_pos_le img) _),
    fwrite_append (fopen_pos_le img), write_file_eq _ _ (fseek_pos_le h)]

theorem length_le_writeimg (h : 512 * SYS_POSITION ≤ img.length) :
    img.length ≤ (writeimg img bootSect setup system).length := by
  rw [writeimg_eq h]
  exact Nat.le_trans (length_le_fwrite (fopen_pos_le img) (bootSect ++ setup))
    (length_le_fwrite (fseek_pos_le h) system)

/-- Which byte ends up where. -/
theorem writeimg_getElem? (h : 512 * SYS_POSITION ≤ img.length) (i : Nat) :
    (writeimg img bootSect setup system)[i]? =
      if 512 * SYS_POSITION ≤ i ∧ i < 512 * SYS_POSITION + system.length then
        system[i - 512 * SYS_POSITION]?
      else if i < (bootSect ++ setup).length then (bootSect ++ setup)[i]?
      else img[i]? := by
  rw [writeimg_eq h, fwrite_getElem? (fseek_pos_le h), fseek_pos, fseek_bytes,
    fwrite_getElem? (fopen_pos_le img), fopen_pos, fopen_bytes, Nat.sub_zero]
  simp only [Nat.zero_le, true_and, Nat.zero_add]

/-- `tools/system` stands from its sector on. -/
theorem writeimg_system (h : 512 * SYS_POSITION ≤ img.length) {i : Nat} (hi : i < system.length) :
    (writeimg img bootSect setup system)[512 * SYS_POSITION + i]? = system[i]? := by
  rw [writeimg_getElem? h, if_pos ⟨Nat.le_add_right .., Nat.add_lt_add_left hi _⟩,
    Nat.add_sub_cancel_left]

/-- `boot/setup` follows a boot sector of 512 bytes, up to the system's sector. -/
theorem writeimg_setup (h : 512 * SYS_POSITION ≤ img.length) (hboot : bootSect.length = 512)
    {i : Nat} (hi : i < setup.length) (hroom : 512 + i < 512 * SYS_POSITION) :
    (writeimg img bootSect setup system)[512 + i]? = setup[i]? := by
  have hlen : 512 + i < (bootSect ++ setup).length := by
    rw [List.length_append, hboot]
    exact Nat.add_lt_add_left hi _
  rw [writeimg_getElem? h, if_neg (by omega), if_pos hlen,
    List.getElem?_append_right (by omega), hboot, Nat.add_sub_cancel_left]

end MySystem
