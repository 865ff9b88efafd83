import MySystem.Boot.Image
import MySystem.Boot.Sector
import MySystem.Boot.Setup
import MySystem.Console.Driver

/-!
# From the firmware to protected mode

The boot sector, its loader, `setup`, the moves and the switch one after the
other, each going on where the one before has left. What was written to the disk
is what runs at address 0, with the parameters of the machine at 0x90000.
-/

namespace MySystem

open Machine

variable {D : Type}

/-! ## What the moves keep -/

/-- Stack, code segment and interrupt flag. -/
structure Kept (c d : RealMode D) : Prop where
  cs : d.cs = c.cs
  ss : d.ss = c.ss
  esp : d.esp = c.esp
  interrupts : d.eflags.getLsbD 9 = c.eflags.getLsbD 9

namespace Kept

variable {c d e : RealMode D}

theorem refl (c : RealMode D) : Kept c c := ⟨rfl, rfl, rfl, rfl⟩

theorem trans (h : Kept c d) (h' : Kept d e) : Kept c e :=
  ⟨h'.cs.trans h.cs, h'.ss.trans h.ss, h'.esp.trans h.esp, h'.interrupts.trans h.interrupts⟩

theorem moveWords (n : Nat) (c : RealMode D) : Kept c (RealMode.moveWords n c) := by
  induction n generalizing c with
  | zero => exact refl c
  | succ n ih =>
      have hturn : Kept c c.moveWord := ⟨rfl, rfl, rfl, rfl⟩
      exact hturn.trans (ih c.moveWord)

theorem setup_stretch {lay : Offsets SetupLabel} {dev : Device D}
    (h : setup.Stretch lay dev c d) : Kept c d := by
  obtain ⟨l, -, hexec⟩ := h
  cases l with
  | end_move =>
      obtain rfl := RealOutcome.goto.inj hexec
      exact ⟨rfl, rfl, rfl, rfl⟩
  | move =>
      obtain rfl := RealOutcome.goto.inj hexec
      exact ⟨rfl, rfl, rfl, Cpu.getLsbD_withBit _ _ (by decide)⟩
  | do_move =>
      let compared := ((setupCode .do_move).take 3).foldl (RealOp.step dev) c
      let ready := (((setupCode .do_move).drop 4).take 4).foldl (RealOp.step dev) compared
      let moved := (RealOp.repMovsw : RealOp SetupLabel).step dev ready
      have hturn : setup.exec lay dev .do_move (setupCode .do_move) c =
          if compared.zero then .goto (RealCode.enter lay compared .end_move)
          else .goto (RealCode.enter lay moved .do_move) := rfl
      have hcompared : Kept c compared :=
        ⟨rfl, rfl, rfl, (Cpu.interrupt_setStatus _ _).trans (Cpu.interrupt_setStatus _ _)⟩
      have hready : Kept compared ready :=
        ⟨rfl, rfl, rfl, (Cpu.interrupt_setStatus _ _).trans (Cpu.interrupt_setStatus _ _)⟩
      have hmoved : Kept ready moved := by
        have hwords := Kept.moveWords (ready.half .ecx).toNat ready
        exact ⟨hwords.cs, hwords.ss, hwords.esp, hwords.interrupts⟩
      have houtcome := hturn.symm.trans hexec
      split at houtcome
      case isTrue =>
        obtain rfl := RealOutcome.goto.inj houtcome
        exact ⟨hcompared.cs, hcompared.ss, hcompared.esp, hcompared.interrupts⟩
      case isFalse =>
        obtain rfl := RealOutcome.goto.inj houtcome
        have hall := (hcompared.trans hready).trans hmoved
        exact ⟨hall.cs, hall.ss, hall.esp, hall.interrupts⟩

theorem setup_runs {lay : Offsets SetupLabel} {dev : Device D} (h : setup.Runs lay dev c d) :
    Kept c d := by
  induction h with
  | refl => exact refl c
  | tail _ hstretch ih => exact ih.trans (setup_stretch hstretch)

end Kept

/-! ## What the loader leaves -/

section Loader

variable (drive : Drive) (lay : Offsets BootLabel)

/-- The stack is empty again after the last turn. -/
theorem readcore_stack {m : Memory} (n : Nat) {i : Nat} (hi : i + (n + 1) = 80)
    {c : RealMode DiskState} (h : Reading drive lay m i c) :
    ∃ r, bootSect.Leaves lay drive.device c SETUPSEG 0 r ∧ r.ss = INITSEG ∧ r.sp = 0xfef4 := by
  induction n generalizing i c with
  | zero =>
      obtain ⟨d, e, hruns, heip, hexec, hnext⟩ := readcore_turn drive lay (by omega) h
      have hlast : BitVec.ofNat 16 (79 - i) = 0 := by
        rw [show 79 - i = 0 by omega]
        rfl
      rw [if_pos hlast] at hexec
      exact ⟨e, ⟨d, .readcore_1, hruns, heip, hexec⟩, hnext.ss, hnext.sp⟩
  | succ n ih =>
      obtain ⟨d, e, hruns, heip, hexec, hnext⟩ := readcore_turn drive lay (by omega) h
      have hmore : BitVec.ofNat 16 (79 - i) ≠ 0 := by
        intro hzero
        have hnat := congrArg BitVec.toNat hzero
        rw [BitVec.toNat_ofNat, Nat.mod_eq_of_lt (by omega)] at hnat
        have hnone : 79 - i = 0 := hnat
        omega
      rw [if_neg hmore] at hexec
      obtain ⟨r, ⟨d', l, hruns', heip', hexec'⟩, hstack⟩ := ih (by omega) hnext
      exact ⟨r, ⟨d', l, (hruns.tail ⟨.readcore_1, heip, hexec⟩).trans hruns', heip', hexec'⟩,
        hstack⟩

/-- The boot sector gives `setup` the stack it was given itself. -/
theorem bootSect_stack {c : RealMode DiskState}
    (heip : c.eip = (lay.addr .read_setup).setWidth 32) (hss : c.ss = INITSEG)
    (hsp : c.sp = 0xfef4) :
    ∃ r, bootSect.Leaves lay drive.device c SETUPSEG 0 r ∧ r.ss = INITSEG ∧ r.sp = 0xfef4 := by
  let b : RealMode DiskState := { c with
    eax := 1
    ebx := 0
    ds := (c.setHalf .eax SETUPSEG).half .eax }
  have hds : b.ds = SETUPSEG := RealMode.half_setHalf c .eax SETUPSEG
  have hlba : b.eax.toNat = 1 := rfl
  have hoffset : b.ebx = Word.of 0 := rfl
  have hsegment : b.ds.toNat = 0x9020 := by
    rw [hds]
    rfl
  have hcall : bootSect.exec lay drive.device .read_setup (bootCode .read_setup) c =
      .goto (RealCode.enter lay (b.pushHalf (lay.addr .read_setup_1)) .read_hard_disk_0) := rfl
  obtain ⟨d, hruns, hdeip, -, -, -, -, hdss, hdsp, -⟩ :=
    read_hard_disk_0_call drive lay .read_setup_1 (c := b) hss hsp (by omega) hoffset
      (by omega) (by omega)
  let e : RealMode DiskState := RealCode.enter lay { d with
    eax := 5
    ecx := 80
    ebx := 0
    ds := (d.setHalf .eax SYSSEG).half .eax } .readcore
  have hds' : e.ds = SYSSEG := RealMode.half_setHalf d .eax SYSSEG
  have hnext : bootSect.exec lay drive.device .read_setup_1 (bootCode .read_setup_1) d = .goto e :=
    rfl
  have hreading : Reading drive lay d.mem 0 e :=
    ⟨rfl, rfl, rfl, rfl, hds', hdss, hdsp, fun _ hj => absurd hj (Nat.not_lt_zero _),
      fun _ _ _ => rfl⟩
  obtain ⟨r, ⟨f, l, hruns', heip', hexec⟩, hstack⟩ := readcore_stack drive lay 79 rfl hreading
  exact ⟨r, ⟨f, l, .head ⟨.read_setup, heip, hcall⟩
    (hruns.trans (.head ⟨.read_setup_1, hdeip, hnext⟩ hruns')), heip', hexec⟩, hstack⟩

end Loader

/-! ## The tables of `setup` -/

/-- The bytes of a half, the low one first. -/
def halfBytes (v : Half) : List Byte := [v.setWidth 8, v.extractLsb' 8 8]

/-- The limit and the base of the temporary descriptor table. -/
def pgdtBytes (sym : SetupSymbols) : List Byte :=
  halfBytes 23 ++ halfBytes (512 + sym.gdt) ++ halfBytes 0x9

/-- The null descriptor, a code segment and a data segment. -/
def gdtBytes : List Byte :=
  [0, 0, 0, 0, 0, 0, 0, 0,
    0xff, 0xff, 0, 0, 0, 0x98, 0xcf, 0,
    0xff, 0xff, 0, 0, 0, 0x92, 0xcf, 0]

/-- The tables lie in the sector that is read. -/
structure Tables (sym : SetupSymbols) (file : List Byte) : Prop where
  pgdt : pgdtBytes sym <+: file.drop sym.pgdt.toNat
  pgdt_le : sym.pgdt.toNat + 6 ≤ 512
  pidt : List.replicate 6 0 <+: file.drop sym.pidt.toNat
  pidt_le : sym.pidt.toNat + 6 ≤ 512
  gdt : gdtBytes <+: file.drop sym.gdt.toNat
  gdt_le : sym.gdt.toNat + 24 ≤ 512

/-- `file` is in memory at `a`, its first `n` bytes at least. -/
def InMemory (file : List Byte) (a n : Nat) (m : Memory) : Prop :=
  ∀ i, i < min file.length n → file[i]? = some (m.byteAt (a + i))

/-- A byte of a part of the file. -/
theorem InMemory.byte {file bytes : List Byte} {a n o i : Nat} {m : Memory}
    (h : InMemory file a n m) (hin : bytes <+: file.drop o) (hn : o + i < n) {v : Byte}
    (hv : bytes[i]? = some v) : m.byteAt (a + o + i) = v := by
  obtain ⟨rest, hrest⟩ := hin
  obtain ⟨hi, -⟩ := List.getElem?_eq_some_iff.mp hv
  have hfile : file[o + i]? = some v := by
    rw [← List.getElem?_drop, ← hrest, List.getElem?_append_left hi, hv]
  obtain ⟨hlt, -⟩ := List.getElem?_eq_some_iff.mp hfile
  have hbyte := h (o + i) (Nat.lt_min.mpr ⟨hlt, hn⟩)
  rw [hfile, ← Nat.add_assoc] at hbyte
  exact (Option.some.inj hbyte).symm

section Loaded

variable {sym : SetupSymbols} {file bytes : List Byte} {m : Memory}

theorem halfBytes_append (v : Half) : v.extractLsb' 8 8 ++ v.setWidth 8 = v := by
  have hlow : v.setWidth 8 = v.extractLsb' 0 8 := BitVec.setWidth_eq_extractLsb' (by decide)
  have hboth : v.extractLsb' 8 8 ++ v.extractLsb' 0 8 = v.extractLsb' 0 16 :=
    BitVec.extractLsb'_append_extractLsb'_eq_extractLsb' rfl
  rw [hlow, hboth]
  exact BitVec.extractLsb'_eq_self

/-- A half of a part of `setup`. -/
theorem InMemory.half {o : Half} {n i : Nat} {v : Half} (h : InMemory file 0x90200 n m)
    (hin : bytes <+: file.drop o.toNat) (hn : o.toNat + i + 2 ≤ n)
    (hlow : bytes[i]? = some (v.setWidth 8)) (hhigh : bytes[i + 1]? = some (v.extractLsb' 8 8)) :
    m.load16 (linear 0x9020 (o.toNat + i)) = v := by
  have hlow' := h.byte hin (by omega) hlow
  have hhigh' := h.byte hin (by omega) hhigh
  have haddr : 16 * (0x9020 : Half).toNat + (o.toNat + i) = 0x90200 + o.toNat + i := by
    rw [← Nat.add_assoc]
    rfl
  rw [load16_linear, ← halfBytes_append v, ← hlow', ← hhigh', haddr, Memory.cell, ← Nat.add_assoc]

theorem base_of (v : Half) :
    (((9 : Byte) ++ v).setWidth 32 : Word) = Word.of (0x90000 + v.toNat) := by
  have hv := v.isLt
  apply BitVec.eq_of_toNat_eq
  rw [BitVec.toNat_setWidth_of_le (by decide), BitVec.toNat_append, Word.toNat_of (by omega),
    ← Nat.shiftLeft_add_eq_or_of_lt hv]
  rfl

/-- The register of the temporary descriptor table after `lgdt`. -/
theorem Tables.gdtr (h : Tables sym file) (hm : InMemory file 0x90200 512 m) :
    m.table 0x9020 sym.pgdt = ⟨23, Word.of (0x90200 + sym.gdt.toNat)⟩ := by
  have hle := h.pgdt_le
  have hgdt := h.gdt_le
  have hlimit : m.load16 (linear 0x9020 sym.pgdt.toNat) = 23 :=
    hm.half (i := 0) h.pgdt (by omega) rfl rfl
  have hlow : m.load16 (linear 0x9020 (sym.pgdt.toNat + 2)) = 512 + sym.gdt :=
    hm.half h.pgdt (by omega) rfl rfl
  have hhigh : m.bytes (linear 0x9020 (sym.pgdt.toNat + 4)) = 9 :=
    hm.byte (i := 4) h.pgdt (by omega) rfl
  have hbase : 0x90000 + (512 + sym.gdt).toNat = 0x90200 + sym.gdt.toNat := by bv_omega
  rw [Memory.table, hlimit, hlow, hhigh, base_of, hbase]

theorem Tables.idtr (h : Tables sym file) (hm : InMemory file 0x90200 512 m) :
    m.table 0x9020 sym.pidt = ⟨0, 0⟩ := by
  have hle := h.pidt_le
  have hlimit : m.load16 (linear 0x9020 sym.pidt.toNat) = 0 :=
    hm.half (i := 0) h.pidt (by omega) rfl rfl
  have hlow : m.load16 (linear 0x9020 (sym.pidt.toNat + 2)) = 0 :=
    hm.half h.pidt (by omega) rfl rfl
  have hhigh : m.bytes (linear 0x9020 (sym.pidt.toNat + 4)) = 0 :=
    hm.byte (i := 4) h.pidt (by omega) rfl
  rw [Memory.table, hlimit, hlow, hhigh]
  rfl

/-- A flat segment of 4 GB. -/
def flat (access : Byte) : SegmentDescriptor := ⟨0, 0xfffff, access, 0xc⟩

theorem segment_flat {a : Word} {access : Byte} (h0 : m.bytes (a + 0) = 0xff)
    (h1 : m.bytes (a + 1) = 0xff) (h2 : m.bytes (a + 2) = 0) (h3 : m.bytes (a + 3) = 0)
    (h4 : m.bytes (a + 4) = 0) (h5 : m.bytes (a + 5) = access) (h6 : m.bytes (a + 6) = 0xcf)
    (h7 : m.bytes (a + 7) = 0) : m.segment a = flat access := by
  have hthree : a + 2 + 1 = a + 3 := BitVec.add_assoc a 2 1
  have hzero : a + 0 = a := BitVec.add_zero a
  rw [hzero] at h0
  rw [Memory.segment, Memory.load16, Memory.load16, hthree, h0, h1, h2, h3, h4, h5, h6, h7]
  rfl

/-- The two segments of the temporary descriptor table. -/
theorem Tables.segments (h : Tables sym file) (hm : InMemory file 0x90200 512 m) :
    m.segment (Word.of (0x90200 + sym.gdt.toNat + 8)) = flat 0x98 ∧
      m.segment (Word.of (0x90200 + sym.gdt.toNat + 16)) = flat 0x92 := by
  have hle := h.gdt_le
  have hbyte : ∀ i v, i < 24 → gdtBytes[i]? = some v →
      m.bytes (Word.of (0x90200 + sym.gdt.toNat + i)) = v := fun i v hi hv =>
    hm.byte h.gdt (by omega) hv
  have hsegment : ∀ i access, i + 7 < 24 →
      (gdtBytes.drop i).take 8 = [0xff, 0xff, 0, 0, 0, access, 0xcf, 0] →
      m.segment (Word.of (0x90200 + sym.gdt.toNat + i)) = flat access := by
    intro i access hi hpart
    have hat : ∀ j v, j < 8 → ([0xff, 0xff, 0, 0, 0, access, 0xcf, 0] : List Byte)[j]? = some v →
        m.bytes (Word.of (0x90200 + sym.gdt.toNat + i) + Word.of j) = v := by
      intro j v hj hv
      rw [← hpart, List.getElem?_take, if_pos hj, List.getElem?_drop] at hv
      rw [Word.of_add_of, Nat.add_assoc]
      exact hbyte (i + j) v (by omega) hv
    exact segment_flat (hat 0 _ (by decide) rfl) (hat 1 _ (by decide) rfl)
      (hat 2 _ (by decide) rfl) (hat 3 _ (by decide) rfl) (hat 4 _ (by decide) rfl)
      (hat 5 _ (by decide) rfl) (hat 6 _ (by decide) rfl) (hat 7 _ (by decide) rfl)
  exact ⟨hsegment 8 0x98 (by omega) rfl, hsegment 16 0x92 (by omega) rfl⟩

end Loaded

/-! ## One piece after the other -/

/-- Where the pieces of code lie in their segments. -/
structure BootLayout where
  sectorSym : SectorSymbols
  setupSym : SetupSymbols
  sector : Offsets SectorLabel
  reads : Offsets BootLabel
  start : Offsets StartLabel
  moves : Offsets SetupLabel
  go : sectorSym.go = sector.addr .go
  read_setup : sector.addr .read_setup = reads.addr .read_setup
  start_zero : start.addr .start = 0
  move : start.addr .move = moves.addr .move
  end_move : start.addr .end_move = moves.addr .end_move

/-- The code that runs. -/
inductive BootStage where
  /-- The boot sector where the firmware has put it. -/
  | firmware
  | sector
  | reads
  | setup
  | moves
  /-- Protected mode. -/
  | system

/-- A jump to another segment. -/
def farJump (s offset : Half) (c : Startup D) : Startup D :=
  { c with
    cs := s
    eip := offset.setWidth 32 }

section Steps

variable (lay : BootLayout) (b : Board DiskState) (drive : Drive)

/-- A stretch of the code that runs, or the passage to the code behind it. -/
inductive BootStep : BootStage × Startup DiskState → BootStage × Startup DiskState → Prop
  | copy {c d : Startup DiskState} {s offset : Half}
      (hexec : (sector lay.sectorSym).exec lay.sector b drive.device .mbr
        (sectorCode lay.sectorSym .mbr) c = .far s offset d) :
      BootStep (.firmware, c) (.sector, farJump s offset d)
  | sector {c d : Startup DiskState} (hnot : c.eip ≠ (lay.sector.addr .read_setup).setWidth 32)
      (h : (sector lay.sectorSym).Stretch lay.sector b drive.device c d) :
      BootStep (.sector, c) (.sector, d)
  | reads {c : Startup DiskState} (heip : c.eip = (lay.sector.addr .read_setup).setWidth 32) :
      BootStep (.sector, c) (.reads, c)
  | read {c : Startup DiskState} {d : RealMode DiskState}
      (h : bootSect.Stretch lay.reads drive.device c.toRealMode d) :
      BootStep (.reads, c) (.reads, { c with toRealMode := d })
  | setup {c : Startup DiskState} {d : RealMode DiskState} {s offset : Half} {l : BootLabel}
      (heip : c.eip = (lay.reads.addr l).setWidth 32)
      (hexec : bootSect.exec lay.reads drive.device l (bootCode l) c.toRealMode = .far s offset d) :
      BootStep (.reads, c) (.setup, farJump s offset { c with toRealMode := d })
  | start {c d : Startup DiskState} (hnot : c.eip ≠ (lay.start.addr .move).setWidth 32)
      (h : (start lay.setupSym).Stretch lay.start b drive.device c d) :
      BootStep (.setup, c) (.setup, d)
  | moves {c : Startup DiskState} (heip : c.eip = (lay.start.addr .move).setWidth 32) :
      BootStep (.setup, c) (.moves, c)
  | move {c : Startup DiskState} {d : RealMode DiskState}
      (hnot : c.eip ≠ (lay.moves.addr .end_move).setWidth 32)
      (h : MySystem.setup.Stretch lay.moves drive.device c.toRealMode d) :
      BootStep (.moves, c) (.moves, { c with toRealMode := d })
  | moved {c : Startup DiskState} (heip : c.eip = (lay.moves.addr .end_move).setWidth 32) :
      BootStep (.moves, c) (.setup, c)
  | system {c d : Startup DiskState} {s offset : Half} {l : StartLabel}
      (heip : c.eip = (lay.start.addr l).setWidth 32)
      (hexec : (MySystem.start lay.setupSym).exec lay.start b drive.device l
        (startCode lay.setupSym l) c = .far s offset d) :
      BootStep (.setup, c) (.system, farJump s offset d)

/-- Steps one after the other. -/
def BootRuns : BootStage × Startup DiskState → BootStage × Startup DiskState → Prop :=
  Relation.ReflTransGen (BootStep lay b drive)

variable {lay b drive}

/-- Each state has one successor at most. -/
theorem BootStep.unique {s t t' : BootStage × Startup DiskState} (h : BootStep lay b drive s t)
    (h' : BootStep lay b drive s t') : t = t' := by
  cases h with
  | copy hexec =>
      cases h' with
      | copy hexec' =>
          cases hexec.symm.trans hexec'
          rfl
  | sector hnot h =>
      cases h' with
      | sector hnot' h' => rw [h.unique h']
      | reads heip => exact absurd heip hnot
  | reads heip =>
      cases h' with
      | sector hnot' h' => exact absurd heip hnot'
      | reads heip' => rfl
  | read h =>
      cases h' with
      | read h' => rw [h.unique h']
      | setup heip hexec =>
          obtain ⟨l, heip', hexec'⟩ := h
          obtain rfl := RealCode.addr_inj (heip.symm.trans heip')
          cases hexec.symm.trans hexec'
  | setup heip hexec =>
      cases h' with
      | read h' =>
          obtain ⟨l, heip', hexec'⟩ := h'
          obtain rfl := RealCode.addr_inj (heip.symm.trans heip')
          cases hexec.symm.trans hexec'
      | setup heip' hexec' =>
          obtain rfl := RealCode.addr_inj (heip.symm.trans heip')
          cases hexec.symm.trans hexec'
          rfl
  | start hnot h =>
      cases h' with
      | start hnot' h' => rw [h.unique h']
      | moves heip => exact absurd heip hnot
      | system heip hexec =>
          obtain ⟨l, heip', hexec'⟩ := h
          obtain rfl := RealCode.addr_inj (heip.symm.trans heip')
          cases hexec.symm.trans hexec'
  | moves heip =>
      cases h' with
      | start hnot h' => exact absurd heip hnot
      | moves heip' => rfl
      | system heip' hexec =>
          obtain rfl := RealCode.addr_inj (heip.symm.trans heip')
          cases hexec
  | move hnot h =>
      cases h' with
      | move hnot' h' => rw [h.unique h']
      | moved heip => exact absurd heip hnot
  | moved heip =>
      cases h' with
      | move hnot h' => exact absurd heip hnot
      | moved heip' => rfl
  | system heip hexec =>
      cases h' with
      | start hnot h' =>
          obtain ⟨l, heip', hexec'⟩ := h'
          obtain rfl := RealCode.addr_inj (heip.symm.trans heip')
          cases hexec.symm.trans hexec'
      | moves heip' =>
          obtain rfl := RealCode.addr_inj (heip.symm.trans heip')
          cases hexec
      | system heip' hexec' =>
          obtain rfl := RealCode.addr_inj (heip.symm.trans heip')
          cases hexec.symm.trans hexec'
          rfl

/-- Whatever has run, the way to the system is the same. -/
theorem BootRuns.goes_on {s t : BootStage × Startup DiskState} {p : Startup DiskState}
    (h : BootRuns lay b drive s (.system, p)) (h' : BootRuns lay b drive s t) :
    BootRuns lay b drive t (.system, p) := by
  have honce : Relator.RightUnique (BootStep lay b drive) := fun _ _ _ => BootStep.unique
  rcases h.total_of_right_unique honce h' with hon | hon
  · rcases hon.cases_head with rfl | ⟨_, hstep, -⟩
    · exact .refl
    · cases hstep
  · exact hon

/-! ### The stages -/

theorem read_runs {c : Startup DiskState} {d : RealMode DiskState}
    (h : bootSect.Runs lay.reads drive.device c.toRealMode d) :
    BootRuns lay b drive (.reads, c) (.reads, { c with toRealMode := d }) := by
  induction h with
  | refl => exact .refl
  | tail _ hstretch ih => exact ih.tail (.read hstretch)

theorem start_runs {c d : Startup DiskState}
    (h : (MySystem.start lay.setupSym).Runs lay.start b drive.device c d) :
    BootRuns lay b drive (.setup, c) (.setup, d) := by
  have havoid := StartCode.Runs.avoid (l := StartLabel.move) rfl rfl h
  clear h
  induction havoid with
  | refl => exact .refl
  | tail _ hstretch ih => exact Relation.ReflTransGen.tail ih (.start hstretch.1 hstretch.2)

theorem move_runs {c : Startup DiskState} {d : RealMode DiskState}
    (h : MySystem.setup.Runs lay.moves drive.device c.toRealMode d) :
    BootRuns lay b drive (.moves, c) (.moves, { c with toRealMode := d }) := by
  have havoid := RealCode.Runs.avoid (l := SetupLabel.end_move) rfl rfl h
  clear h
  induction havoid with
  | refl => exact .refl
  | tail _ hstretch ih => exact Relation.ReflTransGen.tail ih (.move hstretch.1 hstretch.2)

variable (lay b drive)

/-- The boot sector, where the firmware has put it, goes on to the reads. -/
theorem sector_stage (hb : b.Obeys) {c : Startup DiskState} (hup : c.direction = false) :
    ∃ d, BootStep lay b drive (.firmware, c) (.sector, d) ∧
      (∀ i, i < 512 → d.mem.byteAt (0x90000 + i) = c.mem.byteAt (0x7c00 + i)) ∧
      ∃ e, BootRuns lay b drive (.sector, d) (.reads, e) ∧
        e.eip = (lay.reads.addr .read_setup).setWidth 32 ∧ e.ss = INITSEG ∧ e.sp = 0xfef4 ∧
        e.cr0 = c.cr0 := by
  obtain ⟨d, hcopies, hcopy, -, hcr0'⟩ := mbr_leaves lay.sectorSym lay.sector b drive.device hup
  obtain ⟨e, hexec, hss, hsp, hcr0, -⟩ := go_exec lay.sectorSym lay.sector b drive.device hb
    (c := farJump INITSEG lay.sectorSym.go d) rfl
  have hgo : (farJump INITSEG lay.sectorSym.go d).eip = (lay.sector.addr .go).setWidth 32 :=
    congrArg (BitVec.setWidth 32) lay.go
  have hnot : (farJump INITSEG lay.sectorSym.go d).eip ≠
      (lay.sector.addr .read_setup).setWidth 32 := by
    intro heip
    cases RealCode.addr_inj (hgo.symm.trans heip)
  refine ⟨farJump INITSEG lay.sectorSym.go d, .copy hcopies, hcopy, ?_⟩
  refine ⟨StartCode.enter lay.sector e .read_setup, ?_, ?_, hss, hsp, hcr0.trans hcr0'⟩
  · exact .head (.sector hnot ⟨.go, hgo, hexec⟩) (.single (.reads rfl))
  · exact congrArg (BitVec.setWidth 32) lay.read_setup

/-- The disk is read, and `setup` is entered with the stack as it was. -/
theorem reads_stage {c : Startup DiskState}
    (heip : c.eip = (lay.reads.addr .read_setup).setWidth 32) (hss : c.ss = INITSEG)
    (hsp : c.sp = 0xfef4) :
    ∃ d, BootRuns lay b drive (.reads, c) (.setup, d) ∧ d.cs = SETUPSEG ∧
      d.eip = (lay.start.addr .start).setWidth 32 ∧ d.ss = INITSEG ∧ d.sp = 0xfef4 ∧
      d.cr0 = c.cr0 ∧
      (∀ j, j < 512 → d.mem.byteAt (0x90200 + j) = drive.byteOf (512 + j)) ∧
      ∀ j, j < 40960 → d.mem.byteAt (0x10000 + j) = drive.byteOf (2560 + j) := by
  obtain ⟨r, hleaves, hsetup, hsystem⟩ := bootSect_loads drive lay.reads heip hss hsp
  obtain ⟨r', hleaves', hrss, hrsp⟩ := bootSect_stack drive lay.reads heip hss hsp
  obtain ⟨-, -, rfl⟩ := hleaves.unique hleaves'
  obtain ⟨e, l, hruns, heeip, hexec⟩ := hleaves
  refine ⟨farJump SETUPSEG 0 { c with toRealMode := r }, ?_, rfl, ?_, hrss, hrsp, rfl, hsetup,
    hsystem⟩
  · exact (read_runs hruns).tail (.setup heeip hexec)
  · rw [lay.start_zero]
    rfl

/-- The firmware is asked. -/
theorem asks_stage (hb : b.Obeys) {a : FirmwareAnswers} (hg : Gives b a) {c : Startup DiskState}
    (heip : c.eip = (lay.start.addr .start).setWidth 32) :
    ∃ d, BootRuns lay b drive (.setup, c) (.moves, d) ∧
      d.eip = (lay.moves.addr .move).setWidth 32 ∧ Asked c d ∧ parameter d 2 = a.extended ∧
      parameter d 4 = a.page ∧ parameter d 6 = a.mode ∧ parameter d 14 = 0x5019 ∧
      d.eflags.getLsbD 9 = false := by
  obtain ⟨d, hstart, hasked, hextended, hax⟩ :=
    start_exec lay.setupSym lay.start drive.device hb hg c
  have hentered : Asked c (StartCode.enter lay.start d .novga) :=
    ⟨hasked.cs, hasked.ss, hasked.esp, hasked.ds, hasked.cr0, hasked.below, hasked.above⟩
  obtain ⟨e, hnovga, hasked', hkept, hpage, hmode, hlines, hoff⟩ :=
    novga_exec lay.setupSym lay.start drive.device hb hg hentered
  have hruns : (MySystem.start lay.setupSym).Runs lay.start b drive.device c
      (StartCode.enter lay.start e .move) :=
    .head ⟨.start, heip, hstart⟩ (.single ⟨.novga, rfl, hnovga⟩)
  refine ⟨StartCode.enter lay.start e .move, (start_runs hruns).tail (.moves rfl), ?_, ?_, ?_,
    hpage, hmode, ?_, hoff⟩
  · exact congrArg (BitVec.setWidth 32) lay.move
  · exact ⟨hasked'.cs, hasked'.ss, hasked'.esp, hasked'.ds, hasked'.cr0, hasked'.below,
      hasked'.above⟩
  · exact hkept.trans hextended
  · exact hlines.trans hax

/-- The system is moved. -/
theorem moves_stage {c : Startup DiskState} (heip : c.eip = (lay.moves.addr .move).setWidth 32) :
    ∃ d : Startup DiskState, BootRuns lay b drive (.moves, c) (.setup, d) ∧
      d.eip = (lay.start.addr .end_move).setWidth 32 ∧ Kept c.toRealMode d.toRealMode ∧
      d.cr0 = c.cr0 ∧ (∀ a, a < 0x80000 → d.mem.byteAt a = c.mem.byteAt (a + 0x10000)) ∧
      ∀ a : Word, 0x80000 ≤ a.toNat → d.mem.bytes a = c.mem.bytes a := by
  obtain ⟨d, hruns, hdeip, hmoved, hkept⟩ := do_move_moves lay.moves drive.device heip
  refine ⟨{ c with toRealMode := d }, (move_runs hruns).tail (.moved hdeip), ?_,
    .setup_runs hruns, rfl, hmoved, hkept⟩
  exact hdeip.trans (congrArg (BitVec.setWidth 32) lay.end_move).symm

end Steps

/-! ## The whole way -/

theorem InMemory.congr {file : List Byte} {a n lo hi : Nat} {m m' : Memory}
    (h : InMemory file a n m) (hm : Memory.AgreeOn lo hi m m') (hlo : lo ≤ a) (hhi : a + n ≤ hi)
    (hmax : hi ≤ 2 ^ 32) : InMemory file a n m' := by
  intro i hi
  have hn : i < n := Nat.lt_of_lt_of_le hi (Nat.min_le_right ..)
  have hbyte : m'.byteAt (a + i) = m.byteAt (a + i) := by
    apply hm
    all_goals rw [Word.toNat_of (by omega)]; omega
  rw [hbyte]
  exact h i hi

/-- The disk holds the boot sector, `setup` and the system. -/
theorem writeimg_bytes (img bootSector setupFile system : List Byte) (delays : Nat → Delay)
    (himg : 43520 ≤ img.length) (hboot : bootSector.length = 512) :
    (∀ i, i < min setupFile.length 512 → setupFile[i]? =
        some ((⟨writeimg img bootSector setupFile system, delays⟩ : Drive).byteOf (512 + i))) ∧
      ∀ i, i < min system.length 40960 → system[i]? =
        some ((⟨writeimg img bootSector setupFile system, delays⟩ : Drive).byteOf (2560 + i)) := by
  have hroom : 512 * SYS_POSITION ≤ img.length := Nat.le_trans (by decide) himg
  have hlen : img.length ≤ (writeimg img bootSector setupFile system).length :=
    length_le_writeimg hroom
  have hdisk : ∀ i, i < 43520 → (writeimg img bootSector setupFile system)[i]? =
      some ((⟨writeimg img bootSector setupFile system, delays⟩ : Drive).byteOf i) := fun i hi =>
    Drive.getElem?_image ⟨_, delays⟩ (Nat.lt_of_lt_of_le hi (Nat.le_trans himg hlen))
  constructor
  · intro i hi
    obtain ⟨hfile, hsector⟩ := Nat.lt_min.mp hi
    have hbefore : 512 + i < 512 * SYS_POSITION := by
      show 512 + i < 2560
      omega
    rw [← hdisk _ (by omega)]
    exact (writeimg_setup hroom hboot hfile hbefore).symm
  · intro i hi
    obtain ⟨hfile, hsectors⟩ := Nat.lt_min.mp hi
    rw [← hdisk _ (by omega)]
    exact (writeimg_system hroom hfile).symm

/-- What the system finds when it is entered: itself at 0, the parameters of the
machine behind 0x90000, flat segments, and nothing that could interrupt it. -/
structure Handover (sym : SetupSymbols) (a : FirmwareAnswers) (setupFile system : List Byte)
    (cr0 : Word) (p : Startup DiskState) : Prop where
  cs : p.cs = 8
  eip : p.eip = 0
  cr0 : p.cr0 = (cr0 &&& 0x80000010) ||| 1
  system : InMemory system 0 40960 p.mem
  setup : InMemory setupFile 0x90200 512 p.mem
  extended : parameter p 2 = a.extended
  page : parameter p 4 = a.page
  columns : origVideoCols p.mem = (a.mode.extractLsb' 8 8).setWidth 32
  lines : origVideoLines p.mem = 25
  gdtr : p.gdtr = ⟨23, Word.of (0x90200 + sym.gdt.toNat)⟩
  code : p.mem.segment (p.gdtr.base + 8) = flat 0x98
  data : p.mem.segment (p.gdtr.base + 16) = flat 0x92
  idtr : p.idtr = ⟨0, 0⟩
  interrupts : p.eflags.getLsbD 9 = false
  ports : ∃ v ports, p.ports = (0x92, v ||| 2) :: (controllerBytes.reverse ++ ports)

/-- The parameter with the video mode is where `con_init` reads the columns. -/
theorem origVideoCols_of {c : Startup D} {v : Half} (h : parameter c 6 = v) :
    origVideoCols c.mem = (v.extractLsb' 8 8).setWidth 32 := by
  have hload : c.mem.load16 0x90006 = v := h
  rw [origVideoCols, hload]
  apply BitVec.eq_of_getLsbD_eq
  intro i hi
  interval_cases i <;> simp

theorem parameter_congr {c d : Startup D} {lo hi o : Nat} (h : Memory.AgreeOn lo hi c.mem d.mem)
    (hlo : lo ≤ 0x90000 + o) (hhi : 0x90000 + o + 2 ≤ hi) (hmax : hi ≤ 2 ^ 32) :
    parameter d o = parameter c o :=
  h.load16 hlo hhi hmax

section Way

variable {lay : BootLayout} {b : Board DiskState} {drive : Drive} {setupFile system : List Byte}

/-- From the boot sector to protected mode, with whatever is on the disk. -/
theorem boot_runs (hb : b.Obeys) {a : FirmwareAnswers} (hg : Gives b a)
    (htables : Tables lay.setupSym setupFile)
    (hfile : ∀ i, i < min setupFile.length 512 → setupFile[i]? = some (drive.byteOf (512 + i)))
    (himage : ∀ i, i < min system.length 40960 → system[i]? = some (drive.byteOf (2560 + i)))
    {c : Startup DiskState} (hup : c.direction = false) :
    ∃ d p, BootStep lay b drive (.firmware, c) (.sector, d) ∧
      (∀ i, i < 512 → d.mem.byteAt (0x90000 + i) = c.mem.byteAt (0x7c00 + i)) ∧
      BootRuns lay b drive (.sector, d) (.system, p) ∧
      Handover lay.setupSym a setupFile system c.cr0 p := by
  obtain ⟨d, hcopy, hsame, c₁, hruns₁, heip₁, hss₁, hsp₁, hcr0₁⟩ :=
    sector_stage lay b drive hb hup
  obtain ⟨c₂, hruns₂, hcs₂, heip₂, hss₂, hsp₂, hcr0₂, hsetup, hsystem⟩ :=
    reads_stage lay b drive heip₁ hss₁ hsp₁
  obtain ⟨c₃, hruns₃, heip₃, hasked, hextended, hpage, hmode, hlines, hoff⟩ :=
    asks_stage lay b drive hb hg heip₂
  obtain ⟨c₄, hruns₄, heip₄, hkept, hcr0₄, hmoved, hstays⟩ :=
    moves_stage lay b drive heip₃
  have hsp₄ : c₄.sp = 0xfef4 :=
    (congrArg (BitVec.setWidth 16) (hkept.esp.trans hasked.esp)).trans hsp₂
  obtain ⟨p, ⟨e, l, hruns₅, heip₅, hexec⟩, hentered⟩ :=
    end_move_enters lay.setupSym lay.start drive.device (b := b) heip₄
      (hkept.cs.trans (hasked.cs.trans hcs₂)) (hkept.ss.trans (hasked.ss.trans hss₂)) hsp₄
  -- what was read is where it belongs
  have hfile₂ : InMemory setupFile 0x90200 512 c₂.mem := by
    intro i hi
    rw [hsetup i (Nat.lt_of_lt_of_le hi (Nat.min_le_right ..))]
    exact hfile i hi
  have himage₂ : InMemory system 0x10000 40960 c₂.mem := by
    intro i hi
    rw [hsystem i (Nat.lt_of_lt_of_le hi (Nat.min_le_right ..))]
    exact himage i hi
  have himage₃ : InMemory system 0x10000 40960 c₃.mem :=
    himage₂.congr hasked.below (by omega) (by omega) (by omega)
  have hstays₄ : Memory.AgreeOn 0x80000 0x9fef2 c₃.mem c₄.mem := fun w hw _ => hstays w hw
  have hfile₄ : InMemory setupFile 0x90200 512 c₄.mem :=
    (hfile₂.congr hasked.above (by omega) (by omega) (by omega)).congr hstays₄ (by omega)
      (by omega) (by omega)
  have himage₄ : InMemory system 0 40960 c₄.mem := by
    intro i hi
    have hlt : i < 40960 := Nat.lt_of_lt_of_le hi (Nat.min_le_right ..)
    rw [Nat.zero_add, hmoved i (by omega), Nat.add_comm i]
    exact himage₃ i hi
  -- the last step writes to the stack only
  have hlast : Memory.AgreeOn 0 0x9fef2 c₄.mem p.mem := .of_writes hentered.mem (.inr (by omega))
  have hall : Memory.AgreeOn 0x80000 0x9fef2 c₃.mem p.mem :=
    hstays₄.trans (hlast.mono (by omega) (by omega))
  have hparameter : ∀ o, o ≤ 14 → parameter p o = parameter c₃ o := fun o ho =>
    parameter_congr hall (by omega) (by omega) (by omega)
  have hfile₅ : InMemory setupFile 0x90200 512 p.mem :=
    hfile₄.congr hlast (by omega) (by omega) (by omega)
  have hgdtr : p.gdtr = ⟨23, Word.of (0x90200 + lay.setupSym.gdt.toNat)⟩ :=
    hentered.gdtr.trans (htables.gdtr hfile₄)
  obtain ⟨hcode, hdata⟩ := htables.segments hfile₅
  refine ⟨d, farJump 8 0 p, hcopy, hsame, ?_, ?_⟩
  · exact hruns₁.trans (hruns₂.trans (hruns₃.trans (hruns₄.trans
      ((start_runs hruns₅).tail (.system heip₅ hexec)))))
  constructor
  case cs => rfl
  case eip => rfl
  case cr0 =>
    have hcr0 : c₄.cr0 = c.cr0 := hcr0₄.trans (hasked.cr0.trans (hcr0₂.trans hcr0₁))
    rw [← hcr0]
    exact hentered.cr0
  case system => exact himage₄.congr hlast (by omega) (by omega) (by omega)
  case setup => exact hfile₅
  case extended => exact (hparameter 2 (by omega)).trans hextended
  case page => exact (hparameter 4 (by omega)).trans hpage
  case columns => exact origVideoCols_of ((hparameter 6 (by omega)).trans hmode)
  case lines =>
    have hload : p.mem.load16 0x9000e = 0x5019 := (hparameter 14 (by omega)).trans hlines
    change ((p.mem.load16 0x9000e).setWidth 32 : Word) &&& 0xff = 25
    rw [hload]
    rfl
  case gdtr => exact hgdtr
  case code =>
    rw [show (farJump 8 0 p).gdtr = _ from hgdtr]
    exact (congrArg p.mem.segment (Word.of_add_of _ 8)).trans hcode
  case data =>
    rw [show (farJump 8 0 p).gdtr = _ from hgdtr]
    exact (congrArg p.mem.segment (Word.of_add_of _ 16)).trans hdata
  case idtr => exact hentered.idtr.trans (htables.idtr hfile₄)
  case interrupts => exact hentered.interrupts.trans (hkept.interrupts.trans hoff)
  case ports =>
    obtain ⟨v, hv⟩ := hentered.ports
    exact ⟨v, _, hv⟩

end Way

/-- For every old image and every firmware that obeys and starts the boot sector with the
direction flag clear: what `writeimg` puts on the disk reaches protected mode. The
boot sector goes on in a copy of itself; wherever the boot has got to, it goes on to
the one state in which the system runs at address 0 on the parameters the firmware
has given, with its descriptor tables loaded and every interrupt off. -/
theorem boot_enters_system (img bootSector setupFile system : List Byte) (delays : Nat → Delay)
    (himg : 43520 ≤ img.length) (hboot : bootSector.length = 512) (lay : BootLayout)
    (htables : Tables lay.setupSym setupFile) {b : Board DiskState} (hb : b.Obeys)
    {a : FirmwareAnswers} (hg : Gives b a) {c : Startup DiskState} (hup : c.direction = false) :
    let drive : Drive := ⟨writeimg img bootSector setupFile system, delays⟩
    ∃ d p, BootStep lay b drive (.firmware, c) (.sector, d) ∧
      (∀ i, i < 512 → d.mem.byteAt (0x90000 + i) = c.mem.byteAt (0x7c00 + i)) ∧
      Handover lay.setupSym a setupFile system c.cr0 p ∧
      ∀ s, BootRuns lay b drive (.firmware, c) s → BootRuns lay b drive s (.system, p) := by
  intro drive
  obtain ⟨hfile, himage⟩ := writeimg_bytes img bootSector setupFile system delays himg hboot
  obtain ⟨d, p, hcopy, hsame, hruns, hhandover⟩ :=
    boot_runs hb hg htables hfile himage hup
  exact ⟨d, p, hcopy, hsame, hhandover, fun s hs =>
    BootRuns.goes_on (Relation.ReflTransGen.head hcopy hruns) hs⟩

/-- The offsets in the boot sector in front of those of `bootOffsets`. -/
def sectorAddr : SectorLabel → Half
  | .mbr => 0
  | .go => 0x18
  | .read_setup => 0x4c

/-- The offsets in `setup` around those of `setupOffsets`. -/
def startAddr : StartLabel → Half
  | .start => 0
  | .novga => 0x31
  | .move => 0x4a
  | .end_move => 0x66
  | .after_check => 0xb8
  | .check_x87 => 0xca
  | .check_over => 0xe0

def bootLayout : BootLayout where
  sectorSym := ⟨0x18, 0xd9, 0xee⟩
  setupSym := ⟨0x150, 0x156, 0x16e⟩
  sector := {
    addr := sectorAddr
    label? := fun a => [SectorLabel.mbr, .go, .read_setup].find? fun l => sectorAddr l = a
    label_addr := fun l => by cases l <;> decide }
  reads := bootOffsets
  start := {
    addr := startAddr
    label? := fun a => [StartLabel.start, .novga, .move, .end_move, .after_check, .check_x87,
      .check_over].find? fun l => startAddr l = a
    label_addr := fun l => by cases l <;> decide }
  moves := setupOffsets
  go := rfl
  read_setup := rfl
  start_zero := rfl
  move := rfl
  end_move := rfl

/-- A `setup` of nothing but its tables. -/
def setupTables : List Byte :=
  List.replicate 0x150 0x90 ++ pgdtBytes bootLayout.setupSym ++ gdtBytes ++ List.replicate 6 0

/-- A firmware with 31 MB of extended memory and 80 columns. -/
def bios : Board DiskState where
  int n c :=
    if n = 0x15 ∧ c.high .eax = 0x88 then c.setHalf .eax 0x7c00
    else if n = 0x10 ∧ c.high .eax = 0x0f then (c.setHalf .eax 0x5003).setHalf .ebx 0
    else c
  inPort _ _ := 0
  fstsw _ := 0

/-- The processor when the firmware has loaded the boot sector. -/
def firmwareState : Startup DiskState :=
  { bootState with
    cs := 0
    eip := 0x7c00
    cr0 := 0x60000010
    gdtr := ⟨0, 0⟩
    idtr := ⟨0x3ff, 0⟩ }

theorem setupTables_tables : Tables bootLayout.setupSym setupTables := by
  constructor
  case pgdt => exact ⟨gdtBytes ++ List.replicate 6 0, rfl⟩
  case gdt => exact ⟨List.replicate 6 0, rfl⟩
  case pidt => exact ⟨[], rfl⟩
  all_goals decide

theorem bios_obeys : bios.Obeys := by
  constructor
  case mem =>
    intro n c
    simp only [bios]
    split_ifs <;> exact fun _ _ _ => rfl
  all_goals
    intro n c
    simp only [bios]
    split_ifs <;> rfl

theorem bios_gives : Gives bios ⟨0x7c00, 0x5003, 0⟩ := by
  constructor
  all_goals
    intro c hc
    simp [bios, hc, RealMode.half_setHalf_ne]

/-- Three bytes of a system on an empty disk. -/
theorem boot_enters_system_three : ∃ p : Startup DiskState,
    BootRuns bootLayout bios ⟨writeimg (List.replicate 43520 0) (List.replicate 512 0x90)
      setupTables [1, 2, 3], slower⟩ (.firmware, firmwareState) (.system, p) ∧
    p.mem.byteAt 0 = 1 ∧ p.mem.byteAt 1 = 2 ∧ p.mem.byteAt 2 = 3 ∧ p.cr0 = 0x11 ∧
    parameter p 2 = 0x7c00 ∧ origVideoCols p.mem = 80 ∧ origVideoLines p.mem = 25 := by
  obtain ⟨-, p, -, -, hhandover, hruns⟩ := boot_enters_system (List.replicate 43520 0)
    (List.replicate 512 0x90) setupTables [1, 2, 3] slower (by rw [List.length_replicate])
    List.length_replicate bootLayout setupTables_tables bios_obeys bios_gives
    (c := firmwareState) rfl
  refine ⟨p, hruns _ .refl, ?_, ?_, ?_, hhandover.cr0.trans rfl, hhandover.extended,
    hhandover.columns.trans rfl, hhandover.lines⟩
  · exact (Option.some.inj (hhandover.system 0 (by decide))).symm
  · exact (Option.some.inj (hhandover.system 1 (by decide))).symm
  · exact (Option.some.inj (hhandover.system 2 (by decide))).symm

end MySystem
