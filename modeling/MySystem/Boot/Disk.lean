import MySystem.Machine.RealMode

/-!
# The boot sector's disk

The hard disk behind the ports 0x1f0 to 0x1f7, and the part of
`boot/bootSect.asm` that reads `setup` and the system from it, label by label.
Some labels are ours: behind each `call`, and where code falls into a loop.
-/

namespace MySystem

open Machine

/-! ## The disk -/

/-- Status bytes with which the disk answers before its data are ready. -/
def Delay : Type := { l : List Byte // ∀ b ∈ l, b &&& 0x88 ≠ 0x08 }

/-- A disk: its bytes, and how long it takes over each command. -/
structure Drive where
  image : List Byte
  delays : Nat → Delay

/-- The registers of the controller, and what it has still to answer. -/
structure DiskState where
  count : Byte
  lba0 : Byte
  lba1 : Byte
  lba2 : Byte
  device : Byte
  commands : Nat
  waiting : List Byte
  data : List Half

/-- The sector the registers name, 28 bits of it. -/
def DiskState.lba (s : DiskState) : Word := (s.device &&& 0x0f) ++ s.lba2 ++ s.lba1 ++ s.lba0

namespace Drive

variable (drive : Drive)

/-- A byte of the disk. -/
def byteOf (i : Nat) : Byte := drive.image.getD i 0

/-- A sector as 256 words, their low bytes first. -/
def sector (lba : Nat) : List Half :=
  (List.range 256).map fun k =>
    drive.byteOf (512 * lba + (2 * k + 1)) ++ drive.byteOf (512 * lba + 2 * k)

/-- `0x20` is the command to read; it goes to the first disk, in LBA mode. -/
def device : Device DiskState where
  out port v s :=
    if port = 0x1f2 then { s with count := v }
    else if port = 0x1f3 then { s with lba0 := v }
    else if port = 0x1f4 then { s with lba1 := v }
    else if port = 0x1f5 then { s with lba2 := v }
    else if port = 0x1f6 then { s with device := v }
    else if port = 0x1f7 ∧ v = 0x20 ∧ s.device &&& 0xf0 = 0xe0 then
      { s with
        commands := s.commands + 1
        waiting := (drive.delays s.commands).val
        data := (List.range s.count.toNat).flatMap fun i => drive.sector (s.lba.toNat + i) }
    else s
  inByte port s :=
    if port = 0x1f7 then
      match s.waiting with
      | [] => (if s.data = [] then 0x50 else 0x58, s)
      | b :: bs => (b, { s with waiting := bs })
    else (0, s)
  inWord port s :=
    if port = 0x1f0 ∧ s.waiting = [] then
      match s.data with
      | [] => (0, s)
      | w :: ws => (w, { s with data := ws })
    else (0, s)

end Drive

/-! ## The code -/

inductive BootLabel where
  /-- Where `setup` is read. -/
  | read_setup
  | read_setup_1
  | readcore
  | readcore_1
  | read_hard_disk_0
  | waits
  | readw
  deriving DecidableEq

def INITSEG : Half := 0x9000
def SETUPSEG : Half := 0x9020
def SYSSEG : Half := 0x1000
def SYS_SIZE_SECTOR : Word := 80
/-- `SYS_POSITION` of the boot sector. -/
def SYS_SECTOR : Word := 5

def bootCode : BootLabel → List (RealOp BootLabel)
  | .read_setup => [
      .movLow .eax SETUPSEG,
      .movSeg .ds .eax,
      .movImm .eax 1,
      .movImm .ebx 0,
      .call .read_hard_disk_0]
  | .read_setup_1 => [
      .movLow .eax SYSSEG,
      .movSeg .ds .eax,
      .movImm .eax SYS_SECTOR,
      .movImm .ebx 0,
      .movImm .ecx SYS_SIZE_SECTOR]
  | .readcore => [.call .read_hard_disk_0]
  | .readcore_1 => [
      .inc .eax,
      .loop .readcore,
      .jmpFar SETUPSEG 0]
  | .read_hard_disk_0 => [
      .push .eax,
      .push .ecx,
      .push .edx,
      .push .eax,
      .movLow .edx 0x1f2,
      .movByte .eax 1,
      .out,
      .incLow .edx,
      .pop .eax,
      .out,
      .incLow .edx,
      .movByte .ecx 8,
      .shrCl .eax,
      .out,
      .incLow .edx,
      .shrCl .eax,
      .out,
      .incLow .edx,
      .shrCl .eax,
      .orByte .eax 0xe0,
      .out,
      .incLow .edx,
      .movByte .eax 0x20,
      .out]
  | .waits => [
      .inByte,
      .andByte .eax 0x88,
      .cmpByte .eax 0x08,
      .jnz .waits,
      .movImm .ecx 256,
      .movLow .edx 0x1f0]
  | .readw => [
      .inWord,
      .storeLow .ebx .eax,
      .addImm .ebx 2,
      .loop .readw,
      .pop .edx,
      .pop .ecx,
      .pop .eax,
      .ret]

def bootNext : BootLabel → BootLabel
  | .read_setup => .read_setup_1
  | .read_setup_1 => .readcore
  | .readcore => .readcore_1
  | .read_hard_disk_0 => .waits
  | .waits => .readw
  | l => l

def bootSect : RealCode BootLabel where
  code := bootCode
  next := bootNext

/-! ## Waiting -/

variable (drive : Drive) (lay : Offsets BootLabel)

/-- A status byte is read and compared. -/
theorem waits_exec (c : RealMode DiskState) (hdx : c.half .edx = 0x1f7) {b : Byte} {s : DiskState}
    (hstatus : drive.device.inByte 0x1f7 c.device = (b, s)) :
    ∃ a f, bootSect.exec lay drive.device .waits (bootCode .waits) c =
        bootSect.exec lay drive.device .waits ((bootCode .waits).drop 3)
          { c with
            eax := a
            eflags := f
            device := s } ∧
      f.getLsbD 6 = decide (b &&& 0x88 = 0x08) := by
  have hin : (RealOp.inByte : RealOp BootLabel).step drive.device c =
      ({ c with device := s } : RealMode DiskState).setByte .eax b := by
    simp only [RealOp.step, hdx, hstatus]
  have hexec : bootSect.exec lay drive.device .waits (bootCode .waits) c =
      bootSect.exec lay drive.device .waits ((bootCode .waits).drop 1)
        ((RealOp.inByte : RealOp BootLabel).step drive.device c) := rfl
  rw [hexec, hin]
  refine ⟨_, _, rfl, ?_⟩
  refine (Cpu.zero_setStatus _ _).trans ?_
  simp [Cpu.subStatus, RealOp.step]

/-- Busy as long as the disk is, and then on to the transfer. -/
theorem waits_runs {c : RealMode DiskState} {bs : List Byte} {ws : List Half}
    (heip : c.eip = (lay.addr .waits).setWidth 32) (hdx : c.half .edx = 0x1f7)
    (hbusy : ∀ b ∈ bs, b &&& 0x88 ≠ 0x08) (hwaiting : c.device.waiting = bs)
    (hdata : c.device.data = ws) (hready : ws ≠ []) :
    ∃ d, bootSect.Runs lay drive.device c d ∧ d.eip = (lay.addr .readw).setWidth 32 ∧
      d.half .ecx = 256 ∧ d.half .edx = 0x1f0 ∧ d.device.waiting = [] ∧ d.device.data = ws ∧
      d.ebx = c.ebx ∧ d.ds = c.ds ∧ d.ss = c.ss ∧ d.esp = c.esp ∧ d.mem = c.mem := by
  induction bs generalizing c with
  | nil =>
      have hstatus : drive.device.inByte 0x1f7 c.device = (0x58, c.device) := by
        simp [Drive.device, hwaiting, hdata, hready]
      obtain ⟨a, f, hexec, hzero⟩ := waits_exec drive lay c hdx hstatus
      refine ⟨_, .single ⟨.waits, heip, hexec.trans ((if_pos hzero).trans rfl)⟩, rfl, rfl, ?_,
        hwaiting, hdata, rfl, rfl, rfl, rfl, rfl⟩
      exact RealMode.setWidth_half _ _
  | cons b bs ih =>
      have hstatus : drive.device.inByte 0x1f7 c.device =
          (b, { c.device with waiting := bs }) := by
        simp [Drive.device, hwaiting]
      obtain ⟨a, f, hexec, hzero⟩ := waits_exec drive lay c hdx hstatus
      have hagain : ¬ f.getLsbD 6 = true := by
        rw [hzero]
        exact fun h => hbusy b List.mem_cons_self (of_decide_eq_true h)
      obtain ⟨d, hruns, hrest⟩ := ih (c := RealCode.enter lay
        { c with
          eax := a
          eflags := f
          device := { c.device with waiting := bs } } .waits) rfl hdx
        (fun b' hb' => hbusy b' (List.mem_cons_of_mem _ hb')) rfl hdata
      exact ⟨d, .head ⟨.waits, heip, hexec.trans (if_neg hagain)⟩ hruns, hrest⟩

/-! ## The transfer -/

/-- Before the turn that reads the first of the words `ws` to offset `base`. -/
structure Transferring (lay : Offsets BootLabel) (ws : List Half) (base : Nat)
    (c : RealMode DiskState) : Prop where
  eip : c.eip = (lay.addr .readw).setWidth 32
  ecx : c.half .ecx = BitVec.ofNat 16 ws.length
  edx : c.half .edx = 0x1f0
  ebx : c.ebx = Word.of base
  waiting : c.device.waiting = []
  data : c.device.data = ws

/-- The state in which a turn decides whether to go on. -/
theorem readw_exec {w : Half} {ws : List Half} {base : Nat} (hbase : base ≤ 0xfffe)
    {c : RealMode DiskState} (h : Transferring lay (w :: ws) base c) :
    ∃ e : RealMode DiskState,
      bootSect.exec lay drive.device .readw (bootCode .readw) c =
        bootSect.exec lay drive.device .readw ((bootCode .readw).drop 3) e ∧
      e.half .ecx = c.half .ecx ∧ e.half .edx = 0x1f0 ∧ e.ebx = Word.of (base + 2) ∧
      e.device = { c.device with data := ws } ∧ e.ds = c.ds ∧ e.ss = c.ss ∧ e.esp = c.esp ∧
      e.mem = c.mem.store16 (linear c.ds base) w := by
  have hword : drive.device.inWord 0x1f0 c.device = (w, { c.device with data := ws }) := by
    simp [Drive.device, h.waiting, h.data]
  have hin : (RealOp.inWord : RealOp BootLabel).step drive.device c =
      ({ c with device := { c.device with data := ws } } : RealMode DiskState).setHalf .eax w := by
    simp only [RealOp.step, h.edx, hword]
  have hexec : bootSect.exec lay drive.device .readw (bootCode .readw) c =
      bootSect.exec lay drive.device .readw ((bootCode .readw).drop 1)
        ((RealOp.inWord : RealOp BootLabel).step drive.device c) := rfl
  have hoffset : c.ebx.toNat = base := by
    rw [h.ebx]
    exact Word.toNat_of (by omega)
  have hlimit : c.ebx ≤ 0xfffe := by
    rw [BitVec.le_def, hoffset]
    exact hbase
  have hlow : (({ c with device := { c.device with data := ws } } :
      RealMode DiskState).setHalf .eax w).half .eax = w := RealMode.half_setHalf _ _ _
  rw [hexec, hin]
  refine ⟨_, (if_pos hlimit).trans rfl, rfl, h.edx, ?_, rfl, rfl, rfl, rfl, ?_⟩
  · rw [← Word.of_add_of, ← h.ebx]
    rfl
  · show c.mem.store16 (linear c.ds c.ebx.toNat) _ = _
    rw [hoffset]
    exact congrArg _ hlow

/-- The counter after a turn with `n` words still to come. -/
theorem counter_less (n : Nat) : BitVec.ofNat 16 (n + 1) - 1 = BitVec.ofNat 16 n := by
  rw [BitVec.ofNat_add]
  exact BitVec.add_sub_cancel _ _

/-- A turn, up to the jump that its counter decides. -/
theorem readw_turn {w : Half} {ws : List Half} {base : Nat} (hbase : base ≤ 0xfffe)
    {c : RealMode DiskState} (h : Transferring lay (w :: ws) base c) :
    ∃ d : RealMode DiskState,
      (bootSect.exec lay drive.device .readw (bootCode .readw) c =
        if BitVec.ofNat 16 ws.length = 0 then
          bootSect.exec lay drive.device .readw ((bootCode .readw).drop 4) d
        else .goto (RealCode.enter lay d .readw)) ∧
      Transferring lay ws (base + 2) (RealCode.enter lay d .readw) ∧
      d.device = { c.device with data := ws } ∧ d.ds = c.ds ∧ d.ss = c.ss ∧ d.esp = c.esp ∧
      d.mem = c.mem.store16 (linear c.ds base) w := by
  obtain ⟨e, hexec, hecx, hedx, hebx, hdevice, hds, hss, hesp, hmem⟩ :=
    readw_exec drive lay hbase h
  have hless : (e.setHalf .ecx (e.half .ecx - 1)).half .ecx = BitVec.ofNat 16 ws.length := by
    rw [RealMode.half_setHalf, hecx, h.ecx]
    exact counter_less ws.length
  refine ⟨e.setHalf .ecx (e.half .ecx - 1), ?_, ⟨rfl, hless, hedx, hebx, ?_, ?_⟩, hdevice, hds, hss,
    hesp, hmem⟩
  · rw [hexec, ← hless]
    rfl
  · exact (congrArg DiskState.waiting hdevice).trans h.waiting
  · exact congrArg DiskState.data hdevice

/-- The loop reads all the words; behind it `e` is left. -/
theorem readw_runs {w : Half} {ws : List Half} {base : Nat} (hlen : ws.length < 2 ^ 16)
    (hbase : base + 2 * ws.length ≤ 0xfffe) {c : RealMode DiskState}
    (h : Transferring lay (w :: ws) base c) :
    ∃ d e, bootSect.Runs lay drive.device c d ∧ d.eip = (lay.addr .readw).setWidth 32 ∧
      bootSect.exec lay drive.device .readw (bootCode .readw) d =
        bootSect.exec lay drive.device .readw ((bootCode .readw).drop 4) e ∧
      e.ebx = Word.of (base + 2 * (ws.length + 1)) ∧
      e.device = { c.device with data := [] } ∧ e.ds = c.ds ∧ e.ss = c.ss ∧ e.esp = c.esp ∧
      e.mem = Memory.storeWords (w :: ws) (16 * c.ds.toNat + base) c.mem := by
  induction ws generalizing w base c with
  | nil =>
      obtain ⟨e, hexec, hnext, hdevice, hds, hss, hesp, hmem⟩ := readw_turn drive lay hbase h
      exact ⟨c, e, .refl, h.eip, hexec.trans (if_pos rfl), hnext.ebx, hdevice, hds, hss, hesp, hmem⟩
  | cons w' ws ih =>
      rw [List.length_cons] at hlen hbase
      obtain ⟨b, hexec, hnext, hdevice, hds, hss, hesp, hmem⟩ := readw_turn drive lay (by omega) h
      have hmore : BitVec.ofNat 16 (w' :: ws).length ≠ 0 := by
        intro hzero
        have hnat := congrArg BitVec.toNat hzero
        rw [BitVec.toNat_ofNat, List.length_cons, Nat.mod_eq_of_lt hlen] at hnat
        exact Nat.succ_ne_zero _ hnat
      rw [if_neg hmore] at hexec
      obtain ⟨d, e, hruns, heip, hlast, hebx', hdevice', hds', hss', hesp', hmem'⟩ :=
        ih (Nat.lt_of_succ_lt hlen) (by omega) hnext
      have hend : base + 2 + 2 * (ws.length + 1) = base + 2 * ((w' :: ws).length + 1) := by
        rw [List.length_cons]
        omega
      have hdevice'' : e.device = { c.device with data := [] } := by
        rw [hdevice']
        show { b.device with data := [] } = _
        rw [hdevice]
      rw [hend] at hebx'
      refine ⟨d, e, .head ⟨.readw, h.eip, hexec⟩ hruns, heip, hlast, hebx', hdevice'',
        hds'.trans hds, hss'.trans hss, hesp'.trans hesp, ?_⟩
      have hstored : e.mem = Memory.storeWords (w' :: ws) (16 * b.ds.toNat + (base + 2)) b.mem :=
        hmem'
      rw [hstored, hds, hmem]
      rfl

/-! ## Programming the controller -/

/-- The boot sector's stack, below the return address of a call. -/
def pushedRegisters (eax ecx edx : Word) (m : Memory) : Memory :=
  (((m.store32 (Word.of 0x9feee) eax).store32 (Word.of 0x9feea) ecx).store32
    (Word.of 0x9fee6) edx).store32 (Word.of 0x9fee2) eax

/-- Three registers are saved, and the sector's number is pushed once more. -/
theorem read_hard_disk_0_saves {c : RealMode DiskState} (hss : c.ss = INITSEG)
    (hsp : c.sp = 0xfef2) :
    ∃ d : RealMode DiskState,
      bootSect.exec lay drive.device .read_hard_disk_0 (bootCode .read_hard_disk_0) c =
        bootSect.exec lay drive.device .read_hard_disk_0
          ((bootCode .read_hard_disk_0).drop 4) d ∧
      d.sp = 0xfee2 ∧ (∀ r, d.reg r = c.reg r) ∧ (∀ s, d.seg s = c.seg s) ∧ d.ss = c.ss ∧
      d.device = c.device ∧
      d.mem = pushedRegisters (c.reg .eax) (c.reg .ecx) (c.reg .edx) c.mem := by
  refine ⟨_, rfl, ?_, ?_, ?_, ?_, ?_, ?_⟩
  all_goals simp [RealOp.step, hsp]
  rw [hss]
  rfl

/-- While the ports are written: the registers in use and the controller's state
are known, and the rest is as in `b`. -/
structure Known (b : RealMode DiskState) (eax ecx : Word) (port sp : Half) (s : DiskState)
    (c : RealMode DiskState) : Prop where
  eax : c.reg .eax = eax
  ecx : c.reg .ecx = ecx
  edx : c.half .edx = port
  sp : c.sp = sp
  device : c.device = s
  ebx : c.reg .ebx = b.reg .ebx
  seg : ∀ r, c.seg r = b.seg r
  ss : c.ss = b.ss
  mem : c.mem = b.mem

namespace Known

variable {b c : RealMode DiskState} {eax ecx : Word} {port sp : Half} {s : DiskState}

theorem setEax (h : Known b eax ecx port sp s c) (v : Word) :
    Known b v ecx port sp s (c.setReg .eax v) where
  eax := by simp
  ecx := by simpa using h.ecx
  edx := by simpa [RealMode.half] using h.edx
  sp := h.sp
  device := h.device
  ebx := by simpa using h.ebx
  seg r := by simpa using h.seg r
  ss := h.ss
  mem := h.mem

theorem setEcx (h : Known b eax ecx port sp s c) (v : Word) :
    Known b eax v port sp s (c.setReg .ecx v) where
  eax := by simpa using h.eax
  ecx := by simp
  edx := by simpa [RealMode.half] using h.edx
  sp := h.sp
  device := h.device
  ebx := by simpa using h.ebx
  seg r := by simpa using h.seg r
  ss := h.ss
  mem := h.mem

theorem setPort (h : Known b eax ecx port sp s c) (v : Half) :
    Known b eax ecx v sp s (c.setHalf .edx v) where
  eax := by simpa using h.eax
  ecx := by simpa using h.ecx
  edx := RealMode.half_setHalf _ _ _
  sp := h.sp
  device := h.device
  ebx := by simpa using h.ebx
  seg r := by simpa using h.seg r
  ss := h.ss
  mem := h.mem

theorem setStatus (h : Known b eax ecx port sp s c) (f : Cpu.Status) :
    Known b eax ecx port sp s (c.setStatus f) where
  eax := by simpa using h.eax
  ecx := by simpa using h.ecx
  edx := (RealMode.half_setStatus _ _ _).trans h.edx
  sp := h.sp
  device := h.device
  ebx := by simpa using h.ebx
  seg := h.seg
  ss := h.ss
  mem := h.mem

theorem incPort (h : Known b eax ecx port sp s c) (next : Half) (hnext : port + 1 = next) :
    Known b eax ecx next sp s ((RealOp.incLow .edx : RealOp BootLabel).step drive.device c) := by
  rw [← hnext, ← h.edx]
  exact (h.setPort _).setStatus _

theorem movAl (h : Known b eax ecx port sp s c) (v : Byte) :
    Known b (eax.extractLsb' 8 24 ++ v) ecx port sp s
      ((RealOp.movByte .eax v : RealOp BootLabel).step drive.device c) := by
  rw [← h.eax]
  exact h.setEax _

theorem movCl (h : Known b eax ecx port sp s c) (v : Byte) :
    Known b eax (ecx.extractLsb' 8 24 ++ v) port sp s
      ((RealOp.movByte .ecx v : RealOp BootLabel).step drive.device c) := by
  rw [← h.ecx]
  exact h.setEcx _

theorem orAl (h : Known b eax ecx port sp s c) (v : Byte) :
    Known b (eax.extractLsb' 8 24 ++ (eax.setWidth 8 ||| v)) ecx port sp s
      ((RealOp.orByte .eax v : RealOp BootLabel).step drive.device c) := by
  rw [← h.eax]
  exact (h.setEax _).setStatus _

theorem shrEight (h : Known b eax ecx port sp s c) (hcl : ecx.setWidth 8 = (8 : Byte)) :
    Known b (eax >>> 8) ecx port sp s
      ((RealOp.shrCl .eax : RealOp BootLabel).step drive.device c) := by
  have hcount : (c.byte .ecx).toNat % 32 = 8 := by
    rw [RealMode.byte, h.ecx, hcl]
    decide
  rw [← h.eax]
  simp only [RealOp.step, hcount]
  exact (h.setEax _).setStatus _

theorem out (h : Known b eax ecx port sp s c) :
    Known b eax ecx port sp (drive.device.out port (eax.setWidth 8) s)
      ((RealOp.out : RealOp BootLabel).step drive.device c) where
  eax := h.eax
  ecx := h.ecx
  edx := h.edx
  sp := h.sp
  device := by simp [RealOp.step, RealMode.byte, h.eax, h.edx, h.device]
  ebx := h.ebx
  seg := h.seg
  ss := h.ss
  mem := h.mem

/-- A byte put into `al` and written to the port. -/
theorem outByte (h : Known b eax ecx port sp s c) (v : Byte) :
    Known b (eax.extractLsb' 8 24 ++ v) ecx port sp (drive.device.out port v s)
      ((RealOp.out : RealOp BootLabel).step drive.device
        ((RealOp.movByte .eax v : RealOp BootLabel).step drive.device c)) := by
  have hout := (h.movAl drive v).out drive
  rwa [RealMode.setWidth_byte] at hout

/-- `eax` is popped from the stack of `b`. -/
theorem pop (h : Known b eax ecx port sp s c) :
    Known b (b.mem.load32 (linear b.ss sp.toNat)) ecx port (sp + 4) s
      ((RealOp.pop .eax : RealOp BootLabel).step drive.device c) := by
  have htop : c.top = b.mem.load32 (linear b.ss sp.toNat) := by
    rw [RealMode.top, h.mem, h.ss, h.sp]
  have hraised : Known b eax ecx port (sp + 4) s (c.setSp (c.sp + 4)) :=
    { h with sp := (RealMode.sp_setSp c _).trans (congrArg (· + 4) h.sp) }
  rw [← htop]
  exact hraised.setEax _

end Known

/-- The controller after the ports have been written for the sector `lba`. -/
def Drive.programmed (drive : Drive) (lba : Word) (s : DiskState) : DiskState :=
  let s := drive.device.out 0x1f2 1 s
  let s := drive.device.out 0x1f3 (lba.setWidth 8) s
  let s := drive.device.out 0x1f4 ((lba >>> 8).setWidth 8) s
  let s := drive.device.out 0x1f5 ((lba >>> 8 >>> 8).setWidth 8) s
  let s := drive.device.out 0x1f6 ((lba >>> 8 >>> 8 >>> 8).setWidth 8 ||| 0xe0) s
  drive.device.out 0x1f7 0x20 s

/-- The ports are written with the number on top of the stack, which is popped. -/
theorem read_hard_disk_0_programs (b : RealMode DiskState) :
    ∃ eax ecx c,
      bootSect.exec lay drive.device .read_hard_disk_0 ((bootCode .read_hard_disk_0).drop 4) b =
        .goto (RealCode.enter lay c .waits) ∧
      Known b eax ecx 0x1f7 (b.sp + 4) (drive.programmed b.top b.device) c := by
  have hstart : Known b (b.reg .eax) (b.reg .ecx) (b.half .edx) b.sp b.device b :=
    ⟨rfl, rfl, rfl, rfl, rfl, rfl, fun _ => rfl, rfl, rfl⟩
  have hcl : ((b.reg .ecx).extractLsb' 8 24 ++ (8 : Byte) : Word).setWidth 8 = (8 : Byte) :=
    RealMode.setWidth_byte _ _
  have hcount := (hstart.setPort 0x1f2).outByte drive 1
  have hlow := ((hcount.incPort drive 0x1f3 rfl).pop drive).out drive
  have hsecond := (((hlow.incPort drive 0x1f4 rfl).movCl drive 8).shrEight drive hcl).out drive
  have hthird := ((hsecond.incPort drive 0x1f5 rfl).shrEight drive hcl).out drive
  have hlast := (((hthird.incPort drive 0x1f6 rfl).shrEight drive hcl).orAl drive 0xe0).out drive
  rw [RealMode.setWidth_byte] at hlast
  have hcommand := (hlast.incPort drive 0x1f7 rfl).outByte drive 0x20
  refine ⟨_, _, _, ?_, hcommand⟩
  rfl

/-- The byte of the last port: four bits of the number under the mode bits. -/
theorem device_byte : ∀ b : Byte, b < 0x10 →
    (b ||| 0xe0) &&& 0xf0 = 0xe0 ∧ (b ||| 0xe0) &&& 0x0f = b := by
  decide

/-- Six ports written in turn. -/
theorem Drive.command_answer (s : DiskState) {b0 b1 b2 b3 : Byte} (hmode : b3 &&& 0xf0 = 0xe0) :
    drive.device.out 0x1f7 0x20 (drive.device.out 0x1f6 b3 (drive.device.out 0x1f5 b2
      (drive.device.out 0x1f4 b1 (drive.device.out 0x1f3 b0 (drive.device.out 0x1f2 1 s))))) =
      { count := 1
        lba0 := b0
        lba1 := b1
        lba2 := b2
        device := b3
        commands := s.commands + 1
        waiting := (drive.delays s.commands).val
        data := drive.sector ((b3 &&& 0x0f) ++ b2 ++ b1 ++ b0 : Word).toNat } := by
  simp [Drive.device, DiskState.lba]
  exact hmode

/-- The disk is asked for the sector, and answers as late as it likes. -/
theorem Drive.programmed_answer {lba : Word} (hlba : lba.toNat < 2 ^ 28) (s : DiskState) :
    (drive.programmed lba s).waiting = (drive.delays s.commands).val ∧
      (drive.programmed lba s).data = drive.sector lba.toNat := by
  have hlast : (lba >>> 8 >>> 8 >>> 8).setWidth 8 < (0x10 : Byte) := by
    rw [BitVec.lt_def]
    simp only [BitVec.toNat_setWidth, BitVec.toNat_ushiftRight, Nat.shiftRight_eq_div_pow]
    exact Nat.lt_of_le_of_lt (Nat.mod_le _ _) (by simp; omega)
  obtain ⟨hmode, hhigh⟩ := device_byte _ hlast
  have hnumber : ((lba >>> 8 >>> 8 >>> 8).setWidth 8 ++ (lba >>> 8 >>> 8).setWidth 8 ++
      (lba >>> 8).setWidth 8 ++ lba.setWidth 8 : Word) = lba := by
    rw [← BitVec.shiftRight_add, ← BitVec.shiftRight_add,
      BitVec.setWidth_eq_extractLsb' (by decide)]
    simp only [BitVec.setWidth_ushiftRight_eq_extractLsb]
    exact Memory.bytes_append_self lba
  have hanswer : drive.programmed lba s = _ := drive.command_answer s hmode
  rw [hhigh, hnumber] at hanswer
  rw [hanswer]
  exact ⟨rfl, rfl⟩

/-! ## A sector -/

/-- `n` sectors from `lba` on are in memory from `at_` on; besides them only the
stack may have changed. -/
structure Loaded (lba n dst : Nat) (m m' : Memory) : Prop where
  bytes : ∀ j, j < 512 * n → m'.byteAt (dst + j) = drive.byteOf (512 * lba + j)
  frame : ∀ a : Word, ¬(dst ≤ a.toNat ∧ a.toNat < dst + 512 * n) →
    ¬(0x9fee2 ≤ a.toNat ∧ a.toNat < 0x9fef4) → m'.bytes a = m.bytes a

/-- The sectors that follow. -/
theorem Loaded.append {drive : Drive} {lba n k dst : Nat} {m m' m'' : Memory}
    (h : Loaded drive lba n dst m m') (h' : Loaded drive (lba + n) k (dst + 512 * n) m' m'')
    (hstack : dst + 512 * (n + k) ≤ 0x9fee2) : Loaded drive lba (n + k) dst m m'' where
  bytes j hj := by
    rcases Nat.lt_or_ge j (512 * n) with hlt | hge
    · rw [← h.bytes j hlt]
      apply h'.frame
      all_goals rw [Word.toNat_of (by omega)]; omega
    · have hbyte := h'.bytes (j - 512 * n) (by omega)
      have hdst : dst + 512 * n + (j - 512 * n) = dst + j := by omega
      have hsrc : 512 * (lba + n) + (j - 512 * n) = 512 * lba + j := by omega
      rwa [hdst, hsrc] at hbyte
  frame a hout hkept := by
    rw [h'.frame a (by omega) hkept, h.frame a (by omega) hkept]

@[simp] theorem Drive.length_sector (lba : Nat) : (drive.sector lba).length = 256 := by
  simp [Drive.sector]

theorem Drive.sector_getElem (lba k : Nat) (w : Half) (hk : (drive.sector lba)[k]? = some w) :
    w = drive.byteOf (512 * lba + (2 * k + 1)) ++ drive.byteOf (512 * lba + 2 * k) := by
  obtain ⟨hlt, hw⟩ := List.getElem?_eq_some_iff.mp hk
  rw [← hw]
  simp [Drive.sector]

/-- The stack of a call, written and read back. -/
theorem pushedRegisters_saved (eax ecx edx : Word) (m : Memory) :
    (pushedRegisters eax ecx edx m).load32 (Word.of 0x9feee) = eax ∧
      (pushedRegisters eax ecx edx m).load32 (Word.of 0x9feea) = ecx ∧
      (pushedRegisters eax ecx edx m).load32 (Word.of 0x9fee2) = eax ∧
      Memory.Writes 0x9fee2 0x9fef2 m (pushedRegisters eax ecx edx m) := by
  refine ⟨?_, ?_, ?_, ?_⟩
  · rw [pushedRegisters, Memory.load32_store32_ne _ _ (by omega) (by omega) (by omega),
      Memory.load32_store32_ne _ _ (by omega) (by omega) (by omega),
      Memory.load32_store32_ne _ _ (by omega) (by omega) (by omega), Memory.load32_store32_same]
  · rw [pushedRegisters, Memory.load32_store32_ne _ _ (by omega) (by omega) (by omega),
      Memory.load32_store32_ne _ _ (by omega) (by omega) (by omega), Memory.load32_store32_same]
  · rw [pushedRegisters, Memory.load32_store32_same]
  · have hpushed : ∀ (a : Nat) (v : Word) (m' : Memory), 0x9fee2 ≤ a → a + 4 ≤ 0x9fef2 →
        Memory.Writes 0x9fee2 0x9fef2 m' (m'.store32 (Word.of a) v) := by
      intro a v m' hlo hhi
      exact Memory.Writes.store32 v hlo hhi (by omega)
    exact (((hpushed _ _ _ (by omega) (by omega)).trans (hpushed _ _ _ (by omega) (by omega))).trans
      (hpushed _ _ _ (by omega) (by omega))).trans (hpushed _ _ _ (by omega) (by omega))

/-- The registers are restored, and control returns to the caller. -/
theorem readw_returns {e : RealMode DiskState} (hss : e.ss = INITSEG) (hsp : e.sp = 0xfee6) :
    ∃ d : RealMode DiskState,
      bootSect.exec lay drive.device .readw ((bootCode .readw).drop 4) e = .goto d ∧
      d.eip = (e.mem.load16 (Word.of 0x9fef2)).setWidth 32 ∧
      d.eax = e.mem.load32 (Word.of 0x9feee) ∧ d.ecx = e.mem.load32 (Word.of 0x9feea) ∧
      d.ebx = e.ebx ∧ d.ds = e.ds ∧ d.ss = e.ss ∧ d.sp = 0xfef4 ∧ d.mem = e.mem := by
  refine ⟨_, rfl, ?_, ?_, ?_, ?_, ?_, ?_, (RealMode.setWidth_half _ _).trans ?_, ?_⟩
  all_goals
    simp [RealOp.step, RealMode.top, RealMode.topHalf, Cpu.setReg, linear, hsp, hss, INITSEG]

/-- A call up to the first word of the transfer. -/
theorem read_hard_disk_0_asks {c : RealMode DiskState} {base : Nat}
    (heip : c.eip = (lay.addr .read_hard_disk_0).setWidth 32) (hss : c.ss = INITSEG)
    (hsp : c.sp = 0xfef2) (hlba : c.eax.toNat < 2 ^ 28) (hebx : c.ebx = Word.of base) :
    ∃ d, bootSect.Runs lay drive.device c d ∧
      Transferring lay (drive.sector c.eax.toNat) base d ∧ d.ds = c.ds ∧ d.ss = INITSEG ∧
      d.sp = 0xfee6 ∧ d.mem = pushedRegisters c.eax c.ecx c.edx c.mem := by
  obtain ⟨d, hsaves, hdsp, hreg, hseg, hdss, hdevice, hmem⟩ :=
    read_hard_disk_0_saves drive lay hss hsp
  have htop : d.top = c.eax := by
    have hpushed := (pushedRegisters_saved c.eax c.ecx c.edx c.mem).2.2.1
    rw [RealMode.top, hdss, hss, hdsp, hmem]
    exact hpushed
  obtain ⟨eax, ecx, e, hprograms, hknown⟩ := read_hard_disk_0_programs drive lay d
  rw [htop] at hknown
  obtain ⟨hwaiting, hdata⟩ := drive.programmed_answer hlba d.device
  rw [← hknown.device] at hwaiting hdata
  have hready : drive.sector c.eax.toNat ≠ [] := by
    intro hnil
    have hlen := drive.length_sector c.eax.toNat
    rw [hnil] at hlen
    exact absurd hlen (by decide)
  obtain ⟨f, hruns, hfeip, hfecx, hfedx, hfwaiting, hfdata, hfebx, hfds, hfss, hfesp, hfmem⟩ :=
    waits_runs drive lay (c := RealCode.enter lay e .waits) rfl hknown.edx
      (drive.delays d.device.commands).property hwaiting hdata hready
  have hfsp : f.sp = 0xfee6 := by
    have hesp : e.sp = 0xfee6 := by
      rw [hknown.sp, hdsp]
      rfl
    rw [← hesp, RealMode.sp, hfesp]
    rfl
  refine ⟨f, .head ⟨.read_hard_disk_0, heip, hsaves.trans hprograms⟩ hruns,
    ⟨hfeip, ?_, hfedx, ?_, hfwaiting, hfdata⟩, ?_, ?_, hfsp, ?_⟩
  · rw [hfecx, drive.length_sector]
    rfl
  · exact hfebx.trans (hknown.ebx.trans ((hreg .ebx).trans hebx))
  · exact hfds.trans ((hknown.seg .ds).trans (hseg .ds))
  · exact hfss.trans (hknown.ss.trans (hdss.trans hss))
  · exact hfmem.trans (hknown.mem.trans hmem)

/-- A call reads the sector to the buffer behind `ebx`, and moves `ebx` on. -/
theorem read_hard_disk_0_runs {c : RealMode DiskState} {base : Nat}
    (heip : c.eip = (lay.addr .read_hard_disk_0).setWidth 32) (hss : c.ss = INITSEG)
    (hsp : c.sp = 0xfef2) (hlba : c.eax.toNat < 2 ^ 28) (hebx : c.ebx = Word.of base)
    (hbase : base + 512 ≤ 0x10000) (hbuffer : 16 * c.ds.toNat + base + 512 ≤ 0x9fee2) :
    ∃ d, bootSect.Runs lay drive.device c d ∧
      d.eip = (c.mem.load16 (Word.of 0x9fef2)).setWidth 32 ∧ d.eax = c.eax ∧ d.ecx = c.ecx ∧
      d.ebx = Word.of (base + 512) ∧ d.ds = c.ds ∧ d.ss = INITSEG ∧ d.sp = 0xfef4 ∧
      Loaded drive c.eax.toNat 1 (16 * c.ds.toNat + base) c.mem d.mem := by
  obtain ⟨a, hasks, htransfer, hads, hass, hasp, hamem⟩ :=
    read_hard_disk_0_asks drive lay heip hss hsp hlba hebx
  obtain ⟨w, ws, hsector⟩ : ∃ w ws, drive.sector c.eax.toNat = w :: ws :=
    List.exists_cons_of_length_pos (by rw [drive.length_sector]; decide)
  have hlen : ws.length = 255 := by
    have hlen' := drive.length_sector c.eax.toNat
    rw [hsector] at hlen'
    exact Nat.succ.inj hlen'
  rw [hsector] at htransfer
  obtain ⟨b, e, hreads, hbeip, hbehind, hebx', -, heds, hess, hesp, hemem⟩ :=
    readw_runs drive lay (by omega) (by omega) htransfer
  have hesp' : e.sp = 0xfee6 := by
    rw [← hasp, RealMode.sp, hesp]
    rfl
  obtain ⟨d, hreturns, hdeip, hdeax, hdecx, hdebx, hdds, hdss, hdsp, hdmem⟩ :=
    readw_returns drive lay (hess.trans hass) hesp'
  rw [← hsector, hads, hamem] at hemem
  obtain ⟨hsaved, hsaved', -, hstack⟩ := pushedRegisters_saved c.eax c.ecx c.edx c.mem
  have hwords : Memory.Writes (16 * c.ds.toNat + base) (16 * c.ds.toNat + base + 512)
      (pushedRegisters c.eax c.ecx c.edx c.mem) e.mem := by
    rw [hemem]
    exact Memory.Writes.storeWords _ (Nat.le_refl _) (by rw [drive.length_sector]) (by omega)
  have hkept : Memory.AgreeOn 0x9fee2 0x9fef4 (pushedRegisters c.eax c.ecx c.edx c.mem) e.mem :=
    .of_writes hwords (.inl hbuffer)
  have hreturn : Memory.AgreeOn 0x9fef2 0x9fef4 c.mem (pushedRegisters c.eax c.ecx c.edx c.mem) :=
    .of_writes hstack (.inl (Nat.le_refl _))
  refine ⟨d, hasks.trans (hreads.tail ⟨.readw, hbeip, hbehind.trans hreturns⟩), ?_, ?_, ?_, ?_, ?_,
    hdss.trans (hess.trans hass), hdsp, ?_, ?_⟩
  · rw [hdeip, hkept.load16 (by omega) (by omega) (by omega),
      hreturn.load16 (by omega) (by omega) (by omega)]
  · rw [hdeax, hkept.load32 (by omega) (by omega) (by omega), hsaved]
  · rw [hdecx, hkept.load32 (by omega) (by omega) (by omega), hsaved']
  · rw [hdebx, hebx', hlen]
  · rw [hdds, heds, hads]
  · intro j hj
    have hend : 16 * c.ds.toNat + base + 2 * (drive.sector c.eax.toNat).length ≤ 2 ^ 32 := by
      rw [drive.length_sector]
      omega
    have hlt : j < 2 * (drive.sector c.eax.toNat).length := by
      rw [drive.length_sector]
      exact hj
    rw [hdmem, hemem]
    exact Memory.byteAt_storeWords (f := fun i => drive.byteOf (512 * c.eax.toNat + i)) _
      (drive.sector_getElem c.eax.toNat) hend hlt
  · intro a hout hfree
    rw [hdmem, hwords.frame a hout, hstack.frame a (by omega)]

/-- A call from the code before `l`. -/
theorem read_hard_disk_0_call (l : BootLabel) {c : RealMode DiskState} {base : Nat}
    (hss : c.ss = INITSEG) (hsp : c.sp = 0xfef4) (hlba : c.eax.toNat < 2 ^ 28)
    (hebx : c.ebx = Word.of base) (hbase : base + 512 ≤ 0x10000)
    (hbuffer : 16 * c.ds.toNat + base + 512 ≤ 0x9fee2) :
    ∃ d, bootSect.Runs lay drive.device
        (RealCode.enter lay (c.pushHalf (lay.addr l)) .read_hard_disk_0) d ∧
      d.eip = (lay.addr l).setWidth 32 ∧ d.eax = c.eax ∧ d.ecx = c.ecx ∧
      d.ebx = Word.of (base + 512) ∧ d.ds = c.ds ∧ d.ss = INITSEG ∧ d.sp = 0xfef4 ∧
      Loaded drive c.eax.toNat 1 (16 * c.ds.toNat + base) c.mem d.mem := by
  have hpushed : (c.pushHalf (lay.addr l)).mem = c.mem.store16 (Word.of 0x9fef2) (lay.addr l) := by
    simp [RealMode.pushHalf, hsp, hss, linear, INITSEG]
  have hsp' : (RealCode.enter lay (c.pushHalf (lay.addr l)) .read_hard_disk_0).sp = 0xfef2 := by
    refine (RealMode.setWidth_half _ _).trans ?_
    rw [hsp]
    rfl
  obtain ⟨d, hruns, heip, heax, hecx, hebx', hds, hss', hsp'', hloaded⟩ :=
    read_hard_disk_0_runs drive lay
      (c := RealCode.enter lay (c.pushHalf (lay.addr l)) .read_hard_disk_0) rfl hss hsp' hlba hebx
      hbase hbuffer
  have hreturn : (RealCode.enter lay (c.pushHalf (lay.addr l)) .read_hard_disk_0).mem.load16
      (Word.of 0x9fef2) = lay.addr l := by
    refine (congrArg (fun m => Memory.load16 m _) hpushed).trans ?_
    exact Memory.load16_store16_same _ _ (by omega)
  rw [hreturn] at heip
  refine ⟨d, hruns, heip, heax, hecx, hebx', hds, hss', hsp'', hloaded.bytes, ?_⟩
  intro a hout hkept
  refine (hloaded.frame a hout hkept).trans ?_
  refine (congrArg (fun m => Memory.bytes m a) hpushed).trans ?_
  have hstored :
      Memory.Writes 0x9fef2 0x9fef4 c.mem (c.mem.store16 (Word.of 0x9fef2) (lay.addr l)) :=
    Memory.Writes.store16 _ (by omega) (by omega) (by omega)
  exact hstored.frame a (by omega)

/-! ## The whole load -/

/-- Before the turn of `readcore` that reads the sector `SYS_SECTOR + i`. -/
structure Reading (lay : Offsets BootLabel) (m : Memory) (i : Nat) (c : RealMode DiskState) :
    Prop where
  eip : c.eip = (lay.addr .readcore).setWidth 32
  eax : c.eax = Word.of (5 + i)
  ecx : c.half .ecx = BitVec.ofNat 16 (80 - i)
  ebx : c.ebx = Word.of (512 * i)
  ds : c.ds = SYSSEG
  ss : c.ss = INITSEG
  sp : c.sp = 0xfef4
  loaded : Loaded drive 5 i 0x10000 m c.mem

/-- A turn, up to the jump that its counter decides. -/
theorem readcore_turn {m : Memory} {i : Nat} (hi : i < 80) {c : RealMode DiskState}
    (h : Reading drive lay m i c) :
    ∃ d e : RealMode DiskState, bootSect.Runs lay drive.device c d ∧
      d.eip = (lay.addr .readcore_1).setWidth 32 ∧
      (bootSect.exec lay drive.device .readcore_1 (bootCode .readcore_1) d =
        if BitVec.ofNat 16 (79 - i) = 0 then .far SETUPSEG 0 e
        else .goto (RealCode.enter lay e .readcore)) ∧
      Reading drive lay m (i + 1) (RealCode.enter lay e .readcore) := by
  have hlba : c.eax.toNat = 5 + i := by
    rw [h.eax]
    exact Word.toNat_of (by omega)
  have hds : c.ds.toNat = 0x1000 := by
    rw [h.ds]
    rfl
  obtain ⟨d, hruns, heip, heax, hecx, hebx, hds', hss, hsp, hloaded⟩ :=
    read_hard_disk_0_call drive lay .readcore_1 h.ss h.sp (by omega) h.ebx (by omega) (by omega)
  rw [hlba, hds] at hloaded
  have hless : BitVec.ofNat 16 (80 - i) - 1 = BitVec.ofNat 16 (79 - i) := by
    have hnat : 80 - i = 79 - i + 1 := by omega
    rw [hnat]
    exact counter_less _
  let e := (d.setReg .eax (d.eax + 1)).setStatus (d.countStatus (Cpu.addStatus d.eax 1))
  have hcount : (e.setHalf .ecx (e.half .ecx - 1)).half .ecx = BitVec.ofNat 16 (79 - i) := by
    have hsame : e.half .ecx = c.half .ecx := congrArg (BitVec.setWidth 16) hecx
    rw [RealMode.half_setHalf, hsame, h.ecx, hless]
  refine ⟨d, e.setHalf .ecx (e.half .ecx - 1),
    .head ⟨.readcore, h.eip, rfl⟩ hruns, heip, ?_, rfl, ?_, ?_, ?_, hds'.trans h.ds, hss, hsp, ?_⟩
  · rw [← hcount]
    rfl
  · show d.eax + 1 = _
    rw [heax, h.eax]
    exact Word.of_add_of _ 1
  · have hleft : 80 - (i + 1) = 79 - i := by omega
    rw [hleft]
    exact hcount
  · exact hebx.trans (congrArg Word.of (by omega))
  · have hbuffer : 16 * 0x1000 + 512 * i = 0x10000 + 512 * i := by omega
    rw [hbuffer] at hloaded
    exact h.loaded.append hloaded (by omega)

/-- The rest of the turns, and the jump to `setup`. -/
theorem readcore_leaves {m : Memory} (n : Nat) {i : Nat} (hi : i + (n + 1) = 80)
    {c : RealMode DiskState} (h : Reading drive lay m i c) :
    ∃ r, bootSect.Leaves lay drive.device c SETUPSEG 0 r ∧
      Loaded drive 5 80 0x10000 m r.mem := by
  induction n generalizing i c with
  | zero =>
      obtain ⟨d, e, hruns, heip, hexec, hnext⟩ := readcore_turn drive lay (by omega) h
      have hlast : BitVec.ofNat 16 (79 - i) = 0 := by
        rw [show 79 - i = 0 by omega]
        rfl
      rw [if_pos hlast] at hexec
      have hloaded := hnext.loaded
      rw [hi] at hloaded
      exact ⟨e, ⟨d, .readcore_1, hruns, heip, hexec⟩, hloaded⟩
  | succ n ih =>
      obtain ⟨d, e, hruns, heip, hexec, hnext⟩ := readcore_turn drive lay (by omega) h
      have hmore : BitVec.ofNat 16 (79 - i) ≠ 0 := by
        intro hzero
        have hnat := congrArg BitVec.toNat hzero
        rw [BitVec.toNat_ofNat] at hnat
        simp at hnat
        omega
      rw [if_neg hmore] at hexec
      obtain ⟨r, ⟨d', l, hruns', heip', hexec'⟩, hloaded⟩ := ih (by omega) hnext
      exact ⟨r, ⟨d', l, (hruns.tail ⟨.readcore_1, heip, hexec⟩).trans hruns', heip', hexec'⟩,
        hloaded⟩

/-- `setup` and the system are in memory when the boot sector jumps to `setup`. -/
theorem bootSect_loads {c : RealMode DiskState}
    (heip : c.eip = (lay.addr .read_setup).setWidth 32) (hss : c.ss = INITSEG)
    (hsp : c.sp = 0xfef4) :
    ∃ r, bootSect.Leaves lay drive.device c SETUPSEG 0 r ∧
      (∀ j, j < 512 → r.mem.byteAt (0x90200 + j) = drive.byteOf (512 + j)) ∧
      ∀ j, j < 40960 → r.mem.byteAt (0x10000 + j) = drive.byteOf (2560 + j) := by
  let b : RealMode DiskState := { c with
    eax := 1
    ebx := 0
    ds := (c.setHalf .eax SETUPSEG).half .eax }
  have hds : b.ds = SETUPSEG := RealMode.half_setHalf c .eax SETUPSEG
  have hlba : b.eax.toNat = 1 := rfl
  have hoffset : b.ebx = Word.of 0 := rfl
  have hsegment : b.ds.toNat = 0x9020 := by
    rw [hds]
    rfl
  have hcall : bootSect.exec lay drive.device .read_setup (bootCode .read_setup) c =
      .goto (RealCode.enter lay (b.pushHalf (lay.addr .read_setup_1)) .read_hard_disk_0) := rfl
  obtain ⟨d, hruns, hdeip, -, -, -, -, hdss, hdsp, hsetup⟩ :=
    read_hard_disk_0_call drive lay .read_setup_1 (c := b) hss hsp (by omega) hoffset
      (by omega) (by omega)
  rw [hlba, hsegment] at hsetup
  let e : RealMode DiskState := RealCode.enter lay { d with
    eax := 5
    ecx := 80
    ebx := 0
    ds := (d.setHalf .eax SYSSEG).half .eax } .readcore
  have hds' : e.ds = SYSSEG := RealMode.half_setHalf d .eax SYSSEG
  have hnext : bootSect.exec lay drive.device .read_setup_1 (bootCode .read_setup_1) d = .goto e :=
    rfl
  have hreading : Reading drive lay d.mem 0 e :=
    ⟨rfl, rfl, rfl, rfl, hds', hdss, hdsp, fun _ hj => absurd hj (Nat.not_lt_zero _),
      fun _ _ _ => rfl⟩
  obtain ⟨r, ⟨f, l, hruns', heip', hexec⟩, hsystem⟩ := readcore_leaves drive lay 79 rfl hreading
  have hall : bootSect.Runs lay drive.device c f :=
    .head ⟨.read_setup, heip, hcall⟩ (hruns.trans (.head ⟨.read_setup_1, hdeip, hnext⟩ hruns'))
  refine ⟨r, ⟨f, l, hall, heip', hexec⟩, ?_, fun j hj => hsystem.bytes j hj⟩
  intro j hj
  refine (hsystem.frame _ ?_ ?_).trans (hsetup.bytes j (by omega))
  all_goals rw [Word.toNat_of (by omega)]; omega

end MySystem
