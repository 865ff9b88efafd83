import MySystem.Boot.Move
import MySystem.Machine.Startup

/-!
# Setup

`boot/setup.asm` around its moves: it asks the firmware for what the kernel will
want to know, and afterwards loads the table registers, programs the interrupt
controllers, looks for a coprocessor and enters protected mode.
-/

namespace MySystem

open Machine

/-- The labels of `boot/setup.asm`; some of them are ours. -/
inductive StartLabel where
  | start
  | novga
  /-- The code from here to `end_move` is followed in `setup`. -/
  | move
  | end_move
  /-- Behind the call of `check_x87`. -/
  | after_check
  | check_x87
  | check_over
  deriving DecidableEq

/-- The offsets of the tables in `setup`. -/
structure SetupSymbols where
  pgdt : Half
  gdt : Half
  pidt : Half

def startCode (sym : SetupSymbols) : StartLabel → List (StartOp StartLabel)
  | .start => [
      .real (.movLow .eax 0x9000),
      .real (.movSeg .ds .eax),
      .movHigh .eax 0x88,
      .int 0x15,
      .storeAt 2 .eax,
      .movHigh .eax 0x12,
      .real (.movByte .ebx 0x10),
      .int 0x10,
      .storeAt 8 .eax,
      .storeAt 10 .ebx,
      .storeAt 12 .ecx,
      .real (.movLow .eax 0x5019),
      .real (.cmpByte .ebx 0x10),
      .jz .novga]
  | .novga => [
      .storeAt 14 .eax,
      .movHigh .eax 0x03,
      .clearHigh .ebx,
      .int 0x10,
      .storeAt 0 .edx,
      .movHigh .eax 0x0f,
      .int 0x10,
      .storeAt 4 .ebx,
      .storeAt 6 .eax,
      .cli]
  | .move => []
  | .end_move => [
      .movCs .eax,
      .real (.movSeg .ds .eax),
      .lgdt sym.pgdt,
      .lidt sym.pidt,
      .real (.movByte .eax 0x11),
      .outImm 0x20,
      .real (.movByte .eax 0x20),
      .outImm 0x21,
      .real (.movByte .eax 0x04),
      .outImm 0x21,
      .real (.movByte .eax 0x01),
      .outImm 0x21,
      .real (.movByte .eax 0xff),
      .outImm 0x21,
      .real (.movByte .eax 0x11),
      .outImm 0xa0,
      .real (.movByte .eax 0x28),
      .outImm 0xa1,
      .real (.movByte .eax 0x02),
      .outImm 0xa1,
      .real (.movByte .eax 0x01),
      .outImm 0xa1,
      .real (.movByte .eax 0xff),
      .outImm 0xa1,
      .movFromCr0 .eax,
      .andImm .eax 0x80000011,
      .orImm .eax 2,
      .movToCr0 .eax,
      .call .check_x87]
  | .after_check => [
      .inImm 0x92,
      .real (.orByte .eax 2),
      .outImm 0x92,
      .real (.movLow .eax 0x0001),
      .lmsw .eax,
      .jmpFar 0x0008 0]
  | .check_x87 => [
      .fninit,
      .fstsw,
      .real (.cmpByte .eax 0),
      .jz .check_over,
      .movFromCr0 .eax,
      .xorImm .eax 6,
      .movToCr0 .eax]
  | .check_over => [.ret]

def startNext : StartLabel → StartLabel
  | .start => .novga
  | .novga => .move
  | .end_move => .after_check
  | .check_x87 => .check_over
  | l => l

def start (sym : SetupSymbols) : StartCode StartLabel where
  code := startCode sym
  next := startNext

variable {D : Type} (sym : SetupSymbols) (lay : Offsets StartLabel) (b : Board D) (dev : Device D)

/-! ## What the firmware knows -/

/-- The answers the kernel uses. -/
structure FirmwareAnswers where
  /-- Kilobytes of memory above the first megabyte. -/
  extended : Half
  /-- The video mode, and the number of columns above it. -/
  mode : Half
  page : Half

/-- The firmware gives these answers whenever it is asked. -/
structure Gives (b : Board D) (a : FirmwareAnswers) : Prop where
  extended : ∀ c, c.high .eax = 0x88 → (b.int 0x15 c).half .eax = a.extended
  mode : ∀ c, c.high .eax = 0x0f → (b.int 0x10 c).half .eax = a.mode
  page : ∀ c, c.high .eax = 0x0f → (b.int 0x10 c).half .ebx = a.page

/-- Between `c` and `d` the firmware was asked, with the parameters' segment in `ds`. -/
structure Asked (c d : Startup D) : Prop where
  cs : d.cs = c.cs
  ss : d.ss = c.ss
  esp : d.esp = c.esp
  ds : d.ds = 0x9000
  cr0 : d.cr0 = c.cr0
  below : Memory.AgreeOn 0x500 0x90000 c.mem d.mem
  above : Memory.AgreeOn 0x90010 0x9f000 c.mem d.mem

/-- The parameter at an offset. -/
def parameter (c : Startup D) (o : Nat) : Half := c.mem.load16 (Word.of (0x90000 + o))

/-- The instructions that ask the firmware and store its answers, apart from a
store to the parameter at `o`. -/
def Asks (o : Nat) : StartOp StartLabel → Prop
  | .storeAt offset _ =>
      offset.toNat ≤ 14 ∧ (offset.toNat + 2 ≤ o ∨ o + 2 ≤ offset.toNat)
  | .int _ => True
  | .movHigh _ _ => True
  | .clearHigh _ => True
  | .real (.movLow _ _) => True
  | .real (.movByte _ _) => True
  | .real (.cmpByte _ _) => True
  | _ => False

namespace Asked

variable {b} {c d d' : Startup D} {o : Nat}

theorem same (h : Asked c d) (hcs : d'.cs = d.cs) (hss : d'.ss = d.ss) (hesp : d'.esp = d.esp)
    (hds : d'.ds = d.ds) (hcr0 : d'.cr0 = d.cr0) (hmem : d'.mem = d.mem) :
    Asked c d' ∧ parameter d' o = parameter d o := by
  refine ⟨⟨hcs.trans h.cs, hss.trans h.ss, hesp.trans h.esp, hds.trans h.ds, hcr0.trans h.cr0, ?_,
    ?_⟩, ?_⟩
  · rw [hmem]
    exact h.below
  · rw [hmem]
    exact h.above
  · rw [parameter, parameter, hmem]

theorem stored (h : Asked c d) (offset : Half) (r : Reg) :
    ((StartOp.storeAt offset r : StartOp StartLabel).step b dev d).mem =
      d.mem.store16 (Word.of (0x90000 + offset.toNat)) (d.half r) := by
  have haddr : linear d.ds offset.toNat = Word.of (0x90000 + offset.toNat) := by
    rw [h.ds]
    rfl
  rw [← haddr]
  rfl

theorem step (hb : b.Obeys) (h : Asked c d) {op : StartOp StartLabel} (hop : Asks o op)
    (ho : o ≤ 0xe000) :
    Asked c (op.step b dev d) ∧ parameter (op.step b dev d) o = parameter d o := by
  cases op with
  | storeAt offset r =>
      obtain ⟨hle, happart⟩ := hop
      have hstore : Memory.Writes (0x90000 + offset.toNat) (0x90000 + offset.toNat + 2) d.mem
          (d.mem.store16 (Word.of (0x90000 + offset.toNat)) (d.half r)) :=
        Memory.Writes.store16 _ (by omega) (by omega) (by omega)
      refine ⟨⟨h.cs, h.ss, h.esp, h.ds, h.cr0, ?_, ?_⟩, ?_⟩
      · rw [h.stored]
        exact h.below.trans (.of_writes hstore (by omega))
      · rw [h.stored]
        exact h.above.trans (.of_writes hstore (by omega))
      · have hkept : Memory.AgreeOn (0x90000 + o) (0x90000 + o + 2) d.mem
            (d.mem.store16 (Word.of (0x90000 + offset.toNat)) (d.half r)) :=
          .of_writes hstore (by omega)
        rw [parameter, parameter, h.stored]
        exact hkept.load16 (by omega) (by omega) (by omega)
  | int n =>
      refine ⟨⟨(hb.cs n d.toRealMode).trans h.cs, (hb.ss n d.toRealMode).trans h.ss,
        (hb.esp n d.toRealMode).trans h.esp, (hb.ds n d.toRealMode).trans h.ds, h.cr0,
        h.below.trans ((hb.mem n d.toRealMode).mono (by omega) (by omega)),
        h.above.trans ((hb.mem n d.toRealMode).mono (by omega) (by omega))⟩, ?_⟩
      exact (hb.mem n d.toRealMode).load16 (by omega) (by omega) (by omega)
  | movHigh r v => cases r <;> exact h.same rfl rfl rfl rfl rfl rfl
  | clearHigh r => cases r <;> exact h.same rfl rfl rfl rfl rfl rfl
  | real op =>
      cases op with
      | movLow r v => cases r <;> exact h.same rfl rfl rfl rfl rfl rfl
      | movByte r v => cases r <;> exact h.same rfl rfl rfl rfl rfl rfl
      | cmpByte r v => exact h.same rfl rfl rfl rfl rfl rfl
      | _ => exact hop.elim
  | _ => exact hop.elim

theorem steps (hb : b.Obeys) (h : Asked c d) {ops : List (StartOp StartLabel)}
    (hops : ∀ op ∈ ops, Asks o op) (ho : o ≤ 0xe000) :
    Asked c (ops.foldl (StartOp.step b dev) d) ∧
      parameter (ops.foldl (StartOp.step b dev) d) o = parameter d o := by
  induction ops generalizing d with
  | nil => exact ⟨h, rfl⟩
  | cons op ops ih =>
      obtain ⟨hop, hrest⟩ := List.forall_mem_cons.mp hops
      obtain ⟨hasked, hkept⟩ := h.step dev hb hop ho
      obtain ⟨hasked', hkept'⟩ := ih hasked hrest
      exact ⟨hasked', hkept'.trans hkept⟩

/-- An answer is stored. -/
theorem store (hb : b.Obeys) (h : Asked c d) (offset : Half) (hle : offset.toNat ≤ 14)
    (r : Reg) :
    Asked c ((StartOp.storeAt offset r : StartOp StartLabel).step b dev d) ∧
      parameter ((StartOp.storeAt offset r : StartOp StartLabel).step b dev d) offset.toNat =
        d.half r := by
  have hop : Asks 0x100 (StartOp.storeAt offset r) := ⟨hle, .inl (by omega)⟩
  refine ⟨(h.step dev hb hop (by omega)).1, ?_⟩
  rw [parameter, h.stored]
  exact Memory.load16_store16_same _ _ (by omega)

end Asked

/-- The extended memory is asked for; whatever the display adapter is, 25 lines of
80 columns are noted. -/
theorem start_exec {b : Board D} {a : FirmwareAnswers} (hb : b.Obeys) (hg : Gives b a)
    (c : Startup D) :
    ∃ d, (start sym).exec lay b dev .start (startCode sym .start) c =
        .goto (StartCode.enter lay d .novga) ∧
      Asked c d ∧ parameter d 2 = a.extended ∧ d.half .eax = 0x5019 := by
  obtain ⟨e, hsegment, hasked⟩ : ∃ e : Startup D,
      (start sym).exec lay b dev .start (startCode sym .start) c =
        (start sym).exec lay b dev .start ((startCode sym .start).drop 2) e ∧ Asked c e := by
    refine ⟨_, rfl, rfl, rfl, rfl, ?_, rfl, fun _ _ _ => rfl, fun _ _ _ => rfl⟩
    exact RealMode.half_setHalf c.toRealMode .eax 0x9000
  let asks : List (StartOp StartLabel) := [.movHigh .eax 0x88, .int 0x15]
  let rest : List (StartOp StartLabel) := [.movHigh .eax 0x12, .real (.movByte .ebx 0x10),
    .int 0x10, .storeAt 8 .eax, .storeAt 10 .ebx, .storeAt 12 .ecx, .real (.movLow .eax 0x5019),
    .real (.cmpByte .ebx 0x10)]
  have hasks : ∀ op ∈ asks, Asks 2 op := by simp [asks, Asks]
  have hrest : ∀ op ∈ rest, Asks 2 op := by simp [rest, Asks]
  obtain ⟨hasked', -⟩ := hasked.steps dev hb hasks (by omega)
  have hextended : (asks.foldl (StartOp.step b dev) e).half .eax = a.extended :=
    hg.extended _ (Word.highByte_setHighByte _ _)
  generalize hf : asks.foldl (StartOp.step b dev) e = f at hasked' hextended
  obtain ⟨hasked'', hparameter⟩ := hasked'.store dev hb 2 (by decide) .eax
  obtain ⟨hall, hkept⟩ := hasked''.steps dev hb hrest (by omega)
  refine ⟨rest.foldl (StartOp.step b dev) ((StartOp.storeAt 2 .eax : StartOp StartLabel).step b dev
    f), hsegment.trans ?_, hall, hkept.trans (hparameter.trans hextended), ?_⟩
  · -- the jump and the end of the stretch lead to the same place
    have hjump : (start sym).exec lay b dev .start ((startCode sym .start).drop 2) e =
        (start sym).exec lay b dev .start [.jz .novga] (rest.foldl (StartOp.step b dev)
          ((StartOp.storeAt 2 .eax : StartOp StartLabel).step b dev f)) := by
      rw [← hf]
      rfl
    rw [hjump, StartCode.exec]
    split
    · rfl
    · rfl
  · exact (RealMode.half_setStatus _ _ _).trans (RealMode.half_setHalf _ _ _)

/-- The rest of the parameters, and interrupts are off. -/
theorem novga_exec {b : Board D} {a : FirmwareAnswers} (hb : b.Obeys) (hg : Gives b a)
    {c d : Startup D} (hasked : Asked c d) :
    ∃ e, (start sym).exec lay b dev .novga (startCode sym .novga) d =
        .goto (StartCode.enter lay e .move) ∧
      Asked c e ∧ parameter e 2 = parameter d 2 ∧ parameter e 4 = a.page ∧
      parameter e 6 = a.mode ∧ parameter e 14 = d.half .eax ∧ e.eflags.getLsbD 9 = false := by
  let asks : List (StartOp StartLabel) := [.movHigh .eax 0x03, .clearHigh .ebx, .int 0x10,
    .storeAt 0 .edx, .movHigh .eax 0x0f, .int 0x10]
  let storePage : StartOp StartLabel := .storeAt 4 .ebx
  let storeMode : StartOp StartLabel := .storeAt 6 .eax
  have hasks : ∀ o ∈ [2, 14], ∀ op ∈ asks ++ [storePage, storeMode], Asks o op := by
    simp [asks, storePage, storeMode, Asks]
  have hlines : ∀ op ∈ [StartOp.storeAt 14 .eax], Asks 2 op := by simp [Asks]
  have hmode : Asks 4 storeMode := by simp [storeMode, Asks]
  -- the lines are stored, and then the firmware is asked twice
  obtain ⟨h₁, hparameter⟩ := hasked.store dev hb 14 (by decide) .eax
  obtain ⟨-, hkept⟩ := hasked.steps dev hb hlines (by omega)
  let d₁ : Startup D := (StartOp.storeAt 14 .eax : StartOp StartLabel).step b dev d
  have hcut : ∀ o ∈ [2, 14], ∀ op ∈ asks, Asks o op := fun o ho op hop =>
    hasks o ho op (List.mem_append_left _ hop)
  obtain ⟨h₂, -⟩ := h₁.steps dev hb (hcut 2 (by decide)) (by omega)
  have hpage : (asks.foldl (StartOp.step b dev) d₁).half .ebx = a.page :=
    hg.page _ (Word.highByte_setHighByte _ _)
  have hcolumns : (asks.foldl (StartOp.step b dev) d₁).half .eax = a.mode :=
    hg.mode _ (Word.highByte_setHighByte _ _)
  -- the page and the mode are stored
  obtain ⟨h₃, hparameter₃⟩ := h₂.store dev hb 4 (by decide) .ebx
  obtain ⟨h₄, hparameter₄⟩ := h₃.store dev hb 6 (by decide) .eax
  obtain ⟨-, hkept₄⟩ := h₃.step dev hb hmode (by omega)
  have hall : ∀ o ∈ [2, 14], o ≤ 0xe000 →
      parameter ((asks ++ [storePage, storeMode]).foldl (StartOp.step b dev) d₁) o =
        parameter d₁ o := fun o ho hle => (h₁.steps dev hb (hasks o ho) hle).2
  have hlast : (asks ++ [storePage, storeMode]).foldl (StartOp.step b dev) d₁ =
      storeMode.step b dev (storePage.step b dev (asks.foldl (StartOp.step b dev) d₁)) := by
    rw [List.foldl_append]
    rfl
  rw [hlast] at hall
  generalize hf : asks.foldl (StartOp.step b dev) d₁ = f at *
  refine ⟨(StartOp.cli : StartOp StartLabel).step b dev
    (storeMode.step b dev (storePage.step b dev f)), ?_, ?_, ?_, ?_, ?_, ?_, ?_⟩
  · rw [← hf]
    rfl
  · exact ⟨h₄.cs, h₄.ss, h₄.esp, h₄.ds, h₄.cr0, h₄.below, h₄.above⟩
  · exact (hall 2 (by decide) (by omega)).trans hkept
  · exact hkept₄.trans (hparameter₃.trans hpage)
  · exact hparameter₄.trans hcolumns
  · exact (hall 14 (by decide) (by omega)).trans hparameter
  · exact (Cpu.getLsbD_withBit _ false (by decide)).trans (if_pos rfl)

/-! ## Into protected mode -/

/-- Bytes sent to ports one after the other. -/
def sends (l : List (Byte × Byte)) : List (StartOp StartLabel) :=
  l.flatMap fun (port, v) => [.real (.movByte .eax v), .outImm port]

/-- What `setup` sends to the interrupt controllers. -/
def controllerBytes : List (Byte × Byte) :=
  [(0x20, 0x11), (0x21, 0x20), (0x21, 0x04), (0x21, 0x01), (0x21, 0xff),
    (0xa0, 0x11), (0xa1, 0x28), (0xa1, 0x02), (0xa1, 0x01), (0xa1, 0xff)]

theorem sends_run {b : Board D} (l : List (Byte × Byte)) (c : Startup D) :
    ∃ eax, (sends l).foldl (StartOp.step b dev) c = { c with
      eax := eax
      ports := l.reverse ++ c.ports } := by
  induction l generalizing c with
  | nil => exact ⟨c.eax, rfl⟩
  | cons p l ih =>
      obtain ⟨port, v⟩ := p
      have hal : (c.toRealMode.setByte .eax v).byte .eax = v := RealMode.byte_setByte ..
      have hsend : (StartOp.outImm port : StartOp StartLabel).step b dev
          ((StartOp.real (.movByte .eax v) : StartOp StartLabel).step b dev c) = { c with
            eax := c.eax.extractLsb' 8 24 ++ v
            ports := (port, v) :: c.ports } := by
        change { c with
          eax := c.eax.extractLsb' 8 24 ++ v
          ports := (port, (c.toRealMode.setByte .eax v).byte .eax) :: c.ports } = _
        rw [hal]
      obtain ⟨eax, hrest⟩ := ih { c with
        eax := c.eax.extractLsb' 8 24 ++ v
        ports := (port, v) :: c.ports }
      refine ⟨eax, ?_⟩
      rw [List.reverse_cons, List.append_assoc, sends, List.flatMap_cons, List.foldl_append]
      change (sends l).foldl (StartOp.step b dev)
        ((StartOp.outImm port : StartOp StartLabel).step b dev
          ((StartOp.real (.movByte .eax v) : StartOp StartLabel).step b dev c)) = _
      rw [hsend]
      exact hrest

/-- The table registers are loaded from the code segment, the interrupt controllers
are programmed, and the coprocessor is called for. -/
theorem end_move_exec {b : Board D} {c : Startup D} (hcs : c.cs = 0x9020) :
    ∃ d : Startup D, (start sym).exec lay b dev .end_move (startCode sym .end_move) c =
        .goto (StartCode.enter lay (d.onReal fun e => e.pushHalf (lay.addr .after_check))
          .check_x87) ∧
      d.cs = c.cs ∧ d.ss = c.ss ∧ d.esp = c.esp ∧ d.mem = c.mem ∧
      d.gdtr = c.mem.table 0x9020 sym.pgdt ∧ d.idtr = c.mem.table 0x9020 sym.pidt ∧
      d.eflags.getLsbD 9 = c.eflags.getLsbD 9 ∧
      d.ports = controllerBytes.reverse ++ c.ports ∧ d.cr0 = (c.cr0 &&& 0x80000011) ||| 2 := by
  obtain ⟨e, htables, hecs, hess, heesp, hemem, hgdtr, hidtr, heflags, heports, hecr0⟩ :
      ∃ e : Startup D,
        (start sym).exec lay b dev .end_move (startCode sym .end_move) c =
          (start sym).exec lay b dev .end_move ((startCode sym .end_move).drop 4) e ∧
        e.cs = c.cs ∧ e.ss = c.ss ∧ e.esp = c.esp ∧ e.mem = c.mem ∧
        e.gdtr = c.mem.table 0x9020 sym.pgdt ∧ e.idtr = c.mem.table 0x9020 sym.pidt ∧
        e.eflags = c.eflags ∧ e.ports = c.ports ∧ e.cr0 = c.cr0 := by
    have hds : (c.toRealMode.setHalf .eax c.cs).half .eax = 0x9020 :=
      (RealMode.half_setHalf _ _ _).trans hcs
    refine ⟨_, rfl, rfl, rfl, rfl, rfl, ?_, ?_, rfl, rfl, rfl⟩
    · rw [← hds]
      rfl
    · rw [← hds]
      rfl
  obtain ⟨eax, hsent⟩ := sends_run dev (b := b) controllerBytes e
  have hrest : (start sym).exec lay b dev .end_move ((startCode sym .end_move).drop 4) e =
      (start sym).exec lay b dev .end_move ((startCode sym .end_move).drop 24)
        ((sends controllerBytes).foldl (StartOp.step b dev) e) := rfl
  rw [hsent] at hrest
  refine ⟨_, htables.trans (hrest.trans rfl), hecs, hess, heesp, hemem, hgdtr, hidtr, ?_, ?_, ?_⟩
  · refine (Cpu.interrupt_setStatus _ _).trans ((Cpu.interrupt_setStatus _ _).trans ?_)
    exact congrArg (fun f : Word => f.getLsbD 9) heflags
  · exact congrArg (controllerBytes.reverse ++ ·) heports
  · exact congrArg (fun v : Word => (v &&& 0x80000011) ||| 2) hecr0

/-- `check_x87` puts one of two values in `cr0`. -/
theorem check_x87_exec {b : Board D} (c : Startup D) :
    ∃ d : Startup D, (start sym).exec lay b dev .check_x87 (startCode sym .check_x87) c =
        .goto (StartCode.enter lay d .check_over) ∧
      d.cs = c.cs ∧ d.ss = c.ss ∧ d.esp = c.esp ∧ d.mem = c.mem ∧
      d.gdtr = c.gdtr ∧ d.idtr = c.idtr ∧ d.eflags.getLsbD 9 = c.eflags.getLsbD 9 ∧
      d.ports = c.ports ∧ (d.cr0 = c.cr0 ∨ d.cr0 = c.cr0 ^^^ 6) := by
  obtain ⟨e, hlooks, hecs, hess, heesp, hemem, hegdtr, heidtr, heflags, heports, hecr0⟩ :
      ∃ e : Startup D,
        (start sym).exec lay b dev .check_x87 (startCode sym .check_x87) c =
          (start sym).exec lay b dev .check_x87 ((startCode sym .check_x87).drop 3) e ∧
        e.cs = c.cs ∧ e.ss = c.ss ∧ e.esp = c.esp ∧ e.mem = c.mem ∧
        e.gdtr = c.gdtr ∧ e.idtr = c.idtr ∧ e.eflags.getLsbD 9 = c.eflags.getLsbD 9 ∧
        e.ports = c.ports ∧ e.cr0 = c.cr0 :=
    ⟨_, rfl, rfl, rfl, rfl, rfl, rfl, rfl, Cpu.interrupt_setStatus _ _, rfl, rfl⟩
  by_cases hfound : e.zero = true
  · exact ⟨e, hlooks.trans (if_pos hfound), hecs, hess, heesp, hemem, hegdtr, heidtr, heflags,
      heports, .inl hecr0⟩
  · refine ⟨_, hlooks.trans ((if_neg hfound).trans rfl), hecs, hess, heesp, hemem, hegdtr, heidtr,
      ?_, heports, .inr ?_⟩
    · exact (Cpu.interrupt_setStatus _ _).trans heflags
    · exact congrArg (fun v : Word => v ^^^ 6) hecr0

/-- `lmsw` leaves nothing of what `check_x87` has found. -/
theorem loadStatus_one {v cr0 : Word}
    (h : v = (cr0 &&& 0x80000011) ||| 2 ∨ v = ((cr0 &&& 0x80000011) ||| 2) ^^^ 6) :
    Startup.loadStatus v 1 = (cr0 &&& 0x80000010) ||| 1 := by
  apply BitVec.eq_of_getLsbD_eq
  intro i hi
  obtain rfl | rfl := h
  all_goals
    rw [Startup.loadStatus]
    interval_cases i <;> simp

/-- A20 is opened, and the processor enters protected mode. -/
theorem after_check_exec {b : Board D} (c : Startup D) :
    ∃ d : Startup D, (start sym).exec lay b dev .after_check (startCode sym .after_check) c =
        .far 0x0008 0 d ∧
      d.mem = c.mem ∧ d.gdtr = c.gdtr ∧ d.idtr = c.idtr ∧
      d.eflags.getLsbD 9 = c.eflags.getLsbD 9 ∧
      d.ports = (0x92, b.inPort 0x92 c.ports ||| 2) :: c.ports ∧
      d.cr0 = Startup.loadStatus c.cr0 1 := by
  refine ⟨_, rfl, rfl, rfl, rfl, ?_, ?_, ?_⟩
  · exact Cpu.interrupt_setStatus _ _
  · have hal : (c.toRealMode.setByte .eax (b.inPort 0x92 c.ports)).byte .eax =
        b.inPort 0x92 c.ports := RealMode.byte_setByte ..
    refine congrArg (fun v : Byte => (0x92, v) :: c.ports) ?_
    refine (RealMode.byte_setStatus _ _ _).trans ((RealMode.byte_setByte _ _ _).trans ?_)
    exact congrArg (· ||| 2) hal
  · exact congrArg (Startup.loadStatus c.cr0) (RealMode.half_setHalf _ _ _)

/-- The state in which `setup`, moved on by `c`, enters protected mode. -/
structure Switched (sym : SetupSymbols) (b : Board D) (c p : Startup D) : Prop where
  gdtr : p.gdtr = c.mem.table 0x9020 sym.pgdt
  idtr : p.idtr = c.mem.table 0x9020 sym.pidt
  interrupts : p.eflags.getLsbD 9 = c.eflags.getLsbD 9
  ports : ∃ v, p.ports = (0x92, v ||| 2) :: (controllerBytes.reverse ++ c.ports)
  cr0 : p.cr0 = (c.cr0 &&& 0x80000010) ||| 1
  mem : Memory.Writes 0x9fef2 0x9fef4 c.mem p.mem

theorem end_move_enters {b : Board D} {c : Startup D}
    (heip : c.eip = (lay.addr .end_move).setWidth 32) (hcs : c.cs = 0x9020) (hss : c.ss = 0x9000)
    (hsp : c.sp = 0xfef4) :
    ∃ p, (start sym).Leaves lay b dev c 0x0008 0 p ∧ Switched sym b c p := by
  obtain ⟨d, hcalls, hdcs, hdss, hdesp, hdmem, hdgdtr, hdidtr, hdflags, hdports, hdcr0⟩ :=
    end_move_exec sym lay dev (b := b) hcs
  have hdsp : d.sp = 0xfef4 := (congrArg (BitVec.setWidth 16) hdesp).trans hsp
  let d' := StartCode.enter lay (d.onReal fun e => e.pushHalf (lay.addr .after_check)) .check_x87
  have hsp' : d'.sp = 0xfef2 := by
    refine (RealMode.setWidth_half _ _).trans ?_
    rw [hdsp]
    rfl
  have hmem' : d'.mem = c.mem.store16 (Word.of 0x9fef2) (lay.addr .after_check) := by
    have hpush : d'.mem = d.mem.store16 (linear d.ss (d.sp - 2).toNat) (lay.addr .after_check) :=
      rfl
    rw [hpush, hdmem, hdss, hss, hdsp]
    rfl
  obtain ⟨e, hchecks, hecs, hess, heesp, hemem, hegdtr, heidtr, heflags, heports, hecr0⟩ :=
    check_x87_exec sym lay dev (b := b) d'
  -- the return of `check_x87`
  let e' := StartCode.enter lay e .check_over
  let f : Startup D :=
    e'.onReal fun c => { c.setSp (c.sp + 2) with eip := c.topHalf.setWidth 32 }
  have hreturns : (start sym).Stretch lay b dev e' f := ⟨.check_over, rfl, rfl⟩
  have hfeip : f.eip = (lay.addr .after_check).setWidth 32 := by
    have hss' : e.ss = 0x9000 := hess.trans (hdss.trans hss)
    have hsp'' : e.sp = 0xfef2 := (congrArg (BitVec.setWidth 16) heesp).trans hsp'
    have htop : f.eip = (e.mem.load16 (linear e.ss e.sp.toNat)).setWidth 32 := rfl
    rw [htop, hss', hsp'', hemem, hmem']
    exact congrArg _ (Memory.load16_store16_same _ _ (by omega))
  obtain ⟨p, hleaves, hpmem, hpgdtr, hpidtr, hpflags, hpports, hpcr0⟩ :=
    after_check_exec sym lay dev (b := b) f
  have hcr0 : e.cr0 = (c.cr0 &&& 0x80000011) ||| 2 ∨
      e.cr0 = ((c.cr0 &&& 0x80000011) ||| 2) ^^^ 6 := by
    have hsame : d'.cr0 = (c.cr0 &&& 0x80000011) ||| 2 := hdcr0
    rwa [hsame] at hecr0
  have hruns : (start sym).Runs lay b dev c f :=
    .head ⟨.end_move, heip, hcalls⟩ (.head ⟨.check_x87, rfl, hchecks⟩ (.single hreturns))
  refine ⟨p, ⟨f, .after_check, hruns, hfeip, hleaves⟩, ?_, ?_, ?_, ?_, ?_, ?_⟩
  · exact hpgdtr.trans (hegdtr.trans hdgdtr)
  · exact hpidtr.trans (heidtr.trans hdidtr)
  · exact hpflags.trans (heflags.trans hdflags)
  · refine ⟨_, hpports.trans (congrArg _ ?_)⟩
    exact heports.trans hdports
  · exact hpcr0.trans (loadStatus_one hcr0)
  · have hkept : p.mem = d'.mem := hpmem.trans hemem
    rw [hkept, hmem']
    exact Memory.Writes.store16 _ (by omega) (by omega) (by omega)

end MySystem
