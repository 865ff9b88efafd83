import MySystem.Trap.Ports
import MySystem.Trap.Init
import MySystem.Boot.Setup
import MySystem.Machine.Pic

/-!
# The coprocessor's interrupt line

`setup` programs the interrupt controllers with all lines masked, and
`trap_init` opens one line of each: the one the second controller is on, and the
coprocessor's on the second. The gates are trap gates, so that the handlers can
be interrupted by each other.
-/

namespace MySystem

open Machine

/-! ## The controllers as `setup` and `trap_init` leave them -/

/-- Whatever was sent before, the controllers are as `setup` programs them. -/
theorem replay_controllerBytes (c : Pics) (v : Byte) (older : List (Byte × Byte)) :
    c.replay ((0x92, v) :: (controllerBytes.reverse ++ older)) =
      { master := ⟨0xff, 0, 0, 0x20, []⟩
        slave := ⟨0xff, 0, 0, 0x28, []⟩ } := by
  have hprogrammed : ∀ c : Pics, c.replay ((0x92, v) :: controllerBytes.reverse) =
      { master := ⟨0xff, 0, 0, 0x20, []⟩
        slave := ⟨0xff, 0, 0, 0x28, []⟩ } := fun _ => rfl
  rw [← List.cons_append, Pics.replay_append, hprogrammed]

/-- Reading the odd port of a controller gives its mask. -/
def Interrupts.ofPics (mem : Memory) (c : Pics) : Interrupts where
  mem := mem
  port port := if port = 0x21 then c.master.imr else if port = 0xa1 then c.slave.imr else 0

/-- The controllers after `trap_init`. -/
def openLines (idt : Word) (handler : Label → Word) (mem : Memory) (c : Pics) : Pics :=
  let k := trapInit idt handler (.ofPics mem c)
  (c.out 0x21 (k.port 0x21)).out 0xa1 (k.port 0xa1)

/-- `trap_init` opens one line of each controller. -/
theorem openLines_eq (idt : Word) (handler : Label → Word) (mem : Memory) {c : Pics}
    (hmaster : c.master.imr = 0xff) (hslave : c.slave.imr = 0xff)
    (hmasterDone : c.master.awaits = []) (hslaveDone : c.slave.awaits = []) :
    openLines idt handler mem c =
      { master := { c.master with imr := 0xfb }
        slave := { c.slave with imr := 0xdf } } := by
  have hports : ∀ k : Interrupts, (trapInit idt handler k).port 0x21 = k.port 0x21 &&& 0xfb ∧
      (trapInit idt handler k).port 0xa1 = k.port 0xa1 &&& 0xdf := fun _ => ⟨rfl, rfl⟩
  have hmasks : (Interrupts.ofPics mem c).port 0x21 &&& 0xfb = 0xfb ∧
      (Interrupts.ofPics mem c).port 0xa1 &&& 0xdf = 0xdf := by
    change c.master.imr &&& 0xfb = 0xfb ∧ c.slave.imr &&& 0xdf = 0xdf
    rw [hmaster, hslave]
    decide
  rw [openLines, (hports _).1, (hports _).2, hmasks.1, hmasks.2]
  change Pics.mk (c.master.data 0xfb) (c.slave.data 0xdf) = _
  rw [Pic.data_mask hmasterDone, Pic.data_mask hslaveDone]

/-! ## Requests -/

/-- With only the coprocessor's line open, and line 2 of the first controller left to
the second. -/
structure Wired (c : Pics) : Prop where
  masterMask : c.master.imr = 0xfb
  masterBase : c.master.base = 0x20
  masterLine : c.master.irr.getLsbD 2 = false
  slaveMask : c.slave.imr = 0xdf
  slaveBase : c.slave.base = 0x28

namespace Wired

variable {c : Pics}

theorem slaveRequest (h : Wired c) : c.slaveRequest =
    if c.slave.irr.getLsbD 5 && c.slave.unblocked 5 then some 5 else none := by
  have hmask : ∀ i < 8, i ≠ 5 → c.slave.imr.getLsbD i = true := by
    rw [h.slaveMask]
    decide
  rw [Pics.slaveRequest, Pic.select_masked (by decide) hmask, Pic.admits, h.slaveMask,
    show (0xdf : Byte).getLsbD 5 = false by decide, Bool.not_false, Bool.and_true]

theorem request (h : Wired c) : c.request =
    if c.slaveRequest.isSome && c.master.unblocked 2 then some 2 else none := by
  have hmask : ∀ i < 8, i ≠ 2 → c.master.imr.getLsbD i = true := by
    rw [h.masterMask]
    decide
  have hinput : c.inputs.getLsbD 2 = c.slaveRequest.isSome := by
    rw [Pics.inputs, BitVec.getLsbD_or, h.masterLine, Bool.false_or]
    cases c.slaveRequest.isSome with
    | true => decide
    | false => decide
  rw [Pics.request, Pic.select_masked (by decide) hmask, Pic.admits, hinput, h.masterMask,
    show (0xfb : Byte).getLsbD 2 = false by decide, Bool.not_false, Bool.and_true]

/-- With nothing in service on the second controller, the coprocessor's request is answered. -/
theorem slaveRequest_of_idle (h : Wired c) (hslave : c.slave.isr = 0) :
    c.slaveRequest = if c.slave.irr.getLsbD 5 then some 5 else none := by
  have hunblocked : c.slave.unblocked 5 = true := by
    rw [Pic.unblocked, hslave]
    decide
  rw [h.slaveRequest, hunblocked, Bool.and_true]

theorem request_of_idle (h : Wired c) (hmaster : c.master.isr = 0) (hslave : c.slave.isr = 0) :
    c.request = if c.slave.irr.getLsbD 5 then some 2 else none := by
  have hunblocked : c.master.unblocked 2 = true := by
    rw [Pic.unblocked, hmaster]
    decide
  rw [h.request, h.slaveRequest_of_idle hslave, hunblocked, Bool.and_true]
  cases c.slave.irr.getLsbD 5 with
  | true => rfl
  | false => rfl

/-- Line 2 in service holds every request back. -/
theorem request_of_master (h : Wired c) (hmaster : c.master.isr = 4) : c.request = none := by
  have hblocked : c.master.unblocked 2 = false := by
    rw [Pic.unblocked, hmaster]
    decide
  rw [h.request, hblocked, Bool.and_false]
  rfl

/-- So does the coprocessor's line in service. -/
theorem request_of_slave (h : Wired c) (hslave : c.slave.isr = 0x20) : c.request = none := by
  have hblocked : c.slave.unblocked 5 = false := by
    rw [Pic.unblocked, hslave]
    decide
  rw [h.request, h.slaveRequest, hblocked, Bool.and_false]
  rfl

theorem raise (h : Wired c) (n : Nat) : Wired (c.raise n) := by
  obtain ⟨m, s, heq, hline, -⟩ := c.raise_eq n
  rw [heq]
  exact ⟨h.masterMask, h.masterBase, hline.trans h.masterLine, h.slaveMask, h.slaveBase⟩

theorem withdraw (h : Wired c) (n : Nat) : Wired (c.withdraw n) := by
  obtain ⟨m, s, heq, hline, -⟩ := c.withdraw_eq n
  rw [heq]
  exact ⟨h.masterMask, h.masterBase, hline.trans h.masterLine, h.slaveMask, h.slaveBase⟩

theorem serveMaster (h : Wired c) : Wired { c with master := c.master.serve 2 } := by
  refine ⟨h.masterMask, h.masterBase, ?_, h.slaveMask, h.slaveBase⟩
  rw [Pic.serve, BitVec.getLsbD_and, h.masterLine, Bool.false_and]

theorem serveSlave (h : Wired c) : Wired { c with slave := c.slave.serve 5 } :=
  ⟨h.masterMask, h.masterBase, h.masterLine, h.slaveMask, h.slaveBase⟩

/-- Behind every request is the coprocessor's. -/
theorem line_of_request (h : Wired c) (hrequest : c.request.isSome) :
    c.slave.irr.getLsbD 5 = true := by
  rw [h.request, h.slaveRequest] at hrequest
  cases hline : c.slave.irr.getLsbD 5 with
  | true => rfl
  | false =>
      rw [hline, Bool.false_and] at hrequest
      cases hrequest

end Wired

/-- The end of interrupt at the first controller. -/
def endMaster (c : Pics) : Pics :=
  { c with master := { c.master with isr := c.master.isr &&& (c.master.isr - 1) } }

def endSlave (c : Pics) : Pics :=
  { c with slave := { c.slave with isr := c.slave.isr &&& (c.slave.isr - 1) } }

theorem out_master (c : Pics) : c.out 0x20 0x20 = endMaster c := rfl

theorem out_slave (c : Pics) : c.out 0xa0 0x20 = endSlave c := rfl

/-- The port of the coprocessor is none of the controllers'. -/
theorem out_coprocessor (c : Pics) : c.out 0xf0 0 = c := rfl

/-! ## The invariant -/

/-- The second controller was once acknowledged without a request, and no end of
interrupt from `parallel_interrupt` has come since. -/
def silenced : List IrqEvent → Bool
  | [] => false
  | .delivered v :: log => if v = 47 then true else silenced log
  | .sent v _ :: log => if v = 39 then false else silenced log

/-- A handler that has nothing to send, or is `parallel_interrupt` before its one byte. -/
def Waiting (h : Handler) : Prop := h.owed = [] ∨ h = ⟨39, [(0x20, 0x20)]⟩

/-- How far `irq13` is, and what is in service meanwhile. -/
inductive Serving (c : Pics) : List (Byte × Byte) → Prop
  | entered (master : c.master.isr = 4) (slave : c.slave.isr = 0x20) :
      Serving c [(0xf0, 0), (0x20, 0x20), (0xa0, 0x20)]
  | cleared (master : c.master.isr = 4) (slave : c.slave.isr = 0x20) :
      Serving c [(0x20, 0x20), (0xa0, 0x20)]
  | half (master : c.master.isr = 0) (slave : c.slave.isr = 0x20) : Serving c [(0xa0, 0x20)]

/-- Where the processor and its controllers are together. -/
inductive Phase (k : Line) : Prop
  | free (cycle : k.cycle = .idle) (handlers : ∀ h ∈ k.handlers, Waiting h)
      (master : k.pics.master.isr = if silenced k.log then 4 else 0)
      (slave : k.pics.slave.isr = 0)
  | first (cycle : k.cycle = .first) (handlers : ∀ h ∈ k.handlers, Waiting h)
      (log : silenced k.log = false) (master : k.pics.master.isr = 0)
      (slave : k.pics.slave.isr = 0)
  | second (cycle : k.cycle = .second) (handlers : ∀ h ∈ k.handlers, Waiting h)
      (log : silenced k.log = false) (master : k.pics.master.isr = 4)
      (slave : k.pics.slave.isr = 0)
  | serving {owed : List (Byte × Byte)} {below : List Handler} (cycle : k.cycle = .idle)
      (handlers : k.handlers = ⟨45, owed⟩ :: below) (waiting : ∀ h ∈ below, Waiting h)
      (log : silenced k.log = false) (serving : Serving k.pics owed)

/-- What holds after every run. -/
structure LineOk (k : Line) : Prop where
  wired : Wired k.pics
  phase : Phase k
  vectors : ∀ v ∈ k.vectors, v = 39 ∨ v = 45 ∨ v = 47

theorem Phase.congr {k k' : Line} (h : Phase k) (hcycle : k'.cycle = k.cycle)
    (hhandlers : k'.handlers = k.handlers) (hlog : k'.log = k.log)
    (hmaster : k'.pics.master.isr = k.pics.master.isr)
    (hslave : k'.pics.slave.isr = k.pics.slave.isr) : Phase k' := by
  cases h with
  | free cycle handlers master slave =>
      refine .free (hcycle.trans cycle) ?_ ?_ (hslave.trans slave)
      · rwa [hhandlers]
      · rw [hmaster, master, hlog]
  | first cycle handlers log master slave =>
      refine .first (hcycle.trans cycle) ?_ ?_ (hmaster.trans master) (hslave.trans slave)
      · rwa [hhandlers]
      · rwa [hlog]
  | second cycle handlers log master slave =>
      refine .second (hcycle.trans cycle) ?_ ?_ (hmaster.trans master) (hslave.trans slave)
      · rwa [hhandlers]
      · rwa [hlog]
  | serving cycle handlers waiting log serving =>
      refine .serving (hcycle.trans cycle) (hhandlers.trans handlers) waiting (hlog ▸ log) ?_
      cases serving with
      | entered master slave => exact .entered (hmaster.trans master) (hslave.trans slave)
      | cleared master slave => exact .cleared (hmaster.trans master) (hslave.trans slave)
      | half master slave => exact .half (hmaster.trans master) (hslave.trans slave)

/-- While `irq13` has something to send, nothing is requested of the processor. -/
theorem Serving.request {c : Pics} {owed : List (Byte × Byte)} (h : Serving c owed)
    (hwired : Wired c) : c.request = none := by
  cases h with
  | entered master slave => exact hwired.request_of_master master
  | cleared master slave => exact hwired.request_of_master master
  | half master slave => exact hwired.request_of_slave slave

section

variable {owes : Byte → List (Byte × Byte)} {k : Line}

theorem mem_vectors_deliver {k : Line} {v : Byte} (hv : v = 39 ∨ v = 45 ∨ v = 47)
    (h : ∀ v ∈ k.vectors, v = 39 ∨ v = 45 ∨ v = 47) :
    ∀ u ∈ (k.deliver owes v).vectors, u = 39 ∨ u = 45 ∨ u = 47 := by
  intro u hu
  obtain rfl | hu := List.mem_cons.mp hu
  · exact hv
  · exact h u hu

theorem LineOk.request_of_first (h : LineOk k) (hcycle : k.cycle = .first) :
    k.pics.request = if k.pics.slave.irr.getLsbD 5 then some 2 else none := by
  cases h.phase with
  | first _ _ _ master slave => exact h.wired.request_of_idle master slave
  | free cycle => exact absurd (cycle.symm.trans hcycle) (by decide)
  | second cycle => exact absurd (cycle.symm.trans hcycle) (by decide)
  | serving cycle => exact absurd (cycle.symm.trans hcycle) (by decide)

theorem LineOk.slaveRequest_of_second (h : LineOk k) (hcycle : k.cycle = .second) :
    k.pics.slaveRequest = if k.pics.slave.irr.getLsbD 5 then some 5 else none := by
  cases h.phase with
  | second _ _ _ _ slave => exact h.wired.slaveRequest_of_idle slave
  | free cycle => exact absurd (cycle.symm.trans hcycle) (by decide)
  | first cycle => exact absurd (cycle.symm.trans hcycle) (by decide)
  | serving cycle => exact absurd (cycle.symm.trans hcycle) (by decide)

/-- The first acknowledgement: without a request, it is the first controller that has no
answer. -/
theorem LineOk.acknowledge (h39 : owes 39 = [(0x20, 0x20)]) (h : LineOk k)
    (hcycle : k.cycle = .first) : LineOk (k.acknowledge owes) := by
  have hrequest := h.request_of_first hcycle
  cases h.phase with
  | first _ handlers log master slave =>
      by_cases hcoprocessor : k.pics.slave.irr.getLsbD 5 = true
      · rw [if_pos hcoprocessor] at hrequest
        rw [Line.acknowledge_cascade hrequest]
        refine ⟨h.wired.serveMaster, .second rfl handlers log ?_ slave, h.vectors⟩
        change k.pics.master.isr ||| _ = _
        rw [master]
        decide
      · rw [if_neg hcoprocessor] at hrequest
        rw [Line.acknowledge_none hrequest, h.wired.masterBase]
        refine ⟨h.wired, .free rfl ?_ ?_ slave, mem_vectors_deliver (.inl rfl) h.vectors⟩
        · intro i hi
          obtain rfl | hi := List.mem_cons.mp hi
          · exact .inr (congrArg (Handler.mk 39) h39)
          · exact handlers i hi
        · exact master.trans (if_neg (Bool.not_eq_true _ ▸ log)).symm
  | free cycle => exact absurd (cycle.symm.trans hcycle) (by decide)
  | second cycle => exact absurd (cycle.symm.trans hcycle) (by decide)
  | serving cycle => exact absurd (cycle.symm.trans hcycle) (by decide)

/-- The second acknowledgement: without a request, it is the second controller that has no
answer, and the first one has line 2 in service. -/
theorem LineOk.acknowledgeSlave
    (h45 : owes 45 = [(0xf0, 0), (0x20, 0x20), (0xa0, 0x20)]) (h47 : owes 47 = [])
    (h : LineOk k) (hcycle : k.cycle = .second) : LineOk (k.acknowledgeSlave owes) := by
  have hrequest := h.slaveRequest_of_second hcycle
  cases h.phase with
  | second _ handlers log master slave =>
      by_cases hcoprocessor : k.pics.slave.irr.getLsbD 5 = true
      · rw [if_pos hcoprocessor] at hrequest
        rw [Line.acknowledgeSlave_some hrequest, h.wired.slaveBase]
        refine ⟨h.wired.serveSlave, ?_, mem_vectors_deliver (.inr (.inl rfl)) h.vectors⟩
        refine .serving rfl (congrArg (Handler.mk 45 · :: k.handlers) h45) handlers log ?_
        refine .entered master ?_
        change k.pics.slave.isr ||| _ = _
        rw [slave]
        decide
      · rw [if_neg hcoprocessor] at hrequest
        rw [Line.acknowledgeSlave_none hrequest, h.wired.slaveBase]
        refine ⟨h.wired, .free rfl ?_ master slave,
          mem_vectors_deliver (.inr (.inr rfl)) h.vectors⟩
        intro i hi
        obtain rfl | hi := List.mem_cons.mp hi
        · exact .inl h47
        · exact handlers i hi
  | free cycle => exact absurd (cycle.symm.trans hcycle) (by decide)
  | first cycle => exact absurd (cycle.symm.trans hcycle) (by decide)
  | serving cycle => exact absurd (cycle.symm.trans hcycle) (by decide)

theorem LineOk.send (h : LineOk k) {v : Byte} {w : Byte × Byte} {owed : List (Byte × Byte)}
    {below : List Handler} (hidle : k.cycle = .idle)
    (hhandlers : k.handlers = ⟨v, w :: owed⟩ :: below) :
    LineOk { k with
      pics := k.pics.out w.1 w.2
      handlers := ⟨v, owed⟩ :: below
      log := .sent v w :: k.log } := by
  have hwired := h.wired
  cases h.phase with
  | free _ handlers master slave =>
      rw [hhandlers] at handlers
      have hbelow : ∀ i ∈ below, Waiting i := fun i hi => handlers i (List.mem_cons_of_mem _ hi)
      obtain hnone | hparallel := handlers _ (List.mem_cons_self ..)
      · cases hnone
      · obtain ⟨rfl, rfl, rfl⟩ : v = 39 ∧ w = (0x20, 0x20) ∧ owed = [] := by
          simpa using hparallel
        refine ⟨⟨hwired.masterMask, hwired.masterBase, hwired.masterLine, hwired.slaveMask,
          hwired.slaveBase⟩, .free hidle ?_ ?_ slave, h.vectors⟩
        · intro i hi
          obtain rfl | hi := List.mem_cons.mp hi
          · exact .inl rfl
          · exact hbelow i hi
        · rw [out_master]
          change k.pics.master.isr &&& (k.pics.master.isr - 1) = 0
          rw [master]
          cases silenced k.log with
          | true => decide
          | false => decide
  | serving _ handlers waiting log serving =>
      rw [hhandlers] at handlers
      obtain ⟨⟨rfl, rfl⟩, rfl⟩ := by simpa using handlers
      cases serving with
      | entered master slave =>
          rw [out_coprocessor]
          exact ⟨hwired, .serving hidle rfl waiting log (.cleared master slave), h.vectors⟩
      | cleared master slave =>
          rw [out_master]
          refine ⟨⟨hwired.masterMask, hwired.masterBase, hwired.masterLine, hwired.slaveMask,
            hwired.slaveBase⟩, .serving hidle rfl waiting log (.half ?_ slave), h.vectors⟩
          change k.pics.master.isr &&& (k.pics.master.isr - 1) = 0
          rw [master]
          decide
      | half master slave =>
          rw [out_slave]
          refine ⟨⟨hwired.masterMask, hwired.masterBase, hwired.masterLine, hwired.slaveMask,
            hwired.slaveBase⟩, .free hidle ?_ ?_ ?_, h.vectors⟩
          · intro i hi
            obtain rfl | hi := List.mem_cons.mp hi
            · exact .inl rfl
            · exact waiting i hi
          · exact master.trans (if_neg (Bool.not_eq_true _ ▸ log)).symm
          · change k.pics.slave.isr &&& (k.pics.slave.isr - 1) = 0
            rw [slave]
            decide
  | first cycle => exact absurd (cycle.symm.trans hidle) (by decide)
  | second cycle => exact absurd (cycle.symm.trans hidle) (by decide)

theorem LineOk.leave (h : LineOk k) {v : Byte} {below : List Handler} (hidle : k.cycle = .idle)
    (hhandlers : k.handlers = ⟨v, []⟩ :: below) : LineOk { k with handlers := below } := by
  refine ⟨h.wired, ?_, h.vectors⟩
  cases h.phase with
  | free _ handlers master slave =>
      rw [hhandlers] at handlers
      exact .free hidle (fun i hi => handlers i (List.mem_cons_of_mem _ hi)) master slave
  | serving _ handlers waiting log serving =>
      rw [hhandlers] at handlers
      obtain ⟨⟨rfl, rfl⟩, rfl⟩ := by simpa using handlers
      cases serving
  | first cycle => exact absurd (cycle.symm.trans hidle) (by decide)
  | second cycle => exact absurd (cycle.symm.trans hidle) (by decide)

theorem LineOk.see (h : LineOk k) (hidle : k.cycle = .idle) (hrequest : k.pics.request.isSome) :
    LineOk { k with cycle := .first } := by
  refine ⟨h.wired, ?_, h.vectors⟩
  cases h.phase with
  | free _ handlers master slave =>
      cases hlog : silenced k.log with
      | true =>
          rw [hlog] at master
          rw [h.wired.request_of_master master] at hrequest
          cases hrequest
      | false =>
          rw [hlog] at master
          exact .first rfl handlers hlog master slave
  | serving _ handlers waiting log serving =>
      rw [serving.request h.wired] at hrequest
      cases hrequest
  | first cycle => exact absurd (cycle.symm.trans hidle) (by decide)
  | second cycle => exact absurd (cycle.symm.trans hidle) (by decide)

/-- Whatever happens next, in whatever order. -/
theorem LineOk.moves (h39 : owes 39 = [(0x20, 0x20)])
    (h45 : owes 45 = [(0xf0, 0), (0x20, 0x20), (0xa0, 0x20)]) (h47 : owes 47 = []) {m : Move}
    {k' : Line} (h : LineOk k) (hmove : Line.Moves owes k m k') : LineOk k' := by
  cases hmove with
  | raise n =>
      refine ⟨h.wired.raise n, ?_, h.vectors⟩
      obtain ⟨m, s, heq, -⟩ := k.pics.raise_eq n
      rw [heq]
      exact h.phase.congr rfl rfl rfl rfl rfl
  | withdraw n =>
      refine ⟨h.wired.withdraw n, ?_, h.vectors⟩
      obtain ⟨m, s, heq, -⟩ := k.pics.withdraw_eq n
      rw [heq]
      exact h.phase.congr rfl rfl rfl rfl rfl
  | flag b => exact ⟨h.wired, h.phase.congr rfl rfl rfl rfl rfl, h.vectors⟩
  | see idle _ request => exact h.see idle request
  | first cycle => exact h.acknowledge h39 cycle
  | second cycle => exact h.acknowledgeSlave h45 h47 cycle
  | send idle handlers => exact h.send idle handlers
  | leave idle handlers => exact h.leave idle handlers

/-! ## What follows for whole runs -/

/-- An `irq13` that is itself interrupted has sent everything. -/
theorem LineOk.exclusive (h : LineOk k) : ∀ i ∈ k.handlers.tail, i.vector = 45 → i.owed = [] := by
  have hwaiting : ∀ i, Waiting i → i.vector = 45 → i.owed = [] := by
    rintro i (hnothing | rfl) hvector
    · exact hnothing
    · exact absurd hvector (by decide)
  cases h.phase with
  | free _ handlers =>
      exact fun i hi => hwaiting i (handlers i (List.mem_of_mem_tail hi))
  | first _ handlers =>
      exact fun i hi => hwaiting i (handlers i (List.mem_of_mem_tail hi))
  | second _ handlers =>
      exact fun i hi => hwaiting i (handlers i (List.mem_of_mem_tail hi))
  | serving _ handlers waiting =>
      rw [handlers]
      exact fun i hi => hwaiting i (waiting i hi)

/-- With no `irq13` that has something to send, nothing is in service but what the second
controller's missing answer left. -/
theorem LineOk.free (h : LineOk k) (hidle : k.cycle = .idle)
    (hdone : ∀ i ∈ k.handlers, i.vector = 45 → i.owed = []) :
    k.pics.master.isr = (if silenced k.log then 4 else 0) ∧ k.pics.slave.isr = 0 := by
  cases h.phase with
  | free _ handlers master slave => exact ⟨master, slave⟩
  | serving _ handlers waiting log serving =>
      rw [handlers] at hdone
      obtain rfl := hdone _ (List.mem_cons_self ..) rfl
      cases serving
  | first cycle => exact absurd (cycle.symm.trans hidle) (by decide)
  | second cycle => exact absurd (cycle.symm.trans hidle) (by decide)

/-- The coprocessor's request, taken as soon as it is there. -/
def nextIrq13 : List Move := [.flag true, .raise 13, .see, .acknowledge, .acknowledge]

/-- Nothing in service: the next request is answered. -/
theorem LineOk.answers (h : LineOk k) (hidle : k.cycle = .idle)
    (hdone : ∀ i ∈ k.handlers, i.vector = 45 → i.owed = []) (hlog : silenced k.log = false) :
    ∃ k', Line.run owes nextIrq13 k = some k' ∧ k'.vectors = 45 :: k.vectors := by
  obtain ⟨hmaster, hslave⟩ := h.free hidle hdone
  rw [hlog] at hmaster
  have hwired := h.wired.raise 13
  obtain ⟨m, s, hraise, -, hlines⟩ := k.pics.raise_eq 13
  have hline : s.getLsbD 5 = true := by
    rw [hlines 5 (by decide)]
    exact Bool.or_true _
  rw [hraise] at hwired
  generalize hp : (⟨{ k.pics.master with irr := m }, { k.pics.slave with irr := s }⟩ : Pics) = p
    at hraise hwired
  have hpmaster : p.master.isr = 0 := by rw [← hp]; exact hmaster
  have hpslave : p.slave.isr = 0 := by rw [← hp]; exact hslave
  have hpline : p.slave.irr.getLsbD 5 = true := by rw [← hp]; exact hline
  have hrequest := hwired.request_of_idle hpmaster hpslave
  have hcoprocessor := hwired.slaveRequest_of_idle hpslave
  rw [if_pos hpline] at hrequest hcoprocessor
  let k₁ : Line := { k with enabled := true }
  let k₂ : Line := { k₁ with pics := p }
  let k₃ : Line := { k₂ with cycle := .first }
  have hflag : k.step owes (.flag true) = some k₁ := if_pos hidle
  have hraised : k₁.step owes (.raise 13) = some k₂ := by
    change some { k₁ with pics := k.pics.raise 13 } = some k₂
    rw [hraise]
  have hsee : k₂.step owes .see = some k₃ := if_pos ⟨hidle, rfl, by rw [hrequest]; rfl⟩
  let k₄ : Line :=
    { k₃ with
      pics := { p with master := p.master.serve 2 }
      cycle := .second }
  let k₅ : Line := { k₄ with pics := { k₄.pics with slave := p.slave.serve 5 } }.deliver owes 45
  have hfirst : k₃.step owes .acknowledge = some k₄ :=
    congrArg some (Line.acknowledge_cascade (k := k₃) hrequest)
  have hsecond : k₄.step owes .acknowledge = some k₅ := by
    refine congrArg some ((Line.acknowledgeSlave_some (k := k₄) hcoprocessor).trans ?_)
    rw [show k₄.pics.slave.base = 0x28 from hwired.slaveBase]
    rfl
  refine ⟨k₅, ?_, rfl⟩
  rw [nextIrq13, Line.run_cons hflag, Line.run_cons hraised, Line.run_cons hsee,
    Line.run_cons hfirst, Line.run_cons hsecond, Line.run]

/-! ### Requests that are not withdrawn -/

/-- The request stays until it is answered. -/
structure Standing (k : Line) : Prop where
  sound : LineOk k
  line : k.cycle ≠ .idle → k.pics.slave.irr.getLsbD 5 = true
  vectors : ∀ v ∈ k.vectors, v = 45

theorem Standing.moves (h39 : owes 39 = [(0x20, 0x20)])
    (h45 : owes 45 = [(0xf0, 0), (0x20, 0x20), (0xa0, 0x20)]) (h47 : owes 47 = []) {m : Move}
    {k' : Line} (hm : ∀ n, m ≠ .withdraw n) (h : Standing k) (hmove : Line.Moves owes k m k') :
    Standing k' := by
  have hok := h.sound.moves h39 h45 h47 hmove
  cases hmove with
  | raise n =>
      refine ⟨hok, fun hcycle => ?_, h.vectors⟩
      obtain ⟨m, s, heq, -, hlines⟩ := k.pics.raise_eq n
      rw [heq]
      change s.getLsbD 5 = true
      rw [hlines 5 (by decide), h.line hcycle, Bool.true_or]
  | withdraw n => exact absurd rfl (hm n)
  | flag b => exact ⟨hok, h.line, h.vectors⟩
  | see _ _ request =>
      exact ⟨hok, fun _ => h.sound.wired.line_of_request request, h.vectors⟩
  | first cycle =>
      have hline := h.line (by rw [cycle]; decide)
      have hrequest := h.sound.request_of_first cycle
      rw [if_pos hline] at hrequest
      rw [Line.acknowledge_cascade hrequest] at hok ⊢
      exact ⟨hok, fun _ => hline, h.vectors⟩
  | second cycle =>
      have hline := h.line (by rw [cycle]; decide)
      have hrequest := h.sound.slaveRequest_of_second cycle
      rw [if_pos hline] at hrequest
      rw [Line.acknowledgeSlave_some hrequest, h.sound.wired.slaveBase] at hok ⊢
      refine ⟨hok, fun hidle => absurd rfl hidle, ?_⟩
      intro v hv
      obtain rfl | hv := List.mem_cons.mp hv
      · rfl
      · exact h.vectors v hv
  | send idle => exact ⟨hok, fun hcycle => absurd idle hcycle, h.vectors⟩
  | leave idle => exact ⟨hok, fun hcycle => absurd idle hcycle, h.vectors⟩

/-! ### Requests answered once -/

/-- The interrupts of the coprocessor, with the request that is still there. -/
def irq13Count (k : Line) : Nat := k.vectors.count 45 + (k.pics.slave.irr.getLsbD 5).toNat

theorem irq13Count_raise (k : Line) (n : Nat) :
    irq13Count { k with pics := k.pics.raise n } ≤
      irq13Count k + if Move.raise n = .raise 13 then 1 else 0 := by
  obtain ⟨m, s, heq, -, hlines⟩ := k.pics.raise_eq n
  rw [irq13Count, irq13Count, heq]
  change k.vectors.count 45 + (s.getLsbD 5).toNat ≤ _
  rw [hlines 5 (by decide), Nat.add_assoc]
  refine Nat.add_le_add_left ?_ _
  by_cases hn : n = 13
  · rw [if_pos (by rw [hn])]
    exact Nat.le_trans (Bool.toNat_le _) (Nat.le_add_left ..)
  · rw [decide_eq_false hn, Bool.or_false]
    exact Nat.le_add_right ..

theorem irq13Count_withdraw (k : Line) (n : Nat) :
    irq13Count { k with pics := k.pics.withdraw n } ≤ irq13Count k := by
  obtain ⟨m, s, heq, -, hlines⟩ := k.pics.withdraw_eq n
  rw [irq13Count, irq13Count, heq]
  change k.vectors.count 45 + (s.getLsbD 5).toNat ≤ _
  rw [hlines 5 (by decide)]
  refine Nat.add_le_add_left ?_ _
  cases k.pics.slave.irr.getLsbD 5 with
  | true => exact Bool.toNat_le _
  | false => exact Nat.le_refl _

theorem LineOk.count (h39 : owes 39 = [(0x20, 0x20)])
    (h45 : owes 45 = [(0xf0, 0), (0x20, 0x20), (0xa0, 0x20)]) (h47 : owes 47 = []) {m : Move}
    {k' : Line} (h : LineOk k) (hmove : Line.Moves owes k m k') :
    LineOk k' ∧ irq13Count k' ≤ irq13Count k + if m = .raise 13 then 1 else 0 := by
  refine ⟨h.moves h39 h45 h47 hmove, ?_⟩
  rw [irq13Count, irq13Count]
  cases hmove with
  | raise n => exact irq13Count_raise k n
  | withdraw n => exact Nat.le_trans (irq13Count_withdraw k n) (Nat.le_add_right ..)
  | flag b => exact Nat.le_add_right ..
  | see => exact Nat.le_add_right ..
  | first cycle =>
      have hrequest := h.request_of_first cycle
      by_cases hline : k.pics.slave.irr.getLsbD 5 = true
      · rw [if_pos hline] at hrequest
        rw [Line.acknowledge_cascade hrequest]
        exact Nat.le_add_right ..
      · rw [if_neg hline] at hrequest
        rw [Line.acknowledge_none hrequest, h.wired.masterBase]
        change (39 :: k.vectors).count 45 + (k.pics.slave.irr.getLsbD 5).toNat ≤ _
        rw [List.count_cons_of_ne (by decide)]
        exact Nat.le_add_right ..
  | second cycle =>
      have hrequest := h.slaveRequest_of_second cycle
      by_cases hline : k.pics.slave.irr.getLsbD 5 = true
      · rw [if_pos hline] at hrequest
        rw [Line.acknowledgeSlave_some hrequest, h.wired.slaveBase]
        change (45 :: k.vectors).count 45 +
          ((k.pics.slave.irr &&& ~~~Pic.line 5).getLsbD 5).toNat ≤ _
        rw [List.count_cons_self, BitVec.getLsbD_and, hline,
          show (~~~Pic.line 5).getLsbD 5 = false by decide]
        exact Nat.le_add_right ..
      · rw [if_neg hline] at hrequest
        rw [Line.acknowledgeSlave_none hrequest, h.wired.slaveBase]
        change (47 :: k.vectors).count 45 + (k.pics.slave.irr.getLsbD 5).toNat ≤ _
        rw [List.count_cons_of_ne (by decide)]
        exact Nat.le_add_right ..
  | @send v w owed below idle handlers =>
      refine Nat.le_trans (Nat.add_le_add_left ?_ _) (Nat.le_add_right ..)
      obtain hsame | hzero := k.pics.out_slave_irr w.1 w.2
      · rw [hsame]
      · rw [hzero]
        exact Nat.zero_le _
  | leave => exact Nat.le_add_right ..

/-! ### A line that stays silent -/

/-- Line 2 in service, with nobody left to tell of the end. -/
structure Deaf (vs : List Byte) (k : Line) : Prop where
  wired : Wired k.pics
  cycle : k.cycle = .idle
  master : k.pics.master.isr = 4
  handlers : ∀ i ∈ k.handlers, i.owed = []
  vectors : k.vectors = vs

theorem Deaf.moves {vs : List Byte} {m : Move} {k' : Line} (h : Deaf vs k)
    (hmove : Line.Moves owes k m k') : Deaf vs k' := by
  cases hmove with
  | raise n =>
      refine ⟨h.wired.raise n, h.cycle, ?_, h.handlers, h.vectors⟩
      obtain ⟨m, s, heq, -⟩ := k.pics.raise_eq n
      rw [heq]
      exact h.master
  | withdraw n =>
      refine ⟨h.wired.withdraw n, h.cycle, ?_, h.handlers, h.vectors⟩
      obtain ⟨m, s, heq, -⟩ := k.pics.withdraw_eq n
      rw [heq]
      exact h.master
  | flag b => exact ⟨h.wired, h.cycle, h.master, h.handlers, h.vectors⟩
  | see _ _ request =>
      rw [h.wired.request_of_master h.master] at request
      cases request
  | first cycle => exact absurd (cycle.symm.trans h.cycle) (by decide)
  | second cycle => exact absurd (cycle.symm.trans h.cycle) (by decide)
  | send _ handlers =>
      have hnothing := h.handlers _ (handlers ▸ List.mem_cons_self ..)
      cases hnothing
  | leave _ handlers =>
      refine ⟨h.wired, h.cycle, h.master, fun i hi => h.handlers i ?_, h.vectors⟩
      rw [handlers]
      exact List.mem_cons_of_mem _ hi

/-! ## Before `trap_init` -/

/-- All lines are masked, and nothing was ever delivered. -/
structure Masked (k : Line) : Prop where
  master : ∃ irr, k.pics.master = ⟨0xff, irr, 0, 0x20, []⟩ ∧ irr.getLsbD 2 = false
  slave : ∃ irr, k.pics.slave = ⟨0xff, irr, 0, 0x28, []⟩
  cycle : k.cycle = .idle
  handlers : k.handlers = []
  log : k.log = []

theorem Masked.request (h : Masked k) : k.pics.request = none := by
  obtain ⟨irr, hmaster, -⟩ := h.master
  refine Pic.select_all_masked ?_ _
  rw [hmaster]
  change ∀ i < 8, (0xff : Byte).getLsbD i = true
  decide

theorem Masked.count {m : Move} {k' : Line} (h : Masked k) (hmove : Line.Moves owes k m k') :
    Masked k' ∧ irq13Count k' ≤ irq13Count k + if m = .raise 13 then 1 else 0 := by
  obtain ⟨irr, hmaster, hline⟩ := h.master
  obtain ⟨irr', hslave⟩ := h.slave
  cases hmove with
  | raise n =>
      refine ⟨?_, irq13Count_raise k n⟩
      obtain ⟨m, s, heq, hm, -⟩ := k.pics.raise_eq n
      rw [heq, hmaster, hslave]
      rw [hmaster] at hm
      exact ⟨⟨m, rfl, hm.trans hline⟩, ⟨s, rfl⟩, h.cycle, h.handlers, h.log⟩
  | withdraw n =>
      refine ⟨?_, Nat.le_trans (irq13Count_withdraw k n) (Nat.le_add_right ..)⟩
      obtain ⟨m, s, heq, hm, -⟩ := k.pics.withdraw_eq n
      rw [heq, hmaster, hslave]
      rw [hmaster] at hm
      exact ⟨⟨m, rfl, hm.trans hline⟩, ⟨s, rfl⟩, h.cycle, h.handlers, h.log⟩
  | flag b => exact ⟨⟨h.master, h.slave, h.cycle, h.handlers, h.log⟩, Nat.le_add_right ..⟩
  | see _ _ request =>
      rw [h.request] at request
      cases request
  | first cycle => exact absurd (cycle.symm.trans h.cycle) (by decide)
  | second cycle => exact absurd (cycle.symm.trans h.cycle) (by decide)
  | send _ handlers => cases h.handlers.symm.trans handlers
  | leave _ handlers => cases h.handlers.symm.trans handlers

end

/-! ## The line from the start on -/

/-- The controllers as `setup` leaves them, whatever they were told before. -/
def irqStart (c : Pics) (v : Byte) (older : List (Byte × Byte)) : Line :=
  .start (c.replay ((0x92, v) :: (controllerBytes.reverse ++ older)))

theorem masked_irqStart (c : Pics) (v : Byte) (older : List (Byte × Byte)) :
    Masked (irqStart c v older) ∧ irq13Count (irqStart c v older) = 0 := by
  rw [irqStart, replay_controllerBytes]
  exact ⟨⟨⟨0, rfl, by decide⟩, ⟨0, rfl⟩, rfl, rfl, rfl⟩, rfl⟩

section

variable (idt : Word) (handler : Label → Word) (mem : Memory)

/-- `trap_init`, as one step. -/
def trapped (k : Line) : Line := { k with pics := openLines idt handler mem k.pics }

/-- Requests that came in before are still there. -/
theorem Masked.trapped {k : Line} (h : Masked k) :
    Standing (trapped idt handler mem k) ∧
      irq13Count (trapped idt handler mem k) = irq13Count k := by
  obtain ⟨irr, hmaster, hline⟩ := h.master
  obtain ⟨irr', hslave⟩ := h.slave
  have hopen := openLines_eq idt handler mem (c := k.pics) (by rw [hmaster]) (by rw [hslave])
    (by rw [hmaster]) (by rw [hslave])
  have hnone : ∀ u ∈ k.vectors, u = 45 := by
    intro u hu
    rw [Line.vectors, h.log] at hu
    exact absurd hu List.not_mem_nil
  rw [MySystem.trapped, hopen]
  refine ⟨⟨⟨?_, ?_, ?_⟩, ?_, hnone⟩, rfl⟩
  · rw [hmaster, hslave]
    exact ⟨rfl, rfl, hline, rfl, rfl⟩
  · refine .free h.cycle ?_ ?_ ?_
    · change ∀ i ∈ k.handlers, Waiting i
      rw [h.handlers]
      exact fun _ hi => absurd hi List.not_mem_nil
    · change k.pics.master.isr = if silenced k.log then 4 else 0
      rw [hmaster, h.log]
      rfl
    · change k.pics.slave.isr = 0
      rw [hslave]
  · exact fun u hu => .inr (.inl (hnone u hu))
  · exact fun hcycle => absurd h.cycle hcycle

/-- In every run of devices, program and interrupt handlers, nested in any way, nothing
is delivered before `trap_init`, and afterwards only the coprocessor's interrupt
and what the controllers give in place of a request that went away. Of the
coprocessor's requests none is answered twice, and `irq13` is not interrupted
before it has told both controllers of the end. When all handlers are done, the
next request is answered; but not if the second controller was left without a
request after the last `parallel_interrupt`: its vector's handler is `reserved`,
which tells nobody, and nothing is delivered again. -/
theorem irq13_line (sys : System) {owes : Byte → List (Byte × Byte)}
    (howes : ∀ u, Sends sys u.toNat (owes u)) (c : Pics) (v : Byte) (older : List (Byte × Byte))
    {before moves : List Move} {k₀ k : Line}
    (hbefore : Line.run owes before (irqStart c v older) = some k₀)
    (hrun : Line.run owes moves (trapped idt handler mem k₀) = some k) :
    k₀.vectors = [] ∧
      (∀ u ∈ k.vectors, u = 39 ∨ u = 45 ∨ u = 47) ∧
      ((∀ n, .withdraw n ∉ moves) → ∀ u ∈ k.vectors, u = 45) ∧
      k.vectors.count 45 ≤ (before ++ moves).count (.raise 13) ∧
      (∀ i ∈ k.handlers.tail, i.vector = 45 → i.owed = []) ∧
      (k.cycle = .idle →
        (silenced k.log = false → (∀ i ∈ k.handlers, i.vector = 45 → i.owed = []) →
          ∃ k', Line.run owes nextIrq13 k = some k' ∧ k'.vectors = 45 :: k.vectors) ∧
        (silenced k.log = true → (∀ i ∈ k.handlers, i.owed = []) →
          ∀ later k', Line.run owes later k = some k' → k'.vectors = k.vectors)) := by
  obtain ⟨h39, h45, h47⟩ := Sends.irq sys howes
  obtain ⟨hmasked, hzero⟩ := masked_irqStart c v older
  have hstill : Masked k₀ := Line.run_keeps (fun _ => True)
    (fun _ h hmove => (h.count hmove).1) (fun _ _ => trivial) hbefore hmasked
  obtain ⟨hstart, hsame⟩ := hstill.trapped idt handler mem
  have hok : LineOk k := Line.run_keeps (fun _ => True)
    (fun _ h hmove => h.moves h39 h45 h47 hmove) (fun _ _ => trivial) hrun hstart.sound
  refine ⟨?_, hok.vectors, ?_, ?_, hok.exclusive, fun hidle => ⟨?_, ?_⟩⟩
  · rw [Line.vectors, hstill.log]
    rfl
  · intro hstay
    have hstanding : Standing k := Line.run_keeps (fun m => ∀ n, m ≠ .withdraw n)
      (fun hm h hmove => h.moves h39 h45 h47 hm hmove)
      (fun m hm n heq => hstay n (heq ▸ hm)) hrun hstart
    exact hstanding.vectors
  · have hfirst := Line.run_counts (fun h hmove => Masked.count h hmove) hbefore hmasked
    have hsecond := Line.run_counts (fun h hmove => LineOk.count h39 h45 h47 h hmove) hrun
      hstart.sound
    rw [List.count_append]
    rw [hsame] at hsecond
    have hdelivered : k.vectors.count 45 ≤ irq13Count k := Nat.le_add_right ..
    omega
  · intro hlog hdone
    exact hok.answers hidle hdone hlog
  · intro hlog hdone later k' hlater
    have hfree := hok.free hidle fun i hi _ => hdone i hi
    rw [hlog] at hfree
    have hdeaf : Deaf k.vectors k := ⟨hok.wired, hidle, hfree.1, hdone, rfl⟩
    have hend : Deaf k.vectors k' := Line.run_keeps (fun _ => True)
      (fun _ h hmove => h.moves hmove) (fun _ _ => trivial) hlater hdeaf
    exact hend.vectors

end

/-- A request that came in early goes away between the two acknowledgements. -/
theorem irq13_line_silenced :
    let owes : Byte → List (Byte × Byte) := fun u => ((gate u.toNat).map entrySends).getD []
    let moves : List Move := [.flag true, .see, .acknowledge, .withdraw 13, .acknowledge, .leave]
    ∃ k₀ k, Line.run owes [.raise 13]
        (irqStart ⟨⟨0, 0, 0, 8, []⟩, ⟨0, 0, 0, 0x70, []⟩⟩ 2 []) = some k₀ ∧
      Line.run owes moves (trapped 0x54a8 (fun _ => 0x1000) ⟨fun _ => 0, []⟩ k₀) = some k ∧
      k.vectors = [47] ∧
      ∀ later k', Line.run owes later k = some k' → k'.vectors = [47] := by
  intro owes moves
  let k₀ : Line := .start ⟨⟨0xff, 0, 0, 0x20, []⟩, ⟨0xff, 0x20, 0, 0x28, []⟩⟩
  have hbefore : Line.run owes [.raise 13]
      (irqStart ⟨⟨0, 0, 0, 8, []⟩, ⟨0, 0, 0, 0x70, []⟩⟩ 2 []) = some k₀ := by
    rw [irqStart, replay_controllerBytes]
    decide
  have hend : (Line.run owes moves (trapped 0x54a8 (fun _ => 0x1000) ⟨fun _ => 0, []⟩ k₀)).map
      (fun k => (k.cycle, k.handlers, k.vectors, silenced k.log)) =
        some (.idle, [], [47], true) := by
    rw [trapped, openLines_eq 0x54a8 _ _ rfl rfl rfl rfl]
    decide
  obtain ⟨k, hrun, hend⟩ := Option.map_eq_some_iff.mp hend
  obtain ⟨hidle, hhandlers, hvectors, hlog⟩ : k.cycle = .idle ∧ k.handlers = [] ∧
      k.vectors = [47] ∧ silenced k.log = true := by simpa using hend
  have hline := irq13_line _ _ _ linkedKernel (fun u => sends_entrySends linkedKernel u.toNat)
    _ _ _ hbefore hrun
  refine ⟨k₀, k, hbefore, hrun, hvectors, ?_⟩
  rw [← hvectors]
  refine (hline.2.2.2.2.2 hidle).2 hlog ?_
  rw [hhandlers]
  exact fun _ hi => absurd hi List.not_mem_nil

end MySystem
