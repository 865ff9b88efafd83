import MySystem.Machine.Word
import Mathlib.Data.List.Basic

/-!
# A pair of interrupt controllers

A controller latches requests, masks some of them, and keeps in service what
was acknowledged until it is told of the end. The second controller of a pair
requests on line 2 of the first. The lines are edge-triggered with fixed
priorities, and of the commands there are the initialization words and the
unspecific end of interrupt.

A request that is withdrawn before it is acknowledged leaves the controller
without an answer. It then gives the vector of its line 7, with nothing in
service. The processor acknowledges twice when the second controller has to
answer, and a request can go away in between as well.
-/

namespace Machine

/-- The initialization words that follow the first. -/
inductive InitWord where
  | two
  | three
  | four
  deriving DecidableEq

structure Pic where
  imr : Byte
  irr : Byte
  isr : Byte
  /-- The vector of line 0. -/
  base : Byte
  /-- The initialization words still to come. -/
  awaits : List InitWord
  deriving DecidableEq

namespace Pic

/-- The mask of line `i`. -/
def line (i : Nat) : Byte := 1#8 <<< i

theorem getLsbD_line (i j : Nat) (hj : j < 8) : (line i).getLsbD j = decide (i = j) := by
  rw [line, BitVec.getLsbD_shiftLeft, BitVec.getLsbD_one]
  by_cases hij : i = j
  · simp [hij, hj]
  · simp only [hj, hij, decide_true, decide_false, Bool.true_and]
    by_cases hlt : j < i
    · simp [hlt]
    · have hne : j - i ≠ 0 := by omega
      simp [hne]

def raise (p : Pic) (i : Nat) : Pic := { p with irr := p.irr ||| line i }

def withdraw (p : Pic) (i : Nat) : Pic := { p with irr := p.irr &&& ~~~line i }

/-- Line `i` acknowledged. -/
def serve (p : Pic) (i : Nat) : Pic :=
  { p with
    irr := p.irr &&& ~~~line i
    isr := p.isr ||| line i }

/-- Nothing in service that comes before line `i` or is line `i` itself. -/
def unblocked (p : Pic) (i : Nat) : Bool := (List.range (i + 1)).all fun j => !p.isr.getLsbD j

/-- Of the requests, line `i` would be answered if it were the only one. -/
def admits (p : Pic) (requests : Byte) (i : Nat) : Bool :=
  requests.getLsbD i && !p.imr.getLsbD i && p.unblocked i

/-- The line answered. -/
def select (p : Pic) (requests : Byte) : Option Nat := (List.range 8).find? (p.admits requests)

/-- The initialization words that the first one asks for. -/
def announced (v : Byte) : List InitWord :=
  .two :: ((if v.getLsbD 1 then [] else [.three]) ++ if v.getLsbD 0 then [.four] else [])

/-- A byte sent to the even port: the first initialization word, or the end of
what is in service with the highest priority. -/
def command (p : Pic) (v : Byte) : Pic :=
  if v.getLsbD 4 then
    { p with
      imr := 0
      irr := 0
      isr := 0
      awaits := announced v }
  else if v = 0x20 then { p with isr := p.isr &&& (p.isr - 1) }
  else p

/-- A byte sent to the odd port. -/
def data (p : Pic) (v : Byte) : Pic :=
  match p.awaits with
  | [] => { p with imr := v }
  | .two :: rest =>
      { p with
        base := v &&& 0xf8
        awaits := rest }
  | _ :: rest => { p with awaits := rest }

theorem data_mask {p : Pic} (h : p.awaits = []) (v : Byte) : p.data v = { p with imr := v } := by
  simp only [data, h]

/-- With one line only that is not masked, no other is answered. -/
theorem select_masked {p : Pic} {k : Nat} (hk : k < 8)
    (hmask : ∀ i < 8, i ≠ k → p.imr.getLsbD i = true) (requests : Byte) :
    p.select requests = if p.admits requests k then some k else none := by
  have hother : ∀ i < 8, i ≠ k → p.admits requests i = false := by
    intro i hi hne
    rw [admits, hmask i hi hne, Bool.not_true, Bool.and_false, Bool.false_and]
  by_cases hadmits : p.admits requests k = true
  · rw [if_pos hadmits, select, List.find?_range_eq_some]
    refine ⟨hadmits, List.mem_range.mpr hk, ?_⟩
    intro j hj
    rw [hother j (Nat.lt_trans hj hk) (Nat.ne_of_lt hj)]
    rfl
  · rw [if_neg hadmits, select, List.find?_range_eq_none]
    intro i hi
    by_cases hsame : i = k
    · rw [hsame, Bool.eq_false_iff.mpr hadmits]
      rfl
    · rw [hother i hi hsame]
      rfl

/-- With every line masked, none is answered. -/
theorem select_all_masked {p : Pic} (hmask : ∀ i < 8, p.imr.getLsbD i = true) (requests : Byte) :
    p.select requests = none := by
  rw [select_masked (k := 0) (by decide) (fun i hi _ => hmask i hi), admits,
    hmask 0 (by decide), Bool.not_true, Bool.and_false, Bool.false_and]
  rfl

end Pic

/-- The controllers behind ports 0x20 and 0xa0. -/
structure Pics where
  master : Pic
  slave : Pic
  deriving DecidableEq

namespace Pics

/-- The line of the second controller that would be answered. -/
def slaveRequest (c : Pics) : Option Nat := c.slave.select c.slave.irr

/-- What the first controller finds on its lines. -/
def inputs (c : Pics) : Byte := c.master.irr ||| if c.slaveRequest.isSome then Pic.line 2 else 0

/-- The line of the first controller that would be answered. The processor is
interrupted when there is one. -/
def request (c : Pics) : Option Nat := c.master.select c.inputs

/-- The lines 0 to 15 of the pair, of which line 2 is taken by the second controller. -/
def raise (c : Pics) (n : Nat) : Pics :=
  if n = 2 then c
  else if n < 8 then { c with master := c.master.raise n }
  else { c with slave := c.slave.raise (n - 8) }

def withdraw (c : Pics) (n : Nat) : Pics :=
  if n = 2 then c
  else if n < 8 then { c with master := c.master.withdraw n }
  else { c with slave := c.slave.withdraw (n - 8) }

/-- A device changes requests only, and none on the line between the controllers. -/
theorem raise_eq (c : Pics) (n : Nat) :
    ∃ m s, c.raise n = ⟨{ c.master with irr := m }, { c.slave with irr := s }⟩ ∧
      m.getLsbD 2 = c.master.irr.getLsbD 2 ∧
      ∀ i < 8, s.getLsbD i = (c.slave.irr.getLsbD i || decide (n = i + 8)) := by
  rw [raise]
  split
  · refine ⟨c.master.irr, c.slave.irr, rfl, rfl, ?_⟩
    intro i hi
    rw [decide_eq_false (by omega), Bool.or_false]
  · rename_i hcascade
    split
    · refine ⟨_, c.slave.irr, rfl, ?_, ?_⟩
      · rw [BitVec.getLsbD_or, Pic.getLsbD_line n 2 (by decide), decide_eq_false hcascade,
          Bool.or_false]
      · intro i hi
        rw [decide_eq_false (by omega), Bool.or_false]
    · refine ⟨c.master.irr, _, rfl, rfl, ?_⟩
      intro i hi
      have hline : n - 8 = i ↔ n = i + 8 := by omega
      rw [BitVec.getLsbD_or, Pic.getLsbD_line _ i hi]
      simp only [hline]

theorem withdraw_eq (c : Pics) (n : Nat) :
    ∃ m s, c.withdraw n = ⟨{ c.master with irr := m }, { c.slave with irr := s }⟩ ∧
      m.getLsbD 2 = c.master.irr.getLsbD 2 ∧
      ∀ i < 8, s.getLsbD i = (c.slave.irr.getLsbD i && !decide (n = i + 8)) := by
  rw [withdraw]
  split
  · refine ⟨c.master.irr, c.slave.irr, rfl, rfl, ?_⟩
    intro i hi
    rw [decide_eq_false (by omega), Bool.not_false, Bool.and_true]
  · rename_i hcascade
    split
    · refine ⟨_, c.slave.irr, rfl, ?_, ?_⟩
      · rw [BitVec.getLsbD_and, BitVec.getLsbD_not, Pic.getLsbD_line n 2 (by decide),
          decide_eq_false hcascade]
        simp
      · intro i hi
        rw [decide_eq_false (by omega), Bool.not_false, Bool.and_true]
    · refine ⟨c.master.irr, _, rfl, rfl, ?_⟩
      intro i hi
      have hline : n - 8 = i ↔ n = i + 8 := by omega
      rw [BitVec.getLsbD_and, BitVec.getLsbD_not, Pic.getLsbD_line _ i hi]
      simp only [hline, hi, decide_true, Bool.true_and]

def out (c : Pics) (port v : Byte) : Pics :=
  if port = 0x20 then { c with master := c.master.command v }
  else if port = 0x21 then { c with master := c.master.data v }
  else if port = 0xa0 then { c with slave := c.slave.command v }
  else if port = 0xa1 then { c with slave := c.slave.data v }
  else c

/-- A byte sent to a port makes no request. -/
theorem out_slave_irr (c : Pics) (port v : Byte) :
    (c.out port v).slave.irr = c.slave.irr ∨ (c.out port v).slave.irr = 0 := by
  have hcommand : (c.slave.command v).irr = c.slave.irr ∨ (c.slave.command v).irr = 0 := by
    rw [Pic.command]
    split
    · exact .inr rfl
    · split
      · exact .inl rfl
      · exact .inl rfl
  have hdata : (c.slave.data v).irr = c.slave.irr := by
    rw [Pic.data]
    split <;> rfl
  rw [out]
  split
  · exact .inl rfl
  · split
    · exact .inl rfl
    · split
      · exact hcommand
      · split
        · exact .inl hdata
        · exact .inl rfl

/-- Bytes sent to ports, the newest first. -/
def replay (c : Pics) (ports : List (Byte × Byte)) : Pics :=
  ports.foldr (fun w c => c.out w.1 w.2) c

theorem replay_append (c : Pics) (newer older : List (Byte × Byte)) :
    c.replay (newer ++ older) = (c.replay older).replay newer :=
  List.foldr_append ..

end Pics

/-! ## Interrupts taken -/

/-- Where the processor is in acknowledging an interrupt. -/
inductive Cycle where
  | idle
  | first
  | second
  deriving DecidableEq

/-- A handler that runs, and what it has still to send to ports. -/
structure Handler where
  vector : Byte
  owed : List (Byte × Byte)
  deriving DecidableEq

inductive IrqEvent where
  | delivered (vector : Byte)
  /-- By the handler of the vector. -/
  | sent (vector : Byte) (byte : Byte × Byte)
  deriving DecidableEq

/-- A processor with its controllers. Its gates leave the interrupt flag alone, so
that a handler can be interrupted by another at any point. -/
structure Line where
  pics : Pics
  cycle : Cycle
  enabled : Bool
  /-- The innermost one first. -/
  handlers : List Handler
  /-- The newest first. -/
  log : List IrqEvent
  deriving DecidableEq

/-- What devices, program and processor do, in any order. -/
inductive Move where
  | raise (n : Nat)
  | withdraw (n : Nat)
  | flag (b : Bool)
  /-- The processor finds itself interrupted between two instructions. -/
  | see
  | acknowledge
  /-- The innermost handler sends its next byte. -/
  | send
  /-- The innermost handler is left. -/
  | leave
  deriving DecidableEq

namespace Line

/-- Before any interrupt. -/
def start (c : Pics) : Line where
  pics := c
  cycle := .idle
  enabled := false
  handlers := []
  log := []

/-- The vectors delivered, the newest first. -/
def vectors (k : Line) : List Byte :=
  k.log.filterMap fun e =>
    match e with
    | .delivered v => some v
    | .sent _ _ => none

variable (owes : Byte → List (Byte × Byte))

/-- The handler of a vector is entered. -/
def deliver (k : Line) (v : Byte) : Line :=
  { k with
    cycle := .idle
    handlers := ⟨v, owes v⟩ :: k.handlers
    log := .delivered v :: k.log }

/-- The first acknowledgement, which the second controller leaves to a second one. -/
def acknowledge (k : Line) : Line :=
  match k.pics.request with
  | none => k.deliver owes (k.pics.master.base + 7)
  | some 2 =>
      { k with
        pics := { k.pics with master := k.pics.master.serve 2 }
        cycle := .second }
  | some i =>
      { k with pics := { k.pics with master := k.pics.master.serve i } }.deliver owes
        (k.pics.master.base + BitVec.ofNat 8 i)

def acknowledgeSlave (k : Line) : Line :=
  match k.pics.slaveRequest with
  | none => k.deliver owes (k.pics.slave.base + 7)
  | some i =>
      { k with pics := { k.pics with slave := k.pics.slave.serve i } }.deliver owes
        (k.pics.slave.base + BitVec.ofNat 8 i)

section

variable {owes} {k : Line}

theorem acknowledge_none (h : k.pics.request = none) :
    k.acknowledge owes = k.deliver owes (k.pics.master.base + 7) := by
  rw [acknowledge, h]

theorem acknowledge_cascade (h : k.pics.request = some 2) :
    k.acknowledge owes =
      { k with
        pics := { k.pics with master := k.pics.master.serve 2 }
        cycle := .second } := by
  rw [acknowledge, h]
  rfl

theorem acknowledgeSlave_none (h : k.pics.slaveRequest = none) :
    k.acknowledgeSlave owes = k.deliver owes (k.pics.slave.base + 7) := by
  rw [acknowledgeSlave, h]

theorem acknowledgeSlave_some {i : Nat} (h : k.pics.slaveRequest = some i) :
    k.acknowledgeSlave owes =
      { k with pics := { k.pics with slave := k.pics.slave.serve i } }.deliver owes
        (k.pics.slave.base + BitVec.ofNat 8 i) := by
  rw [acknowledgeSlave, h]

end

/-- One move, where it is possible. -/
def step (k : Line) : Move → Option Line
  | .raise n => some { k with pics := k.pics.raise n }
  | .withdraw n => some { k with pics := k.pics.withdraw n }
  | .flag b => if k.cycle = .idle then some { k with enabled := b } else none
  | .see =>
      if k.cycle = .idle ∧ k.enabled = true ∧ k.pics.request.isSome then
        some { k with cycle := .first }
      else none
  | .acknowledge =>
      match k.cycle with
      | .idle => none
      | .first => some (k.acknowledge owes)
      | .second => some (k.acknowledgeSlave owes)
  | .send =>
      match k.cycle, k.handlers with
      | .idle, ⟨v, w :: owed⟩ :: below =>
          some { k with
            pics := k.pics.out w.1 w.2
            handlers := ⟨v, owed⟩ :: below
            log := .sent v w :: k.log }
      | _, _ => none
  | .leave =>
      match k.cycle, k.handlers with
      | .idle, ⟨_, []⟩ :: below => some { k with handlers := below }
      | _, _ => none

/-- A run of moves, each of them possible. -/
def run : List Move → Line → Option Line
  | [], k => some k
  | m :: moves, k => (k.step owes m).bind (run moves)

/-- What a move does, with all that makes it possible. -/
inductive Moves (k : Line) : Move → Line → Prop
  | raise (n : Nat) : Moves k (.raise n) { k with pics := k.pics.raise n }
  | withdraw (n : Nat) : Moves k (.withdraw n) { k with pics := k.pics.withdraw n }
  | flag (b : Bool) (idle : k.cycle = .idle) : Moves k (.flag b) { k with enabled := b }
  | see (idle : k.cycle = .idle) (enabled : k.enabled = true)
      (request : k.pics.request.isSome) : Moves k .see { k with cycle := .first }
  | first (cycle : k.cycle = .first) : Moves k .acknowledge (k.acknowledge owes)
  | second (cycle : k.cycle = .second) : Moves k .acknowledge (k.acknowledgeSlave owes)
  | send {v : Byte} {w : Byte × Byte} {owed : List (Byte × Byte)} {below : List Handler}
      (idle : k.cycle = .idle) (handlers : k.handlers = ⟨v, w :: owed⟩ :: below) :
      Moves k .send
        { k with
          pics := k.pics.out w.1 w.2
          handlers := ⟨v, owed⟩ :: below
          log := .sent v w :: k.log }
  | leave {v : Byte} {below : List Handler} (idle : k.cycle = .idle)
      (handlers : k.handlers = ⟨v, []⟩ :: below) : Moves k .leave { k with handlers := below }

variable {owes}

theorem step_moves {k k' : Line} {m : Move} (h : k.step owes m = some k') :
    Moves owes k m k' := by
  cases m with
  | raise n =>
      obtain rfl := Option.some.inj h
      exact .raise n
  | withdraw n =>
      obtain rfl := Option.some.inj h
      exact .withdraw n
  | flag b =>
      rw [step] at h
      split at h
      · rename_i hidle
        obtain rfl := Option.some.inj h
        exact .flag b hidle
      · cases h
  | see =>
      rw [step] at h
      split at h
      · rename_i hseen
        obtain rfl := Option.some.inj h
        exact .see hseen.1 hseen.2.1 hseen.2.2
      · cases h
  | acknowledge =>
      rw [step] at h
      split at h
      · cases h
      · rename_i hcycle
        obtain rfl := Option.some.inj h
        exact .first hcycle
      · rename_i hcycle
        obtain rfl := Option.some.inj h
        exact .second hcycle
  | send =>
      rw [step] at h
      split at h
      · rename_i hidle hhandlers
        obtain rfl := Option.some.inj h
        exact .send hidle hhandlers
      · cases h
  | leave =>
      rw [step] at h
      split at h
      · rename_i hidle hhandlers
        obtain rfl := Option.some.inj h
        exact .leave hidle hhandlers
      · cases h

theorem run_cons {k k₁ : Line} {m : Move} (h : k.step owes m = some k₁) (moves : List Move) :
    run owes (m :: moves) k = run owes moves k₁ := by
  rw [run, h]
  rfl

/-- What every allowed move keeps, a run of allowed moves keeps. -/
theorem run_keeps (allowed : Move → Prop) {P : Line → Prop}
    (hstep : ∀ {m k k'}, allowed m → P k → Moves owes k m k' → P k') {moves : List Move}
    (hmoves : ∀ m ∈ moves, allowed m) {k k' : Line} (h : run owes moves k = some k')
    (hk : P k) : P k' := by
  induction moves generalizing k with
  | nil =>
      obtain rfl := Option.some.inj h
      exact hk
  | cons m moves ih =>
      obtain ⟨k₁, hone, hrest⟩ := Option.bind_eq_some_iff.mp h
      have hk₁ := hstep (hmoves m (List.mem_cons_self ..)) hk (step_moves hone)
      exact ih (fun m' hm' => hmoves m' (List.mem_cons_of_mem _ hm')) hrest hk₁

/-- A count that grows only with moves of one kind is bounded by their number. -/
theorem run_counts {m₀ : Move} {P : Line → Prop} {count : Line → Nat}
    (hstep : ∀ {m k k'}, P k → Moves owes k m k' →
      P k' ∧ count k' ≤ count k + if m = m₀ then 1 else 0) {moves : List Move} {k k' : Line}
    (h : run owes moves k = some k') (hk : P k) : count k' ≤ count k + moves.count m₀ := by
  induction moves generalizing k with
  | nil =>
      obtain rfl := Option.some.inj h
      exact Nat.le_add_right ..
  | cons m moves ih =>
      obtain ⟨k₁, hone, hrest⟩ := Option.bind_eq_some_iff.mp h
      obtain ⟨hk₁, hcount⟩ := hstep hk (step_moves hone)
      have hlater := ih hrest hk₁
      rw [List.count_cons]
      simp only [beq_iff_eq]
      omega

end Line

end Machine
