import MySystem.Print.Outcome

/-!
# Stars in a format

A starred width or precision should act as the number its argument gives: the
format with its stars replaced, and its argument list without the arguments of
the stars. Every choice of such a list comes from an argument list of the
starred format, here with 1 for each star (`unstar_starArgs`).
-/

namespace MySystem

open Machine

/-! ## The format without its stars -/

/-- An argument put in front of an argument list. -/
def consArg (w : Word) (args : Nat → Word) : Nat → Word
  | 0 => w
  | n + 1 => args n

/-- The arguments after the first. -/
def tailArgs (args : Nat → Word) : Nat → Word := fun n => args (n + 1)

def decimalText (n : Nat) : List Byte := (Nat.toDigits 10 n).map ch

/-- A directive with a starred width replaced by the number `w`; a negative one
is the `-` flag and its magnitude. -/
def Directive.setWidth (d : Directive) (w : Int) : Directive :=
  { d with
    flags := if w < 0 then d.flags ++ [ch '-'] else d.flags
    width := .digits (decimalText w.natAbs) }

/-- A directive with a starred precision replaced; a negative one is zero. -/
def Directive.setPrecision (d : Directive) (p : Int) : Directive :=
  { d with precision := some (.digits (decimalText p.toNat)) }

/-- Whether a directive takes an argument besides those of its stars. -/
def Directive.takesArg (d : Directive) : Bool :=
  match d.conv with
  | none => false
  | some c => (kindTable.lookup c).isSome

def Directive.unstarWidth (d : Directive) (args : Nat → Word) : Directive × (Nat → Word) :=
  if d.width = .star then (d.setWidth (args 0).toInt, tailArgs args) else (d, args)

def Directive.unstarPrecision (d : Directive) (args : Nat → Word) : Directive × (Nat → Word) :=
  if d.precision = some .star then (d.setPrecision (args 0).toInt, tailArgs args) else (d, args)

/-- A directive with its stars replaced, and the arguments after theirs. -/
def Directive.unstar (d : Directive) (args : Nat → Word) : Directive × (Nat → Word) :=
  (d.unstarWidth args).1.unstarPrecision (d.unstarWidth args).2

/-- The items with all stars replaced by the arguments they consume, and the
argument list with those arguments removed. -/
def unstar : List Item → (Nat → Word) → List Item × (Nat → Word)
  | [], args => ([], args)
  | .byte c :: l, args => (.byte c :: (unstar l args).1, (unstar l args).2)
  | .directive d :: l, args =>
      let (d, args) := d.unstar args
      if d.takesArg then
        (.directive d :: (unstar l (tailArgs args)).1,
          consArg (args 0) (unstar l (tailArgs args)).2)
      else (.directive d :: (unstar l args).1, (unstar l args).2)

/-- The starred widths are neither zero nor the least `int`. -/
def WidthsOk : List Item → (Nat → Word) → Prop
  | [], _ => True
  | .byte _ :: l, args => WidthsOk l args
  | .directive d :: l, args =>
      (d.width = .star → args 0 ≠ 0 ∧ args 0 ≠ 0x80000000) ∧
        WidthsOk l (if d.takesArg then tailArgs (d.unstar args).2 else (d.unstar args).2)

/-- The text of the format with its stars replaced. -/
def literalFormat (s : List Byte) (args : Nat → Word) : List Byte :=
  (unstar (items s) args).1.flatMap Item.render

/-- On a format and on the same format with its stars replaced, `vsprintf`
stores and returns the same and leaves the same arguments. -/
def StarLaw (strlen : Memory → Word → Int) (s : List Byte) (args : Nat → Word)
    (mem : Memory) : Prop :=
  ∃ r r', vsprintf strlen (s ++ [0]) args mem = .ok r ∧
    vsprintf strlen (literalFormat s args ++ [0]) (unstar (items s) args).2 mem = .ok r' ∧
    r.buf = r'.buf ∧ r.ret = r'.ret ∧ r.args = r'.args

def Directive.Starred (d : Directive) : Prop := d.width = .star ∨ d.precision = some .star

/-- Some directive has a star for its width or its precision. -/
def Starred (l : List Item) : Prop := ∃ d, Item.directive d ∈ l ∧ d.Starred

/-! ## Without stars nothing changes -/

theorem consArg_tailArgs (args : Nat → Word) : consArg (args 0) (tailArgs args) = args := by
  funext n
  cases n <;> rfl

theorem Directive.unstar_eq_self {d : Directive} (h : ¬ d.Starred) (args : Nat → Word) :
    d.unstar args = (d, args) := by
  rw [Starred, not_or] at h
  rw [unstar, unstarWidth, if_neg h.1]
  exact if_neg h.2

theorem unstar_eq_self {l : List Item} (h : ¬ Starred l) (args : Nat → Word) :
    unstar l args = (l, args) := by
  induction l generalizing args with
  | nil => rfl
  | cons item l ih =>
      have hrest : ¬ Starred l := by
        rintro ⟨d, hd, hs⟩
        exact h ⟨d, List.mem_cons_of_mem _ hd, hs⟩
      cases item with
      | byte c => rw [unstar, ih hrest]
      | directive d =>
          have hd : ¬ d.Starred := fun hs => h ⟨d, List.mem_cons_self .., hs⟩
          rw [unstar, Directive.unstar_eq_self hd]
          simp only [ih hrest, consArg_tailArgs]
          split <;> rfl

/-! ## The stars read as ones -/

def Field.one : Field → Field
  | star => digits [ch '1']
  | f => f

def Directive.ones (d : Directive) : Directive :=
  { d with width := d.width.one, precision := d.precision.map Field.one }

def Item.ones : Item → Item
  | byte c => byte c
  | directive d => directive d.ones

def Directive.starArgs (d : Directive) (args : Nat → Word) : Nat → Word :=
  let args := if d.precision = some .star then consArg 1 args else args
  if d.width = .star then consArg 1 args else args

/-- Arguments `args` for the directives and 1 for every star. -/
def starArgs : List Item → (Nat → Word) → (Nat → Word)
  | [], args => args
  | .byte _ :: l, args => starArgs l args
  | .directive d :: l, args =>
      d.starArgs (if d.takesArg then consArg (args 0) (starArgs l (tailArgs args))
        else starArgs l args)

private theorem decimalText_one : decimalText 1 = [ch '1'] := by decide

theorem Directive.unstarWidth_one (d : Directive) (args : Nat → Word) :
    d.unstarWidth (if d.width = .star then consArg 1 args else args) =
      ({ d with width := d.width.one }, args) := by
  rw [unstarWidth]
  by_cases h : d.width = .star
  · have hset : d.setWidth 1 = { d with width := .digits [ch '1'] } := by
      rw [← decimalText_one]
      rfl
    rw [if_pos h, if_pos h, h]
    change (d.setWidth 1, args) = _
    rw [hset]
    rfl
  · have hone : d.width.one = d.width := by
      cases hwidth : d.width with
      | star => exact absurd hwidth h
      | absent => rfl
      | digits ds => rfl
    rw [if_neg h, if_neg h, hone]

theorem Directive.unstarPrecision_one (d : Directive) (args : Nat → Word) :
    d.unstarPrecision (if d.precision = some .star then consArg 1 args else args) =
      ({ d with precision := d.precision.map Field.one }, args) := by
  rw [unstarPrecision]
  by_cases h : d.precision = some .star
  · have hset : d.setPrecision 1 = { d with precision := some (.digits [ch '1']) } := by
      rw [← decimalText_one]
      rfl
    rw [if_pos h, if_pos h, h]
    change (d.setPrecision 1, args) = _
    rw [hset]
    rfl
  · have hone : d.precision.map Field.one = d.precision := by
      obtain ⟨_, _, _ | _ | _ | _, _, _⟩ := d
      · rfl
      · rfl
      · rfl
      · exact absurd rfl h
    rw [if_neg h, if_neg h, hone]

theorem Directive.unstar_starArgs (d : Directive) (args : Nat → Word) :
    d.unstar (d.starArgs args) = (d.ones, args) := by
  rw [unstar, starArgs, unstarWidth_one]
  exact unstarPrecision_one { d with width := d.width.one } args

/-- The starred format can be given any arguments for its other directives. -/
theorem unstar_starArgs (l : List Item) (args : Nat → Word) :
    unstar l (starArgs l args) = (l.map Item.ones, args) := by
  induction l generalizing args with
  | nil => rfl
  | cons item l ih =>
      cases item with
      | byte c =>
          rw [starArgs, unstar, ih]
          rfl
      | directive d =>
          have htakes : d.ones.takesArg = d.takesArg := rfl
          simp only [starArgs, unstar, Directive.unstar_starArgs, htakes]
          by_cases harg : d.takesArg = true
          · simp only [if_pos harg]
            change (_ :: (unstar l (starArgs l (tailArgs args))).1,
              consArg (args 0) (unstar l (starArgs l (tailArgs args))).2) = _
            rw [ih, consArg_tailArgs]
            rfl
          · simp only [if_neg harg, ih]
            rfl

theorem widthsOk_starArgs (l : List Item) (args : Nat → Word) :
    WidthsOk l (starArgs l args) := by
  induction l generalizing args with
  | nil => trivial
  | cons item l ih =>
      cases item with
      | byte c => exact ih args
      | directive d =>
          rw [starArgs, WidthsOk, Directive.unstar_starArgs]
          refine ⟨fun hwidth => ?_, ?_⟩
          · have hone : (1 : Word) ≠ 0 ∧ (1 : Word) ≠ 0x80000000 := by decide
            rw [Directive.starArgs, if_pos hwidth]
            exact hone
          · by_cases harg : d.takesArg = true
            · simp only [if_pos harg]
              exact ih (tailArgs args)
            · simp only [if_neg harg]
              exact ih args

end MySystem
