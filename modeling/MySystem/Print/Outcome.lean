import MySystem.Print.Meaning

/-!
# What any directive does

`directive` on every format, with stars and numbers of any size: it always
returns, and what it does is one of four outcomes. The outcome is chosen by the
format alone, so it is stated of the function from the state to the result.
-/

namespace MySystem

open Machine

/-- What is done with `s` left to read. -/
inductive Outcome (strlen : Memory → Word → Int) :
    List Byte → (Printer → Except Fault (List Byte × Printer)) → Prop where
  /-- The format ends inside the directive. -/
  | ends : Outcome strlen [] (fun p => .ok ([0], p.put [ch '%']))
  /-- The conversion character is none. -/
  | other (c : Byte) (s : List Byte) (hc : conversionOf c = .other) :
      Outcome strlen (c :: s) (fun p => .ok (s ++ [0], printOther c p))
  /-- An argument was taken for a star, which then is no conversion. -/
  | star (s : List Byte) :
      Outcome strlen (ch '*' :: s)
        (fun p => .ok (s ++ [0], printOther (ch '*') p.vaArg.2))
  | known (c : Byte) (s : List Byte) (hc : conversionOf c ≠ .other) (flags : Word)
      (fieldWidth precision : Int) :
      Outcome strlen (c :: s) (fun p => do
        return (s ++ [0], ← convertKnown strlen
          ⟨flags, fieldWidth, precision, c :: (s ++ [0]), p⟩ (conversionOf c)))
  /-- A character was read that belongs to a flag, a number or a qualifier. -/
  | read {c : Byte} {s : List Byte} {f : Printer → Except Fault (List Byte × Printer)}
      (hc : c ≠ ch '*') (h : Outcome strlen s f) : Outcome strlen (c :: s) f

namespace Outcome

variable {strlen : Memory → Word → Int} {s : List Byte}
  {f : Printer → Except Fault (List Byte × Printer)}

theorem of_eq {g : Printer → Except Fault (List Byte × Printer)} (h : Outcome strlen s f)
    (hfg : ∀ p, g p = f p) : Outcome strlen s g := by
  obtain rfl : g = f := funext hfg
  exact h

theorem of_dropWhile {q : Byte → Bool} (hq : q (ch '*') = false)
    (h : Outcome strlen (s.dropWhile q) f) : Outcome strlen s f := by
  induction s with
  | nil => exact h
  | cons c s ih =>
      by_cases hc : q c = true
      · rw [List.dropWhile_cons_of_pos hc] at h
        refine .read ?_ (ih h)
        rintro rfl
        rw [hq] at hc
        cases hc
      · rwa [List.dropWhile_cons_of_neg hc] at h

/-- The characters of a number lead to what follows it. -/
theorem of_scanField (hstar : (scanField s).1 ≠ .star) (h : Outcome strlen (scanField s).2 f) :
    Outcome strlen s f := by
  cases s with
  | nil => exact h
  | cons c s =>
      rw [scanField_cons] at hstar h
      by_cases hdigit : isDigit c = true
      · rw [if_pos hdigit] at h
        exact h.of_dropWhile (q := isDigit) (by decide)
      · rw [if_neg hdigit] at hstar h
        by_cases hc : c = ch '*'
        · rw [if_pos hc] at hstar
          exact absurd rfl hstar
        · rwa [if_neg hc] at h

theorem of_scanPrecision (hstar : (scanPrecision s).1 ≠ some .star)
    (h : Outcome strlen (scanPrecision s).2 f) : Outcome strlen s f := by
  cases s with
  | nil => exact h
  | cons c s =>
      rw [scanPrecision] at hstar h
      by_cases hdot : c = ch '.'
      · rw [if_pos hdot] at hstar h
        exact .read (by rw [hdot]; decide) (of_scanField (fun hf => hstar (congrArg some hf)) h)
      · rwa [if_neg hdot] at h

theorem of_scanQualifier (h : Outcome strlen (scanQualifier s).2 f) : Outcome strlen s f := by
  cases s with
  | nil => exact h
  | cons c s =>
      rw [scanQualifier] at h
      by_cases hc : isQualifier c = true
      · rw [if_pos hc] at h
        refine .read ?_ h
        rintro rfl
        exact absurd hc (by decide)
      · rwa [if_neg hc] at h

end Outcome

variable (strlen : Memory → Word → Int)

/-- The request of a directive that has been read. -/
theorem request_outcome {d : Directive} {s : List Byte} (hs : ∀ c ∈ s, c ≠ 0)
    (hconv : d.conv = s.head?) :
    Outcome strlen s (fun p =>
      d.request.perform strlen p >>= fun p => .ok (s.tail ++ [0], p)) := by
  cases s with
  | nil =>
      rw [Directive.request, hconv]
      exact .ends
  | cons c s =>
      rw [List.head?_cons] at hconv
      rw [Directive.request, hconv]
      by_cases hc : conversionOf c = .other
      · refine (Outcome.other c s hc).of_eq fun p => ?_
        simp only [Request.perform, hc]
        rfl
      · refine (Outcome.known c s hc d.type (int32 d.width.value)
          (precisionRead d.precision)).of_eq fun p => ?_
        rw [convertKnown_fmt strlen _ _ _ _ [c]]
        simp only [Request.perform]
        rfl

theorem directive_outcome (s : List Byte) (hs : ∀ c ∈ s, c ≠ 0) :
    Outcome strlen s (directive strlen (s ++ [0])) := by
  refine Outcome.of_eq ?_ (directive_performs strlen hs)
  refine .of_dropWhile (q := isFlag) (by decide) ?_
  rw [scanRequest]
  split
  case isTrue hstar =>
    rw [scanField_star hstar]
    exact .star _
  case isFalse hwidth =>
    refine .of_scanField hwidth ?_
    split
    case isTrue hstar =>
      rw [scanPrecision_star hstar]
      exact .read (by decide) (.star _)
    case isFalse hprecision =>
      exact .of_scanPrecision hprecision (.of_scanQualifier
        (request_outcome strlen (fun c hc => hs c ((scanned_suffix s).mem hc)) rfl))

/-! ## Conversions -/

/-- A conversion returns, and what was stored before it stays. -/
theorem convertKnown_prefix (d : Parse) (conversion : Conversion) :
    ∃ p, convertKnown strlen d conversion = .ok p ∧ d.printer.str <+: p.str := by
  have hnumber : ∀ base : Int, 2 ≤ base ∧ base ≤ 36 → ∀ flags width,
      ∃ p, printNumber base flags width d = .ok p ∧ d.printer.str <+: p.str :=
    fun base hbase flags width =>
      ⟨_, printNumber_eq base hbase flags width d, List.prefix_append ..⟩
  cases conversion with
  | char => exact ⟨_, rfl, List.prefix_append ..⟩
  | string => exact ⟨_, rfl, List.prefix_append ..⟩
  | octal => exact hnumber 8 (by decide) _ _
  | pointer =>
      rw [convertKnown]
      split
      · exact hnumber 16 (by decide) _ _
      · exact hnumber 16 (by decide) _ _
  | hexLower => exact hnumber 16 (by decide) _ _
  | hexUpper => exact hnumber 16 (by decide) _ _
  | decimal => exact hnumber 10 (by decide) _ _
  | unsigned => exact hnumber 10 (by decide) _ _
  | count => exact ⟨_, rfl, List.prefix_refl _⟩
  | other => exact ⟨_, rfl, List.prefix_refl _⟩

end MySystem
