import MySystem.Print.Quiet
import MySystem.Print.StarLaw

/-!
# Formats one after the other

Printing a format and then another one is printing the two as one format, unless
the first ends inside a directive: then the second is read as the rest of that
directive. Both the number of stars and the numbers in a format are arbitrary.
-/

namespace MySystem

open Machine

/-- The loop of `vsprintf` on a format without its zero, after other output. -/
def printFormat (strlen : Memory → Word → Int) (s : List Byte) (p : Printer) :
    Except Fault Printer :=
  vsprintfLoop strlen (s.length + 1) (s ++ [0]) p

/-- The format ends inside a directive. -/
def EndsInside (s : List Byte) : Prop := Request.unfinished ∈ requests s

variable {s t : List Byte}

/-! ## Scanning a longer format -/

/-- Scanning that stopped inside `s` is not affected by what follows; a percent
sign is no part of any number, flag or qualifier. -/
def Stops (rest t : List Byte) : Prop := rest ≠ [] ∨ ∃ t', t = ch '%' :: t'

theorem dropWhile_append {q : Byte → Bool} (hq : q (ch '%') = false)
    (h : Stops (s.dropWhile q) t) : (s ++ t).dropWhile q = s.dropWhile q ++ t := by
  rw [List.dropWhile_append]
  split
  case isTrue hempty =>
    have hnil : s.dropWhile q = [] := List.isEmpty_iff.mp hempty
    obtain hne | ⟨t', rfl⟩ := h
    · exact absurd hnil hne
    · rw [hnil, List.dropWhile_cons_of_neg (by rw [hq]; exact Bool.false_ne_true)]
      rfl
  case isFalse => rfl

theorem takeWhile_append {q : Byte → Bool} (hq : q (ch '%') = false)
    (h : Stops (s.dropWhile q) t) : (s ++ t).takeWhile q = s.takeWhile q := by
  have hsplit := List.takeWhile_append_dropWhile (p := q) (l := s ++ t)
  rw [dropWhile_append hq h, ← List.append_assoc] at hsplit
  have hboth := List.append_cancel_right hsplit
  have hown := List.takeWhile_append_dropWhile (p := q) (l := s)
  exact List.append_cancel_right (hboth.trans hown.symm)

theorem scanField_append (h : (scanField s).1 = .star ∨ Stops (scanField s).2 t) :
    scanField (s ++ t) = ((scanField s).1, (scanField s).2 ++ t) := by
  cases s with
  | nil =>
      obtain hstar | hne | ⟨t', rfl⟩ := h
      · cases hstar
      · exact absurd rfl hne
      · rfl
  | cons c s =>
      rw [scanField_cons] at h ⊢
      rw [List.cons_append, scanField_cons]
      by_cases hdigit : isDigit c = true
      · rw [if_pos hdigit] at h ⊢
        rw [if_pos hdigit, ← List.cons_append]
        obtain hstar | hstops := h
        · cases hstar
        · rw [dropWhile_append (by decide) hstops, takeWhile_append (by decide) hstops]
      · rw [if_neg hdigit, if_neg hdigit]
        by_cases hc : c = ch '*'
        · rw [if_pos hc, if_pos hc]
        · rw [if_neg hc, if_neg hc]
          rfl

theorem scanPrecision_append (h : (scanPrecision s).1 = some .star ∨ Stops (scanPrecision s).2 t) :
    scanPrecision (s ++ t) = ((scanPrecision s).1, (scanPrecision s).2 ++ t) := by
  cases s with
  | nil =>
      obtain hstar | hne | ⟨t', rfl⟩ := h
      · cases hstar
      · exact absurd rfl hne
      · rfl
  | cons c s =>
      rw [scanPrecision] at h ⊢
      rw [List.cons_append, scanPrecision]
      by_cases hc : c = ch '.'
      · rw [if_pos hc] at h ⊢
        rw [if_pos hc, scanField_append (h.imp_left Option.some.inj)]
      · rw [if_neg hc, if_neg hc]
        rfl

theorem scanQualifier_append (h : Stops (scanQualifier s).2 t) :
    scanQualifier (s ++ t) = ((scanQualifier s).1, (scanQualifier s).2 ++ t) := by
  cases s with
  | nil =>
      obtain hne | ⟨t', rfl⟩ := h
      · exact absurd rfl hne
      · rfl
  | cons c s =>
      rw [scanQualifier, List.cons_append, scanQualifier]
      split <;> rfl

/-- What is left of a directive before its conversion character. -/
def beforeConversion (s : List Byte) : List Byte :=
  (scanQualifier (scanPrecision (scanField (s.dropWhile isFlag)).2).2).2

/-- The parts of a directive that is followed by more than it had. -/
theorem scan_append (h : Stops (beforeConversion s) t) :
    (s ++ t).dropWhile isFlag = s.dropWhile isFlag ++ t ∧
      scanField (s.dropWhile isFlag ++ t) =
        ((scanField (s.dropWhile isFlag)).1, (scanField (s.dropWhile isFlag)).2 ++ t) ∧
      scanPrecision ((scanField (s.dropWhile isFlag)).2 ++ t) =
        ((scanPrecision (scanField (s.dropWhile isFlag)).2).1,
          (scanPrecision (scanField (s.dropWhile isFlag)).2).2 ++ t) ∧
      scanQualifier ((scanPrecision (scanField (s.dropWhile isFlag)).2).2 ++ t) =
        ((scanQualifier (scanPrecision (scanField (s.dropWhile isFlag)).2).2).1,
          beforeConversion s ++ t) := by
  have hmono : ∀ {a b : List Byte}, a <:+ b → Stops a t → Stops b t := by
    intro a b hab ha
    obtain hne | hpercent := ha
    · exact .inl fun hb => hne (List.suffix_nil.mp (hb ▸ hab))
    · exact .inr hpercent
  have hqualifier : beforeConversion s <:+ (scanPrecision (scanField (s.dropWhile isFlag)).2).2 :=
    ⟨_, scanQualifier_render _⟩
  have hprecision := hmono hqualifier h
  have hwidth := hmono (scanPrecision_suffix _) hprecision
  have hflags := hmono (scanField_suffix _) hwidth
  exact ⟨dropWhile_append (by decide) hflags, scanField_append (.inr hwidth),
    scanPrecision_append (.inr hprecision), scanQualifier_append h⟩

theorem scanDirective_append (h : Stops (beforeConversion s) t) :
    (scanDirective (s ++ t)).1 =
        { (scanDirective s).1 with conv := (beforeConversion s ++ t).head? } ∧
      (scanDirective (s ++ t)).2 = (beforeConversion s ++ t).tail := by
  obtain ⟨hflags, hwidth, hprecision, hqualifier⟩ := scan_append h
  have htake : (s ++ t).takeWhile isFlag = s.takeWhile isFlag := by
    have hsplit := List.takeWhile_append_dropWhile (p := isFlag) (l := s ++ t)
    have hown := List.takeWhile_append_dropWhile (p := isFlag) (l := s)
    rw [hflags, ← List.append_assoc] at hsplit
    exact List.append_cancel_right ((List.append_cancel_right hsplit).trans hown.symm)
  constructor
  · simp only [scanDirective, hflags, hwidth, hprecision, hqualifier, htake]
  · simp only [scanDirective, hflags, hwidth, hprecision, hqualifier]

/-- The request of a directive, behind which there may be more. -/
theorem scanRequest_append (h : (scanRequest s).1 ≠ .unfinished) (t : List Byte) :
    scanRequest (s ++ t) = ((scanRequest s).1, (scanRequest s).2 ++ t) := by
  by_cases hwidth : (scanField (s.dropWhile isFlag)).1 = .star
  · have hfmt := scanField_star hwidth
    have hflags : (s ++ t).dropWhile isFlag = s.dropWhile isFlag ++ t :=
      dropWhile_append (by decide) (.inl (by rw [hfmt]; exact List.cons_ne_nil _ _))
    simp only [scanRequest, hflags, scanField_append (.inl hwidth), if_pos hwidth]
  · by_cases hprecision : (scanPrecision (scanField (s.dropWhile isFlag)).2).1 = some .star
    · have hfmt := scanPrecision_star hprecision
      have hrest : Stops (scanField (s.dropWhile isFlag)).2 t :=
        .inl (by rw [hfmt]; exact List.cons_ne_nil _ _)
      have hflags : (s ++ t).dropWhile isFlag = s.dropWhile isFlag ++ t := by
        refine dropWhile_append (by decide) (.inl fun hnil => ?_)
        obtain hne | ⟨t', -⟩ := hrest
        · exact hne (by rw [hnil]; rfl)
        · rw [hnil] at hfmt
          cases hfmt
      simp only [scanRequest, hflags, scanField_append (.inr hrest), if_neg hwidth,
        scanPrecision_append (.inl hprecision), if_pos hprecision]
    · have hrequest : scanRequest s = ((scanDirective s).1.request, (scanDirective s).2) := by
        simp only [scanRequest, if_neg hwidth, if_neg hprecision]
      have hconv : beforeConversion s ≠ [] := by
        intro hnil
        refine h ?_
        have hnone : (scanDirective s).1.conv = none := congrArg List.head? hnil
        rw [hrequest]
        simp only [Directive.request, hnone]
      obtain ⟨hflags, hfield, hprec, -⟩ := scan_append (t := t) (.inl hconv)
      obtain ⟨hdirective, hrest⟩ := scanDirective_append (t := t) (.inl hconv)
      have hhead : (beforeConversion s ++ t).head? = (scanDirective s).1.conv := by
        obtain ⟨c, rest, hcons⟩ := List.exists_cons_of_ne_nil hconv
        have hown : (scanDirective s).1.conv = (beforeConversion s).head? := rfl
        rw [hown, hcons]
        rfl
      have htail : (beforeConversion s ++ t).tail = (scanDirective s).2 ++ t := by
        rw [List.tail_append_of_ne_nil hconv]
        rfl
      have hlonger : scanRequest (s ++ t) =
          ((scanDirective (s ++ t)).1.request, (scanDirective (s ++ t)).2) := by
        simp only [scanRequest, hflags, hfield, hprec, if_neg hwidth, if_neg hprecision]
      rw [hlonger, hrequest, hdirective, hrest, hhead, htail]

/-! ## The formats that may be continued -/

/-- A format that does not end inside a directive asks for the same, whatever follows. -/
theorem requests_append (h : ¬ EndsInside s) (t : List Byte) :
    requests (s ++ t) = requests s ++ requests t := by
  induction s using requests.induct with
  | case1 => rw [requests_nil, List.nil_append, List.nil_append]
  | case2 s ih =>
      rw [EndsInside, requests_percent, List.mem_cons, not_or] at h
      obtain ⟨hfirst, hrest⟩ := h
      rw [List.cons_append, requests_percent, requests_percent,
        scanRequest_append (Ne.symm hfirst), ih hrest, List.cons_append]
  | case3 c s hc ih =>
      rw [EndsInside, requests_byte hc, List.mem_cons, not_or] at h
      rw [List.cons_append, requests_byte hc, requests_byte hc, ih h.2, List.cons_append]

/-- A percent sign after an unfinished directive is its conversion character. -/
theorem scanRequest_unfinished (h : (scanRequest s).1 = .unfinished) :
    (scanRequest s).2 = [] ∧ ∃ flags width precision,
      scanRequest (s ++ [ch '%']) = (.conversion flags width precision (ch '%'), []) := by
  by_cases hwidth : (scanField (s.dropWhile isFlag)).1 = .star
  · simp only [scanRequest, if_pos hwidth] at h
    cases h
  by_cases hprecision : (scanPrecision (scanField (s.dropWhile isFlag)).2).1 = some .star
  · simp only [scanRequest, if_neg hwidth, if_pos hprecision] at h
    cases h
  have hrequest : scanRequest s = ((scanDirective s).1.request, (scanDirective s).2) := by
    simp only [scanRequest, if_neg hwidth, if_neg hprecision]
  have hconv : (scanDirective s).1.conv = none := by
    rw [hrequest] at h
    cases hc : (scanDirective s).1.conv with
    | none => rfl
    | some c =>
        simp only [Directive.request, hc] at h
        cases h
  have hnil : beforeConversion s = [] := List.head?_eq_none_iff.mp hconv
  have hstops : Stops (beforeConversion s) [ch '%'] := .inr ⟨[], rfl⟩
  obtain ⟨hflags, hfield, hprec, -⟩ := scan_append hstops
  obtain ⟨hdirective, hrest⟩ := scanDirective_append hstops
  have hlonger : scanRequest (s ++ [ch '%']) =
      ((scanDirective (s ++ [ch '%'])).1.request, (scanDirective (s ++ [ch '%'])).2) := by
    simp only [scanRequest, hflags, hfield, hprec, if_neg hwidth, if_neg hprecision]
  rw [hnil] at hdirective hrest
  refine ⟨?_, (scanDirective s).1.type, int32 (scanDirective s).1.width.value,
    precisionRead (scanDirective s).1.precision, ?_⟩
  · rw [hrequest]
    exact congrArg List.tail hnil
  · rw [hlonger, hdirective, hrest]
    rfl

variable (strlen : Memory → Word → Int)

/-- With a percent sign after it an unfinished format prints no more than before. -/
theorem perform_percent (h : EndsInside s) (p : Printer) :
    (requests (s ++ [ch '%'])).foldlM (Request.perform strlen) p =
      (requests s).foldlM (Request.perform strlen) p := by
  induction s using requests.induct generalizing p with
  | case1 =>
      rw [EndsInside, requests_nil] at h
      exact absurd h List.not_mem_nil
  | case2 s ih =>
      rw [List.cons_append, requests_percent, requests_percent]
      by_cases hfirst : (scanRequest s).1 = .unfinished
      · obtain ⟨hrest, flags, width, precision, hlonger⟩ := scanRequest_unfinished hfirst
        rw [hlonger, hrest, hfirst, requests_nil]
        rfl
      · rw [EndsInside, requests_percent, List.mem_cons] at h
        have hrest : EndsInside (scanRequest s).2 := h.resolve_left (Ne.symm hfirst)
        rw [scanRequest_append hfirst, List.foldlM_cons, List.foldlM_cons]
        exact congrArg _ (funext fun q => ih hrest q)
  | case3 c s hc ih =>
      rw [EndsInside, requests_byte hc, List.mem_cons] at h
      have hne : Request.unfinished ≠ .byte c := Request.noConfusion
      have hrest : EndsInside s := h.resolve_left hne
      rw [List.cons_append, requests_byte hc, requests_byte hc, List.foldlM_cons, List.foldlM_cons]
      exact congrArg _ (funext fun q => ih hrest q)

theorem printFormat_eq (hs : ∀ c ∈ s, c ≠ 0) (p : Printer) :
    printFormat strlen s p = (requests s).foldlM (Request.perform strlen) p :=
  vsprintfLoop_performs strlen hs (Nat.lt_succ_self _) p

/-- A format may be printed in two parts, cut anywhere, exactly when the first part
does not end inside a directive. -/
theorem print_format_append_iff {s : List Byte} (hs : ∀ c ∈ s, c ≠ 0) :
    (∀ (strlen : Memory → Word → Int) (t : List Byte) (p : Printer), (∀ c ∈ t, c ≠ 0) →
      printFormat strlen (s ++ t) p = printFormat strlen s p >>= printFormat strlen t) ↔
      ¬ EndsInside s := by
  constructor
  · intro hall hends
    have hpercent : ∀ c ∈ [ch '%'], c ≠ (0 : Byte) := by decide
    have hboth : ∀ c ∈ s ++ [ch '%'], c ≠ 0 := fun c hc =>
      (List.mem_append.mp hc).elim (hs c) (hpercent c)
    have hsplit := hall scanLength [ch '%'] (.fresh fun _ => 0) hpercent
    obtain ⟨q, hq, -⟩ := vsprintfLoop_emits scanLength hs (Nat.lt_succ_self _)
      (.fresh fun _ => 0)
    have hprinted : printFormat scanLength s (.fresh fun _ => 0) = .ok q := hq
    -- read alone, the percent sign is printed a second time
    have halone : printFormat scanLength [ch '%'] q = .ok (q.put [ch '%']) := rfl
    rw [printFormat_eq scanLength hboth, perform_percent scanLength hends,
      ← printFormat_eq scanLength hs, hprinted] at hsplit
    have hsame : q = q.put [ch '%'] := Except.ok.inj (hsplit.trans halone)
    have hlength := congrArg (fun p : Printer => p.str.length) hsame
    simp only [Printer.put_str, List.length_append, List.length_singleton] at hlength
    omega
  · intro hclosed strlen t p ht
    have hboth : ∀ c ∈ s ++ t, c ≠ 0 := fun c hc =>
      (List.mem_append.mp hc).elim (hs c) (ht c)
    rw [printFormat_eq strlen hboth, printFormat_eq strlen hs, requests_append hclosed,
      List.foldlM_append]
    exact congrArg _ (funext fun q => (printFormat_eq strlen ht q).symm)

/-- `"100%"` cannot be continued. -/
theorem print_format_append_percent :
    let s := ['1', '0', '0', '%'].map ch
    (∀ (strlen : Memory → Word → Int) (t : List Byte) (p : Printer), (∀ c ∈ t, c ≠ 0) →
      printFormat strlen (s ++ t) p = printFormat strlen s p >>= printFormat strlen t) ↔
      ¬ EndsInside s :=
  print_format_append_iff (by decide)

end MySystem
