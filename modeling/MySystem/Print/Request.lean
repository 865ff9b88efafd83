import MySystem.Print.Grammar

/-!
# What a format asks for

Every format as `vsprintf` reads it, stars and numbers of any size included. A
star takes the argument it stands for, but then it is the conversion character,
and printed; a number that is no `int` wraps. `vsprintf` performs the requests
of its format one after the other.
-/

namespace MySystem

open Machine

/-! ## Scanning and reading -/

theorem flagLoop_eq (flags : Word) (s : List Byte) :
    flagLoop flags (s ++ [0]) =
      .ok ((s.takeWhile isFlag).foldl (fun w c => w ||| (flagTable.lookup c).getD 0) flags,
        s.dropWhile isFlag ++ [0]) := by
  induction s generalizing flags with
  | nil => rfl
  | cons c s ih =>
      rw [List.cons_append, flagLoop, ← lookup_flagTable]
      cases hc : flagTable.lookup c with
      | none =>
          have hflag : ¬ isFlag c = true := by simp [isFlag, hc]
          rw [List.takeWhile_cons_of_neg hflag, List.dropWhile_cons_of_neg hflag]
          rfl
      | some flag =>
          have hflag : isFlag c = true := by simp [isFlag, hc]
          rw [List.takeWhile_cons_of_pos hflag, List.dropWhile_cons_of_pos hflag,
            List.foldl_cons, hc]
          exact ih _

theorem isDigit_iff (c : Byte) : isDigit c = true ↔ 48 ≤ c.toNat ∧ c.toNat ≤ 57 := by
  rw [isDigit, Bool.and_eq_true, decide_eq_true_iff, decide_eq_true_iff]
  exact Iff.rfl

/-- `skip_atoi` on digits with something else behind them. -/
theorem skipAtoi_digits {n : Nat} {ds : List Byte} (hds : ∀ b ∈ ds, isDigit b = true)
    {c : Byte} (hc : isDigit c = false) (rest : List Byte) :
    skipAtoi (int32 n) (ds ++ c :: rest) = .ok (int32 (decimalFrom n ds), c :: rest) := by
  induction ds generalizing n with
  | nil =>
      rw [List.nil_append, skipAtoi, if_neg (by rw [hc]; exact Bool.false_ne_true)]
      rfl
  | cons d ds ih =>
      have hd : isDigit d = true := hds d List.mem_cons_self
      obtain ⟨hlo, -⟩ := (isDigit_iff d).mp hd
      have hzero : (ch '0').toNat = 48 := rfl
      have hvalue := idxOf_decimalDigits d hd
      have hstep : int32 (int32 n * 10 + d.toNat - ((ch '0').toNat : Nat)) =
          int32 ((n * 10 + decimalDigits.idxOf d : Nat) : Int) := by
        rw [hvalue, int32, int32, int32, Int.bmod_def, Int.bmod_def, Int.bmod_def]
        omega
      rw [List.cons_append, skipAtoi, if_pos hd, hstep,
        ih fun b hb => hds b (List.mem_cons_of_mem d hb)]
      rfl

/-- The zero at the end of a format ends a number as well. -/
theorem skipAtoi_eq (s : List Byte) :
    skipAtoi 0 (s ++ [0]) =
      .ok (int32 (decimalFrom 0 (s.takeWhile isDigit)), s.dropWhile isDigit ++ [0]) := by
  have hds : ∀ b ∈ s.takeWhile isDigit, isDigit b = true := List.all_eq_true.mp List.all_takeWhile
  obtain ⟨c, rest, hrest, hc⟩ : ∃ c rest, s.dropWhile isDigit ++ [0] = c :: rest ∧
      isDigit c = false := by
    cases hs : s.dropWhile isDigit with
    | nil => exact ⟨0, [], rfl, rfl⟩
    | cons c rest =>
        have hne : s.dropWhile isDigit ≠ [] := by
          rw [hs]
          exact List.cons_ne_nil c rest
        have hhead := List.head_dropWhile_not isDigit hne
        simp only [hs, List.head_cons] at hhead
        exact ⟨c, rest ++ [0], rfl, hhead⟩
  have hsplit : s ++ [0] = s.takeWhile isDigit ++ c :: rest := by
    rw [← hrest, ← List.append_assoc, List.takeWhile_append_dropWhile]
  rw [hsplit, hrest]
  exact skipAtoi_digits (n := 0) hds hc rest

theorem scanField_star {s : List Byte} (h : (scanField s).1 = .star) :
    s = ch '*' :: (scanField s).2 := by
  have hrender := scanField_render s
  rw [h] at hrender
  exact hrender.symm

theorem parseWidth_eq (flags : Word) (s : List Byte) (p : Printer)
    (h : (scanField s).1 ≠ .star) :
    parseWidth flags (s ++ [0]) p =
      .ok ⟨flags, int32 (scanField s).1.value, -1, (scanField s).2 ++ [0], p⟩ := by
  cases s with
  | nil => rfl
  | cons c s =>
      rw [scanField_cons] at h ⊢
      rw [List.cons_append, parseWidth]
      split at h
      case isTrue hc =>
        have hread := skipAtoi_eq (c :: s)
        rw [List.cons_append] at hread
        rw [if_pos hc, if_pos hc, hread]
        rfl
      case isFalse hc =>
        split at h
        · exact absurd rfl h
        case isFalse hstar =>
          rw [if_neg hc, if_neg hc, if_neg hstar, if_neg hstar]
          rfl

private theorem readPrecision_eq (s : List Byte) (p : Printer) (h : (scanField s).1 ≠ .star) :
    readPrecision p (s ++ [0]) =
      .ok (int32 (scanField s).1.value, (scanField s).2 ++ [0], p) := by
  cases s with
  | nil => rfl
  | cons c s =>
      rw [scanField_cons] at h ⊢
      rw [List.cons_append, readPrecision]
      split at h
      case isTrue hc =>
        have hread := skipAtoi_eq (c :: s)
        rw [List.cons_append] at hread
        rw [if_pos hc, if_pos hc, hread]
        rfl
      case isFalse hc =>
        split at h
        · exact absurd rfl h
        case isFalse hstar =>
          rw [if_neg hc, if_neg hc, if_neg hstar, if_neg hstar]
          rfl

/-- A precision as `vsprintf` reads it. -/
def precisionRead : Option Field → Int
  | none => -1
  | some f => max 0 (int32 f.value)

theorem parsePrecision_eq (flags : Word) (width : Int) (s : List Byte) (p : Printer)
    (h : (scanPrecision s).1 ≠ some .star) :
    parsePrecision ⟨flags, width, -1, s ++ [0], p⟩ =
      .ok ⟨flags, width, precisionRead (scanPrecision s).1, (scanPrecision s).2 ++ [0], p⟩ := by
  cases s with
  | nil => rfl
  | cons c s =>
      rw [scanPrecision] at h ⊢
      simp only [parsePrecision, List.cons_append]
      split at h
      case isTrue hc =>
        have hstar : (scanField s).1 ≠ .star := fun hstar => h (congrArg some hstar)
        have hclamp : (if int32 (scanField s).1.value < 0 then 0 else int32 (scanField s).1.value) =
            precisionRead (some (scanField s).1) := by
          rw [precisionRead]
          omega
        rw [if_pos hc, if_pos hc, readPrecision_eq s p hstar, ← hclamp]
        rfl
      case isFalse hc =>
        rw [if_neg hc, if_neg hc]
        rfl

theorem parseQualifier_eq (flags : Word) (width precision : Int) (s : List Byte) (p : Printer) :
    parseQualifier ⟨flags, width, precision, s ++ [0], p⟩ =
      .ok ⟨flags, width, precision, (scanQualifier s).2 ++ [0], p⟩ := by
  cases s with
  | nil => rfl
  | cons c s =>
      simp only [parseQualifier, List.cons_append, scanQualifier, isQualifier_iff]
      split <;> rfl

/-! ## Requests -/

/-- What `vsprintf` is asked for, one turn of its loop each. -/
inductive Request where
  /-- A byte that stands for itself. -/
  | byte (c : Byte)
  /-- The format ends inside a directive. -/
  | unfinished
  /-- A star in place of a width or a precision. -/
  | star
  | conversion (flags : Word) (fieldWidth precision : Int) (c : Byte)

/-- A directive without stars. -/
def Directive.request (d : Directive) : Request :=
  match d.conv with
  | none => .unfinished
  | some c => .conversion d.type (int32 d.width.value) (precisionRead d.precision) c

/-- The request after a `%`, and what follows it. -/
def scanRequest (s : List Byte) : Request × List Byte :=
  let width := scanField (s.dropWhile isFlag)
  let precision := scanPrecision width.2
  if width.1 = .star then (.star, width.2)
  else if precision.1 = some .star then (.star, precision.2)
  else ((scanDirective s).1.request, (scanDirective s).2)

theorem scanField_suffix (s : List Byte) : (scanField s).2 <:+ s :=
  ⟨_, scanField_render s⟩

theorem scanPrecision_suffix (s : List Byte) : (scanPrecision s).2 <:+ s :=
  ⟨_, scanPrecision_render s⟩

/-- What is left before the conversion character. -/
theorem scanned_suffix (s : List Byte) :
    (scanQualifier (scanPrecision (scanField (s.dropWhile isFlag)).2).2).2 <:+ s := by
  have hqualifier : (scanQualifier (scanPrecision (scanField (s.dropWhile isFlag)).2).2).2 <:+
      (scanPrecision (scanField (s.dropWhile isFlag)).2).2 := ⟨_, scanQualifier_render _⟩
  exact ((hqualifier.trans (scanPrecision_suffix _)).trans (scanField_suffix _)).trans
    (List.dropWhile_suffix isFlag)

theorem scanRequest_suffix (s : List Byte) : (scanRequest s).2 <:+ s := by
  have hflags : s.dropWhile isFlag <:+ s := List.dropWhile_suffix isFlag
  have hwidth := (scanField_suffix _).trans hflags
  have hprecision := (scanPrecision_suffix _).trans hwidth
  rw [scanRequest]
  split
  · exact hwidth
  · split
    · exact hprecision
    · exact (List.tail_suffix _).trans (scanned_suffix s)

/-- The requests of a format. -/
def requests : List Byte → List Request
  | [] => []
  | c :: s =>
      if c = ch '%' then (scanRequest s).1 :: requests (scanRequest s).2
      else .byte c :: requests s
termination_by s => s.length
decreasing_by
  · exact Nat.lt_succ_of_le (scanRequest_suffix s).length_le
  · exact Nat.lt_succ_self _

theorem requests_nil : requests [] = [] := by
  rw [requests]

theorem requests_percent (s : List Byte) :
    requests (ch '%' :: s) = (scanRequest s).1 :: requests (scanRequest s).2 := by
  rw [requests, if_pos rfl]

theorem requests_byte {c : Byte} (h : c ≠ ch '%') (s : List Byte) :
    requests (c :: s) = .byte c :: requests s := by
  rw [requests, if_neg h]

theorem printOther_eq {c : Byte} (hc : c ≠ 0) (p : Printer) :
    printOther c p = p.put (otherText c) := by
  rw [printOther, otherText, if_pos hc]
  by_cases hpercent : c = ch '%'
  · rw [if_neg (not_not_intro hpercent), if_pos hpercent, hpercent]
  · rw [if_pos hpercent, if_neg hpercent, Printer.put_put]
    rfl

variable (strlen : Memory → Word → Int)

/-- What a turn of the loop does. -/
def Request.perform (p : Printer) : Request → Except Fault Printer
  | byte c => .ok (p.put [c])
  | unfinished => .ok (p.put [ch '%'])
  | star => .ok (printOther (ch '*') p.vaArg.2)
  | conversion flags fieldWidth precision c =>
      match conversionOf c with
      | .other => .ok (printOther c p)
      | known => convertKnown strlen ⟨flags, fieldWidth, precision, [c], p⟩ known

/-- A conversion does not look at the format. -/
theorem convertKnown_fmt (flags : Word) (fieldWidth precision : Int) (fmt fmt' : List Byte)
    (p : Printer) (known : Conversion) :
    convertKnown strlen ⟨flags, fieldWidth, precision, fmt, p⟩ known =
      convertKnown strlen ⟨flags, fieldWidth, precision, fmt', p⟩ known := by
  cases known <;> rfl

/-- The conversion of a directive that has been read. -/
theorem convert_performs (d : Directive) {s : List Byte} (hs : ∀ c ∈ s, c ≠ 0)
    (hconv : d.conv = s.head?) (p : Printer) :
    convert strlen ⟨d.type, int32 d.width.value, precisionRead d.precision, s ++ [0], p⟩ =
      d.request.perform strlen p >>= fun p => .ok (s.tail ++ [0], p) := by
  cases s with
  | nil =>
      rw [Directive.request, hconv]
      rfl
  | cons c s =>
      have hc : c ≠ 0 := hs c (List.mem_cons_self ..)
      rw [List.head?_cons] at hconv
      rw [Directive.request, hconv]
      simp only [convert, List.cons_append, Request.perform, List.tail_cons]
      cases conversionOf c <;> simp only [if_pos hc, bind, Except.bind, pure, Except.pure]
      all_goals rw [convertKnown_fmt _ _ _ _ _ [c]]

/-- What is left of a directive, from its width on. -/
private def parse (flags : Word) (fmt : List Byte) (p : Printer) :
    Except Fault (List Byte × Printer) := do
  convert strlen (← parseQualifier (← parsePrecision (← parseWidth flags fmt p)))

/-- A star for the width is read a second time, as a conversion. -/
private theorem parse_star (flags : Word) (fmt : List Byte) (p : Printer) :
    parse strlen flags (ch '*' :: fmt) p = .ok (fmt, printOther (ch '*') p.vaArg.2) := by
  rw [parse, parseWidth, if_neg (by decide), if_pos rfl]
  dsimp only
  by_cases hneg : p.vaArg.1.toInt < 0
  · rw [if_pos hneg]
    rfl
  · rw [if_neg hneg]
    rfl

theorem scanPrecision_star {s : List Byte} (h : (scanPrecision s).1 = some .star) :
    s = ch '.' :: ch '*' :: (scanPrecision s).2 := by
  have hrender := scanPrecision_render s
  rw [h] at hrender
  exact hrender.symm

/-- A directive performs its request, and goes on behind it. -/
theorem directive_performs {s : List Byte} (hs : ∀ c ∈ s, c ≠ 0) (p : Printer) :
    directive strlen (s ++ [0]) p =
      (scanRequest s).1.perform strlen p >>= fun p => .ok ((scanRequest s).2 ++ [0], p) := by
  have hparse : directive strlen (s ++ [0]) p =
      parse strlen (scanDirective s).1.type (s.dropWhile isFlag ++ [0]) p := by
    rw [directive, flagLoop_eq]
    rfl
  rw [hparse, scanRequest]
  split
  case isTrue hstar =>
    have hfmt : s.dropWhile isFlag ++ [0] =
        ch '*' :: ((scanField (s.dropWhile isFlag)).2 ++ [0]) :=
      congrArg (· ++ [0]) (scanField_star hstar)
    rw [hfmt]
    exact parse_star strlen _ _ p
  case isFalse hwidth =>
    rw [parse, parseWidth_eq _ _ _ hwidth]
    change (do convert strlen (← parseQualifier (← parsePrecision _))) = _
    split
    case isTrue hstar =>
      have hfmt : (scanField (s.dropWhile isFlag)).2 ++ [0] = ch '.' :: ch '*' ::
          ((scanPrecision (scanField (s.dropWhile isFlag)).2).2 ++ [0]) :=
        congrArg (· ++ [0]) (scanPrecision_star hstar)
      rw [hfmt]
      rfl
    case isFalse hprecision =>
      have hconv : ∀ c ∈ (scanQualifier (scanPrecision (scanField (s.dropWhile isFlag)).2).2).2,
          c ≠ 0 := fun c hc => hs c ((scanned_suffix s).mem hc)
      rw [parsePrecision_eq _ _ _ _ hprecision]
      change (do convert strlen (← parseQualifier _)) = _
      rw [parseQualifier_eq]
      exact convert_performs strlen (scanDirective s).1 hconv rfl p

/-- The loop performs the requests of the format one after the other. -/
theorem vsprintfLoop_performs {turns : Nat} {s : List Byte} (hs : ∀ c ∈ s, c ≠ 0)
    (hturns : s.length < turns) (p : Printer) :
    vsprintfLoop strlen turns (s ++ [0]) p = (requests s).foldlM (Request.perform strlen) p := by
  induction s using requests.induct generalizing p turns with
  | case1 =>
      obtain ⟨turns, rfl⟩ := Nat.exists_eq_add_one_of_ne_zero (Nat.ne_of_gt hturns)
      rw [requests_nil]
      rfl
  | case2 s ih =>
      obtain ⟨turns, rfl⟩ := Nat.exists_eq_add_one_of_ne_zero (Nat.ne_of_gt
        (Nat.lt_of_le_of_lt (Nat.zero_le _) hturns))
      have hrest : ∀ c ∈ s, c ≠ 0 := fun c hc => hs c (List.mem_cons_of_mem _ hc)
      have hsuffix := scanRequest_suffix s
      have hlt : (scanRequest s).2.length < turns :=
        Nat.lt_of_le_of_lt hsuffix.length_le (Nat.lt_of_succ_lt_succ hturns)
      rw [List.cons_append, vsprintfLoop, if_neg (by decide), if_neg (by decide),
        directive_performs strlen hrest, requests_percent, List.foldlM_cons]
      cases (scanRequest s).1.perform strlen p with
      | error e => rfl
      | ok p' => exact ih (fun c hc => hrest c (hsuffix.mem hc)) hlt p'
  | case3 c s hc ih =>
      obtain ⟨turns, rfl⟩ := Nat.exists_eq_add_one_of_ne_zero (Nat.ne_of_gt
        (Nat.lt_of_le_of_lt (Nat.zero_le _) hturns))
      rw [requests_byte hc, List.cons_append, vsprintfLoop, if_neg (hs c (List.mem_cons_self ..)),
        if_pos hc]
      exact ih (fun c hc => hs c (List.mem_cons_of_mem _ hc)) (Nat.lt_of_succ_lt_succ hturns) _

end MySystem
