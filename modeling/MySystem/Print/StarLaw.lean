import MySystem.Print.Star

/-!
# The law of the stars

`vsprintf` takes the argument of a star but leaves its cursor on the star, which
then is read as an unknown conversion and printed. So every star of a format
comes out as a star, while the format with the stars replaced has fewer, and
none comes from its arguments if they are chosen so.
-/

namespace MySystem

open Machine

/-! ## Stars come out as stars -/

/-- The number of stars in a text. -/
def stars (l : List Byte) : Nat := l.count (ch '*')

@[simp] theorem stars_append (l l' : List Byte) : stars (l ++ l') = stars l + stars l' :=
  List.count_append

theorem stars_cons_of_ne {c : Byte} (h : c ≠ ch '*') (l : List Byte) : stars (c :: l) = stars l :=
  List.count_cons_of_ne h

theorem stars_cons (c : Byte) (l : List Byte) : stars (c :: l) = stars [c] + stars l :=
  stars_append [c] l

theorem stars_eq_zero {l : List Byte} (h : ch '*' ∉ l) : stars l = 0 :=
  List.count_eq_zero_of_not_mem h

theorem stars_otherText (c : Byte) : stars (otherText c) = stars [c] := by
  rw [otherText]
  split
  case isTrue hc => rw [hc]
  case isFalse => rfl

variable {strlen : Memory → Word → Int} {s : List Byte}
  {f : Printer → Except Fault (List Byte × Printer)}

/-- A directive returns, and puts out at least the stars it reads. -/
theorem Outcome.emits (h : Outcome strlen s f) (hs : ∀ c ∈ s, c ≠ 0) (p : Printer) :
    ∃ s' p', f p = .ok (s' ++ [0], p') ∧ s' <:+ s ∧
      stars p.str + stars s ≤ stars p'.str + stars s' := by
  induction h with
  | ends => exact ⟨[], _, rfl, List.suffix_refl _, by simp⟩
  | other c s hc =>
      refine ⟨s, _, rfl, List.suffix_cons .., ?_⟩
      rw [printOther_eq (hs c (List.mem_cons_self ..)), Printer.put_str, stars_append,
        stars_otherText, stars_cons c]
      omega
  | star s =>
      refine ⟨s, _, rfl, List.suffix_cons .., ?_⟩
      rw [printOther_eq (by decide), Printer.put_str, stars_append, stars_otherText, stars_cons]
      change stars p.str + _ ≤ stars p.str + _ + _
      omega
  | known c s hc flags fieldWidth precision =>
      obtain ⟨p', hp', ⟨text, htext⟩⟩ := convertKnown_prefix strlen
        ⟨flags, fieldWidth, precision, c :: (s ++ [0]), p⟩ (conversionOf c)
      have hreturn : (do return (s ++ [0], ← convertKnown strlen
          ⟨flags, fieldWidth, precision, c :: (s ++ [0]), p⟩ (conversionOf c))) =
            Except.ok (s ++ [0], p') := by
        rw [hp']
        rfl
      refine ⟨s, p', hreturn, List.suffix_cons .., ?_⟩
      have hstar : c ≠ ch '*' := by
        rintro rfl
        exact hc rfl
      rw [← htext, stars_append, stars_cons_of_ne hstar]
      change stars p.str + _ ≤ stars p.str + _ + _
      omega
  | @read c s f hc h ih =>
      obtain ⟨s', p', hp', hsuffix, hstars⟩ := ih fun c hc => hs c (List.mem_cons_of_mem _ hc)
      refine ⟨s', p', hp', hsuffix.trans (List.suffix_cons ..), ?_⟩
      rwa [stars_cons_of_ne hc]

/-- `vsprintf` returns on every format, and puts out at least its stars. -/
theorem vsprintfLoop_emits (strlen : Memory → Word → Int) {turns : Nat} {s : List Byte}
    (hs : ∀ c ∈ s, c ≠ 0) (hturns : s.length < turns) (p : Printer) :
    ∃ p', vsprintfLoop strlen turns (s ++ [0]) p = .ok p' ∧
      stars p.str + stars s ≤ stars p'.str := by
  induction turns generalizing s p with
  | zero => exact absurd hturns (Nat.not_lt_zero _)
  | succ turns ih =>
      cases s with
      | nil => exact ⟨p, rfl, by simp [stars]⟩
      | cons c s =>
          have hrest : ∀ c ∈ s, c ≠ 0 := fun c hc => hs c (List.mem_cons_of_mem _ hc)
          rw [List.length_cons] at hturns
          rw [List.cons_append, vsprintfLoop, if_neg (hs c (List.mem_cons_self ..))]
          by_cases hc : c = ch '%'
          · obtain ⟨s', p', hp', hsuffix, hstars⟩ :=
              (directive_outcome strlen s hrest).emits hrest p
            obtain ⟨q, hq, hmore⟩ := ih (fun c hc => hrest c (hsuffix.mem hc))
              (by have := hsuffix.length_le; omega) p'
            rw [if_neg (not_not_intro hc), hp']
            refine ⟨q, hq, ?_⟩
            rw [stars_cons_of_ne (by rw [hc]; decide)]
            omega
          · obtain ⟨q, hq, hmore⟩ := ih hrest (by omega) (p.put [c])
            rw [if_pos hc]
            refine ⟨q, hq, ?_⟩
            rw [Printer.put_str, stars_append] at hmore
            rw [stars_cons]
            omega

theorem vsprintf_returns (strlen : Memory → Word → Int) {s : List Byte} (hs : ∀ c ∈ s, c ≠ 0)
    (args : Nat → Word) (mem : Memory) :
    ∃ printed, vsprintf strlen (s ++ [0]) args mem = .ok printed := by
  have hlt : s.length < (s ++ [0]).length := by
    rw [List.length_append]
    exact Nat.lt_succ_self _
  obtain ⟨p, hp, -⟩ := vsprintfLoop_emits strlen hs hlt ⟨[], args, mem⟩
  rw [vsprintf, hp]
  exact ⟨_, rfl⟩

/-! ## Arguments that put out no stars

On the format without its stars the arguments are chosen one by one as the
directives take them: an address whose byte stays zero for a string, another one
to store a count to, and that same zero address as a number or a character.
-/

theorem Numeric.ne_star {b : Byte} (h : Numeric b) : b ≠ ch '*' := by
  obtain rfl | rfl | rfl | ⟨lower, d, hd, rfl⟩ := h
  · decide
  · decide
  · decide
  · revert d lower
    decide

theorem stars_numberText (w : Word) {base : Int} (fieldWidth precision : Int) (type : Word) :
    stars (numberText w base fieldWidth precision type) = 0 := by
  apply stars_eq_zero
  intro hstar
  rw [numberText] at hstar
  cases hnumber : number w.toInt base fieldWidth precision type with
  | none =>
      rw [hnumber] at hstar
      cases hstar
  | some text =>
      rw [hnumber] at hstar
      exact (numeric_number hnumber hstar).ne_star rfl

private theorem mem_padBefore {b : Byte} {width : Int} (h : b ∈ (padBefore width).2) :
    b = ch ' ' := by
  rw [padBefore] at h
  generalize int32 (width - 1) = width at h
  change b ∈ (padBeforeLoop width.toNat width).2 at h
  generalize width.toNat = turns at h
  induction turns generalizing width with
  | zero => cases h
  | succ turns ih =>
      rw [padBeforeLoop] at h
      split at h
      · obtain rfl | hrest := List.mem_cons.mp h
        · rfl
        · exact ih _ hrest
      · cases h

private theorem printChar_quiet (flags : Word) (fieldWidth precision : Int) (fmt : List Byte)
    (str : List Byte) (mem : Memory) :
    ∃ text, stars text = 0 ∧ ∀ args,
      printChar ⟨flags, fieldWidth, precision, fmt, ⟨str, consArg 4 args, mem⟩⟩ =
        ⟨str ++ text, args, mem⟩ := by
  let before := if has flags left then (fieldWidth, []) else padBefore fieldWidth
  refine ⟨before.2 ++ [(4 : Word).setWidth 8] ++ (padBefore before.1).2, ?_, fun args => rfl⟩
  apply stars_eq_zero
  simp only [List.mem_append, not_or]
  refine ⟨⟨?_, by decide⟩, fun h => absurd (mem_padBefore h) (by decide)⟩
  dsimp only [before]
  split
  · exact List.not_mem_nil
  · exact fun h => absurd (mem_padBefore h) (by decide)

private theorem printString_quiet (hstrlen : StrlenCorrect strlen) (flags : Word)
    (fieldWidth precision : Int) (fmt : List Byte) (str : List Byte) {mem : Memory}
    (hmem : mem.bytes 4 = 0) :
    ∃ text, stars text = 0 ∧ ∀ args,
      printString strlen ⟨flags, fieldWidth, precision, fmt, ⟨str, consArg 4 args, mem⟩⟩ =
        ⟨str ++ text, args, mem⟩ := by
  have hempty : IsCString mem 4 0 := ⟨by decide, fun i hi => absurd hi (Nat.not_lt_zero i), hmem⟩
  have hlen : strlen mem 4 = 0 := hstrlen mem 4 0 hempty
  let len := if precision < 0 then strlen mem 4
    else if precision < strlen mem 4 then precision else strlen mem 4
  let before := if has flags left then (fieldWidth, []) else pad (ch ' ') len fieldWidth
  refine ⟨before.2 ++ bytesFrom mem.bytes 4 len.toNat ++ (pad (ch ' ') len before.1).2, ?_,
    fun args => rfl⟩
  apply stars_eq_zero
  have hcut : len.toNat = 0 := by
    dsimp only [len]
    rw [hlen]
    split <;> rfl
  rw [hcut]
  simp only [List.mem_append, not_or]
  refine ⟨⟨fun h => ?_, List.not_mem_nil⟩, fun h => absurd (mem_pad h) (by decide)⟩
  exact absurd (mem_skipPad h) (by decide)

/-- The argument for a conversion: where a count goes, or an empty string. -/
def quietArg : Conversion → Word
  | .count => 8
  | _ => 4

/-- The byte at 4 is zero, so a string there is empty. -/
def QuietMemory (mem : Memory) : Prop := mem.bytes 4 = 0

/-- With its quiet argument a conversion puts out no star. -/
theorem convertKnown_quiet (hstrlen : StrlenCorrect strlen) {conversion : Conversion}
    (hknown : conversion ≠ .other) (flags : Word) (fieldWidth precision : Int) (fmt : List Byte)
    (str : List Byte) {mem : Memory} (hmem : QuietMemory mem) :
    ∃ str' mem', QuietMemory mem' ∧ stars str' = stars str ∧ ∀ args,
      convertKnown strlen ⟨flags, fieldWidth, precision, fmt,
        ⟨str, consArg (quietArg conversion) args, mem⟩⟩ conversion = .ok ⟨str', args, mem'⟩ := by
  have hput : ∀ text, stars text = 0 → stars (str ++ text) = stars str := by
    intro text htext
    rw [stars_append, htext, Nat.add_zero]
  have hnumber : ∀ base : Int, 2 ≤ base ∧ base ≤ 36 → ∀ type width,
      ∃ str' mem', QuietMemory mem' ∧ stars str' = stars str ∧ ∀ args,
        printNumber base type width
          ⟨flags, fieldWidth, precision, fmt, ⟨str, consArg 4 args, mem⟩⟩ =
            .ok ⟨str', args, mem'⟩ :=
    fun base hbase type width =>
      ⟨_, mem, hmem, hput _ (stars_numberText 4 width precision type),
        fun args => printNumber_eq base hbase type width _⟩
  cases conversion with
  | char =>
      obtain ⟨text, htext, hchar⟩ := printChar_quiet flags fieldWidth precision fmt str mem
      exact ⟨str ++ text, mem, hmem, hput text htext, fun args => congrArg _ (hchar args)⟩
  | string =>
      obtain ⟨text, htext, hstring⟩ :=
        printString_quiet hstrlen flags fieldWidth precision fmt str hmem
      exact ⟨str ++ text, mem, hmem, hput text htext, fun args => congrArg _ (hstring args)⟩
  | octal => exact hnumber 8 (by decide) flags fieldWidth
  | pointer =>
      by_cases hwidth : fieldWidth = -1
      · simp only [convertKnown, if_pos hwidth]
        exact hnumber 16 (by decide) (flags ||| zeropad) 8
      · simp only [convertKnown, if_neg hwidth]
        exact hnumber 16 (by decide) flags fieldWidth
  | hexLower => exact hnumber 16 (by decide) (flags ||| small) fieldWidth
  | hexUpper => exact hnumber 16 (by decide) flags fieldWidth
  | decimal => exact hnumber 10 (by decide) (flags ||| signed) fieldWidth
  | unsigned => exact hnumber 10 (by decide) flags fieldWidth
  | count =>
      refine ⟨str, mem.store32 8 (Word.of str.length), ?_, rfl, fun args => rfl⟩
      rw [QuietMemory, Memory.store32_bytes_of_le _ _ (by decide)]
      exact hmem
  | other => exact absurd rfl hknown

/-- From `str` and `mem`, and with `ws` in front of any arguments, `f` takes just
`ws` and leaves `s'` to read. -/
def Takes (f : Printer → Except Fault (List Byte × Printer)) (ws : List Word)
    (str : List Byte) (mem : Memory) (s' str' : List Byte) (mem' : Memory) : Prop :=
  ∀ args, f ⟨str, ws.foldr consArg args, mem⟩ = .ok (s' ++ [0], ⟨str', args, mem'⟩)

/-- There are arguments with which a directive puts out no more stars than it reads. -/
theorem Outcome.quiet (hstrlen : StrlenCorrect strlen) (h : Outcome strlen s f)
    (hs : ∀ c ∈ s, c ≠ 0) (str : List Byte) {mem : Memory} (hmem : QuietMemory mem) :
    ∃ ws s' str' mem', Takes f ws str mem s' str' mem' ∧ QuietMemory mem' ∧ s' <:+ s ∧
      stars str' + stars s' ≤ stars str + stars s := by
  induction h with
  | ends =>
      refine ⟨[], [], str ++ [ch '%'], mem, fun args => rfl, hmem, List.suffix_refl _, ?_⟩
      rw [stars_append]
      exact Nat.le_refl _
  | other c s hc =>
      have hother := printOther_eq (hs c (List.mem_cons_self ..))
      refine ⟨[], s, str ++ otherText c, mem, fun args => ?_, hmem, List.suffix_cons .., ?_⟩
      · exact congrArg (fun p => Except.ok (s ++ [0], p)) (hother _)
      · rw [stars_append, stars_otherText, stars_cons c s]
        omega
  | star s =>
      have hother := printOther_eq (c := ch '*') (by decide)
      refine ⟨[1], s, str ++ otherText (ch '*'), mem, fun args => ?_, hmem,
        List.suffix_cons .., ?_⟩
      · exact congrArg (fun p => Except.ok (s ++ [0], p)) (hother _)
      · rw [stars_append, stars_otherText, stars_cons (ch '*') s]
        omega
  | known c s hc flags fieldWidth precision =>
      obtain ⟨str', mem', hmem', hstars, htakes⟩ := convertKnown_quiet hstrlen hc flags
        fieldWidth precision (c :: (s ++ [0])) str hmem
      refine ⟨[quietArg (conversionOf c)], s, str', mem', fun args => ?_, hmem',
        List.suffix_cons .., ?_⟩
      · change (do return (s ++ [0], ← convertKnown strlen ⟨flags, fieldWidth, precision,
          c :: (s ++ [0]), ⟨str, consArg _ args, mem⟩⟩ (conversionOf c))) = _
        rw [htakes]
        rfl
      · rw [hstars, stars_cons c s]
        omega
  | @read c s f hc h ih =>
      obtain ⟨ws, s', str', mem', htakes, hmem', hsuffix, hstars⟩ :=
        ih fun c hc => hs c (List.mem_cons_of_mem _ hc)
      refine ⟨ws, s', str', mem', htakes, hmem', hsuffix.trans (List.suffix_cons ..), ?_⟩
      rwa [stars_cons_of_ne hc]

/-- There are arguments with which `vsprintf` puts out no star but those of the format. -/
theorem vsprintfLoop_quiet (hstrlen : StrlenCorrect strlen) {turns : Nat} {s : List Byte}
    (hs : ∀ c ∈ s, c ≠ 0) (hturns : s.length < turns) (str : List Byte) {mem : Memory}
    (hmem : QuietMemory mem) :
    ∃ args p, vsprintfLoop strlen turns (s ++ [0]) ⟨str, args, mem⟩ = .ok p ∧
      stars p.str ≤ stars str + stars s := by
  induction turns generalizing s str mem with
  | zero => exact absurd hturns (Nat.not_lt_zero _)
  | succ turns ih =>
      cases s with
      | nil => exact ⟨fun _ => 0, _, rfl, Nat.le_add_right ..⟩
      | cons c s =>
          have hrest : ∀ c ∈ s, c ≠ 0 := fun c hc => hs c (List.mem_cons_of_mem _ hc)
          rw [List.length_cons] at hturns
          simp only [List.cons_append, vsprintfLoop, if_neg (hs c (List.mem_cons_self ..))]
          by_cases hc : c = ch '%'
          · obtain ⟨ws, s', str', mem', htakes, hmem', hsuffix, hstars⟩ :=
              (directive_outcome strlen s hrest).quiet hstrlen hrest str hmem
            obtain ⟨args, q, hq, hmore⟩ := ih (fun c hc => hrest c (hsuffix.mem hc))
              (by have := hsuffix.length_le; omega) str' hmem'
            refine ⟨ws.foldr consArg args, q, ?_, ?_⟩
            · rw [if_neg (not_not_intro hc), htakes]
              exact hq
            · rw [stars_cons c s]
              omega
          · obtain ⟨args, q, hq, hmore⟩ := ih hrest (by omega) (str ++ [c]) hmem
            refine ⟨args, q, ?_, ?_⟩
            · rw [if_pos hc]
              exact hq
            · rw [stars_append] at hmore
              rw [stars_cons c s]
              omega

/-! ## Fewer stars -/

theorem Field.stars_one (f : Field) : stars f.one.render ≤ stars f.render := by
  cases f with
  | absent => exact Nat.le_refl _
  | digits ds => exact Nat.le_refl _
  | star => decide

theorem stars_precision_one (f : Option Field) :
    stars (renderPrecision (f.map Field.one)) ≤ stars (renderPrecision f) := by
  cases f with
  | none => exact Nat.le_refl _
  | some f =>
      have hdot := stars_cons_of_ne (c := ch '.') (by decide)
      change stars (ch '.' :: f.one.render) ≤ stars (ch '.' :: f.render)
      rw [hdot, hdot]
      exact f.stars_one

theorem Directive.stars_render (d : Directive) :
    stars d.render = stars d.flags + (stars d.width.render + (stars (renderPrecision d.precision) +
      (stars d.qualifier.toList + stars d.conv.toList))) := by
  rw [render, stars_cons_of_ne (by decide), stars_append, stars_append, stars_append, stars_append]

theorem Directive.stars_ones (d : Directive) : stars d.ones.render ≤ stars d.render := by
  have hwidth := d.width.stars_one
  have hprecision := stars_precision_one d.precision
  rw [stars_render, stars_render, ones]
  dsimp only
  omega

theorem Directive.stars_ones_lt {d : Directive} (h : d.Starred) :
    stars d.ones.render < stars d.render := by
  have hwidth := d.width.stars_one
  have hprecision := stars_precision_one d.precision
  rw [stars_render, stars_render, ones]
  dsimp only
  obtain hstar | hstar := h
  · have hlt : stars d.width.one.render < stars d.width.render := by
      rw [hstar]
      decide
    omega
  · have hlt : stars (renderPrecision (d.precision.map Field.one)) <
        stars (renderPrecision d.precision) := by
      rw [hstar]
      decide
    omega

theorem stars_ones (l : List Item) :
    stars ((l.map Item.ones).flatMap Item.render) ≤ stars (l.flatMap Item.render) := by
  induction l with
  | nil => exact Nat.le_refl _
  | cons item l ih =>
      rw [List.map_cons, List.flatMap_cons, List.flatMap_cons, stars_append, stars_append]
      refine Nat.add_le_add ?_ ih
      cases item with
      | byte c => exact Nat.le_refl _
      | directive d => exact d.stars_ones

theorem stars_ones_lt {l : List Item} (h : Starred l) :
    stars ((l.map Item.ones).flatMap Item.render) < stars (l.flatMap Item.render) := by
  obtain ⟨d, hd, hstar⟩ := h
  obtain ⟨before, rest, rfl⟩ := List.append_of_mem hd
  have hbefore := stars_ones before
  have hrest := stars_ones rest
  have hlt := Directive.stars_ones_lt hstar
  simp only [List.map_append, List.map_cons, List.flatMap_append, List.flatMap_cons, stars_append]
  change _ + (stars d.ones.render + _) < _ + (stars d.render + _)
  omega

theorem Field.mem_one {f : Field} {c : Byte} (h : c ∈ f.one.render) :
    c ∈ f.render ∨ c = ch '1' := by
  cases f with
  | absent => cases h
  | digits ds => exact Or.inl h
  | star => exact Or.inr (List.mem_singleton.mp h)

theorem mem_precision_one {f : Option Field} {c : Byte}
    (h : c ∈ renderPrecision (f.map Field.one)) : c ∈ renderPrecision f ∨ c = ch '1' := by
  cases f with
  | none => cases h
  | some f =>
      obtain rfl | hfield := List.mem_cons.mp h
      · exact Or.inl (List.mem_cons_self ..)
      · exact (Field.mem_one hfield).imp_left (List.mem_cons_of_mem _)

theorem Directive.mem_ones {d : Directive} {c : Byte} (h : c ∈ d.ones.render) :
    c ∈ d.render ∨ c = ch '1' := by
  simp only [render, ones, List.mem_cons, List.mem_append] at h ⊢
  obtain hpercent | hflags | hwidth | hprecision | hrest := h
  · exact Or.inl (Or.inl hpercent)
  · exact Or.inl (Or.inr (Or.inl hflags))
  · exact (Field.mem_one hwidth).imp_left fun h => Or.inr (Or.inr (Or.inl h))
  · exact (mem_precision_one hprecision).imp_left fun h => Or.inr (Or.inr (Or.inr (Or.inl h)))
  · exact Or.inl (Or.inr (Or.inr (Or.inr (Or.inr hrest))))

/-- Only the character `1` is new in a format whose stars are ones. -/
theorem mem_ones {l : List Item} {c : Byte} (h : c ∈ (l.map Item.ones).flatMap Item.render) :
    c ∈ l.flatMap Item.render ∨ c = ch '1' := by
  obtain ⟨_, hitem, hc⟩ := List.mem_flatMap.mp h
  obtain ⟨item, hmem, rfl⟩ := List.mem_map.mp hitem
  have hrender : c ∈ item.render ∨ c = ch '1' := by
    cases item with
    | byte b => exact Or.inl hc
    | directive d => exact d.mem_ones hc
  obtain hold | hone := hrender
  · exact Or.inl (List.mem_flatMap.mpr ⟨item, hmem, hold⟩)
  · exact Or.inr hone

/-! ## The law -/

/-- The law holds of a format exactly when no directive of it has a star. -/
theorem star_law_iff {strlen : Memory → Word → Int} (hstrlen : StrlenCorrect strlen)
    (s : List Byte) (hs : ∀ c ∈ s, c ≠ 0) :
    (∀ args mem, WidthsOk (items s) args → StarLaw strlen s args mem) ↔ ¬ Starred (items s) := by
  have hend : ∀ t : List Byte, t.length < (t ++ [0]).length := by
    intro t
    rw [List.length_append]
    exact Nat.lt_succ_self _
  constructor
  · intro hlaw hstarred
    let literal := ((items s).map Item.ones).flatMap Item.render
    have hfewer : stars literal < stars s := by
      have hlt := stars_ones_lt hstarred
      rwa [render_items] at hlt
    have hliteral : ∀ c ∈ literal, c ≠ 0 := by
      intro c hc
      obtain hold | rfl := mem_ones hc
      · rw [render_items] at hold
        exact hs c hold
      · decide
    -- the run on the literal format puts out few stars, on the starred one at least its own
    have hquiet : QuietMemory ⟨fun _ => 0, []⟩ := rfl
    obtain ⟨args, q, hq, hfew⟩ := vsprintfLoop_quiet hstrlen hliteral (hend literal) [] hquiet
    obtain ⟨p, hp, hmany⟩ := vsprintfLoop_emits strlen hs (hend s)
      ⟨[], starArgs (items s) args, ⟨fun _ => 0, []⟩⟩
    obtain ⟨r, r', hr, hr', hbuf, -, -⟩ := hlaw (starArgs (items s) args) ⟨fun _ => 0, []⟩
      (widthsOk_starArgs _ _)
    rw [literalFormat, unstar_starArgs] at hr'
    change vsprintf strlen (literal ++ [0]) args ⟨fun _ => 0, []⟩ = .ok r' at hr'
    rw [vsprintf, hp] at hr
    rw [vsprintf, hq] at hr'
    cases hr
    cases hr'
    have hsame : p.str = q.str := List.append_cancel_right hbuf
    rw [hsame] at hmany
    change 0 + stars s ≤ stars q.str at hmany
    change stars q.str ≤ 0 + stars literal at hfew
    omega
  · intro hstarred args mem _
    have hliteral : literalFormat s args = s := by
      rw [literalFormat, unstar_eq_self hstarred, render_items]
    obtain ⟨p, hp, -⟩ := vsprintfLoop_emits strlen hs (hend s) ⟨[], args, mem⟩
    have hrun : vsprintf strlen (s ++ [0]) args mem =
        .ok ⟨p.str ++ [0], int32 p.str.length, p.args, p.mem⟩ := by
      rw [vsprintf, hp]
      rfl
    refine ⟨_, _, hrun, ?_, rfl, rfl, rfl⟩
    rw [hliteral, unstar_eq_self hstarred]
    exact hrun

private def starred : List Byte := [ch '%', ch '*', ch 'd']

private theorem items_starred :
    items starred = [.directive ⟨[], .star, none, none, some (ch 'd')⟩] := by
  have hscan : scanDirective [ch '*', ch 'd'] = (⟨[], .star, none, none, some (ch 'd')⟩, []) := by
    decide
  rw [starred, items_percent, hscan, items]

/-- The format `%*d` breaks the law for some arguments. -/
theorem star_law_iff_starred :
    ¬ ∀ args mem, WidthsOk (items starred) args → StarLaw scanLength starred args mem := by
  rw [star_law_iff scanLength_correct starred (by decide), not_not, items_starred]
  exact ⟨_, List.mem_cons_self .., Or.inl rfl⟩

/-- With the arguments 5 and 42 the format `%*d` prints itself, and `%5d` a number. -/
theorem star_law_fails :
    let args := consArg 5 (fun _ => 42)
    let mem : Memory := ⟨fun _ => 0, []⟩
    WidthsOk (items starred) args ∧ ¬ StarLaw scanLength starred args mem := by
  intro args mem
  refine ⟨?_, ?_⟩
  · rw [items_starred]
    exact ⟨fun _ => by decide, trivial⟩
  · rintro ⟨r, r', hr, hr', hbuf, -, -⟩
    have hliteral : literalFormat starred args = [ch '%', ch '5', ch 'd'] := by
      rw [literalFormat, items_starred]
      decide
    have hargs : (unstar (items starred) args).2 = fun _ => 42 := by
      rw [items_starred]
      funext n
      cases n <;> rfl
    rw [hliteral, hargs] at hr'
    have hprinted : (vsprintf scanLength (starred ++ [0]) args mem).map Printed.buf =
        .ok [ch '%', ch '*', ch 'd', 0] := by decide
    have hnumber : (vsprintf scanLength [ch '%', ch '5', ch 'd', 0] (fun _ => 42) mem).map
        Printed.buf = .ok [ch ' ', ch ' ', ch ' ', ch '4', ch '2', 0] := by decide
    have hbuf' := hnumber.symm.trans (congrArg (Except.map Printed.buf) hr')
    rw [hr] at hprinted
    rw [Except.map, hbuf] at hprinted
    rw [Except.map, hprinted] at hbuf'
    revert hbuf'
    decide

end MySystem
