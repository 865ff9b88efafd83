import MySystem.Print.StarLaw
import Mathlib.Logic.Relation

/-!
# Malformed formats

The outer loop of `vsprintf` turn by turn, on every format that ends in a zero:
it never passes that zero, and every turn leaves less to read.
-/

namespace MySystem

open Machine

variable (strlen : Memory → Word → Int)

/-- The body of the outer loop at a format that is not over, and its `++fmt`. -/
def turn : List Byte → Printer → Except Fault (List Byte × Printer)
  | [], _ => .error .outOfBounds
  | c :: fmt, p => if c ≠ ch '%' then .ok (fmt, p.put [c]) else directive strlen fmt p

/-- The loop is left before a zero, and goes on with a turn otherwise. -/
def Turn (a b : List Byte × Printer) : Prop := a.1.head? ≠ some 0 ∧ turn strlen a.1 a.2 = .ok b

/-- Turns one after the other. -/
def Turns : List Byte × Printer → List Byte × Printer → Prop := Relation.ReflTransGen (Turn strlen)

theorem vsprintfLoop_turn {n : Nat} {c : Byte} (hc : c ≠ 0) (fmt : List Byte) (p : Printer) :
    vsprintfLoop strlen (n + 1) (c :: fmt) p = (do
      let (fmt, p) ← turn strlen (c :: fmt) p
      vsprintfLoop strlen n fmt p) := by
  rw [vsprintfLoop, if_neg hc, turn]
  split <;> rfl

/-- A turn returns, and reads at least one character of the format. -/
theorem turn_advances {c : Byte} {s : List Byte} (hs : ∀ b ∈ s, b ≠ 0) (p : Printer) :
    ∃ s' p', turn strlen (c :: (s ++ [0])) p = .ok (s' ++ [0], p') ∧ s' <:+ s := by
  rw [turn]
  by_cases hc : c = ch '%'
  · obtain ⟨s', p', hp', hsuffix, -⟩ := (directive_outcome strlen s hs).emits hs p
    rw [if_neg (not_not_intro hc)]
    exact ⟨s', p', hp', hsuffix⟩
  · rw [if_pos hc]
    exact ⟨s, _, rfl, List.suffix_refl s⟩

/-- Before a turn of the loop that ends in `q`: what is left is a part of the
format with its zero, and enough turns are allowed. -/
def Within (s : List Byte) (q : Printer) (a : List Byte × Printer) : Prop :=
  ∃ s' n, a.1 = s' ++ [0] ∧ s' <:+ s ∧ s'.length < n ∧ vsprintfLoop strlen n a.1 a.2 = .ok q

variable {strlen} {s : List Byte} {q : Printer} {a b : List Byte × Printer}

/-- The loop is over, or its turn keeps within the format and shortens it. -/
theorem Within.turn (hs : ∀ c ∈ s, c ≠ 0) (h : Within strlen s q a) :
    (a = ([0], q)) ∨ ∃ b, a.1.head? ≠ some 0 ∧ turn strlen a.1 a.2 = .ok b ∧
      b.1 <:+ a.1 ∧ b.1.length < a.1.length ∧ Within strlen s q b := by
  obtain ⟨s', n, hfmt, hsuffix, hturns, hloop⟩ := h
  obtain ⟨fmt, p⟩ := a
  dsimp only at hfmt hloop ⊢
  subst hfmt
  obtain ⟨n, rfl⟩ : ∃ k, n = k + 1 := ⟨n - 1, by omega⟩
  cases s' with
  | nil =>
      left
      injection hloop with hp
      rw [hp]
      rfl
  | cons c s' =>
      right
      have hall : ∀ b ∈ c :: s', b ≠ 0 := fun b hb => hs b (hsuffix.mem hb)
      obtain ⟨s'', p', hturn, hrest⟩ :=
        turn_advances strlen (c := c) (fun b hb => hall b (List.mem_cons_of_mem c hb)) p
      have hlen := hrest.length_le
      rw [List.length_cons] at hturns
      rw [List.cons_append, vsprintfLoop_turn strlen (hall c List.mem_cons_self), hturn] at hloop
      refine ⟨(s'' ++ [0], p'), ?_, hturn, ?_, ?_,
        s'', n, rfl, hrest.trans ((List.suffix_cons c s').trans hsuffix), by omega, hloop⟩
      · rw [List.cons_append, List.head?_cons]
        exact fun hzero => hall c List.mem_cons_self (Option.some.inj hzero)
      · obtain ⟨t, rfl⟩ := hrest
        exact ⟨c :: t, by simp⟩
      · simp only [List.cons_append, List.length_cons, List.length_append]
        omega

theorem Within.turns (hs : ∀ c ∈ s, c ≠ 0) (h : Within strlen s q a) (hturns : Turns strlen a b) :
    Within strlen s q b := by
  induction hturns with
  | refl => exact h
  | tail _ hturn ih =>
      obtain rfl | ⟨b', -, hb', -, -, hwithin⟩ := ih.turn hs
      · exact absurd rfl hturn.1
      · obtain rfl : b' = _ := Except.ok.inj (hb'.symm.trans hturn.2)
        exact hwithin

/-- On every format that ends in a zero, whatever its directives and arguments:
`vsprintf` returns, having stored a zero behind the text, at `buf` plus the value
it returns. In between it stays within the format, zero included, and each turn
before that zero strictly advances. -/
theorem vsprintf_survives (strlen : Memory → Word → Int) {s : List Byte} (hs : ∀ c ∈ s, c ≠ 0)
    (args : Nat → Word) (mem : Memory) :
    ∃ r text, vsprintf strlen (s ++ [0]) args mem = .ok r ∧ r.buf = text ++ [0] ∧
      (∀ buf : Word, buf + BitVec.ofInt 32 r.ret = buf + Word.of text.length) ∧
      ∀ fmt p, Turns strlen (s ++ [0], ⟨[], args, mem⟩) (fmt, p) →
        (∃ s', fmt = s' ++ [0] ∧ s' <:+ s) ∧
        ((fmt = [0] ∧ p = ⟨text, r.args, r.mem⟩) ∨
          ∃ fmt' p', turn strlen fmt p = .ok (fmt', p') ∧ fmt' <:+ fmt ∧
            fmt'.length < fmt.length) := by
  have hlt : s.length < (s ++ [0]).length := by
    rw [List.length_append]
    exact Nat.lt_succ_self _
  obtain ⟨q, hq, -⟩ := vsprintfLoop_emits strlen hs hlt ⟨[], args, mem⟩
  have hprinted : vsprintf strlen (s ++ [0]) args mem =
      .ok ⟨q.str ++ [0], int32 q.str.length, q.args, q.mem⟩ := by
    rw [vsprintf, hq]
    rfl
  refine ⟨_, q.str, hprinted, rfl, ?_, ?_⟩
  · intro buf
    have hret : BitVec.ofInt 32 (int32 q.str.length) = Word.of q.str.length := by
      apply BitVec.eq_of_toInt_eq
      rw [Word.of, ← BitVec.ofInt_natCast, BitVec.toInt_ofInt, BitVec.toInt_ofInt, int32]
      exact Int.bmod_bmod
    rw [hret]
  · intro fmt p hturns
    have hwithin : Within strlen s q (fmt, p) :=
      Within.turns hs ⟨s, _, rfl, List.suffix_refl s, hlt, hq⟩ hturns
    have hrest : ∃ s', fmt = s' ++ [0] ∧ s' <:+ s := by
      obtain ⟨s', -, hfmt, hsuffix, -⟩ := hwithin
      exact ⟨s', hfmt, hsuffix⟩
    refine ⟨hrest, ?_⟩
    obtain hover | ⟨⟨fmt', p'⟩, -, hturn, hsuffix, hshorter, -⟩ := hwithin.turn hs
    · left
      injection hover with hfmt hp
      exact ⟨hfmt, hp⟩
    · exact .inr ⟨fmt', p', hturn, hsuffix, hshorter⟩

/-- `"%-5.*"`, which ends inside its directive. -/
theorem vsprintf_survives_unfinished : ∃ r text,
    vsprintf scanLength (['%', '-', '5', '.', '*'].map ch ++ [0]) (fun _ => 7)
      ⟨fun _ => 0, []⟩ = .ok r ∧ r.buf = text ++ [0] := by
  obtain ⟨r, text, hprinted, hbuf, -⟩ := vsprintf_survives scanLength
    (s := ['%', '-', '5', '.', '*'].map ch) (by decide) (fun _ => 7) ⟨fun _ => 0, []⟩
  exact ⟨r, text, hprinted, hbuf⟩

end MySystem
