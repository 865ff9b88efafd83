import Mathlib.Data.List.Basic

/-!
# Interleavings of separate domains

Actions of several domains act on one state. The domains are separate when each
has a view of the state that its own actions depend on and change in one way
only, and that the actions of all others leave alone (`Separates`). What a run
does in a domain then depends only on the actions of that domain and their
order, however they are interleaved with the rest.
-/

namespace Machine

variable {State Action Domain Output Error : Type} [DecidableEq Domain]

/-- A run of actions, each answer with the domain it is given to. -/
def runActions (step : Action → State → Except Error (Output × State)) (domain : Action → Domain) :
    List Action → State → Except Error (List (Domain × Output) × State)
  | [], s => .ok ([], s)
  | a :: l, s =>
      match step a s with
      | .error e => .error e
      | .ok (o, s) =>
          match runActions step domain l s with
          | .error e => .error e
          | .ok (os, s) => .ok ((domain a, o) :: os, s)

/-- The actions of one domain, in order. -/
def ownActions (domain : Action → Domain) (d : Domain) (l : List Action) : List Action :=
  l.filter fun a => domain a = d

/-- The answers given to one domain, in order. -/
def answers (d : Domain) (os : List (Domain × Output)) : List Output :=
  (os.filter fun o => o.1 = d).map Prod.snd

/-- `l` interleaves the sequences, one for each domain. -/
def Interleaves (domain : Action → Domain) (sequences : Domain → List Action) (l : List Action) :
    Prop :=
  ∀ d, ownActions domain d l = sequences d

section

variable {domain : Action → Domain} {d : Domain} {a : Action}

theorem ownActions_cons_own (h : domain a = d) (l : List Action) :
    ownActions domain d (a :: l) = a :: ownActions domain d l :=
  List.filter_cons_of_pos (decide_eq_true h)

theorem ownActions_cons_other (h : domain a ≠ d) (l : List Action) :
    ownActions domain d (a :: l) = ownActions domain d l := by
  refine List.filter_cons_of_neg ?_
  rwa [decide_eq_true_iff]

theorem answers_cons_own (o : Output) (os : List (Domain × Output)) :
    answers d ((d, o) :: os) = o :: answers d os := by
  simp [answers]

theorem answers_cons_other {e : Domain} (h : e ≠ d) (o : Output) (os : List (Domain × Output)) :
    answers d ((e, o) :: os) = answers d os := by
  simp [answers, h]

end

/-- From states satisfying `inv`, actions satisfying `valid` keep the domains apart. -/
structure Separates (step : Action → State → Except Error (Output × State))
    (domain : Action → Domain) (inv : State → Prop) (valid : Action → Prop)
    (view : Domain → State → State → Prop) : Prop where
  /-- An action changes equal views of its domain in the same way. -/
  own : ∀ {a s s'}, inv s → inv s' → valid a → view (domain a) s s' →
    ∃ o t t', step a s = .ok (o, t) ∧ step a s' = .ok (o, t') ∧ inv t ∧ inv t' ∧
      view (domain a) t t'
  /-- It leaves the views of other domains alone. -/
  other : ∀ {a s d}, inv s → valid a → d ≠ domain a →
    ∃ o t, step a s = .ok (o, t) ∧ inv t ∧ view d t s
  symm : ∀ {d s s'}, view d s s' → view d s' s
  trans : ∀ {d s s' s''}, view d s s' → view d s' s'' → view d s s''

namespace Separates

variable {step : Action → State → Except Error (Output × State)} {domain : Action → Domain}
  {inv : State → Prop} {valid : Action → Prop} {view : Domain → State → State → Prop}
  {d : Domain} {l : List Action} {s s' : State}

/-- What a run does in a domain is what the domain's own actions do alone. -/
theorem run_own (h : Separates step domain inv valid view) (hs : inv s) (hs' : inv s')
    (hview : view d s s') (hl : ∀ a ∈ l, valid a) :
    ∃ os os' t t', runActions step domain l s = .ok (os, t) ∧
      runActions step domain (ownActions domain d l) s' = .ok (os', t') ∧ inv t ∧ inv t' ∧
      answers d os = answers d os' ∧ view d t t' := by
  induction l generalizing s s' with
  | nil => exact ⟨[], [], s, s', rfl, rfl, hs, hs', rfl, hview⟩
  | cons a l ih =>
      have hvalid := hl a (List.mem_cons_self ..)
      have hrest : ∀ b ∈ l, valid b := fun b hb => hl b (List.mem_cons_of_mem _ hb)
      by_cases hd : domain a = d
      · subst hd
        obtain ⟨o, r, r', hr, hr', hir, hir', hview'⟩ := h.own hs hs' hvalid hview
        obtain ⟨os, os', t, t', ht, ht', hit, hit', hos, hend⟩ := ih hir hir' hview' hrest
        refine ⟨(domain a, o) :: os, (domain a, o) :: os', t, t', ?_, ?_, hit, hit', ?_, hend⟩
        · rw [runActions, hr]
          dsimp only
          rw [ht]
        · rw [ownActions_cons_own rfl, runActions, hr']
          dsimp only
          rw [ht']
        · rw [answers_cons_own, answers_cons_own, hos]
      · obtain ⟨o, r, hr, hir, hback⟩ := h.other hs hvalid (Ne.symm hd)
        obtain ⟨os, os', t, t', ht, ht', hit, hit', hos, hend⟩ :=
          ih hir hs' (h.trans hback hview) hrest
        refine ⟨(domain a, o) :: os, os', t, t', ?_, ?_, hit, hit', ?_, hend⟩
        · rw [runActions, hr]
          dsimp only
          rw [ht]
        · rw [ownActions_cons_other hd]
          exact ht'
        · rw [answers_cons_other hd]
          exact hos

/-- Two interleavings that agree on the actions of a domain agree in the domain. -/
theorem interleavings (h : Separates step domain inv valid view) (hs : inv s)
    (hview : view d s s) {sequences sequences' : Domain → List Action} {l l' : List Action}
    (hl : Interleaves domain sequences l) (hl' : Interleaves domain sequences' l')
    (hvalid : ∀ a ∈ l, valid a) (hvalid' : ∀ a ∈ l', valid a)
    (hown : sequences d = sequences' d) :
    ∃ os os' t t', runActions step domain l s = .ok (os, t) ∧
      runActions step domain l' s = .ok (os', t') ∧ inv t ∧ inv t' ∧
      answers d os = answers d os' ∧ view d t t' := by
  obtain ⟨os, alone, t, r, ht, hr, hit, -, hos, hend⟩ := h.run_own hs hs hview hvalid
  obtain ⟨os', alone', t', r', ht', hr', hit', -, hos', hend'⟩ := h.run_own hs hs hview hvalid'
  rw [hl d, hown, ← hl' d, hr'] at hr
  obtain ⟨rfl, rfl⟩ := Prod.mk.inj (Except.ok.inj hr)
  exact ⟨os, os', t, t', ht, ht', hit, hit', hos.trans hos'.symm,
    h.trans hend (h.symm hend')⟩

end Separates

end Machine
