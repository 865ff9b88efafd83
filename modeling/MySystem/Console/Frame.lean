import MySystem.Console.Step

/-!
# What an operation leaves alone

After `con_init` no operation assigns the statics of the file, and one that is
called for a console assigns the record of that console only. This holds in
every state, whether or not its screens make sense.
-/

namespace MySystem

open Machine

/-- From `k` to `k'` only memory, the controller, the blanking counter and the
record of console `c` change. -/
def Touches (c : Nat) (k k' : Console) : Prop :=
  ∃ mem crtc blankcount v, k' =
    { k with
      mem := mem
      crtc := crtc
      blankcount := blankcount
      vcCons := Function.update k.vcCons c v }

namespace Touches

variable {c : Nat} {k k' k'' : Console}

theorem refl (c : Nat) (k : Console) : Touches c k k :=
  ⟨k.mem, k.crtc, k.blankcount, k.vcCons c, by rw [Function.update_eq_self]⟩

theorem trans (h : Touches c k k') (h' : Touches c k' k'') : Touches c k k'' := by
  obtain ⟨mem, crtc, blankcount, v, rfl⟩ := h
  obtain ⟨mem', crtc', blankcount', v', rfl⟩ := h'
  exact ⟨mem', crtc', blankcount', v', by rw [Function.update_idem]⟩

theorem nrConsoles (h : Touches c k k') : k'.nrConsoles = k.nrConsoles := by
  obtain ⟨mem, crtc, blankcount, v, rfl⟩ := h
  rfl

theorem fgConsole (h : Touches c k k') : k'.fgConsole = k.fgConsole := by
  obtain ⟨mem, crtc, blankcount, v, rfl⟩ := h
  rfl

theorem others (h : Touches c k k') {d : Nat} (hd : d ≠ c) : k'.vcCons d = k.vcCons d := by
  obtain ⟨mem, crtc, blankcount, v, rfl⟩ := h
  exact Function.update_of_ne hd ..

theorem setVc (c : Nat) (k : Console) (f : Vc → Vc) : Touches c k (k.setVc c f) :=
  ⟨k.mem, k.crtc, k.blankcount, f (k.vcCons c), rfl⟩

theorem mem (c : Nat) (k : Console) (m : Memory) : Touches c k { k with mem := m } :=
  ⟨m, k.crtc, k.blankcount, k.vcCons c, by rw [Function.update_eq_self]⟩

theorem store (c : Nat) (k : Console) (m : Memory) (f : Vc → Vc) :
    Touches c k ({ k with mem := m }.setVc c f) :=
  ⟨m, k.crtc, k.blankcount, f (k.vcCons c), rfl⟩

theorem crtc (c : Nat) (k : Console) (crtc : Crtc) (blankcount : Word) :
    Touches c k { k with crtc := crtc, blankcount := blankcount } :=
  ⟨k.mem, crtc, blankcount, k.vcCons c, by rw [Function.update_eq_self]⟩

theorem setOrigin (c : Nat) (k : Console) : Touches c k (setOrigin c k) := by
  rw [setOrigin_crtc]
  exact crtc ..

theorem setCursor (c : Nat) (k : Console) : Touches c k (setCursor c k) := by
  rw [setCursor_crtc]
  exact crtc ..

theorem gotoxy (c : Nat) (x y : Word) (k : Console) : Touches c k (gotoxy c x y k) := by
  rw [MySystem.gotoxy]
  split
  · exact refl c k
  · exact setVc ..

theorem cr (c : Nat) (k : Console) : Touches c k (cr c k) := setVc ..

theorem del (c : Nat) (k : Console) : Touches c k (del c k) := by
  rw [MySystem.del]
  split
  · exact store ..
  · exact refl c k

theorem scrupRewind (c : Nat) (k : Console) : Touches c k (scrupRewind c k) := by
  rw [MySystem.scrupRewind]
  exact store ..

theorem scrup (c : Nat) (k : Console) : Touches c k (scrup c k) := by
  have hslide : Touches c k (slideOrigin c k) := setVc ..
  have hregion : Touches c k (scrupRegion c k) := mem ..
  rw [MySystem.scrup]
  split
  · exact refl c k
  · split
    · split
      · refine Touches.trans ?_ (setOrigin ..)
        split
        · exact hslide.trans (scrupRewind ..)
        · exact hslide.trans (mem ..)
      · exact hregion
    · exact hregion

theorem scrdown (c : Nat) (k : Console) : Touches c k (scrdown c k) := by
  have hregion : Touches c k (scrdownRegion c k) := mem ..
  rw [MySystem.scrdown]
  split
  · exact refl c k
  · split <;> exact hregion

theorem lf (c : Nat) (k : Console) : Touches c k (lf c k) := by
  rw [MySystem.lf]
  split
  · exact setVc ..
  · exact scrup c k

theorem wrap (c : Nat) (k : Console) : Touches c k (wrap c k) := by
  rw [MySystem.wrap]
  split
  · exact (setVc ..).trans (lf ..)
  · exact refl c k

theorem putGlyph (c : Nat) (b : Byte) (k : Console) : Touches c k (putGlyph c b k) := by
  rw [MySystem.putGlyph]
  exact (wrap c k).trans (store ..)

theorem conChar (c : Nat) (b : Byte) (k : Console) : Touches c k (conChar c b k) := by
  rw [MySystem.conChar]
  split
  · exact putGlyph c b k
  · split
    · exact lf c k
    · split
      · exact cr c k
      · exact refl c k

theorem conChars (c : Nat) (s : List Byte) (k : Console) :
    Touches c k (s.foldl (fun k b => MySystem.conChar c b k) k) := by
  induction s generalizing k with
  | nil => exact refl c k
  | cons b s ih => exact (conChar c b k).trans (ih _)

theorem consolePrintLoop (c : Nat) (b : List Byte) (k : Console) :
    Touches c k (consolePrintLoop c b k) := by
  induction b generalizing k with
  | nil => exact refl c k
  | cons a b ih =>
      rw [MySystem.consolePrintLoop]
      split
      · exact refl c k
      · split
        · exact (cr c k).trans ((lf c _).trans (ih _))
        · split
          · exact (cr c k).trans (ih _)
          · exact (putGlyph c a k).trans (ih _)

theorem consolePrint (b : List Byte) (k : Console) :
    Touches k.fgConsole k (consolePrint b k) :=
  (consolePrintLoop k.fgConsole b k).trans (setCursor ..)

end Touches

end MySystem
