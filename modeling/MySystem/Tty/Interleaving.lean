import MySystem.Console.View
import MySystem.Machine.Interleaving
import MySystem.Tty.Init

/-!
# Consoles do not interfere

Calls of `tty_write` for different consoles, interleaved in any order. The
consoles are separate domains: a call reads and changes its own console's
record, share of the video memory and queues, and the controller if its console
is in the foreground.
-/

namespace MySystem

open Machine

variable {g : Geometry} {c d : Fin maxConsoles} {k k' k'' : Kernel}

/-- `tty_init` leaves every console at its share of the video memory. -/
theorem ttyInit_sound {strlen : Memory → Word → Int} {start : Kernel}
    (hreports : Reports start.console.mem g) (hfg : start.console.fgConsole < g.consoles)
    (hinit : ttyInit strlen start = .ok k) : Sound g k := by
  obtain ⟨console, hconsole, hspec⟩ := conInit_spec hreports
  have hmax : g.consoles ≤ 8 := g.consoles_le
  have hnr : console.nrConsoles.toNat = g.consoles := by
    rw [hspec.nrConsoles, Word.toNat_of (by omega)]
  obtain ⟨booted, hbooted, hannounced, htabled, -⟩ := ttyInit_returns strlen hconsole
    (hnr ▸ g.consoles_pos) (hnr ▸ hmax)
  obtain rfl := Except.ok.inj (hinit.symm.trans hbooted)
  have htables : ∀ i : Fin maxConsoles, i.val < g.consoles → k.conTable i = consoleTty i := by
    intro i hi
    refine htabled.consoleTty ?_
    rw [hannounced.nrConsoles, hnr]
    exact hi
  obtain ⟨buf, mem, buf', mem', hprinted⟩ := hannounced
  -- the consoles before the messages, with the final tables
  have hfresh : Sound g { k with console := console } := by
    refine ⟨hspec.ready, hspec.nrConsoles, ?_, htables, fun c hc =>
      ⟨_, (hspec.fresh c hc).represents, rfl, rfl⟩⟩
    dsimp only
    rw [hspec.fgConsole]
    exact hfg
  have hprint : ∀ {c : Console} (buf : List Byte) (mem : Memory),
      Sound g { k with console := c } →
        Sound g { k with console := consolePrint buf { c with mem := mem } } := by
    intro c buf mem hc
    have hmem : Sound g { k with console := { c with mem := mem } } :=
      ⟨hc.ready.update .., hc.nrConsoles, hc.fgConsole, hc.tables, hc.placed⟩
    obtain ⟨k', hrun, hk', -⟩ := hmem.run (.consolePrint buf) hmem.fgConsole
    obtain rfl := Except.ok.inj hrun
    exact hk'
  have hboth := hprint buf' mem' (hprint buf mem hfresh)
  rw [← hprinted] at hboth
  exact hboth

/-- A call of `tty_write`. -/
structure TtyCall where
  console : Fin maxConsoles
  fs : Word → Byte
  buf : Word
  nr : Word

def TtyCall.run (call : TtyCall) (k : Kernel) : Except Fault (Word × Kernel) :=
  ttyWrite call.fs (Word.of (call.console.val + 1)) call.buf call.nr k

/-- The states are the same for console `c` and its queues. -/
structure SameTerminal (c : Fin maxConsoles) (k k' : Kernel) : Prop where
  view : SameView c k.console k'.console
  queues : ∀ j, k'.conQueues (consoleQueue c j) = k.conQueues (consoleQueue c j)

namespace SameTerminal

theorem refl (c : Fin maxConsoles) (k : Kernel) : SameTerminal c k k :=
  ⟨.refl c k.console, fun _ => rfl⟩

theorem symm (h : SameTerminal c k k') : SameTerminal c k' k :=
  ⟨h.view.symm, fun j => (h.queues j).symm⟩

theorem trans (h : SameTerminal c k k') (h' : SameTerminal c k' k'') : SameTerminal c k k'' :=
  ⟨h.view.trans h'.view, fun j => (h'.queues j).trans (h.queues j)⟩

end SameTerminal

/-- Two queues are the same only if they are the same one of the same console. -/
theorem consoleQueue_inj {i j : Fin 3} (h : consoleQueue c i = consoleQueue d j) :
    c = d ∧ i = j := by
  have hval : c.val * 3 + i.val = d.val * 3 + j.val := congrArg Fin.val h
  exact ⟨Fin.ext (by omega), Fin.ext (by omega)⟩

/-- Printing the queued bytes, as `con_write` does, respects the console. -/
theorem respects_drain (c : Nat) (s : List Byte) :
    Respects c (setCursor c ∘ fun k => s.foldl (fun k b => conChar c b k) k) :=
  (Respects.setCursor c).comp (Respects.foldl (Respects.conChar c) (Local.conChar c) s)
    (Local.foldl (Local.conChar c) s)

/-- A call has the same effect on its console from states that are the same for it. -/
theorem ttyCall_own {call : TtyCall} (hk : Sound g k) (hk' : Sound g k')
    (hc : call.console.val < g.consoles) (h : SameTerminal call.console k k') :
    ∃ r l l', call.run k = .ok (r, l) ∧ call.run k' = .ok (r, l') ∧ Sound g l ∧ Sound g l' ∧
      SameTerminal call.console l l' := by
  obtain ⟨c, fs, buf, nr⟩ := call
  have htty := hk.tables c hc
  have htty' := hk'.tables c hc
  have hqueue : k'.writeQueue c = k.writeQueue c := h.queues 1
  obtain ⟨l, hwrite, hdrains⟩ := conWrite_eq (i := c)
    (k := k.setWriteQueue c (ttyWriteLoop fs nr.toInt.toNat buf (k.writeQueue c)).2) htty
  obtain ⟨l', hwrite', hdrains'⟩ := conWrite_eq (i := c)
    (k := k'.setWriteQueue c (ttyWriteLoop fs nr.toInt.toNat buf (k.writeQueue c)).2) htty'
  have hrun := ttyWrite_eq fs buf nr htty
  have hrun' := ttyWrite_eq fs buf nr htty'
  rw [hwrite] at hrun
  rw [hqueue, hwrite'] at hrun'
  have hconsole := hdrains.console
  have hconsole' := hdrains'.console
  have hown := hdrains.queue
  have hown' := hdrains'.queue
  rw [Kernel.writeQueue_setWriteQueue] at hconsole hconsole' hown hown'
  have hlocal := (Local.setCursor c.val).comp (Local.foldl (Local.conChar c.val)
    (ttyWriteLoop fs nr.toInt.toNat buf (k.writeQueue c)).2.contents)
  refine ⟨_, l, l', hrun, hrun', (hk.of_local hc hlocal hconsole hdrains.conTable).1,
    (hk'.of_local hc hlocal hconsole' hdrains'.conTable).1, ?_, ?_⟩
  · obtain ⟨w, hw, -, -⟩ := hk.placed c hc
    rw [hconsole, hconsole']
    exact respects_drain c.val _ hk.ready hk'.ready hw h.view
  · intro j
    by_cases hj : j = 1
    · subst hj
      exact hown'.trans hown.symm
    · have hne : consoleQueue c j ≠ consoleQueue c 1 := fun heq => hj (consoleQueue_inj heq).2
      rw [hdrains'.others _ hne, hdrains.others _ hne]
      exact (Function.update_of_ne hne ..).trans ((h.queues j).trans
        (Function.update_of_ne hne ..).symm)

/-- A call leaves every other console as it is. -/
theorem ttyCall_other {call : TtyCall} (hk : Sound g k) (hc : call.console.val < g.consoles)
    (hd : d.val < g.consoles) (hne : d ≠ call.console) :
    ∃ r l, call.run k = .ok (r, l) ∧ Sound g l ∧ SameTerminal d k l := by
  obtain ⟨c, fs, buf, nr⟩ := call
  have hval : d.val ≠ c.val := fun heq => hne (Fin.ext heq)
  have htty := hk.tables c hc
  obtain ⟨n, q', l, hrun, -, hwrites⟩ := ttyWrite_writes fs buf nr htty
  have hlocal := (Local.setCursor c.val).comp (Local.foldl (Local.conChar c.val) q'.contents)
  obtain ⟨w, hw, hstart, hstop⟩ := hk.placed c hc
  obtain ⟨v, hv, hstart', hstop'⟩ := hk.placed d hd
  obtain ⟨w', hs⟩ := hlocal hk.ready hw
  have hsound := (hk.of_local hc hlocal hwrites.console hwrites.conTable).1
  refine ⟨_, l, hrun, hsound, ?_, ?_⟩
  · have hapart : w.stop ≤ v.start ∨ v.stop ≤ w.start := by
      rw [hstart, hstop, hstart', hstop']
      obtain hlt | hgt := Nat.lt_or_gt_of_ne hval
      · exact Or.inr (Window.initial_disjoint hd hc hlt)
      · exact Or.inl (Window.initial_disjoint hc hd hgt)
    rw [hwrites.console]
    exact hs.sameView hval hv hapart fun heq hfg => hval (heq.trans hfg.symm)
  · intro j
    exact ttyWrite_conQueues htty hrun fun heq => hne (consoleQueue_inj heq).1

/-- What holds between calls, with console `fg` in the foreground. -/
structure Steady (g : Geometry) (fg : Nat) (k : Kernel) : Prop where
  sound : Sound g k
  fgConsole : k.console.fgConsole = fg

theorem ttyCall_fgConsole {call : TtyCall} {r : Word} (hk : Sound g k)
    (hc : call.console.val < g.consoles) (h : call.run k = .ok (r, k')) :
    k'.console.fgConsole = k.console.fgConsole := by
  obtain ⟨c, fs, buf, nr⟩ := call
  obtain ⟨n, q', l, hrun, -, hwrites⟩ := ttyWrite_writes fs buf nr (hk.tables c hc)
  obtain ⟨-, rfl⟩ := Prod.mk.inj (Except.ok.inj (h.symm.trans hrun))
  rw [hwrites.console]
  exact ((Touches.conChars c _ _).trans (.setCursor ..)).fgConsole

/-- The consoles are separate domains of the calls of `tty_write`. -/
theorem consoles_separate (g : Geometry) (fg : Nat) :
    Separates TtyCall.run TtyCall.console (Steady g fg)
      (fun call => call.console.val < g.consoles)
      (fun d k k' => d.val < g.consoles → SameTerminal d k k') where
  own {call k k'} hk hk' hc h := by
    obtain ⟨r, l, l', hrun, hrun', hl, hl', hsame⟩ := ttyCall_own hk.sound hk'.sound hc (h hc)
    exact ⟨r, l, l', hrun, hrun', ⟨hl, (ttyCall_fgConsole hk.sound hc hrun).trans hk.fgConsole⟩,
      ⟨hl', (ttyCall_fgConsole hk'.sound hc hrun').trans hk'.fgConsole⟩, fun _ => hsame⟩
  other {call k d} hk hc hne := by
    obtain ⟨r, l, -, hrun, -, hl, -⟩ := ttyCall_own hk.sound hk.sound hc (.refl call.console k)
    refine ⟨r, l, hrun, ⟨hl, (ttyCall_fgConsole hk.sound hc hrun).trans hk.fgConsole⟩,
      fun hd => ?_⟩
    obtain ⟨r', l', hrun', -, hsame⟩ := ttyCall_other hk.sound hc hd hne
    obtain ⟨-, rfl⟩ := Prod.mk.inj (Except.ok.inj (hrun.symm.trans hrun'))
    exact hsame.symm
  symm h hd := (h hd).symm
  trans h h' hd := (h hd).trans (h' hd)

/-- After `tty_init` on a geometry that fits, take two families of sequences of
calls that agree on console `c`, and an interleaving of each. Both run to the
end, with the same answers on `c`; the record, the queues and the screen of `c`
are the same in the end, and so is the controller if `c` is in the foreground. -/
theorem consoles_do_not_interfere {strlen : Memory → Word → Int} {start booted : Kernel}
    (hreports : Reports start.console.mem g) (hfg : start.console.fgConsole < g.consoles)
    (hinit : ttyInit strlen start = .ok booted)
    {sequences sequences' : Fin maxConsoles → List TtyCall} {l l' : List TtyCall}
    (hl : Interleaves TtyCall.console sequences l)
    (hl' : Interleaves TtyCall.console sequences' l')
    (hvalid : ∀ call ∈ l, call.console.val < booted.console.nrConsoles.toNat)
    (hvalid' : ∀ call ∈ l', call.console.val < booted.console.nrConsoles.toNat)
    {c : Fin maxConsoles} (hc : c.val < booted.console.nrConsoles.toNat)
    (hown : sequences c = sequences' c) :
    ∃ answers₁ answers₂ k₁ k₂,
      runActions TtyCall.run TtyCall.console l booted = .ok (answers₁, k₁) ∧
      runActions TtyCall.run TtyCall.console l' booted = .ok (answers₂, k₂) ∧
      answers c answers₁ = answers c answers₂ ∧
      k₂.console.vcCons c = k₁.console.vcCons c ∧
      (∀ j, k₂.conQueues (consoleQueue c j) = k₁.conQueues (consoleQueue c j)) ∧
      Memory.AgreeOn (k₁.console.vcCons c).origin.toNat (k₁.console.vcCons c).scrEnd.toNat
        k₁.console.mem k₂.console.mem ∧
      (c.val = booted.console.fgConsole → k₂.console.crtc = k₁.console.crtc) := by
  have hsound := ttyInit_sound hreports hfg hinit
  rw [hsound.toNat_nrConsoles] at hvalid hvalid' hc
  obtain ⟨os, os', k₁, k₂, hrun, hrun', hk₁, -, hanswers, hview⟩ :=
    (consoles_separate g booted.console.fgConsole).interleavings ⟨hsound, rfl⟩
      (fun _ => .refl c booted) hl hl' hvalid hvalid' hown
  have hsame := hview hc
  obtain ⟨w, hw, -, -⟩ := hk₁.sound.placed c hc
  have hb := w.bounds
  refine ⟨os, os', k₁, k₂, hrun, hrun', hanswers, hsame.view.record, hsame.queues,
    hsame.view.mem.mono ?_ ?_, fun hfront => hsame.view.crtc (hfront.trans hk₁.fgConsole.symm)⟩
  · rw [hw.videoMemStart, hw.origin, Word.toNat_of (by omega), Word.toNat_of (by omega)]
    exact hb.1
  · rw [hw.videoMemEnd, hw.scrEnd, Word.toNat_of (by omega), Word.toNat_of (by omega)]
    exact hb.2.2.2.1

/-- Two consoles of the text-mode machine, one call each, in either order. -/
theorem consoles_do_not_interfere_text :
    let first : TtyCall := ⟨0, fun _ => 97, 0, 3⟩
    let second : TtyCall := ⟨1, fun _ => 98, 0, 5⟩
    ∃ booted answers₁ answers₂ k₁ k₂, ttyInit scanLength textKernel = .ok booted ∧
      runActions TtyCall.run TtyCall.console [first, second] booted = .ok (answers₁, k₁) ∧
      runActions TtyCall.run TtyCall.console [second, first] booted = .ok (answers₂, k₂) ∧
      answers (0 : Fin maxConsoles) answers₁ = answers 0 answers₂ ∧
      k₂.console.vcCons 0 = k₁.console.vcCons 0 := by
  intro first second
  obtain ⟨booted, hbooted⟩ := ttyInit_textKernel scanLength
  have hreports : Reports textKernel.console.mem vgaText := ⟨by decide, by decide⟩
  have hfg : textKernel.console.fgConsole < vgaText.consoles := by decide
  have hnr : booted.console.nrConsoles.toNat = 2 :=
    (ttyInit_sound hreports hfg hbooted).toNat_nrConsoles.trans (by decide)
  have hvalid : ∀ call ∈ [first, second], call.console.val < booted.console.nrConsoles.toNat := by
    rw [hnr]
    simp [first, second, maxConsoles]
  have hvalid' : ∀ call ∈ [second, first], call.console.val < booted.console.nrConsoles.toNat := by
    rw [hnr]
    simp [first, second, maxConsoles]
  obtain ⟨answers₁, answers₂, k₁, k₂, hrun, hrun', hanswers, hrecord, -⟩ :=
    consoles_do_not_interfere hreports hfg hbooted (fun _ => rfl) (fun _ => rfl) hvalid hvalid'
      (c := 0) (by rw [hnr]; decide) rfl
  exact ⟨booted, answers₁, answers₂, k₁, k₂, hbooted, hrun, hrun', hanswers, hrecord⟩

end MySystem
