/-
  Programs in dialogue with an environment.

  A program asks requests of type `R`; the environment plays moves of type `E`, one per
  request, from a finite script fixed in advance. The run is a function of the script, so a
  statement about every script is a statement about every behaviour of the environment. A
  program that asks more often than the script has moves is still waiting: `none`. The
  requests asked and the moves that met them are kept in a trace, latest first.

  `loop` repeats a body until it exits. A pass that asks at least once uses up a move, so
  the length of the script bounds the number of passes and the bound never decides the
  result (`loop_eq`). `loop_rule` is the partial-correctness rule, `loop_step` runs one pass.

  `w.Plays P` says that all moves of a world are of one kind `P`.

  `Keeps g m` says that `m` leaves alone what `g` sees of the world.

  `Steady e m a` says that `m` returns `a` when every move is `e`: a node that is down, or one
  that is up and does not change. `Turns e e' m a` is the same of moves that change once, and
  `Settles P m a` of any moves of one kind.

  `calls` is a number of calls of one operation of an object, one after the other, and `perform`
  calls of various operations. `Within k m` says that `m` asks at most `k` times.

  `embed` makes a program a part of a dialogue with more requests.
-/
import Mathlib.Control.Basic
import Mathlib.Logic.Basic

namespace Dialogue

variable {R E α β σ ρ ι : Type}

/-- What the environment will still play, and what has been asked, latest first. -/
structure World (R E : Type) where
  script : List E
  trace : List (R × E)

/-- A program that asks requests `R` of an environment playing moves `E`. -/
abbrev Prog (R E : Type) := StateT (World R E) Option

/-- Ask `r` and take the environment's next move. -/
def ask (r : R) : Prog R E E := fun w =>
  match w.script with
  | [] => none
  | e :: es => some (e, ⟨es, (r, e) :: w.trace⟩)

/-- The world before anything is asked. -/
def start (R : Type) (script : List E) : World R E := ⟨script, []⟩

@[simp] theorem start_script (script : List E) : (start R script).script = script := rfl

/-! ## Running a program -/

theorem bind_eq_some {x : Prog R E α} {f : α → Prog R E β} {w w' : World R E} {b : β} :
    (x >>= f) w = some (b, w') ↔ ∃ a w1, x w = some (a, w1) ∧ f a w1 = some (b, w') := by
  change (x w).bind (fun p => f p.1 p.2) = some (b, w') ↔ _
  rw [Option.bind_eq_some_iff]
  constructor
  · rintro ⟨⟨a, w1⟩, h1, h2⟩
    exact ⟨a, w1, h1, h2⟩
  · rintro ⟨a, w1, h1, h2⟩
    exact ⟨(a, w1), h1, h2⟩

theorem pure_eq_some {w w' : World R E} {a b : α} :
    (pure a : Prog R E α) w = some (b, w') ↔ a = b ∧ w = w' := by
  change some (a, w) = some (b, w') ↔ _
  simp

theorem pure_pair_eq_some {w w' : World R E} {a a' : α} {b b' : β} :
    (pure (a, b) : Prog R E (α × β)) w = some ((a', b'), w') ↔ a = a' ∧ b = b' ∧ w = w' := by
  rw [pure_eq_some, Prod.mk.injEq, and_assoc]

/-- Running a bind whose first part returns. -/
theorem bind_of_eq {x : Prog R E α} {f : α → Prog R E β} {w w1 : World R E} {a : α}
    (h : x w = some (a, w1)) : (x >>= f) w = f a w1 := by
  change (x w).bind (fun p => f p.1 p.2) = f a w1
  rw [h]
  rfl

theorem ask_eq_some {r : R} {w w' : World R E} {e : E} :
    (ask r : Prog R E E) w = some (e, w') ↔
      w.script = e :: w'.script ∧ w'.trace = (r, e) :: w.trace := by
  obtain ⟨script, trace⟩ := w
  obtain ⟨script', trace'⟩ := w'
  cases script with
  | nil => simp [ask]
  | cons e' es =>
    simp only [ask, Option.some.injEq, Prod.mk.injEq, World.mk.injEq, List.cons.injEq]
    constructor
    · rintro ⟨rfl, rfl, rfl⟩
      exact ⟨⟨rfl, rfl⟩, rfl⟩
    · rintro ⟨⟨rfl, rfl⟩, rfl⟩
      exact ⟨rfl, rfl, rfl⟩

/-! ## Using up the script -/

/-- `w'` is `w` after the moves `new`, latest first. -/
def World.After (w : World R E) (new : List (R × E)) (w' : World R E) : Prop :=
  w'.trace = new ++ w.trace ∧ w.script = (new.map Prod.snd).reverse ++ w'.script

/-- Every returning run of `m` takes its moves off the script and keeps them in the trace. -/
def Logged (m : Prog R E α) : Prop :=
  ∀ w a w', m w = some (a, w') → ∃ new, w.After new w'

/-- Every returning run of `m` takes a move. -/
def Consumes (m : Prog R E α) : Prop :=
  ∀ w a w', m w = some (a, w') → ∃ new, new ≠ [] ∧ w.After new w'

theorem World.After.refl (w : World R E) : w.After [] w := ⟨rfl, rfl⟩

theorem World.After.trans {w w1 w2 : World R E} {new new' : List (R × E)} (h : w.After new w1)
    (h' : w1.After new' w2) : w.After (new' ++ new) w2 := by
  refine ⟨?_, ?_⟩
  · rw [h'.1, h.1, List.append_assoc]
  · rw [h.2, h'.2, List.map_append, List.reverse_append, List.append_assoc]

/-- The moves between two worlds are known from them. -/
theorem World.After.unique {w w' : World R E} {new new' : List (R × E)} (h : w.After new w')
    (h' : w.After new' w') : new = new' :=
  List.append_cancel_right (h.1.symm.trans h'.1)

theorem Consumes.logged {m : Prog R E α} (h : Consumes m) : Logged m := by
  intro w a w' hrun
  obtain ⟨new, -, hnew⟩ := h w a w' hrun
  exact ⟨new, hnew⟩

theorem Consumes.shortens {m : Prog R E α} (h : Consumes m) {w w' : World R E} {a : α}
    (hrun : m w = some (a, w')) : w'.script.length < w.script.length := by
  obtain ⟨new, hne, -, hscript⟩ := h w a w' hrun
  have hpos : 0 < new.length := List.length_pos_iff.mpr hne
  rw [hscript, List.length_append, List.length_reverse, List.length_map]
  omega

theorem Logged.pure (a : α) : Logged (Pure.pure a : Prog R E α) := by
  intro w b w' h
  obtain ⟨-, rfl⟩ := pure_eq_some.mp h
  exact ⟨[], .refl w⟩

theorem Logged.bind {m : Prog R E α} {f : α → Prog R E β} (hm : Logged m)
    (hf : ∀ a, Logged (f a)) : Logged (m >>= f) := by
  intro w b w' h
  obtain ⟨a, w1, h1, h2⟩ := bind_eq_some.mp h
  obtain ⟨new, hnew⟩ := hm w a w1 h1
  obtain ⟨new', hnew'⟩ := hf a w1 b w' h2
  exact ⟨new' ++ new, hnew.trans hnew'⟩

theorem ask_consumes (r : R) : Consumes (ask r : Prog R E E) := by
  intro w e w' h
  obtain ⟨hscript, htrace⟩ := ask_eq_some.mp h
  exact ⟨[(r, e)], nofun, htrace, hscript⟩

theorem Consumes.bind {m : Prog R E α} {f : α → Prog R E β} (hm : Consumes m)
    (hf : ∀ a, Logged (f a)) : Consumes (m >>= f) := by
  intro w b w' h
  obtain ⟨a, w1, h1, h2⟩ := bind_eq_some.mp h
  obtain ⟨new, hne, hnew⟩ := hm w a w1 h1
  obtain ⟨new', hnew'⟩ := hf a w1 b w' h2
  exact ⟨new' ++ new, by simp [hne], hnew.trans hnew'⟩

/-- Every move, those played and those still to be played, is of the kind `P`. -/
def World.Plays (P : E → Prop) (w : World R E) : Prop :=
  (∀ e ∈ w.script, P e) ∧ ∀ q ∈ w.trace, P q.2

section

variable {P Q : E → Prop}

theorem World.plays_start {script : List E} (h : ∀ e ∈ script, P e) : (start R script).Plays P := by
  refine ⟨h, fun q hq => ?_⟩
  cases hq

theorem World.Plays.mono {w : World R E} (hw : w.Plays P) (h : ∀ e, P e → Q e) : w.Plays Q :=
  ⟨fun e he => h e (hw.1 e he), fun q hq => h q.2 (hw.2 q hq)⟩

theorem World.Plays.after {w w' : World R E} {new : List (R × E)} (hw : w.Plays P)
    (h : w.After new w') : w'.Plays P := by
  obtain ⟨htrace, hscript⟩ := h
  have hall : ∀ e ∈ (new.map Prod.snd).reverse ++ w'.script, P e := by
    rw [← hscript]
    exact hw.1
  refine ⟨fun e he => hall e (List.mem_append_right _ he), fun q hq => ?_⟩
  rw [htrace] at hq
  rcases List.mem_append.mp hq with hnew | hold
  · have hmove : q.2 ∈ (new.map Prod.snd).reverse :=
      List.mem_reverse.mpr (List.mem_map_of_mem hnew)
    exact hall q.2 (List.mem_append_left _ hmove)
  · exact hw.2 q hold

end

/-! ## Loops -/

/-- At most `n` passes of `body`. -/
def iterate (body : σ → Prog R E (σ ⊕ β)) : Nat → σ → Prog R E β
  | 0, _ => fun _ => none
  | n + 1, s => do
    match ← body s with
    | .inl s' => iterate body n s'
    | .inr b => pure b

/-- Passes of `body` until it exits, at most one more than the script has moves. -/
def loop (body : σ → Prog R E (σ ⊕ β)) (s : σ) : Prog R E β := fun w =>
  iterate body (w.script.length + 1) s w

/-- Every pass that goes on uses up a move. -/
def Productive (body : σ → Prog R E (σ ⊕ β)) : Prop :=
  ∀ s w s' w', body s w = some (.inl s', w') → w'.script.length < w.script.length

theorem iterate_succ_inl {body : σ → Prog R E (σ ⊕ β)} {s s' : σ} {w w1 : World R E} {n : Nat}
    (h : body s w = some (.inl s', w1)) : iterate body (n + 1) s w = iterate body n s' w1 := by
  rw [iterate, bind_of_eq h]

theorem iterate_succ_inr {body : σ → Prog R E (σ ⊕ β)} {s : σ} {b : β} {w w1 : World R E} {n : Nat}
    (h : body s w = some (.inr b, w1)) : iterate body (n + 1) s w = some (b, w1) := by
  rw [iterate, bind_of_eq h]
  rfl

/-- Once the bound exceeds the script it does not matter. -/
theorem iterate_enough {body : σ → Prog R E (σ ⊕ β)} (hb : Productive body) :
    ∀ (n m : Nat) (s : σ) (w : World R E), w.script.length < n → w.script.length < m →
      iterate body n s w = iterate body m s w := by
  intro n
  induction n with
  | zero => intro m s w hn; omega
  | succ n ih =>
    intro m s w hn hm
    obtain ⟨m, rfl⟩ : ∃ k, m = k + 1 := ⟨m - 1, by omega⟩
    cases hrun : body s w with
    | none =>
      have stuck : ∀ k, iterate body (k + 1) s w = none := by
        intro k
        change (body s w).bind _ = none
        rw [hrun]
        rfl
      rw [stuck, stuck]
    | some p =>
      obtain ⟨x, w1⟩ := p
      cases x with
      | inl s' =>
        have hlt := hb s w s' w1 hrun
        rw [iterate_succ_inl hrun, iterate_succ_inl hrun]
        exact ih m s' w1 (by omega) (by omega)
      | inr b => rw [iterate_succ_inr hrun, iterate_succ_inr hrun]

/-- A pass that goes on, followed by the rest of the loop. -/
theorem loop_step {body : σ → Prog R E (σ ⊕ β)} (hb : Productive body) {s s' : σ}
    {w w1 : World R E} (h : body s w = some (.inl s', w1)) : loop body s w = loop body s' w1 := by
  have hlt := hb s w _ w1 h
  unfold loop
  rw [iterate_succ_inl h]
  exact iterate_enough hb _ _ _ _ (by omega) (by omega)

/-- A pass that exits. -/
theorem loop_exit {body : σ → Prog R E (σ ⊕ β)} {s : σ} {b : β} {w w1 : World R E}
    (h : body s w = some (.inr b, w1)) : loop body s w = some (b, w1) := by
  unfold loop
  exact iterate_succ_inr h

/-- The loop is the fixed point its source text describes. -/
theorem loop_eq {body : σ → Prog R E (σ ⊕ β)} (hb : Productive body) (s : σ)
    (w : World R E) :
    loop body s w = (do
      match ← body s with
      | .inl s' => loop body s'
      | .inr b => pure b : Prog R E β) w := by
  cases hrun : body s w with
  | none =>
    have stuck : ∀ (f : σ ⊕ β → Prog R E β), (body s >>= f) w = none := by
      intro f
      change (body s w).bind _ = none
      rw [hrun]
      rfl
    rw [stuck]
    exact stuck _
  | some p =>
    obtain ⟨x, w1⟩ := p
    rw [bind_of_eq hrun]
    cases x with
    | inl s' => exact loop_step hb hrun
    | inr b => exact loop_exit hrun

theorem iterate_rule {body : σ → Prog R E (σ ⊕ β)} {I : σ → World R E → Prop}
    {Q : β → World R E → Prop}
    (hcont : ∀ s w s' w', I s w → body s w = some (.inl s', w') → I s' w')
    (hexit : ∀ s w b w', I s w → body s w = some (.inr b, w') → Q b w') :
    ∀ (n : Nat) (s : σ) (w w' : World R E) (b : β), I s w →
      iterate body n s w = some (b, w') → Q b w' := by
  intro n
  induction n with
  | zero => intro s w w' b _ h; simp [iterate] at h
  | succ n ih =>
    intro s w w' b hI h
    rw [iterate, bind_eq_some] at h
    obtain ⟨x, w1, hbody, hrest⟩ := h
    cases x with
    | inl s' => exact ih s' w1 w' b (hcont s w s' w1 hI hbody) hrest
    | inr b' =>
      rw [pure_eq_some] at hrest
      obtain ⟨rfl, rfl⟩ := hrest
      exact hexit s w _ _ hI hbody

/-- Partial correctness of a loop: an invariant kept by every pass that goes on, and a
    postcondition established by every pass that exits. -/
theorem loop_rule {body : σ → Prog R E (σ ⊕ β)} (I : σ → World R E → Prop)
    (Q : β → World R E → Prop)
    (hcont : ∀ s w s' w', I s w → body s w = some (.inl s', w') → I s' w')
    (hexit : ∀ s w b w', I s w → body s w = some (.inr b, w') → Q b w')
    {s : σ} {w w' : World R E} {b : β} (hI : I s w) (h : loop body s w = some (b, w')) :
    Q b w' :=
  iterate_rule hcont hexit _ s w w' b hI h

theorem Productive.of_consumes {body : σ → Prog R E (σ ⊕ β)} (h : ∀ s, Consumes (body s)) :
    Productive body :=
  fun s _ _ _ hrun => (h s).shortens hrun

theorem iterate_logged {body : σ → Prog R E (σ ⊕ β)} (hb : ∀ s, Logged (body s)) (n : Nat)
    (s : σ) : Logged (iterate body n s) := by
  intro w b w' h
  refine iterate_rule (I := fun _ w1 => ∃ new, w.After new w1)
    (Q := fun _ w' => ∃ new, w.After new w') ?_ ?_ n s w w' b ⟨[], .refl w⟩ h
  · rintro s w1 s' w2 ⟨new, hnew⟩ h
    obtain ⟨new', hnew'⟩ := hb s w1 _ w2 h
    exact ⟨new' ++ new, hnew.trans hnew'⟩
  · rintro s w1 b w2 ⟨new, hnew⟩ h
    obtain ⟨new', hnew'⟩ := hb s w1 _ w2 h
    exact ⟨new' ++ new, hnew.trans hnew'⟩

theorem loop_logged {body : σ → Prog R E (σ ⊕ β)} (hb : ∀ s, Logged (body s)) (s : σ) :
    Logged (loop body s) :=
  fun w => iterate_logged hb (w.script.length + 1) s w

theorem loop_consumes {body : σ → Prog R E (σ ⊕ β)} (hb : ∀ s, Consumes (body s)) (s : σ) :
    Consumes (loop body s) := by
  intro w b w' h
  unfold loop at h
  rw [iterate] at h
  -- the first pass takes a move, the others only add to it
  refine (hb s).bind (f := fun x => match x with
    | .inl s' => iterate body w.script.length s'
    | .inr b => pure b) ?_ w b w' h
  rintro (s' | b')
  · exact iterate_logged (fun s => (hb s).logged) _ s'
  · exact .pure b'

/-! ## Frames -/

/-- No returning run of `m` changes what `g` sees of the world. -/
def Keeps {γ : Type} (g : World R E → γ) (m : Prog R E α) : Prop :=
  ∀ w a w', m w = some (a, w') → g w' = g w

section

variable {γ : Type} {g : World R E → γ}

theorem Keeps.pure (a : α) : Keeps g (Pure.pure a : Prog R E α) := by
  intro w b w' h
  rw [(pure_eq_some.mp h).2]

theorem Keeps.bind {m : Prog R E α} {f : α → Prog R E β} (hm : Keeps g m)
    (hf : ∀ a, Keeps g (f a)) : Keeps g (m >>= f) := by
  intro w b w' h
  obtain ⟨a, w1, h1, h2⟩ := bind_eq_some.mp h
  rw [hf a w1 b w' h2, hm w a w1 h1]

theorem Keeps.loop {body : σ → Prog R E (σ ⊕ β)} (hb : ∀ s, Keeps g (body s)) (s : σ) :
    Keeps g (loop body s) := by
  intro w b w' h
  refine loop_rule (fun _ w1 => g w1 = g w) (fun _ w' => g w' = g w) ?_ ?_ rfl h
  · intro s w1 s' w2 hI hrun
    rw [hb s w1 _ w2 hrun, hI]
  · intro s w1 b w2 hI hrun
    rw [hb s w1 _ w2 hrun, hI]

end

/-! ## A steady environment -/

/-- Against an environment that keeps playing `e`, the program `m` asks some requests and
    returns `a`. -/
def Steady (e : E) (m : Prog R E α) (a : α) : Prop :=
  ∃ asked : List R, ∀ script trace,
    m ⟨List.replicate asked.length e ++ script, trace⟩
      = some (a, ⟨script, asked.map (·, e) ++ trace⟩)

theorem Steady.pure (e : E) (a : α) : Steady e (Pure.pure a : Prog R E α) a :=
  ⟨[], fun _ _ => rfl⟩

theorem Steady.ask (e : E) (r : R) : Steady e (ask r : Prog R E E) e :=
  ⟨[r], fun _ _ => rfl⟩

/-- What is asked first and then more. -/
theorem steady_append {e : E} {asked asked' : List R} {m m' : World R E → Option (α × World R E)}
    {a : α} (hm : ∀ script trace, m ⟨List.replicate asked.length e ++ script, trace⟩
      = m' ⟨script, asked.map (·, e) ++ trace⟩)
    (hm' : ∀ script trace, m' ⟨List.replicate asked'.length e ++ script, trace⟩
      = some (a, ⟨script, asked'.map (·, e) ++ trace⟩)) (script : List E) (trace : List (R × E)) :
    m ⟨List.replicate (asked' ++ asked).length e ++ script, trace⟩
      = some (a, ⟨script, (asked' ++ asked).map (·, e) ++ trace⟩) := by
  have hlength : List.replicate (asked' ++ asked).length e
      = List.replicate asked.length e ++ List.replicate asked'.length e := by
    rw [List.replicate_append_replicate, List.length_append, Nat.add_comm]
  rw [hlength, List.append_assoc, hm, hm', List.map_append, List.append_assoc]

theorem Steady.bind {e : E} {m : Prog R E α} {f : α → Prog R E β} {a : α} {b : β}
    (hm : Steady e m a) (hf : Steady e (f a) b) : Steady e (m >>= f) b := by
  obtain ⟨asked, h⟩ := hm
  obtain ⟨asked', h'⟩ := hf
  exact ⟨asked' ++ asked, steady_append (fun script trace => bind_of_eq (h script trace)) h'⟩

/-- A pass that goes on, against an environment that does not change. -/
theorem Steady.loop_step {e : E} {body : σ → Prog R E (σ ⊕ β)} (hb : Productive body)
    {s s' : σ} {b : β} (h : Steady e (body s) (.inl s')) (h' : Steady e (loop body s') b) :
    Steady e (loop body s) b := by
  obtain ⟨asked, h⟩ := h
  obtain ⟨asked', h'⟩ := h'
  exact ⟨asked' ++ asked,
    steady_append (fun script trace => Dialogue.loop_step hb (h script trace)) h'⟩

theorem Steady.loop_exit {e : E} {body : σ → Prog R E (σ ⊕ β)} {s : σ} {b : β}
    (h : Steady e (body s) (.inr b)) : Steady e (loop body s) b := by
  obtain ⟨asked, h⟩ := h
  exact ⟨asked, fun script trace => Dialogue.loop_exit (h script trace)⟩

/-- Against one environment a program returns one result. -/
theorem Steady.unique {e : E} {m : Prog R E α} {a b : α} (ha : Steady e m a) (hb : Steady e m b) :
    a = b := by
  obtain ⟨asked, ha⟩ := ha
  obtain ⟨asked', hb⟩ := hb
  have h1 := ha (List.replicate asked'.length e) []
  have h2 := hb (List.replicate asked.length e) []
  rw [List.replicate_append_replicate] at h1 h2
  rw [Nat.add_comm, h2] at h1
  exact (congrArg Prod.fst (Option.some.inj h1)).symm

/-- A script on which `m` returns `a`. -/
theorem Steady.run {e : E} {m : Prog R E α} {a : α} (h : Steady e m a) :
    ∃ k w', m (start R (List.replicate k e)) = some (a, w') ∧ ∀ q ∈ w'.trace, q.2 = e := by
  obtain ⟨asked, h⟩ := h
  have hrun := h [] []
  rw [List.append_nil] at hrun
  refine ⟨asked.length, _, hrun, ?_⟩
  intro q hq
  obtain ⟨r, -, rfl⟩ := List.mem_map.mp (by simpa using hq)
  rfl

/-! ## An environment that changes once -/

/-- Against an environment that plays `e` for some time and then `e'`, the program `m` returns
    `a`. -/
def Turns (e e' : E) (m : Prog R E α) (a : α) : Prop :=
  ∃ k k', ∀ trace, ∃ w', m ⟨List.replicate k e ++ List.replicate k' e', trace⟩ = some (a, w')

theorem Turns.of_steady {e e' : E} {m : Prog R E α} {f : α → Prog R E β} {a : α} {b : β}
    (hm : Steady e m a) (hf : Steady e' (f a) b) : Turns e e' (m >>= f) b := by
  obtain ⟨asked, h⟩ := hm
  obtain ⟨asked', h'⟩ := hf
  refine ⟨asked.length, asked'.length, fun trace => ?_⟩
  have hrun := h' [] (asked.map (·, e) ++ trace)
  rw [List.append_nil] at hrun
  exact ⟨_, (bind_of_eq (h _ trace)).trans hrun⟩

theorem Turns.loop_step {e e' : E} {body : σ → Prog R E (σ ⊕ β)} (hb : Productive body)
    {s s' : σ} {b : β} (h : Steady e (body s) (.inl s')) (h' : Turns e e' (loop body s') b) :
    Turns e e' (loop body s) b := by
  obtain ⟨asked, h⟩ := h
  obtain ⟨k, k', h'⟩ := h'
  refine ⟨asked.length + k, k', fun trace => ?_⟩
  obtain ⟨w', hrun⟩ := h' (asked.map (·, e) ++ trace)
  refine ⟨w', ?_⟩
  rw [← List.replicate_append_replicate, List.append_assoc]
  exact (Dialogue.loop_step hb (h _ trace)).trans hrun

theorem Turns.loop_exit {e e' : E} {body : σ → Prog R E (σ ⊕ β)} {s : σ} {b : β}
    (h : Turns e e' (body s) (.inr b)) : Turns e e' (loop body s) b := by
  obtain ⟨k, k', h⟩ := h
  refine ⟨k, k', fun trace => ?_⟩
  obtain ⟨w', hrun⟩ := h trace
  exact ⟨w', Dialogue.loop_exit hrun⟩

/-! ## An environment that keeps to a rule -/

/-- Whatever moves of the kind `P` an environment plays, `m` takes the same number of them and
    returns `a`. -/
def Settles (P : E → Prop) (m : Prog R E α) (a : α) : Prop :=
  ∃ k, ∀ (moves script : List E) (trace : List (R × E)), moves.length = k →
    (∀ e ∈ moves, P e) → ∃ trace', m ⟨moves ++ script, trace⟩ = some (a, ⟨script, trace'⟩)

section

variable {P : E → Prop}

theorem Settles.pure (a : α) : Settles P (Pure.pure a : Prog R E α) a := by
  refine ⟨0, fun moves script trace hlen _ => ⟨trace, ?_⟩⟩
  rw [List.length_eq_zero_iff.mp hlen]
  rfl

theorem Settles.bind {m : Prog R E α} {f : α → Prog R E β} {a : α} {b : β}
    (hm : Settles P m a) (hf : Settles P (f a) b) : Settles P (m >>= f) b := by
  obtain ⟨k, hm⟩ := hm
  obtain ⟨k', hf⟩ := hf
  refine ⟨k + k', fun moves script trace hlen hmoves => ?_⟩
  have hsplit : moves ++ script = moves.take k ++ (moves.drop k ++ script) := by
    rw [← List.append_assoc, List.take_append_drop]
  obtain ⟨trace1, h1⟩ := hm (moves.take k) (moves.drop k ++ script) trace
    (by rw [List.length_take]; omega) (fun e he => hmoves e (List.mem_of_mem_take he))
  obtain ⟨trace2, h2⟩ := hf (moves.drop k) script trace1
    (by rw [List.length_drop]; omega) (fun e he => hmoves e (List.mem_of_mem_drop he))
  refine ⟨trace2, ?_⟩
  rw [hsplit, bind_of_eq h1, h2]

/-- A request whose answer is the same in every move of the kind. -/
theorem Settles.ask {r : R} {f : E → α} {a : α} (h : ∀ e, P e → f e = a) :
    Settles P (do let e ← ask r; Pure.pure (f e)) a := by
  refine ⟨1, fun moves script trace hlen hmoves => ?_⟩
  obtain ⟨e, rfl⟩ := List.length_eq_one_iff.mp hlen
  refine ⟨(r, e) :: trace, ?_⟩
  rw [← h e (hmoves e List.mem_cons_self)]
  rfl

/-- A program settles on one result. -/
theorem Settles.unique {m : Prog R E α} {a b : α} {e : E} (he : P e) (ha : Settles P m a)
    (hb : Settles P m b) : a = b := by
  obtain ⟨k, ha⟩ := ha
  obtain ⟨k', hb⟩ := hb
  have hall : ∀ n, ∀ e' ∈ List.replicate n e, P e' := by
    intro n e' h
    rwa [List.eq_of_mem_replicate h]
  obtain ⟨t1, h1⟩ := ha (List.replicate k e) (List.replicate k' e) [] List.length_replicate (hall k)
  obtain ⟨t2, h2⟩ :=
    hb (List.replicate k' e) (List.replicate k e) [] List.length_replicate (hall k')
  rw [List.replicate_append_replicate] at h1 h2
  rw [Nat.add_comm, h2] at h1
  exact (congrArg Prod.fst (Option.some.inj h1)).symm

end

/-! ## An object called again and again -/

/-- `n` calls of one operation of an object, with what they return. -/
def calls (op : σ → Prog R E (ρ × σ)) : Nat → σ → Prog R E (List ρ × σ)
  | 0, s => pure ([], s)
  | n + 1, s => do
    let (r, s) ← op s
    let (rs, s) ← calls op n s
    pure (r :: rs, s)

theorem calls_succ_eq_some {op : σ → Prog R E (ρ × σ)} {n : Nat} {s t : σ} {w w' : World R E}
    {out : List ρ} : calls op (n + 1) s w = some ((out, t), w') ↔
      ∃ r s1 w1 rs, op s w = some ((r, s1), w1) ∧ calls op n s1 w1 = some ((rs, t), w') ∧
        out = r :: rs := by
  rw [calls, bind_eq_some]
  constructor
  · rintro ⟨⟨r, s1⟩, w1, h1, h⟩
    obtain ⟨⟨rs, t'⟩, w2, h2, h⟩ := bind_eq_some.mp h
    obtain ⟨rfl, rfl, rfl⟩ := pure_pair_eq_some.mp h
    exact ⟨r, s1, w1, rs, h1, h2, rfl⟩
  · rintro ⟨r, s1, w1, rs, h1, h2, rfl⟩
    exact ⟨(r, s1), w1, h1, bind_eq_some.mpr ⟨(rs, t), w', h2, rfl⟩⟩

/-- Partial correctness of a sequence of calls: what one call does to the results so far, the
    object and the world, all of them do. -/
theorem calls_rule {op : σ → Prog R E (ρ × σ)} (I : List ρ → σ → World R E → Prop)
    (hstep : ∀ rs s w r s' w', I rs s w → op s w = some ((r, s'), w') → I (rs ++ [r]) s' w')
    {n : Nat} {s t : σ} {w w' : World R E} (rs : List ρ) {out : List ρ} (hI : I rs s w)
    (h : calls op n s w = some ((out, t), w')) : I (rs ++ out) t w' := by
  induction n generalizing rs s w out with
  | zero =>
    obtain ⟨rfl, rfl, rfl⟩ := pure_pair_eq_some.mp h
    rwa [List.append_nil]
  | succ n ih =>
    obtain ⟨r, s1, w1, rs', hop, hrest, rfl⟩ := calls_succ_eq_some.mp h
    have hI' := ih (rs ++ [r]) (hstep rs s w r s1 w1 hI hop) hrest
    rwa [List.append_assoc] at hI'

/-- Calls and then more calls. -/
theorem calls_append {op : σ → Prog R E (ρ × σ)} {n m : Nat} {s s1 t : σ} {w w1 w' : World R E}
    {rs rs' : List ρ} (h : calls op n s w = some ((rs, s1), w1))
    (h' : calls op m s1 w1 = some ((rs', t), w')) :
    calls op (m + n) s w = some ((rs ++ rs', t), w') := by
  induction n generalizing s w rs with
  | zero =>
    obtain ⟨rfl, rfl, rfl⟩ := pure_pair_eq_some.mp h
    exact h'
  | succ n ih =>
    obtain ⟨r, s2, w2, rest, hop, hrest, rfl⟩ := calls_succ_eq_some.mp h
    exact calls_succ_eq_some.mpr ⟨r, s2, w2, rest ++ rs', hop, ih hrest, rfl⟩

theorem calls_one {op : σ → Prog R E (ρ × σ)} {s t : σ} {w w' : World R E} {r : ρ}
    (h : op s w = some ((r, t), w')) : calls op 1 s w = some (([r], t), w') :=
  calls_succ_eq_some.mpr ⟨r, t, w', [], h, rfl, rfl⟩

/-- Calls of an operation that works on a part of the object are calls of that operation. -/
theorem calls_part {τ : Type} {op : σ → Prog R E (ρ × σ)} {op' : τ → Prog R E (ρ × τ)}
    (whole : σ → τ) (hop : ∀ s, op' (whole s) = (fun p => (p.1, whole p.2)) <$> op s)
    {n : Nat} {s : σ} {t : τ} {w w' : World R E} {out : List ρ}
    (h : calls op' n (whole s) w = some ((out, t), w')) :
    ∃ s', t = whole s' ∧ calls op n s w = some ((out, s'), w') := by
  induction n generalizing s w out with
  | zero =>
    obtain ⟨rfl, rfl, rfl⟩ := pure_pair_eq_some.mp h
    exact ⟨s, rfl, rfl⟩
  | succ n ih =>
    obtain ⟨r, t1, w1, rs, hfirst, hrest, rfl⟩ := calls_succ_eq_some.mp h
    rw [hop, map_eq_pure_bind] at hfirst
    obtain ⟨⟨r', s1⟩, w2, hpart, hpure⟩ := bind_eq_some.mp hfirst
    obtain ⟨rfl, rfl, rfl⟩ := pure_pair_eq_some.mp hpure
    obtain ⟨s', rfl, hcalls⟩ := ih hrest
    exact ⟨s', rfl, calls_succ_eq_some.mpr ⟨r', s1, w2, rs, hpart, hcalls, rfl⟩⟩

/-! ## An object called in various ways -/

/-- Calls of the operations of an object, with what each of them returns. -/
def perform (op : ι → σ → Prog R E (ρ × σ)) : List ι → σ → Prog R E (List (ι × ρ) × σ)
  | [], s => pure ([], s)
  | i :: is, s => do
    let (r, s) ← op i s
    let (rs, s) ← perform op is s
    pure ((i, r) :: rs, s)

theorem perform_cons_eq_some {op : ι → σ → Prog R E (ρ × σ)} {i : ι} {is : List ι} {s t : σ}
    {w w' : World R E} {out : List (ι × ρ)} :
    perform op (i :: is) s w = some ((out, t), w') ↔
      ∃ r s1 w1 rs, op i s w = some ((r, s1), w1) ∧ perform op is s1 w1 = some ((rs, t), w') ∧
        out = (i, r) :: rs := by
  rw [perform, bind_eq_some]
  constructor
  · rintro ⟨⟨r, s1⟩, w1, h1, h⟩
    obtain ⟨⟨rs, t'⟩, w2, h2, h⟩ := bind_eq_some.mp h
    obtain ⟨rfl, rfl, rfl⟩ := pure_pair_eq_some.mp h
    exact ⟨r, s1, w1, rs, h1, h2, rfl⟩
  · rintro ⟨r, s1, w1, rs, h1, h2, rfl⟩
    exact ⟨(r, s1), w1, h1, bind_eq_some.mpr ⟨(rs, t), w', h2, rfl⟩⟩

/-- Partial correctness of calls in any order: what one call does to the results so far, the
    object and the world, all of them do. -/
theorem perform_rule {op : ι → σ → Prog R E (ρ × σ)} (I : List (ι × ρ) → σ → World R E → Prop)
    (hstep : ∀ rs s w i r s' w', I rs s w → op i s w = some ((r, s'), w') →
      I (rs ++ [(i, r)]) s' w')
    {is : List ι} {s t : σ} {w w' : World R E} (rs : List (ι × ρ)) {out : List (ι × ρ)}
    (hI : I rs s w) (h : perform op is s w = some ((out, t), w')) : I (rs ++ out) t w' := by
  induction is generalizing rs s w out with
  | nil =>
    obtain ⟨rfl, rfl, rfl⟩ := pure_pair_eq_some.mp h
    rwa [List.append_nil]
  | cons i is ih =>
    obtain ⟨r, s1, w1, rs', hop, hrest, rfl⟩ := perform_cons_eq_some.mp h
    have hI' := ih (rs ++ [(i, r)]) (hstep rs s w i r s1 w1 hI hop) hrest
    rwa [List.append_assoc] at hI'

/-- Each call is there with its result, in order. -/
theorem perform_calls {op : ι → σ → Prog R E (ρ × σ)} {is : List ι} {s t : σ} {w w' : World R E}
    {out : List (ι × ρ)} (h : perform op is s w = some ((out, t), w')) : out.map Prod.fst = is := by
  induction is generalizing s w out with
  | nil =>
    obtain ⟨rfl, rfl, rfl⟩ := pure_pair_eq_some.mp h
    rfl
  | cons i is ih =>
    obtain ⟨r, s1, w1, rs', hop, hrest, rfl⟩ := perform_cons_eq_some.mp h
    rw [List.map_cons, ih hrest]

/-! ## Programs that ask a bounded number of times -/

/-- If the environment has `k` moves left, `m` returns, and takes at most so many. -/
def Within (k : Nat) (m : Prog R E α) : Prop :=
  ∀ w, k ≤ w.script.length →
    ∃ a w', m w = some (a, w') ∧ w.script.length ≤ w'.script.length + k

theorem Within.pure (a : α) : Within 0 (Pure.pure a : Prog R E α) :=
  fun w _ => ⟨a, w, rfl, Nat.le_refl _⟩

theorem Within.mono {k k' : Nat} {m : Prog R E α} (h : Within k m) (hk : k ≤ k') :
    Within k' m := by
  intro w hw
  obtain ⟨a, w', hrun, hlen⟩ := h w (Nat.le_trans hk hw)
  exact ⟨a, w', hrun, by omega⟩

theorem Within.ask (r : R) : Within 1 (ask r : Prog R E E) := by
  intro w hw
  obtain ⟨script, trace⟩ := w
  rcases script with _ | ⟨e, script⟩
  · simp at hw
  · exact ⟨e, ⟨script, (r, e) :: trace⟩, rfl, Nat.le_refl _⟩

theorem Within.bind {k k' : Nat} {m : Prog R E α} {f : α → Prog R E β} (hm : Within k m)
    (hf : ∀ a, Within k' (f a)) : Within (k + k') (m >>= f) := by
  intro w hw
  obtain ⟨a, w1, h1, hlen1⟩ := hm w (by omega)
  obtain ⟨b, w2, h2, hlen2⟩ := hf a w1 (by omega)
  exact ⟨b, w2, bind_eq_some.mpr ⟨a, w1, h1, h2⟩, by omega⟩

/-- What follows asks nothing. -/
theorem Within.finish {k : Nat} {m : Prog R E α} {f : α → Prog R E β} (hm : Within k m)
    (hf : ∀ a, Within 0 (f a)) : Within k (m >>= f) := hm.bind hf

theorem Within.perform {k : Nat} {op : ι → σ → Prog R E (ρ × σ)} (hop : ∀ i s, Within k (op i s))
    (is : List ι) (s : σ) : Within (k * is.length) (perform op is s) := by
  induction is generalizing s with
  | nil => exact .pure _
  | cons i is ih =>
    have hrest : ∀ p : ρ × σ, Within (k * is.length + 0) (do
        let (rs, s) ← Dialogue.perform op is p.2
        Pure.pure ((i, p.1) :: rs, s)) := fun p => (ih p.2).bind fun _ => .pure _
    have hall := (hop i s).bind hrest
    rw [List.length_cons, Nat.mul_succ, Nat.add_comm]
    exact hall

/-! ## Part of a larger dialogue -/

section

variable {R' E' : Type}

/-- `m` in a dialogue with more requests: it sees one side of each move. -/
def embed (inj : R → R') (side : E' → E) (m : Prog R E α) : Prog R' E' α := fun w =>
  match m ⟨w.script.map side, []⟩ with
  | none => none
  | some (a, w1) =>
    let taken := w.script.take (w.script.length - w1.script.length)
    some (a, ⟨w.script.drop taken.length,
      (w1.trace.map fun p => inj p.1).zip taken.reverse ++ w.trace⟩)

theorem Settles.embed {P : E → Prop} {P' : E' → Prop} {m : Prog R E α} {a : α} {inj : R → R'}
    {side : E' → E} (hm : Settles P m a) (hside : ∀ e, P' e → P (side e)) :
    Settles P' (embed inj side m) a := by
  obtain ⟨k, hm⟩ := hm
  refine ⟨k, fun moves script trace hlen hmoves => ?_⟩
  obtain ⟨trace', hrun⟩ := hm (moves.map side) (script.map side) [] (by rw [List.length_map, hlen])
    (by
      intro e he
      obtain ⟨e', he', rfl⟩ := List.mem_map.mp he
      exact hside e' (hmoves e' he'))
  refine ⟨(trace'.map fun p => inj p.1).zip moves.reverse ++ trace, ?_⟩
  unfold Dialogue.embed
  simp [hrun]

end

end Dialogue
