/-
  Systems that take steps, and objects that answer calls.

  `Exec` is a run of a system with the labels of its steps, `Exec.rule` its induction. Of a label
  one may see something or nothing. A `Simulation` relates the states of two systems such that each
  step of the first looks like some steps of the second; then what is seen of the first may be seen
  of the second (`Simulation.traces`).

  `atomic` is an object that many parties call at once and that does each call in one step,
  somewhere between the call and its return, until it stops. Its runs are linear (`atomic_linear`):
  there is one order of the calls that were done in which the answers are those of a server that is
  called one at a time, and a call that had returned before another was made comes before it; only
  after the stop a call may be told that it was lost. What simulates such an object is linearizable.
-/
import Mathlib.Algebra.GroupWithZero.Nat
import Mathlib.Data.List.Forall2
import Mathlib.Data.List.Nodup

namespace Systems

/-! ## Runs -/

structure System (σ Λ : Type) where
  start : σ → Prop
  step : σ → Λ → σ → Prop

variable {σ τ Λ Μ V : Type}

/-- A run that led to this state, with the labels of its steps. -/
inductive System.Exec (M : System σ Λ) : List Λ → σ → Prop where
  | start {s : σ} (h : M.start s) : Exec M [] s
  | step {events : List Λ} {s s' : σ} {l : Λ} (h : Exec M events s) (hstep : M.step s l s') :
      Exec M (events ++ [l]) s'

/-- A run between two states. -/
inductive System.Path (M : System σ Λ) : σ → List Λ → σ → Prop where
  | nil (s : σ) : Path M s [] s
  | step {events : List Λ} {s s' s'' : σ} {l : Λ} (h : Path M s events s')
      (hstep : M.step s' l s'') : Path M s (events ++ [l]) s''

theorem System.Path.one {M : System σ Λ} {s s' : σ} {l : Λ} (h : M.step s l s') :
    M.Path s [l] s' :=
  .step (.nil s) h

theorem System.Exec.trans {M : System σ Λ} {events more : List Λ} {s s' : σ}
    (h : M.Exec events s) (hpath : M.Path s more s') : M.Exec (events ++ more) s' := by
  induction hpath with
  | nil s =>
    rw [List.append_nil]
    exact h
  | step _ hstep ih =>
    rw [← List.append_assoc]
    exact (ih h).step hstep

/-- What holds at the start and is kept by every step holds of every run. -/
theorem System.Exec.rule {M : System σ Λ} (I : List Λ → σ → Prop)
    (hstart : ∀ s, M.start s → I [] s)
    (hstep : ∀ events s l s', I events s → M.step s l s' → I (events ++ [l]) s')
    {events : List Λ} {s : σ} (h : M.Exec events s) : I events s := by
  induction h with
  | start h => exact hstart _ h
  | step _ hs ih => exact hstep _ _ _ _ ih hs

/-- Steps that use up a potential, but for what their labels add to it, are so many at most. -/
theorem System.Exec.bounded {M : System σ Λ} (potential : σ → Nat) (credit : Λ → Nat) (first : Nat)
    (hstart : ∀ s, M.start s → potential s ≤ first)
    (hstep : ∀ s l s', M.step s l s' → potential s' < potential s + credit l)
    {events : List Λ} {s : σ} (h : M.Exec events s) :
    potential s + events.length ≤ first + (events.map credit).sum := by
  refine h.rule (fun events s => potential s + events.length ≤ first + (events.map credit).sum)
    ?_ ?_
  · intro s hs
    have := hstart s hs
    simpa using this
  · intro events s l s' ih hs
    have := hstep s l s' hs
    simp only [List.length_append, List.length_singleton, List.map_append, List.map_singleton,
      List.sum_append, List.sum_singleton]
    omega

/-! ## Simulation -/

/-- Related states stay related: for a step of `C` there are some of `A` that look like it. -/
structure Simulation (C : System σ Λ) (A : System τ Μ) (look : Λ → Option V)
    (look' : Μ → Option V) (R : σ → τ → Prop) : Prop where
  start : ∀ s, C.start s → ∃ t, A.start t ∧ R s t
  step : ∀ s t l s', R s t → C.step s l s' →
    ∃ ms t', A.Path t ms t' ∧ ms.filterMap look' = (look l).toList ∧ R s' t'

/-- What is seen of `C` may be seen of `A`. -/
theorem Simulation.traces {C : System σ Λ} {A : System τ Μ} {look : Λ → Option V}
    {look' : Μ → Option V} {R : σ → τ → Prop} (h : Simulation C A look look' R) {events : List Λ}
    {s : σ} (hexec : C.Exec events s) :
    ∃ events' t, A.Exec events' t ∧ events'.filterMap look' = events.filterMap look ∧ R s t := by
  refine hexec.rule (fun events s => ∃ events' t, A.Exec events' t ∧
    events'.filterMap look' = events.filterMap look ∧ R s t) ?_ ?_
  · intro s hs
    obtain ⟨t, ht, hR⟩ := h.start s hs
    exact ⟨[], t, .start ht, rfl, hR⟩
  · intro events s l s' ⟨events', t, ht, hseen, hR⟩ hstep
    obtain ⟨ms, t', hpath, hlook, hR'⟩ := h.step s t l s' hR hstep
    refine ⟨events' ++ ms, t', ht.trans hpath, ?_, hR'⟩
    rw [List.filterMap_append, List.filterMap_append, hseen, hlook]
    cases hl : look l <;> simp [hl]

/-! ## Tables in step -/

section Tables

variable {α β : Type} {R : α → β → Prop} {xs : List α} {ys : List β}

theorem forall₂_getElem? (h : List.Forall₂ R xs ys) {i : Nat} {x : α} (hx : xs[i]? = some x) :
    ∃ y, ys[i]? = some y ∧ R x y := by
  induction h generalizing i with
  | nil => simp at hx
  | cons hhead _ ih =>
    cases i with
    | zero =>
      simp only [List.getElem?_cons_zero, Option.some.injEq] at hx
      subst hx
      exact ⟨_, rfl, hhead⟩
    | succ i => exact ih hx

theorem forall₂_set (h : List.Forall₂ R xs ys) {x : α} {y : β} (hxy : R x y) (i : Nat) :
    List.Forall₂ R (xs.set i x) (ys.set i y) := by
  induction h generalizing i with
  | nil => exact .nil
  | cons hhead htail ih =>
    cases i with
    | zero => exact .cons hxy htail
    | succ i => exact .cons hhead (ih i)

/-- What is in a table stays there when the table grows. -/
theorem getElem?_append_some {i : Nat} {x : α} (hx : xs[i]? = some x) (zs : List α) :
    (xs ++ zs)[i]? = some x := by
  rw [List.getElem?_append_left (List.getElem?_eq_some_iff.mp hx).1]
  exact hx

/-- An entry that is put where it was changes nothing. -/
theorem set_of_getElem? {i : Nat} {x : α} (hx : xs[i]? = some x) : xs.set i x = xs := by
  obtain ⟨hlt, rfl⟩ := List.getElem?_eq_some_iff.mp hx
  exact List.set_getElem_self hlt

/-- What is in a table after a change is what was put there or was there before. -/
theorem getElem?_of_set {i j : Nat} {x y : α} (hx : (xs.set i y)[j]? = some x) :
    (j = i ∧ x = y) ∨ (j ≠ i ∧ xs[j]? = some x) := by
  by_cases hij : i = j
  · subst hij
    have hlt : i < xs.length := by
      have := (List.getElem?_eq_some_iff.mp hx).1
      rwa [List.length_set] at this
    rw [List.getElem?_set_self hlt] at hx
    exact .inl ⟨rfl, (Option.some.inj hx).symm⟩
  · rw [List.getElem?_set_ne hij] at hx
    exact .inr ⟨Ne.symm hij, hx⟩

/-- What one change does to a sum over the table. -/
theorem sum_set (f : α → Nat) {i : Nat} {x : α} (hx : xs[i]? = some x) (y : α) :
    ((xs.set i y).map f).sum + f x = (xs.map f).sum + f y := by
  induction xs generalizing i with
  | nil => simp at hx
  | cons head tail ih =>
    cases i with
    | zero =>
      simp only [List.getElem?_cons_zero, Option.some.injEq] at hx
      subst hx
      simp only [List.set_cons_zero, List.map_cons, List.sum_cons]
      omega
    | succ i =>
      have := ih hx
      simp only [List.set_cons_succ, List.map_cons, List.sum_cons]
      omega

end Tables

/-! ## An atomic object -/

/-- What is seen of calls: call `i` is made, and it returns; and of the object, that it stops. -/
inductive Call (Q ρ : Type) where
  | invoke (i : Nat) (q : Q)
  | ret (i : Nat) (r : ρ)
  | stop

inductive Phase (Q ρ : Type) where
  | pending (q : Q)
  | performed (q : Q) (r : ρ)
  | finished

/-- The calls made so far, the server, the calls that were done, in the order in which they were,
    and whether the object has stopped. -/
structure AtomicState (S Q ρ : Type) where
  calls : List (Phase Q ρ)
  server : S
  history : List (Nat × Q × ρ)
  stopped : Bool

variable {S Q ρ : Type}

/-- How the server answers a request, and which results say that a call got no answer. -/
structure Service (S Q ρ : Type) where
  serve : S → Q → ρ → S → Prop
  lost : ρ → Prop

inductive AtomicStep (service : Service S Q ρ) :
    AtomicState S Q ρ → Option (Call Q ρ) → AtomicState S Q ρ → Prop where
  | invoke (s : AtomicState S Q ρ) (q : Q) :
      AtomicStep service s (some (.invoke s.calls.length q))
        { s with calls := s.calls ++ [.pending q] }
  | perform (s : AtomicState S Q ρ) {i : Nat} {q : Q} {r : ρ} {server : S}
      (hcall : s.calls[i]? = some (.pending q)) (hserve : service.serve s.server q r server)
      (hruns : s.stopped = false) :
      AtomicStep service s none
        { s with
          calls := s.calls.set i (.performed q r)
          server := server
          history := s.history ++ [(i, q, r)] }
  | ret (s : AtomicState S Q ρ) {i : Nat} {q : Q} {r : ρ}
      (hcall : s.calls[i]? = some (.performed q r)) :
      AtomicStep service s (some (.ret i r)) { s with calls := s.calls.set i .finished }
  | lose (s : AtomicState S Q ρ) {i : Nat} {phase : Phase Q ρ} {r : ρ}
      (hcall : s.calls[i]? = some phase) (hopen : phase ≠ .finished) (hlost : service.lost r)
      (hstopped : s.stopped = true) :
      AtomicStep service s (some (.ret i r)) { s with calls := s.calls.set i .finished }
  | stop (s : AtomicState S Q ρ) : AtomicStep service s (some .stop) { s with stopped := true }

/-- The object in front of a server that starts as `server`. -/
def atomic (service : Service S Q ρ) (server : S) :
    System (AtomicState S Q ρ) (Option (Call Q ρ)) where
  start s := s = ⟨[], server, [], false⟩
  step := AtomicStep service

/-- The server answers these requests so, one after the other. -/
inductive Serves (service : Service S Q ρ) : S → List (Q × ρ) → S → Prop where
  | nil (s : S) : Serves service s [] s
  | snoc {s s' s'' : S} {done : List (Q × ρ)} {q : Q} {r : ρ} (h : Serves service s done s')
      (hserve : service.serve s' q r s'') : Serves service s (done ++ [(q, r)]) s''

/-- The history is a linear order of what was seen, and all that was done to the server. -/
structure Linear (service : Service S Q ρ) (server now : S) (seen : List (Call Q ρ))
    (history : List (Nat × Q × ρ)) : Prop where
  /-- the server answers so, one call at a time -/
  served : Serves service server (history.map Prod.snd) now
  /-- no call is done twice -/
  once : (history.map Prod.fst).Nodup
  /-- what is done was asked for -/
  asked : ∀ i q r, (i, q, r) ∈ history → .invoke i q ∈ seen
  /-- a call returns the answer to it, or, after the stop, that it is lost -/
  answered : ∀ before after i r, seen = before ++ .ret i r :: after →
    (service.lost r ∧ .stop ∈ before) ∨ ∃ q, (i, q, r) ∈ history
  /-- what has returned at some moment with its answer comes before what is called later -/
  ordered : ∀ before after, seen = before ++ after → ∃ early late, history = early ++ late ∧
    (∀ i r, .ret i r ∈ before → (service.lost r ∧ .stop ∈ before) ∨ i ∈ early.map Prod.fst) ∧
    ∀ i q, .invoke i q ∈ after → i ∉ early.map Prod.fst
  /-- what is called after the stop is not done -/
  closed : ∀ before after, seen = before ++ .stop :: after →
    ∀ i q, .invoke i q ∈ after → i ∉ history.map Prod.fst

variable {service : Service S Q ρ} {server now : S} {seen : List (Call Q ρ)}
  {history : List (Nat × Q × ρ)}

/-- What holds of the calls in a run: one that is pending was made and not done, one that was
    performed is in the history, and no number is used that is not given yet; and the object knows
    of its stop. -/
structure Tracked (seen : List (Call Q ρ)) (s : AtomicState S Q ρ) : Prop where
  fresh : ∀ entry ∈ s.history, entry.1 < s.calls.length
  pending : ∀ i q, s.calls[i]? = some (.pending q) →
    .invoke i q ∈ seen ∧ i ∉ s.history.map Prod.fst
  performed : ∀ i q r, s.calls[i]? = some (.performed q r) → (i, q, r) ∈ s.history
  stopped : s.stopped = true ↔ .stop ∈ seen

/-- A call that ends stays as it was to all others. -/
theorem Tracked.finish {s : AtomicState S Q ρ} (h : Tracked seen s) (i : Nat) (r : ρ) :
    Tracked (seen ++ [.ret i r]) { s with calls := s.calls.set i .finished } := by
  have hold : ∀ (j : Nat) (phase : Phase Q ρ), phase ≠ .finished →
      (s.calls.set i .finished)[j]? = some phase → s.calls[j]? = some phase := by
    intro j phase hopen hj
    rcases getElem?_of_set hj with ⟨-, heq⟩ | ⟨-, hold⟩
    · exact absurd heq hopen
    · exact hold
  refine ⟨?_, ?_, ?_, ?_⟩
  · intro entry hentry
    rw [List.length_set]
    exact h.fresh entry hentry
  · intro j q hj
    obtain ⟨hseen, hnew⟩ := h.pending j q (hold j _ (by simp) hj)
    exact ⟨List.mem_append_left _ hseen, hnew⟩
  · intro j q r hj
    exact h.performed j q r (hold j _ (by simp) hj)
  · simpa using h.stopped

theorem Tracked.step {s s' : AtomicState S Q ρ} {l : Option (Call Q ρ)} (h : Tracked seen s)
    (hstep : AtomicStep service s l s') : Tracked (seen ++ l.toList) s' := by
  cases hstep with
  | invoke q =>
    refine ⟨?_, ?_, ?_, ?_⟩
    · intro entry hentry
      have := h.fresh entry hentry
      simp only [List.length_append, List.length_singleton]
      omega
    · intro i q' hi
      rw [List.getElem?_append] at hi
      split at hi
      · obtain ⟨hseen, hnew⟩ := h.pending i q' hi
        exact ⟨List.mem_append_left _ hseen, hnew⟩
      · next hlen =>
        have heq : i - s.calls.length = 0 ∧ q = q' := by
          cases hd : i - s.calls.length <;> simp_all
        have hi' : i = s.calls.length := by omega
        refine ⟨by simp [hi', heq.2], ?_⟩
        intro hmem
        obtain ⟨entry, hentry, rfl⟩ := List.mem_map.mp hmem
        have := h.fresh entry hentry
        omega
    · intro i q' r hi
      rw [List.getElem?_append] at hi
      split at hi
      · exact h.performed i q' r hi
      · cases hd : i - s.calls.length <;> simp_all
    · simpa using h.stopped
  | @perform i q r server' hcall hserve hruns =>
    have hlt : i < s.calls.length := (List.getElem?_eq_some_iff.mp hcall).1
    refine ⟨?_, ?_, ?_, ?_⟩
    · intro entry hentry
      rw [List.length_set]
      rcases List.mem_append.mp hentry with hold | hnew
      · exact h.fresh entry hold
      · rw [List.mem_singleton.mp hnew]
        exact hlt
    · intro j q' hj
      rcases getElem?_of_set hj with ⟨-, heq⟩ | ⟨hne, hold⟩
      · simp at heq
      · obtain ⟨hseen, hnew⟩ := h.pending j q' hold
        refine ⟨List.mem_append_left _ hseen, ?_⟩
        rw [List.map_append, List.mem_append]
        rintro (hmem | hmem)
        · exact hnew hmem
        · exact hne (List.mem_singleton.mp hmem)
    · intro j q' r' hj
      rcases getElem?_of_set hj with ⟨rfl, heq⟩ | ⟨-, hold⟩
      · injection heq with hq hr
        subst hq hr
        exact List.mem_append_right _ (List.mem_singleton.mpr rfl)
      · exact List.mem_append_left _ (h.performed j q' r' hold)
    · simpa using h.stopped
  | ret hcall => exact h.finish _ _
  | lose hcall hopen hlost hstopped => exact h.finish _ _
  | stop =>
    refine ⟨h.fresh, ?_, h.performed, by simp⟩
    intro i q hi
    obtain ⟨hseen, hnew⟩ := h.pending i q hi
    exact ⟨List.mem_append_left _ hseen, hnew⟩

/-- Where an event stands that was seen before another, or is this other one. -/
theorem cut_snoc {c : Call Q ρ} {before after : List (Call Q ρ)} {d : Call Q ρ}
    (h : seen ++ [c] = before ++ d :: after) :
    (after = [] ∧ seen = before ∧ c = d) ∨
      ∃ after', after = after' ++ [c] ∧ seen = before ++ d :: after' := by
  rcases List.eq_nil_or_concat after with rfl | ⟨after', c', rfl⟩
  · obtain ⟨hseen, hc⟩ := List.append_inj' h rfl
    exact .inl ⟨rfl, hseen, List.singleton_inj.mp hc⟩
  · rw [List.concat_eq_append, ← List.cons_append, ← List.append_assoc] at h
    obtain ⟨hseen, hc⟩ := List.append_inj' h rfl
    rw [List.singleton_inj.mp hc, List.concat_eq_append]
    exact .inr ⟨after', rfl, hseen⟩

/-- An event later than all that was done so far: it leaves the history as it is. -/
theorem Linear.observe {c : Call Q ρ} (h : Linear service server now seen history)
    (hanswer : ∀ i r, c = .ret i r → (service.lost r ∧ .stop ∈ seen) ∨ ∃ q, (i, q, r) ∈ history)
    (hnew : ∀ i q, c = .invoke i q → i ∉ history.map Prod.fst) :
    Linear service server now (seen ++ [c]) history where
  served := h.served
  once := h.once
  asked i q r hmem := List.mem_append_left _ (h.asked i q r hmem)
  answered before after i r hcut := by
    rcases cut_snoc hcut with ⟨-, rfl, hc⟩ | ⟨after', -, hseen⟩
    · exact hanswer i r hc
    · exact h.answered before after' i r hseen
  ordered before after hcut := by
    rcases List.eq_nil_or_concat after with rfl | ⟨after', c', rfl⟩
    · -- the cut is at the end: all that was done comes before it
      rw [List.append_nil] at hcut
      subst hcut
      refine ⟨history, [], (List.append_nil _).symm, ?_, by simp⟩
      intro i r hmem
      have hend : (service.lost r ∧ .stop ∈ seen) ∨ ∃ q, (i, q, r) ∈ history := by
        rcases List.mem_append.mp hmem with hold | hc
        · obtain ⟨before, after, hseen⟩ := List.append_of_mem hold
          refine (h.answered before after i r hseen).imp_left fun hlost => ⟨hlost.1, ?_⟩
          rw [hseen]
          exact List.mem_append_left _ hlost.2
        · exact hanswer i r (List.mem_singleton.mp hc).symm
      rcases hend with ⟨hlost, hstop⟩ | ⟨q, hq⟩
      · exact .inl ⟨hlost, List.mem_append_left _ hstop⟩
      · exact .inr (List.mem_map.mpr ⟨_, hq, rfl⟩)
    · rw [List.concat_eq_append, ← List.append_assoc] at hcut
      obtain ⟨hseen, hc⟩ := List.append_inj' hcut rfl
      obtain ⟨early, late, heq, hbefore, hafter⟩ := h.ordered before after' hseen
      refine ⟨early, late, heq, hbefore, ?_⟩
      intro i q hmem
      rw [List.concat_eq_append] at hmem
      rcases List.mem_append.mp hmem with hold | hlast
      · exact hafter i q hold
      · intro hearly
        have hinvoke : c = .invoke i q := by
          rw [List.singleton_inj.mp hc, List.mem_singleton.mp hlast]
        refine hnew i q hinvoke ?_
        rw [heq, List.map_append]
        exact List.mem_append_left _ hearly
  closed before after hcut i q hmem := by
    rcases cut_snoc hcut with ⟨rfl, -, -⟩ | ⟨after', rfl, hseen⟩
    · cases hmem
    · rcases List.mem_append.mp hmem with hold | hc
      · exact h.closed before after' hseen i q hold
      · exact hnew i q (List.mem_singleton.mp hc).symm

/-- A call that is done comes after all that was done so far, and before the stop. -/
theorem Linear.extend {i : Nat} {q : Q} {r : ρ} {next : S}
    (h : Linear service server now seen history) (hserve : service.serve now q r next)
    (hasked : .invoke i q ∈ seen) (hnew : i ∉ history.map Prod.fst) (hruns : .stop ∉ seen) :
    Linear service server next seen (history ++ [(i, q, r)]) where
  served := by
    rw [List.map_append]
    exact .snoc h.served hserve
  once := by
    rw [List.map_append]
    exact List.Nodup.append h.once (List.nodup_singleton _)
      (List.disjoint_singleton.mpr hnew)
  asked j q' r' hmem := by
    rcases List.mem_append.mp hmem with hold | hlast
    · exact h.asked j q' r' hold
    · simp only [List.mem_singleton, Prod.mk.injEq] at hlast
      rw [hlast.1, hlast.2.1]
      exact hasked
  answered before after j r' hcut := by
    rcases h.answered before after j r' hcut with hlost | ⟨q', hq'⟩
    · exact .inl hlost
    · exact .inr ⟨q', List.mem_append_left _ hq'⟩
  ordered before after hcut := by
    obtain ⟨early, late, heq, hbefore, hafter⟩ := h.ordered before after hcut
    exact ⟨early, late ++ [(i, q, r)], by rw [heq, List.append_assoc], hbefore, hafter⟩
  closed before after hcut := by
    refine absurd ?_ hruns
    rw [hcut]
    exact List.mem_append_right _ List.mem_cons_self

/-- The runs of an object that does each call in one step are linear, in the order of these
    steps. -/
theorem atomic_linear {events : List (Option (Call Q ρ))} {s : AtomicState S Q ρ}
    (h : (atomic service server).Exec events s) :
    Linear service server s.server (events.filterMap id) s.history := by
  have hall : Tracked (events.filterMap id) s ∧
      Linear service server s.server (events.filterMap id) s.history := by
    refine h.rule (fun events s => Tracked (events.filterMap id) s ∧
      Linear service server s.server (events.filterMap id) s.history) ?_ ?_
    · rintro s rfl
      refine ⟨⟨by simp, by simp, by simp, by simp⟩, .nil _, by simp, by simp, by simp, ?_, by simp⟩
      intro before after hcut
      exact ⟨[], [], rfl, by simp_all, by simp⟩
    · intro events s l s' ⟨htracked, hlinear⟩ hstep
      have hseen : (events ++ [l]).filterMap id = events.filterMap id ++ l.toList := by
        rw [List.filterMap_append]
        cases l <;> rfl
      rw [hseen]
      refine ⟨htracked.step hstep, ?_⟩
      cases hstep with
      | invoke q =>
        refine hlinear.observe (by simp) ?_
        intro i q' hc hmem
        obtain ⟨entry, hentry, rfl⟩ := List.mem_map.mp hmem
        have hlen : s.calls.length = entry.1 := by
          injection hc
        have := htracked.fresh entry hentry
        omega
      | perform hcall hserve hruns =>
        obtain ⟨hseen, hnew⟩ := htracked.pending _ _ hcall
        have hopen : .stop ∉ events.filterMap id := by
          rw [← htracked.stopped, hruns]
          exact Bool.false_ne_true
        rw [Option.toList_none, List.append_nil]
        exact hlinear.extend hserve hseen hnew hopen
      | @ret i q r hcall =>
        refine hlinear.observe ?_ (by simp)
        intro j r' hc
        injection hc with hi hr
        subst hi hr
        exact .inr ⟨_, htracked.performed _ _ _ hcall⟩
      | @lose i phase r hcall hopen hlost hstopped =>
        refine hlinear.observe ?_ (by simp)
        intro j r' hc
        injection hc with hi hr
        subst hr
        exact .inl ⟨hlost, htracked.stopped.mp hstopped⟩
      | stop => exact hlinear.observe (by simp) (by simp)
  exact hall.2

end Systems
