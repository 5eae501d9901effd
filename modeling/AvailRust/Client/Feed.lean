/-
  A node whose finalized height never falls.

  `Feed S` is every behaviour of a node that shows `S g` while its finalized height is `g`:
  the height may grow between any two requests, and any request may fail instead. What `S`
  says of a view is up to the statement; the cursor needs no more than the hashes up to the
  finalized height.

  `Yields` is the specification of a program against a feed: what it returns, and that it
  fails only when its last request does. It has a rule for each way programs are put together.
-/
import AvailRust.Client.Heads

namespace AvailRust

open Dialogue

variable {S : Nat → View → Prop} {f top : Nat}

/-- What a node may play whose finalized height is `f` now and `top` in the end. -/
inductive Feed (S : Nat → View → Prop) : Nat → List Event → Nat → Prop where
  | done (top : Nat) : Feed S top [] top
  | fail {f top : Nat} {script : List Event} (reached : Option View) (error : RpcError)
      (rest : Feed S f script top) : Feed S f (.fail reached error :: script) top
  | answer {f g top : Nat} {script : List Event} {v : View} (hle : f ≤ g) (hv : S g v)
      (rest : Feed S g script top) : Feed S f (.answer v :: script) top

theorem Feed.le {script : List Event} (h : Feed S f script top) : f ≤ top := by
  induction h with
  | done top => exact le_rfl
  | fail _ _ _ ih => exact ih
  | answer hle _ _ ih => exact hle.trans ih

/-- The first move of a feed: an error, or an answer from a view. -/
theorem Feed.cons {e : Event} {script : List Event} (h : Feed S f (e :: script) top)
    (r : Request) :
    ∃ g, f ≤ g ∧ Feed S g script top ∧
      ((∃ err, e.response r = .error err) ∨ ∃ v, S g v ∧ e.response r = v r) := by
  cases h with
  | fail reached error rest => exact ⟨f, le_rfl, rest, .inl ⟨error, rfl⟩⟩
  | answer hle hv rest => exact ⟨_, hle, rest, .inr ⟨_, hv, rfl⟩⟩

/-- A node that answers every request, and finalizes nothing more. -/
theorem Feed.settled {script : List Event} (h : ∀ e ∈ script, ∃ v, e = .answer v ∧ S f v) :
    Feed S f script f := by
  induction script with
  | nil => exact .done f
  | cons e script ih =>
    obtain ⟨v, rfl, hv⟩ := h e List.mem_cons_self
    exact .answer le_rfl hv (ih fun e' he => h e' (List.mem_cons_of_mem _ he))

/-- A node that does not change. -/
theorem Feed.replicate {g : Nat} {v : View} (hv : S g v) (hf : f ≤ g) (k : Nat) :
    ∃ top ≤ g, Feed S f (List.replicate k (.answer v)) top := by
  cases k with
  | zero => exact ⟨f, hf, .done f⟩
  | succ k =>
    exact ⟨g, le_rfl, .answer hf hv (.settled fun e he => ⟨v, List.eq_of_mem_replicate he, hv⟩)⟩

/-- What a run has seen of a feed is errors and views, and the rest is a feed again. -/
theorem Feed.after {w w' : RpcWorld}
    {new : List (Request × Event)} (hw : Feed S f w.script top) (h : w.After new w') :
    (∃ g, f ≤ g ∧ Feed S g w'.script top) ∧
      ∀ q ∈ new, (∃ v g, q.2 = .answer v ∧ S g v) ∨ ∃ reached err, q.2 = .fail reached err := by
  obtain ⟨-, hscript⟩ := h
  have hmoves : ∀ moves : List Event, Feed S f (moves ++ w'.script) top →
      (∃ g, f ≤ g ∧ Feed S g w'.script top) ∧
        ∀ e ∈ moves, (∃ v g, e = .answer v ∧ S g v) ∨ ∃ reached err, e = .fail reached err := by
    clear hw hscript
    intro moves
    induction moves generalizing f with
    | nil => exact fun hw => ⟨⟨f, le_rfl, hw⟩, nofun⟩
    | cons e moves ih =>
      intro hw
      cases hw with
      | fail reached err rest =>
        obtain ⟨hrest, hall⟩ := ih rest
        refine ⟨hrest, fun e' he => ?_⟩
        rcases List.mem_cons.mp he with rfl | he
        · exact .inr ⟨reached, err, rfl⟩
        · exact hall e' he
      | answer hle hv rest =>
        obtain ⟨⟨g, hg, hrest⟩, hall⟩ := ih rest
        refine ⟨⟨g, hle.trans hg, hrest⟩, fun e' he => ?_⟩
        rcases List.mem_cons.mp he with rfl | he
        · exact .inl ⟨_, _, rfl, hv⟩
        · exact hall e' he
  rw [hscript] at hw
  obtain ⟨hrest, hall⟩ := hmoves _ hw
  exact ⟨hrest, fun q hq => hall q.2 (List.mem_reverse.mpr (List.mem_map_of_mem hq))⟩

/-- A whole run from a feed has seen errors and views only. -/
theorem Feed.trace {α : Type} {m : Rpc α} {a : α}
    {script : List Event} {w' : RpcWorld} (hw : Feed S f script top) (hm : Logged m)
    (h : m (start Request script) = some (a, w')) {q : Request × Event} (hq : q ∈ w'.trace) :
    (∃ v g, q.2 = .answer v ∧ S g v) ∨ ∃ reached err, q.2 = .fail reached err := by
  obtain ⟨new, hnew⟩ := hm _ _ _ h
  refine (hw.after hnew).2 q ?_
  have htrace := hnew.1
  rw [show (start Request script).trace = [] from rfl, List.append_nil] at htrace
  rwa [← htrace]

/-- Whether the last request was met with an error. -/
def lastFailed (w : RpcWorld) : Bool :=
  match w.trace with
  | [] => false
  | (r, e) :: _ => isError (e.response r)

/-- A retried request ends with an error of its last attempt or an answer from a view. -/
theorem Asked.fed {r : Request} {retried : Except RpcError r.Response → Bool} {w w' : RpcWorld}
    {x : Except RpcError r.Response} (h : Asked r retried w x w') (hw : Feed S f w.script top) :
    ∃ g, f ≤ g ∧ Feed S g w'.script top ∧ lastFailed w' = isError x ∧
      ((∃ err, x = .error err) ∨ ∃ v, S g v ∧ x = v r) := by
  induction h generalizing f with
  | last hs ht =>
    rw [hs] at hw
    obtain ⟨g, hg, hrest, hx⟩ := hw.cons r
    refine ⟨g, hg, hrest, ?_, hx⟩
    simp only [lastFailed, ht]
  | again hs ht he rest ih =>
    rw [hs] at hw
    obtain ⟨g, hg, hrest, -⟩ := hw.cons r
    obtain ⟨g', hg', h'⟩ := ih hrest
    exact ⟨g', hg.trans hg', h'⟩

/-! ## Reading from a feed -/

variable {ε ε' α β : Type}

/-- From a feed that starts at height `f`, what `m` returns is `good` for the height the feed
    has reached by then, and `m` fails only when its last request does. -/
def Yields (S : Nat → View → Prop) (f top : Nat) (m : Rpc (Except ε α)) (good : Nat → α → Prop) :
    Prop :=
  ∀ w r w', Feed S f w.script top → m w = some (r, w') →
    ∃ g, f ≤ g ∧ Feed S g w'.script top ∧ lastFailed w' = isError r ∧ ∀ x, r = .ok x → good g x

/-- An answer a view gives to a request at height `g`. -/
def Answer (S : Nat → View → Prop) (r : Request) (g : Nat) (x : r.Response) : Prop :=
  ∃ v, S g v ∧ v r = .ok x

theorem Yields.of_asked {r : Request} {m : Rpc (Except RpcError r.Response)}
    {retried : Except RpcError r.Response → Bool}
    (hm : ∀ w x w', m w = some (x, w') → Asked r retried w x w') :
    Yields S f top m (Answer S r) := by
  intro w x w' hw h
  obtain ⟨g, hg, hrest, hlast, hx⟩ := (hm w x w' h).fed hw
  refine ⟨g, hg, hrest, hlast, ?_⟩
  rintro a rfl
  rcases hx with ⟨err, herr⟩ | ⟨v, hv, ha⟩
  · cases herr
  · exact ⟨v, hv, ha.symm⟩

theorem Yields.withRetryOnError (r : Request) (retry : Bool) :
    Yields S f top (withRetryOnError (call r) retry) (Answer S r) :=
  .of_asked fun _ _ _ => withRetryOnError_asked

/-- A program that goes on with what a first part yields. -/
theorem Yields.bind {m : Rpc (Except ε α)} {k : Except ε α → Rpc (Except ε' β)}
    {P : Nat → α → Prop} {Q : Nat → β → Prop} (hm : Yields S f top m P)
    (herror : ∀ e, ∃ e', k (.error e) = pure (.error e'))
    (hok : ∀ g x, f ≤ g → P g x → Yields S g top (k (.ok x)) Q) :
    Yields S f top (m >>= k) Q := by
  intro w r w' hw h
  obtain ⟨x, w1, hx, h⟩ := bind_eq_some.mp h
  obtain ⟨g, hg, hw1, hlast, hgood⟩ := hm w x w1 hw hx
  cases x with
  | error e =>
    obtain ⟨e', he⟩ := herror e
    rw [he] at h
    obtain ⟨rfl, rfl⟩ := pure_eq_some.mp h
    exact ⟨g, hg, hw1, hlast, nofun⟩
  | ok x =>
    obtain ⟨g', hg', h'⟩ := hok g x hg (hgood x rfl) w1 r w' hw1 h
    exact ⟨g', hg.trans hg', h'⟩

/-- A program that computes its result from what a first part yields. -/
theorem Yields.finish {m : Rpc (Except ε α)} {k : Except ε α → Rpc (Except ε' β)}
    {P : Nat → α → Prop} {Q : Nat → β → Prop} (hm : Yields S f top m P)
    (herror : ∀ e, ∃ e', k (.error e) = pure (.error e'))
    (hok : ∀ g x, f ≤ g → P g x → ∃ y, k (.ok x) = pure (.ok y) ∧ Q g y) :
    Yields S f top (m >>= k) Q := by
  intro w r w' hw h
  obtain ⟨x, w1, hx, h⟩ := bind_eq_some.mp h
  obtain ⟨g, hg, hw1, hlast, hgood⟩ := hm w x w1 hw hx
  cases x with
  | error e =>
    obtain ⟨e', he⟩ := herror e
    rw [he] at h
    obtain ⟨rfl, rfl⟩ := pure_eq_some.mp h
    exact ⟨g, hg, hw1, hlast, nofun⟩
  | ok x =>
    obtain ⟨y, hy, hQ⟩ := hok g x hg (hgood x rfl)
    rw [hy] at h
    obtain ⟨rfl, rfl⟩ := pure_eq_some.mp h
    refine ⟨g, hg, hw1, hlast, ?_⟩
    rintro y' h'
    cases h'
    exact hQ

/-- What `m` yields satisfies whatever follows from it. -/
theorem Yields.imp {m : Rpc (Except ε α)} {P Q : Nat → α → Prop} (hm : Yields S f top m P)
    (h : ∀ g x, f ≤ g → P g x → Q g x) : Yields S f top m Q := by
  intro w r w' hw hrun
  obtain ⟨g, hg, hrest, hlast, hgood⟩ := hm w r w' hw hrun
  exact ⟨g, hg, hrest, hlast, fun x hx => h g x hg (hgood x hx)⟩

/-! ## Heads and hashes -/

/-- Whatever else `S` says, its views show one chain of finalized blocks. -/
def ShowsChain (S : Nat → View → Prop) (hashAt : Nat → H256) : Prop :=
  ∀ g v, S g v → ShowsFinalized v hashAt g

variable {hashAt : Nat → H256}

theorem blockHash_yields (hS : ShowsChain S hashAt) (chain : Chain) {n : Nat} (hn : n ≤ f) :
    Yields S f top (chain.blockHash (some n)) (fun _ x => x = some (hashAt n)) := by
  refine (Yields.of_asked (r := .getBlockHash (some n)) fun _ _ _ => Chain.blockHash_asked).imp ?_
  rintro g x hg ⟨v, hv, hx⟩
  rw [(hS g v hv).blockHash n (hn.trans hg)] at hx
  cases hx
  rfl

theorem blockInfo_yields (hS : ShowsChain S hashAt) (chain : Chain) :
    Yields S f top (chain.blockInfo false) (fun g x => x = ⟨hashAt g, g⟩) := by
  refine (Yields.withRetryOnError (.latestBlockInfo false) _).imp ?_
  rintro g x - ⟨v, hv, hx⟩
  rw [(hS g v hv).finalizedHead] at hx
  cases hx
  rfl

end AvailRust
