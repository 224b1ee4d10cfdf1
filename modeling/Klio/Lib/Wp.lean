import Klio.Lib.Interleave

/-!
# Programs that may be cut at any operation

A process that runs alone may crash between any two of its operations, and any operation may fail. What is known
of the state at every such point is an invariant of the program, next to what it is known to end in.

* `Prog.cut`: the state after the first operations of a program.
* `Prog.Wp`: from this state on, for every choice that is allowed, every cut meets `J`, and the program ends in `Q`
  or `X`. The rules are `wp_bind`, `wp_mono`, `wp_attempt` and `wp_mapErr`.
* `Wp.cut`, `Wp.eval`: what this says about runs.
-/

namespace Klio.Lib

variable {ι O : Type} {R : O → Type} {E S C K α β : Type}

namespace Prog

/-- The state after the first `n` operations. -/
def cut (M : Sem ι O R S C K) (i : ι) : ℕ → Prog O R E α → (ℕ → C) → S → S
  | n + 1, .call o k, cs, s => (k (M.exec i o (cs 0) s).1).cut M i n (fun m => cs (m + 1)) (M.exec i o (cs 0) s).2
  | _, _, _, s => s

/-- **The program run from this state**: every cut meets `J`, and it ends in `Q` or `X`. -/
def Wp (M : Sem ι O R S C K) (i : ι) (ok : C → Prop) (J : S → Prop) (Q : α → S → Prop) (X : E → S → Prop) :
    Prog O R E α → S → Prop
  | .ret a, s => J s ∧ Q a s
  | .err e, s => J s ∧ X e s
  | .call o k, s => J s ∧ ∀ c, ok c → (k (M.exec i o c s).1).Wp M i ok J Q X (M.exec i o c s).2

variable {M : Sem ι O R S C K} {i : ι} {ok : C → Prop} {J : S → Prop} {Q : α → S → Prop} {X : E → S → Prop}

theorem Wp.here {p : Prog O R E α} {s : S} (h : p.Wp M i ok J Q X s) : J s := by
  cases p with
  | ret a => exact h.1
  | err e => exact h.1
  | call o k => exact h.1

theorem wp_mono {J' : S → Prop} {Q' : α → S → Prop} {X' : E → S → Prop} (hJ : ∀ s, J s → J' s)
    (hQ : ∀ a s, J s → Q a s → Q' a s) (hX : ∀ e s, J s → X e s → X' e s) :
    ∀ {p : Prog O R E α} {s : S}, p.Wp M i ok J Q X s → p.Wp M i ok J' Q' X' s := by
  intro p
  induction p with
  | ret a => exact fun h => ⟨hJ _ h.1, hQ _ _ h.1 h.2⟩
  | err e => exact fun h => ⟨hJ _ h.1, hX _ _ h.1 h.2⟩
  | call o k ih => exact fun h => ⟨hJ _ h.1, fun c hc => ih _ (h.2 c hc)⟩

/-- **Sequencing**: the second program runs from wherever the first has returned. -/
theorem wp_bind {Q' : β → S → Prop} {f : α → Prog O R E β} (hf : ∀ a s, J s → Q a s → (f a).Wp M i ok J Q' X s) :
    ∀ {p : Prog O R E α} {s : S}, p.Wp M i ok J Q X s → (p.bind f).Wp M i ok J Q' X s := by
  intro p
  induction p with
  | ret a => exact fun h => hf a _ h.1 h.2
  | err e => exact fun h => h
  | call o k ih => exact fun h => ⟨h.1, fun c hc => ih _ (h.2 c hc)⟩

theorem wp_attempt {Q' : Except E α → S → Prop} : ∀ {p : Prog O R E α} {s : S},
    p.Wp M i ok J (fun a => Q' (.ok a)) (fun e => Q' (.error e)) s → p.attempt.Wp M i ok J Q' X s := by
  intro p
  induction p with
  | ret a => exact fun h => h
  | err e => exact fun h => h
  | call o k ih => exact fun h => ⟨h.1, fun c hc => ih _ (h.2 c hc)⟩

theorem wp_mapErr {f : E → E} : ∀ {p : Prog O R E α} {s : S},
    p.Wp M i ok J Q (fun e => X (f e)) s → (p.mapErr f).Wp M i ok J Q X s := by
  intro p
  induction p with
  | ret a => exact fun h => h
  | err e => exact fun h => h
  | call o k ih => exact fun h => ⟨h.1, fun c hc => ih _ (h.2 c hc)⟩

/-- **A cut anywhere** meets the invariant. -/
theorem Wp.cut : ∀ (n : ℕ) {p : Prog O R E α} {s : S} (cs : ℕ → C), p.Wp M i ok J Q X s → (∀ m, ok (cs m)) →
    J (p.cut M i n cs s) := by
  intro n
  induction n with
  | zero =>
    intro p s cs h _
    exact h.here
  | succ n ih =>
    intro p s cs h hcs
    cases p with
    | ret a => exact h.1
    | err e => exact h.1
    | call o k => exact ih _ (h.2 _ (hcs 0)) fun m => hcs (m + 1)

/-- **A run to the end**, with what it ends in. -/
theorem Wp.eval : ∀ {p : Prog O R E α} {s : S} (cs : ℕ → C), p.Wp M i ok J Q X s → (∀ m, ok (cs m)) →
    J (p.eval M i cs s).2 ∧ (∀ a, (p.eval M i cs s).1 = .ok a → Q a (p.eval M i cs s).2) ∧
      ∀ e, (p.eval M i cs s).1 = .error e → X e (p.eval M i cs s).2 := by
  intro p
  induction p with
  | ret a =>
    intro s cs h _
    refine ⟨h.1, fun a' ha => ?_, nofun⟩
    cases ha
    exact h.2
  | err e =>
    intro s cs h _
    refine ⟨h.1, nofun, fun e' he => ?_⟩
    cases he
    exact h.2
  | call o k ih =>
    intro s cs h hcs
    exact ih _ _ (h.2 _ (hcs 0)) fun m => hcs (m + 1)

end Prog

end Klio.Lib
