import Klio.Lib.Interleave

/-!
# A program under interference

What a program can be shown to do while other processes change the shared state. A `Contract` says
what the others may do between two operations (`rely`), what is assumed of the state in which an
operation is issued (`assume`), and what has to be shown of it (`ensure`).

* `Contract.Meets`: the program meets the contract from a state on, and ends in `Q` or `X`. The rules
  are `meets_call`, `meets_bind`, `meets_attempt`, and `meets_uses` for operations of which nothing
  has to be shown.
* `Keeps`, `run_contract`: in a system, the process meets its contract along every run in which the
  assumptions hold.
-/

namespace Klio.Lib

variable {ι O : Type} {R : O → Type} {E S C K α β : Type}

/-- **A contract** of one process. -/
structure Contract (O S : Type) where
  rely : S → S → Prop
  assume : O → S → Prop
  ensure : O → S → Prop

/-- **The program meets the contract** from the state `s` on: it is enough to consider operations
issued in states that the others may lead to and that are as assumed. -/
def Contract.Meets (J : Contract O S) (M : Sem ι O R S C K) (i : ι) (Q : α → S → Prop) (X : E → S → Prop) :
    Prog O R E α → S → Prop
  | .ret a, s => Q a s
  | .err e, s => X e s
  | .call o k, s => ∀ s', J.rely s s' → J.assume o s' →
      J.ensure o s' ∧ ∀ c, J.Meets M i Q X (k (M.exec i o c s').1) (M.exec i o c s').2

namespace Contract

variable {J : Contract O S} {M : Sem ι O R S C K} {i : ι} {Q : α → S → Prop} {X : E → S → Prop}

theorem meets_mono {Q' : α → S → Prop} {X' : E → S → Prop} (hQ : ∀ a s, Q a s → Q' a s) (hX : ∀ e s, X e s → X' e s) :
    ∀ {p : Prog O R E α} {s : S}, J.Meets M i Q X p s → J.Meets M i Q' X' p s := by
  intro p
  induction p with
  | ret a => exact fun h => hQ a _ h
  | err e => exact fun h => hX e _ h
  | call o k ih =>
    intro s h s' hr ha
    obtain ⟨he, hk⟩ := h s' hr ha
    exact ⟨he, fun c => ih _ (hk c)⟩

theorem meets_bind {Q' : β → S → Prop} {f : α → Prog O R E β} :
    ∀ {p : Prog O R E α} {s : S}, J.Meets M i Q X p s → (∀ a s', Q a s' → J.Meets M i Q' X (f a) s') →
      J.Meets M i Q' X (p.bind f) s := by
  intro p
  induction p with
  | ret a => exact fun h hf => hf a _ h
  | err e => exact fun h _ => h
  | call o k ih =>
    intro s h hf s' hr ha
    obtain ⟨he, hk⟩ := h s' hr ha
    exact ⟨he, fun c => ih _ (hk c) hf⟩

theorem meets_attempt {Y : Except E α → S → Prop} :
    ∀ {p : Prog O R E α} {s : S}, J.Meets M i (fun a => Y (.ok a)) (fun e => Y (.error e)) p s →
      J.Meets M i Y X p.attempt s := by
  intro p
  induction p with
  | ret a => exact fun h => h
  | err e => exact fun h => h
  | call o k ih =>
    intro s h s' hr ha
    obtain ⟨he, hk⟩ := h s' hr ha
    exact ⟨he, fun c => ih _ (hk c)⟩

theorem meets_mapErr {F : S → Prop} {f : E → E} {p : Prog O R E α} {s : S}
    (h : J.Meets M i Q (fun _ => F) p s) : J.Meets M i Q (fun _ => F) (p.mapErr f) s := by
  refine meets_bind (Q := Prog.Ends Q fun _ => F) (meets_attempt h) ?_
  intro out s' hout
  cases out with
  | ok a => exact hout
  | error e => exact hout

theorem meets_uses {P : O → Prop} {F : S → Prop} (hens : ∀ o s, P o → J.ensure o s)
    (hrely : ∀ s s', F s → J.rely s s' → F s') (hexec : ∀ o c s, P o → F s → F (M.exec i o c s).2) :
    ∀ {p : Prog O R E α} {s : S}, p.Uses P → F s → J.Meets M i (fun _ => F) (fun _ => F) p s := by
  intro p
  induction p with
  | ret a => exact fun _ h => h
  | err e => exact fun _ h => h
  | call o k ih =>
    intro s hp hF s' hr _
    exact ⟨hens o s' hp.1, fun c => ih _ (hp.2 _) (hexec o c s' hp.1 (hrely s s' hF hr))⟩

end Contract

variable [DecidableEq ι]

/-- The assumptions of the contract of process `i` hold whenever it takes a step. -/
def Assumes (J : Contract O S) (i : ι) (s : Sys ι O R E S) : Ev ι C K → Prop
  | .step j _ => j = i → ∀ o k, s.procs i = .call o k → J.assume o s.st
  | .crash _ => True

/-- Process `i` meets its contract from a state on that the others have not left, and the others only
issue operations of `P`. -/
def Keeps (J : Contract O S) (M : Sem ι O R S C K) (i : ι) (P : O → Prop) (Q : Unit → S → Prop) (X : E → S → Prop)
    (s : Sys ι O R E S) : Prop :=
  (∃ s₀, J.rely s₀ s.st ∧ J.Meets M i Q X (s.procs i) s₀) ∧ ∀ j, j ≠ i → (s.procs j).Uses P

section Keeps

variable {J : Contract O S} {M : Sem ι O R S C K} {i : ι} {P : O → Prop} {Q : Unit → S → Prop} {X : E → S → Prop} {s : Sys ι O R E S}

omit [DecidableEq ι] in
theorem keeps_start (hrefl : ∀ s, J.rely s s) (hi : J.Meets M i Q X (s.procs i) s.st)
    (hj : ∀ j, j ≠ i → (s.procs j).Uses P) : Keeps J M i P Q X s :=
  ⟨⟨s.st, hrefl _, hi⟩, hj⟩

omit [DecidableEq ι] in
/-- An operation of the process is issued in a state as ensured. -/
theorem Keeps.ensured (h : Keeps J M i P Q X s) {o : O} {k : R o → Prog O R E Unit}
    (hp : s.procs i = .call o k) (ha : J.assume o s.st) : J.ensure o s.st := by
  obtain ⟨⟨s₀, hr, hm⟩, -⟩ := h
  rw [hp] at hm
  exact (hm _ hr ha).1

/-- **A step keeps it**: the others only issue operations that the contract relies on. -/
theorem Keeps.stepProc (hrefl : ∀ s, J.rely s s)
    (hother : ∀ s₀ s j o c, j ≠ i → J.rely s₀ s → P o → J.rely s₀ (M.exec j o c s).2)
    (h : Keeps J M i P Q X s) {j : ι} {c : C}
    (ha : j = i → ∀ o k, s.procs i = .call o k → J.assume o s.st) : Keeps J M i P Q X (s.stepProc M j c) := by
  have h' := h
  obtain ⟨⟨s₀, hr, hm⟩, hus⟩ := h'
  cases hpj : s.procs j with
  | ret a => rw [Sys.stepProc_finished (by rw [hpj]; trivial)]; exact h
  | err e => rw [Sys.stepProc_finished (by rw [hpj]; trivial)]; exact h
  | call o' k' =>
    rw [Sys.stepProc_call hpj]
    by_cases hji : j = i
    · -- the contract is met from the state after this step on
      subst hji
      rw [hpj] at hm
      refine ⟨⟨_, hrefl _, ?_⟩, fun j' hj' => ?_⟩
      · simp only [Function.update_self]
        exact (hm _ hr (ha rfl o' k' hpj)).2 c
      · simp only [Function.update_of_ne hj']
        exact hus j' hj'
    · have huj := hus j hji
      rw [hpj] at huj
      refine ⟨⟨s₀, hother s₀ _ j o' c hji hr huj.1, ?_⟩, fun j' hj' => ?_⟩
      · simp only [Function.update_of_ne (Ne.symm hji)]
        exact hm
      by_cases hjj : j' = j
      · subst hjj
        simp only [Function.update_self]
        exact huj.2 _
      · simp only [Function.update_of_ne hjj]
        exact hus j' hj'

/-- **A process meets its contract along every run**: the others only issue operations that the
contract relies on, and then every operation of the process is issued in a state as ensured. -/
theorem run_contract (hrefl : ∀ s, J.rely s s)
    (hother : ∀ s₀ s j o c, j ≠ i → J.rely s₀ s → P o → J.rely s₀ (M.exec j o c s).2)
    (hcrash : ∀ s₀ s x, J.rely s₀ s → J.rely s₀ (M.crash x s))
    (hi : J.Meets M i (fun _ _ => True) (fun _ _ => True) (s.procs i) s.st)
    (hj : ∀ j, j ≠ i → (s.procs j).Uses P) {es : List (Ev ι C K)} (hg : Guarded M (Assumes J i) s es)
    {o : O} {k : R o → Prog O R E Unit} (hp : (s.run M es).procs i = .call o k) (ha : J.assume o (s.run M es).st) :
    J.ensure o (s.run M es).st := by
  have hinv := run_inv (M := M) (G := Assumes J i) (Keeps J M i P (fun _ _ => True) (fun _ _ => True)) ?_ es s
    (keeps_start hrefl hi hj) hg
  · exact hinv.ensured hp ha
  intro s e h hge
  cases e with
  | crash x =>
    obtain ⟨⟨s₀, hr, hm⟩, hus⟩ := h
    refine ⟨⟨s₀, hcrash _ _ x hr, ?_⟩, fun j hji => ?_⟩
    · show J.Meets M i _ _ (if s.started i = true then _ else _) s₀
      split
      · trivial
      · exact hm
    · show Prog.Uses P (if s.started j = true then _ else _)
      split
      · trivial
      · exact hus j hji
  | step j c => exact h.stepProc hrefl hother hge

end Keeps

end Klio.Lib
