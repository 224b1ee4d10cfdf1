import Klio.Lib.Interleave

/-!
# Threads that wait for each other

Threads share a state, and an operation may have to wait: for a lock, for a channel, for a free
worker. The semantics then answers nothing, and a thread that is scheduled nevertheless stays where
it is.

* `WaitSem`: what operations do, or that they have to wait.
* `Sys.advance`, `Sys.schedule`: one step of a thread, and a schedule.
* `Heeds`: every step of a schedule meets a condition on the system before it.
* `Proto.part`: the protocol of one part of a phase, for threads whose phases differ in kind.
* `Abides`: every thread keeps its protocol, and ends where it may.
* `schedule_proto`: an invariant of the shared state and the phases that every step keeps.
-/

namespace Klio.Lib

open Function

variable {ι O : Type} {R : O → Type} {E S C Ph : Type}

/-- What an operation answers and does, or nothing as long as it has to wait. -/
structure WaitSem (ι O : Type) (R : O → Type) (S C : Type) where
  exec : ι → (o : O) → C → S → Option (R o × S)

variable [DecidableEq ι]

namespace Sys

/-- Thread `i` is scheduled. It issues its next operation, unless it has ended or has to wait. -/
def advance (M : WaitSem ι O R S C) (s : Sys ι O R E S) (i : ι) (c : C) : Sys ι O R E S :=
  match s.procs i with
  | .call o k => match M.exec i o c s.st with
    | some a => ⟨a.2, Function.update s.procs i (k a.1), Function.update s.started i true⟩
    | none => s
  | _ => s

/-- A schedule: who is next, and what is left open by the semantics. -/
def schedule (M : WaitSem ι O R S C) (s : Sys ι O R E S) (es : List (ι × C)) : Sys ι O R E S :=
  es.foldl (fun s e => s.advance M e.1 e.2) s

variable {M : WaitSem ι O R S C} {s : Sys ι O R E S}

@[simp] theorem schedule_nil : s.schedule M [] = s := rfl

@[simp] theorem schedule_cons (e : ι × C) (es : List (ι × C)) :
    s.schedule M (e :: es) = (s.advance M e.1 e.2).schedule M es := rfl

/-- **What one step does**: nothing, or one operation of the thread. -/
theorem advance_cases (M : WaitSem ι O R S C) (s : Sys ι O R E S) (i : ι) (c : C) :
    s.advance M i c = s ∨ ∃ o k r st, s.procs i = .call o k ∧ M.exec i o c s.st = some (r, st) ∧
      s.advance M i c = ⟨st, update s.procs i (k r), update s.started i true⟩ := by
  unfold advance
  cases hp : s.procs i with
  | ret a => exact .inl rfl
  | err e => exact .inl rfl
  | call o k =>
    cases he : M.exec i o c s.st with
    | none => exact .inl (by simp only [he])
    | some a => exact .inr ⟨o, k, a.1, a.2, rfl, he, by simp only [he]⟩

end Sys

/-- Every step of the schedule meets `G`, a condition on the system before it. -/
def Heeds (M : WaitSem ι O R S C) (G : Sys ι O R E S → ι → C → Prop) : Sys ι O R E S → List (ι × C) → Prop
  | _, [] => True
  | s, e :: es => G s e.1 e.2 ∧ Heeds M G (s.advance M e.1 e.2) es

instance decidableHeeds (M : WaitSem ι O R S C) (G : Sys ι O R E S → ι → C → Prop) [h : ∀ s i c, Decidable (G s i c)] :
    ∀ (s : Sys ι O R E S) (es : List (ι × C)), Decidable (Heeds M G s es)
  | _, [] => isTrue trivial
  | s, e :: es => haveI := decidableHeeds M G (s.advance M e.1 e.2) es; inferInstanceAs (Decidable (_ ∧ _))

theorem heeds_of_forall {M : WaitSem ι O R S C} {G : Sys ι O R E S → ι → C → Prop} (h : ∀ s i c, G s i c) :
    ∀ (es : List (ι × C)) (s : Sys ι O R E S), Heeds M G s es := by
  intro es
  induction es with
  | nil => intro s; trivial
  | cons e es ih => intro s; exact ⟨h s e.1 e.2, ih _⟩

section Part

variable {Ph' α : Type} {get : Ph' → Ph} {T : Proto O R Ph}

def Proto.part (get : Ph' → Ph) (put : Ph → Ph' → Ph') (T : Proto O R Ph) : Proto O R Ph' where
  allowed ph := T.allowed (get ph)
  next ph o r := put (T.next (get ph) o r) ph

theorem Prog.Sat.part (put : Ph → Ph' → Ph') (hget : ∀ x ph, get (put x ph) = x) {p : Prog O R E α} {Q : α → Ph → Prop} {X : E → Ph → Prop} {ph : Ph'}
    (hp : p.Sat T Q X (get ph)) : p.Sat (T.part get put) (fun a ph => Q a (get ph)) (fun e ph => X e (get ph)) ph := by
  induction p generalizing ph with
  | ret a => exact hp
  | err e => exact hp
  | call o k ih =>
    refine ⟨hp.1, fun r => ih r ?_⟩
    have hk := hp.2 r
    rwa [← hget (T.next (get ph) o r) ph] at hk

end Part

/-- Every thread keeps its protocol from its phase on, and returns or fails in a phase where it may. -/
def Abides (T : ι → Proto O R Ph) (Q X : ι → Ph → Prop) (s : Sys ι O R E S) (φ : ι → Ph) : Prop :=
  ∀ i, (s.procs i).Sat (T i) (fun _ => Q i) (fun _ => X i) (φ i)

variable {M : WaitSem ι O R S C} {T : ι → Proto O R Ph} {Q X : ι → Ph → Prop} {s : Sys ι O R E S} {φ : ι → Ph}

omit [DecidableEq ι] in
/-- The next operation of a thread is one its phase allows. -/
theorem Abides.allowed (h : Abides T Q X s φ) {i : ι} {o : O} {k : R o → Prog O R E Unit} (hp : s.procs i = .call o k) :
    (T i).allowed (φ i) o := by
  have hi := h i
  rw [hp] at hi
  exact hi.1

omit [DecidableEq ι] in
/-- A thread in a phase where it may not end is under way. -/
theorem Abides.not_finished (h : Abides T Q X s φ) {i : ι} (hq : ¬ Q i (φ i)) (hx : ¬ X i (φ i)) : ¬ (s.procs i).Finished := by
  have hi := h i
  intro hfin
  cases hp : s.procs i with
  | ret a => rw [hp] at hi; exact hq hi
  | err e => rw [hp] at hi; exact hx hi
  | call o k => rw [hp] at hfin; exact hfin

theorem Abides.next (h : Abides T Q X s φ) {i : ι} {o : O} {k : R o → Prog O R E Unit} (hp : s.procs i = .call o k)
    (r : R o) (st : S) : Abides T Q X ⟨st, update s.procs i (k r), update s.started i true⟩
      (update φ i ((T i).next (φ i) o r)) := by
  have hi := h i
  rw [hp] at hi
  intro j
  by_cases hj : j = i
  · subst hj
    simp only [update_self]
    exact hi.2 r
  · simp only [update_of_ne hj]
    exact h j

/-- **Invariants of threads that keep their protocols.** It is enough that every operation a phase
allows keeps the invariant, in a step that meets the condition. -/
theorem schedule_proto {G : Sys ι O R E S → ι → C → Prop} (φ₀ : ι → Ph) (I : S → (ι → Ph) → Prop)
    (hstep : ∀ (s : Sys ι O R E S) φ i c o k r st, Abides T Q X s φ → (∀ j, s.started j = false → φ j = φ₀ j) → I s.st φ →
      G s i c → s.procs i = .call o k → (T i).allowed (φ i) o → M.exec i o c s.st = some (r, st) →
      I st (update φ i ((T i).next (φ i) o r))) :
    ∀ (es : List (ι × C)) (s : Sys ι O R E S) (φ : ι → Ph), Abides T Q X s φ → (∀ j, s.started j = false → φ j = φ₀ j) →
      I s.st φ → Heeds M G s es →
      ∃ φ', Abides T Q X (s.schedule M es) φ' ∧ (∀ j, (s.schedule M es).started j = false → φ' j = φ₀ j) ∧
        I (s.schedule M es).st φ' := by
  intro es
  induction es with
  | nil => intro s φ hk h0 hi _; exact ⟨φ, hk, h0, hi⟩
  | cons e es ih =>
    intro s φ hk h0 hi hg
    have hrest := hg.2
    rw [Sys.schedule_cons]
    rcases Sys.advance_cases M s e.1 e.2 with hsame | ⟨o, k, r, st, hp, he, hnext⟩
    · rw [hsame] at hrest ⊢
      exact ih s φ hk h0 hi hrest
    rw [hnext] at hrest ⊢
    refine ih _ _ (hk.next hp r st) ?_ (hstep s φ e.1 e.2 o k r st hk h0 hi hg.1 hp (hk.allowed hp) he) hrest
    -- only the thread that has moved counts as started from here on
    intro j hj
    by_cases hji : j = e.1
    · subst hji
      simp only [update_self] at hj
      cases hj
    · simp only [update_of_ne hji] at hj ⊢
      exact h0 j hj

end Klio.Lib
