import Klio.Lib.Prog

/-!
# What a program has done so far

A program is followed through the operations it issues and the answers it gets, without a model of what
answers them. What the answers are worth is an assumption on them.

* `Prog.Runs`: a program after some operations and their answers; `Prog.answered` computes one.
* `Proto.through`: the phase they lead to.
* `Proto.Fair`: every answer is one that is assumed.
* `Prog.SatIf`: a program keeps a protocol as long as the answers are; `SatIf.runs` is what this says
  about a run, and `SatIf.sat` turns it into a protocol that ends with the first other answer.
* `Prog.refine`: every operation is replaced by a program.
-/

namespace Klio.Lib

variable {O : Type} {R : O → Type} {E α β Ph : Type}

/-- `p` has issued these operations, got these answers, and `p'` is left. -/
inductive Prog.Runs : Prog O R E α → List (Σ o, R o) → Prog O R E α → Prop
  | nil (p : Prog O R E α) : Runs p [] p
  | cons {o : O} {k : R o → Prog O R E α} (r : R o) {tr : List (Σ o, R o)} {p' : Prog O R E α} :
      Runs (k r) tr p' → Runs (.call o k) (⟨o, r⟩ :: tr) p'

/-- Up to `n` operations are answered by `f`: what was done, and what is left. -/
def Prog.answered (f : (o : O) → R o) : Nat → Prog O R E α → List (Σ o, R o) × Prog O R E α
  | n + 1, .call o k => (⟨o, f o⟩ :: ((k (f o)).answered f n).1, ((k (f o)).answered f n).2)
  | _, p => ([], p)

theorem Prog.runs_answered (f : (o : O) → R o) (n : Nat) (p : Prog O R E α) : p.Runs (p.answered f n).1 (p.answered f n).2 := by
  induction n generalizing p with
  | zero => cases p <;> exact .nil _
  | succ n ih =>
    cases p with
    | ret a => exact .nil _
    | err e => exact .nil _
    | call o k => exact .cons (f o) (ih (k (f o)))

theorem Prog.runs_bind {p : Prog O R E α} {f : α → Prog O R E β} {tr : List (Σ o, R o)} {b : β}
    (h : (p.bind f).Runs tr (.ret b)) : ∃ a tr₁ tr₂, tr = tr₁ ++ tr₂ ∧ p.Runs tr₁ (.ret a) ∧ (f a).Runs tr₂ (.ret b) := by
  induction p generalizing tr with
  | ret a => exact ⟨a, [], tr, rfl, .nil _, h⟩
  | err e => cases h
  | call o k ih =>
    cases h with
    | cons r h =>
      obtain ⟨a, tr₁, tr₂, rfl, h₁, h₂⟩ := ih r h
      exact ⟨a, ⟨o, r⟩ :: tr₁, tr₂, rfl, .cons r h₁, h₂⟩

namespace Proto

/-- The phase after some operations and their answers. -/
def through (T : Proto O R Ph) (ph : Ph) (tr : List (Σ o, R o)) : Ph := tr.foldl (fun ph e => T.next ph e.1 e.2) ph

variable {T : Proto O R Ph} {ph : Ph}

@[simp] theorem through_nil : T.through ph [] = ph := rfl

@[simp] theorem through_cons (e : Σ o, R o) (tr : List (Σ o, R o)) :
    T.through ph (e :: tr) = T.through (T.next ph e.1 e.2) tr := rfl

/-- Every answer meets `good`, a condition on the phase before it. -/
def Fair (T : Proto O R Ph) (good : Ph → (o : O) → R o → Prop) : Ph → List (Σ o, R o) → Prop
  | _, [] => True
  | ph, e :: tr => good ph e.1 e.2 ∧ T.Fair good (T.next ph e.1 e.2) tr

/-- The protocol up to the first answer that does not meet `good`; anything is allowed after it. -/
noncomputable def assuming (T : Proto O R Ph) (good : Ph → (o : O) → R o → Prop) : Proto O R (Option Ph) where
  allowed ph o := ∀ x, ph = some x → T.allowed x o
  next ph o r := open Classical in ph.bind fun x => if good x o r then some (T.next x o r) else none

end Proto

namespace Prog

variable {T : Proto O R Ph} {good : Ph → (o : O) → R o → Prop} {Q : α → Ph → Prop} {X : E → Ph → Prop}

/-- **The program keeps the protocol as long as the answers meet `good`.** -/
def SatIf (T : Proto O R Ph) (good : Ph → (o : O) → R o → Prop) (Q : α → Ph → Prop) (X : E → Ph → Prop) : Prog O R E α → Ph → Prop
  | ret a, ph => Q a ph
  | err e, ph => X e ph
  | call o k, ph => T.allowed ph o ∧ ∀ r, good ph o r → (k r).SatIf T good Q X (T.next ph o r)

variable {ph : Ph}

theorem satIf_call {o : O} {k : R o → Prog O R E α} (ha : T.allowed ph o)
    (hk : ∀ r, good ph o r → (k r).SatIf T good Q X (T.next ph o r)) : (call o k).SatIf T good Q X ph := ⟨ha, hk⟩

variable {p : Prog O R E α}

theorem satIf_mono {T' : Proto O R Ph} (hallow : ∀ ph o, T.allowed ph o → T'.allowed ph o) (hnext : T.next = T'.next)
    {Q' : α → Ph → Prop} {X' : E → Ph → Prop} (h : p.SatIf T good Q X ph)
    (hq : ∀ a ph, Q a ph → Q' a ph) (hx : ∀ e ph, X e ph → X' e ph) : p.SatIf T' good Q' X' ph := by
  induction p generalizing ph with
  | ret a => exact hq a ph h
  | err e => exact hx e ph h
  | call o k ih =>
    refine ⟨hallow ph o h.1, fun r hr => ih r ?_⟩
    rw [← hnext]
    exact h.2 r hr

/-- **Sequencing.** -/
theorem satIf_bind {Q' : β → Ph → Prop} {f : α → Prog O R E β} (hp : p.SatIf T good Q X ph)
    (hf : ∀ a ph, Q a ph → (f a).SatIf T good Q' X ph) : (p.bind f).SatIf T good Q' X ph := by
  induction p generalizing ph with
  | ret a => exact hf a ph hp
  | err e => exact hp
  | call o k ih => exact ⟨hp.1, fun r hr => ih r (hp.2 r hr)⟩

theorem satIf_attempt {Q' : Except E α → Ph → Prop}
    (hp : p.SatIf T good (fun a => Q' (.ok a)) (fun e => Q' (.error e)) ph) : p.attempt.SatIf T good Q' X ph := by
  induction p generalizing ph with
  | ret a => exact hp
  | err e => exact hp
  | call o k ih => exact ⟨hp.1, fun r hr => ih r (hp.2 r hr)⟩

/-- **What is left of a program** after operations with assumed answers keeps the protocol. -/
theorem SatIf.runs {p p' : Prog O R E α} {tr : List (Σ o, R o)} (h : p.SatIf T good Q X ph) (hr : p.Runs tr p')
    (hfair : T.Fair good ph tr) : p'.SatIf T good Q X (T.through ph tr) := by
  induction hr generalizing ph with
  | nil p => exact h
  | cons r _ ih => exact ih (h.2 r hfair.1) hfair.2

/-- **Invariants of a run**: what allowed operations with assumed answers keep. -/
theorem SatIf.inv {I : Ph → Prop} (hI : ∀ ph o r, I ph → T.allowed ph o → good ph o r → I (T.next ph o r))
    {p p' : Prog O R E α} {tr : List (Σ o, R o)} (h : p.SatIf T good Q X ph) (hr : p.Runs tr p')
    (hfair : T.Fair good ph tr) (hi : I ph) : I (T.through ph tr) := by
  induction hr generalizing ph with
  | nil p => exact hi
  | cons r _ ih => exact ih (h.2 r hfair.1) hfair.2 (hI _ _ r hi h.1 hfair.1)

/-- **A stronger assumption**, and what it keeps. -/
theorem SatIf.restrict {good' : Ph → (o : O) → R o → Prop} {I : Ph → Prop}
    (hgood : ∀ ph o r, I ph → good' ph o r → good ph o r ∧ I (T.next ph o r))
    (h : p.SatIf T good Q X ph) (hi : I ph) : p.SatIf T good' (fun a ph => Q a ph ∧ I ph) X ph := by
  induction p generalizing ph with
  | ret a => exact ⟨h, hi⟩
  | err e => exact h
  | call o k ih =>
    refine ⟨h.1, fun r hr => ?_⟩
    have hstep := hgood ph o r hi hr
    exact ih r (h.2 r hstep.1) hstep.2

theorem sat_assuming_none {Q : α → Option Ph → Prop} {X : E → Option Ph → Prop} (hq : ∀ a, Q a none) (hx : ∀ e, X e none)
    (p : Prog O R E α) : p.Sat (T.assuming good) Q X none := by
  induction p with
  | ret a => exact hq a
  | err e => exact hx e
  | call o k ih => exact ⟨nofun, fun r => ih r⟩

/-- **The assumption as a part of the protocol.** -/
theorem SatIf.sat (h : p.SatIf T good Q X ph) :
    p.Sat (T.assuming good) (fun a ph => ∀ x, ph = some x → Q a x) (fun e ph => ∀ x, ph = some x → X e x) (some ph) := by
  induction p generalizing ph with
  | ret a => rintro x ⟨⟩; exact h
  | err e => rintro x ⟨⟩; exact h
  | call o k ih =>
    refine ⟨?_, fun r => ?_⟩
    · rintro x ⟨⟩
      exact h.1
    by_cases hr : good ph o r
    · have hnext : (T.assuming good).next (some ph) o r = some (T.next ph o r) := if_pos hr
      rw [hnext]
      exact ih r (h.2 r hr)
    · have hnext : (T.assuming good).next (some ph) o r = none := if_neg hr
      rw [hnext]
      exact sat_assuming_none (fun _ _ hno => by cases hno) (fun _ _ hno => by cases hno) _

/-! ## Operations that are programs -/

section Refine

variable {O' : Type} {R' : O' → Type} {Ph' : Type}

/-- Every operation is replaced by a program that answers it. -/
def refine (impl : (o : O) → Prog O' R' E (R o)) : Prog O R E α → Prog O' R' E α
  | ret a => ret a
  | err e => err e
  | call o k => (impl o).bind fun r => (k r).refine impl

/-- **A protocol of the program behind the operations.** `at_` is where they are when nothing is under
way. -/
theorem Sat.refine {T' : Proto O' R' Ph'} (at_ : Ph → Ph') {impl : (o : O) → Prog O' R' E (R o)}
    (himpl : ∀ ph o, T.allowed ph o → (impl o).Sat T' (fun r ph' => ph' = at_ (T.next ph o r)) (fun _ _ => False) (at_ ph))
    {p : Prog O R E α} {ph : Ph} (h : p.Sat T Q X ph) :
    (p.refine impl).Sat T' (fun _ _ => True) (fun _ _ => True) (at_ ph) := by
  induction p generalizing ph with
  | ret a => trivial
  | err e => trivial
  | call o k ih =>
    refine sat_bind (sat_mono (himpl ph o h.1) (fun _ _ hq => hq) fun _ _ hx => hx.elim) ?_
    rintro r ph' rfl
    exact ih r (h.2 r)

end Refine

end Prog

end Klio.Lib
