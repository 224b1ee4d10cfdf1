import Klio.Lib.Interleave
import Klio.Lib.Trace

/-!
# Two programs in lockstep, and whom an operation is for

Two programs that issue the same operations, as long as the answers are alike, leave two states in the relation
that each operation keeps. Operations carry a mark, the party they are for; failures are chosen for each party
by what was done for it so far.

* `Twin`: programs in lockstep, with the rules `Twin.bind`, `Twin.attempt`, `Twin.mapErr`; `Prog.Uses.twin` is a
  program beside itself.
* `Beside`: two runs side by side, in states that may differ, with the rules `Beside.call`, `Beside.bind`,
  `Beside.mapErr`.
* `Prog.mark`, `Prog.unmark`: operations with marks. `markedSem`, `Prog.played`: running them with a failure
  pattern for each mark.
* `played_twin`: lockstep in two states; `played_satIf`: an invariant of one run.
* `foldl_twice`: two loops that share some rounds.
-/

namespace Klio.Lib

variable {ι T O : Type} {R : O → Type} {E S S' C C' K K' α β Ph : Type}

/-! ## Lockstep -/

/-- Both have returned, with results of `Q`, or failed in the same way. -/
def SameOutcome (Q : α → α → Prop) : Except E α → Except E α → Prop
  | .ok a, .ok b => Q a b
  | .error e, .error e' => e = e'
  | _, _ => False

/-- **Programs in lockstep.** They issue the same operations, all of them of `A`, as long as the answers are alike,
and end in results of `Q` or in the same failure. -/
inductive Twin (A : O → Prop) (alike : (o : O) → R o → R o → Prop) (Q : α → α → Prop) : Prog O R E α → Prog O R E α → Prop
  | ret {a b : α} : Q a b → Twin A alike Q (.ret a) (.ret b)
  | err (e : E) : Twin A alike Q (.err e) (.err e)
  | call {o : O} {k k' : R o → Prog O R E α} : A o → (∀ r r', alike o r r' → Twin A alike Q (k r) (k' r')) →
      Twin A alike Q (.call o k) (.call o k')

namespace Twin

variable {A : O → Prop} {alike : (o : O) → R o → R o → Prop} {Q : α → α → Prop} {p p' : Prog O R E α}

theorem bind {Q' : β → β → Prop} {f f' : α → Prog O R E β} (h : Twin A alike Q p p')
    (hf : ∀ a b, Q a b → Twin A alike Q' (f a) (f' b)) : Twin A alike Q' (p.bind f) (p'.bind f') := by
  induction h with
  | ret hq => exact hf _ _ hq
  | err e => exact .err e
  | call ho _ ih => exact .call ho ih

theorem attempt (h : Twin A alike Q p p') : Twin A alike (SameOutcome Q) p.attempt p'.attempt := by
  induction h with
  | ret hq => exact .ret hq
  | err e => exact .ret rfl
  | call ho _ ih => exact .call ho ih

theorem mapErr (f : E → E) (h : Twin A alike Q p p') : Twin A alike Q (p.mapErr f) (p'.mapErr f) := by
  refine h.attempt.bind ?_
  intro x y hxy
  match x, y, hxy with
  | .ok a, .ok b, hq => exact .ret hq
  | .error e, .error e', heq =>
    obtain rfl : e = e' := heq
    exact .err (f e)

end Twin

theorem Prog.Uses.twin {A : O → Prop} {alike : (o : O) → R o → R o → Prop} :
    ∀ {p : Prog O R E α}, p.Uses (fun o => A o ∧ ∀ r r', alike o r r' → r = r') → Twin A alike Eq p p := by
  intro p
  induction p with
  | ret a => exact fun _ => .ret rfl
  | err e => exact fun _ => .err e
  | call o k ih =>
    intro hp
    refine .call hp.1.1 fun r r' hr => ?_
    obtain rfl := hp.1.2 r r' hr
    exact ih r (hp.2 r)

/-! ## Two runs side by side -/

/-- **Two runs side by side**, whatever the choices are: the same operations, until both return, in states and with results
of `Q`, or both fail in the same way, in states of `X`. -/
inductive Beside (M : Sem ι O R S C K) (M' : Sem ι O R S' C K') (i : ι) (Q : α → S → α → S' → Prop) (X : S → S' → Prop) :
    Prog O R E α → Prog O R E α → S → S' → Prop
  | ret {a b : α} {s : S} {s' : S'} : Q a s b s' → Beside M M' i Q X (.ret a) (.ret b) s s'
  | err {e : E} {s : S} {s' : S'} : X s s' → Beside M M' i Q X (.err e) (.err e) s s'
  | call {o : O} {k k' : R o → Prog O R E α} {s : S} {s' : S'} :
      (∀ c, Beside M M' i Q X (k (M.exec i o c s).1) (k' (M'.exec i o c s').1) (M.exec i o c s).2 (M'.exec i o c s').2) →
      Beside M M' i Q X (.call o k) (.call o k') s s'

namespace Beside

variable {M : Sem ι O R S C K} {M' : Sem ι O R S' C K'} {i : ι} {Q : α → S → α → S' → Prop} {X : S → S' → Prop} {s : S} {s' : S'}
  {p p' : Prog O R E α}

/-- **Sequencing.** -/
theorem bind {Q' : β → S → β → S' → Prop} {f f' : α → Prog O R E β} (h : Beside M M' i Q X p p' s s')
    (hf : ∀ a t b t', Q a t b t' → Beside M M' i Q' X (f a) (f' b) t t') : Beside M M' i Q' X (p.bind f) (p'.bind f') s s' := by
  induction h with
  | ret hq => exact hf _ _ _ _ hq
  | err hx => exact .err hx
  | call _ ih => exact .call ih

theorem mapErr (f : E → E) (h : Beside M M' i Q X p p' s s') : Beside M M' i Q X (p.mapErr f) (p'.mapErr f) s s' := by
  induction h with
  | ret hq => exact .ret hq
  | err hx => exact .err hx
  | call _ ih => exact .call ih

theorem mono {Q' : α → S → α → S' → Prop} (h : Beside M M' i Q X p p' s s') (hq : ∀ a t b t', Q a t b t' → Q' a t b t') :
    Beside M M' i Q' X p p' s s' := by
  induction h with
  | ret hab => exact .ret (hq _ _ _ _ hab)
  | err hx => exact .err hx
  | call _ ih => exact .call ih

theorem eval_eq (h : Beside M M' i Q X p p' s s') (hq : ∀ a t b t', Q a t b t' → a = b ∧ X t t') (cs : ℕ → C) :
    (p.eval M i cs s).1 = (p'.eval M' i cs s').1 ∧ X (p.eval M i cs s).2 (p'.eval M' i cs s').2 := by
  induction h generalizing cs with
  | ret hab => exact ⟨congrArg Except.ok (hq _ _ _ _ hab).1, (hq _ _ _ _ hab).2⟩
  | err hx => exact ⟨rfl, hx⟩
  | call _ ih => exact ih (cs 0) fun n => cs (n + 1)

end Beside

/-! ## Operations with marks -/

/-- All the operations of a program are for `t`. -/
def Prog.mark (t : T) : Prog O R E α → Prog (T × O) (fun x => R x.2) E α
  | .ret a => .ret a
  | .err e => .err e
  | .call o k => .call (t, o) fun r => (k r).mark t

/-- The program without the marks. -/
def Prog.unmark : Prog (T × O) (fun x => R x.2) E α → Prog O R E α
  | .ret a => .ret a
  | .err e => .err e
  | .call x k => .call x.2 fun r => (k r).unmark

@[simp] theorem Prog.unmark_mark (t : T) (p : Prog O R E α) : (p.mark t).unmark = p := by
  induction p with
  | ret a => rfl
  | err e => rfl
  | call o k ih => exact congrArg (Prog.call o) (funext ih)

@[simp] theorem Prog.unmark_bind (f : α → Prog (T × O) (fun x => R x.2) E β) : ∀ p : Prog (T × O) (fun x => R x.2) E α,
    (p.bind f).unmark = p.unmark.bind fun a => (f a).unmark := by
  intro p
  induction p with
  | ret a => rfl
  | err e => rfl
  | call x k ih => exact congrArg (Prog.call x.2) (funext ih)

@[simp] theorem Prog.unmark_attempt (p : Prog (T × O) (fun x => R x.2) E α) : p.attempt.unmark = p.unmark.attempt := by
  induction p with
  | ret a => rfl
  | err e => rfl
  | call x k ih => exact congrArg (Prog.call x.2) (funext ih)

variable [DecidableEq T]

/-- What was done for each party so far, beside the state; a failure pattern says what an operation meets, by
the party it is for and what was done for this party. -/
def markedSem (T : Type) [DecidableEq T] (M : Sem ι O R S C K) :
    Sem ι (T × O) (fun x => R x.2) (S × (T → List O)) (T → List O → O → C) K where
  exec i x φ s :=
    ((M.exec i x.2 (φ x.1 (s.2 x.1) x.2) s.1).1,
      ((M.exec i x.2 (φ x.1 (s.2 x.1) x.2) s.1).2, Function.update s.2 x.1 (s.2 x.1 ++ [x.2])))
  crash k s := (M.crash k s.1, s.2)

/-- Run a program with marks under a failure pattern. -/
abbrev Prog.played (M : Sem ι O R S C K) (i : ι) (φ : T → List O → O → C) (p : Prog (T × O) (fun x => R x.2) E α)
    (s : S × (T → List O)) : Except E α × (S × (T → List O)) :=
  p.eval (markedSem T M) i (fun _ => φ) s

section Played

variable (M : Sem ι O R S C K) (i : ι) (φ : T → List O → O → C)

theorem played_bind_ok {p : Prog (T × O) (fun x => R x.2) E α} {a : α} {s s' : S × (T → List O)} (h : p.played M i φ s = (.ok a, s'))
    (f : α → Prog (T × O) (fun x => R x.2) E β) : (p.bind f).played M i φ s = (f a).played M i φ s' := by
  unfold Prog.played at h ⊢
  rw [Prog.eval_bind_used, h]

theorem played_attempt_bind (p : Prog (T × O) (fun x => R x.2) E α) (f : Except E α → Prog (T × O) (fun x => R x.2) E β)
    (s : S × (T → List O)) : (p.attempt.bind f).played M i φ s = (f (p.played M i φ s).1).played M i φ (p.played M i φ s).2 :=
  played_bind_ok M i φ (Prog.eval_attempt i p (fun _ => φ) s) f

/-- **An invariant of one run**, as long as it makes the answers what the program assumes. -/
theorem played_satIf {X : Proto O R Ph} {good : Ph → (o : O) → R o → Prop} {Q : α → Ph → Prop} {F : E → Ph → Prop} {t : T}
    (I : S × (T → List O) → Prop)
    (hstep : ∀ ph o s, I s → X.allowed ph o →
      good ph o ((markedSem T M).exec i (t, o) φ s).1 ∧ I ((markedSem T M).exec i (t, o) φ s).2) :
    ∀ {p : Prog O R E α} {ph : Ph} {s : S × (T → List O)}, p.SatIf X good Q F ph → I s → I ((p.mark t).played M i φ s).2 := by
  intro p
  induction p with
  | ret a => exact fun _ hs => hs
  | err e => exact fun _ hs => hs
  | call o k ih =>
    intro ph s hp hs
    obtain ⟨hgood, hnext⟩ := hstep ph o s hs hp.1
    exact ih _ (hp.2 _ hgood) hnext

/-- **Lockstep in two states** that every operation keeps related. -/
theorem played_twin (M' : Sem ι O R S' C' K') (φ' : T → List O → O → C') {A : O → Prop} {alike : (o : O) → R o → R o → Prop}
    {Q : α → α → Prop} {t : T} (J : S × (T → List O) → S' × (T → List O) → Prop)
    (hstep : ∀ o s s', A o → J s s' →
      alike o ((markedSem T M).exec i (t, o) φ s).1 ((markedSem T M').exec i (t, o) φ' s').1 ∧
        J ((markedSem T M).exec i (t, o) φ s).2 ((markedSem T M').exec i (t, o) φ' s').2)
    {p p' : Prog O R E α} (h : Twin A alike Q p p') {s : S × (T → List O)} {s' : S' × (T → List O)} (hs : J s s') :
    SameOutcome Q ((p.mark t).played M i φ s).1 ((p'.mark t).played M' i φ' s').1 ∧
      J ((p.mark t).played M i φ s).2 ((p'.mark t).played M' i φ' s').2 := by
  induction h generalizing s s' with
  | ret hq => exact ⟨hq, hs⟩
  | err e => exact ⟨rfl, hs⟩
  | call ho _ ih =>
    obtain ⟨halike, hnext⟩ := hstep _ s s' ho hs
    exact ih _ _ halike hnext

end Played

/-! ## Two loops that share some rounds -/

section Loops

variable {τ : Type} {J : S → S' → Prop} {f : S → τ → S} {f' : S' → τ → S'} {P : τ → Prop} {mine : τ → Bool}

variable (P mine) in
theorem foldl_others (hright : ∀ t s s', P t → mine t = false → J s s' → J s (f' s' t)) : ∀ (l' : List τ) (s : S) (s' : S'),
    (∀ t ∈ l', P t ∧ mine t = false) → J s s' → J s (l'.foldl f' s') := by
  intro l'
  induction l' with
  | nil => exact fun s s' _ hs => hs
  | cons t l' ih =>
    intro s s' hl hs
    have ht := hl t List.mem_cons_self
    exact ih s (f' s' t) (fun x hx => hl x (List.mem_cons_of_mem _ hx)) (hright t s s' ht.1 ht.2 hs)

/-- **Two loops that share some rounds**, in the same order; every other round keeps the relation on its side. -/
theorem foldl_twice (hleft : ∀ t s s', P t → mine t = false → J s s' → J (f s t) s')
    (hright : ∀ t s s', P t → mine t = false → J s s' → J s (f' s' t))
    (hboth : ∀ t s s', P t → mine t = true → J s s' → J (f s t) (f' s' t)) :
    ∀ (l l' : List τ) (s : S) (s' : S'), (∀ t ∈ l, P t) → (∀ t ∈ l', P t) → l.filter mine = l'.filter mine → J s s' →
      J (l.foldl f s) (l'.foldl f' s') := by
  intro l
  induction l with
  | nil =>
    intro l' s s' _ hl' heq hs
    refine foldl_others P mine hright l' s s' ?_ hs
    intro t ht
    have hnone := List.filter_eq_nil_iff.mp heq.symm t ht
    exact ⟨hl' t ht, by simpa using hnone⟩
  | cons t l ih =>
    intro l' s s' hl hl' heq hs
    have hrest : ∀ x ∈ l, P x := fun x hx => hl x (List.mem_cons_of_mem _ hx)
    rcases ht : mine t with _ | _
    · rw [List.filter_cons_of_neg (by simp [ht])] at heq
      exact ih l' (f s t) s' hrest hl' heq (hleft t s s' (hl t List.mem_cons_self) ht hs)
    -- the other loop comes to the same round after some of its own
    rw [List.filter_cons_of_pos ht] at heq
    obtain ⟨pre, post, rfl, hpre, -, hpost⟩ := List.filter_eq_cons_iff.mp heq.symm
    rw [List.foldl_append]
    have hto : J s (pre.foldl f' s') := by
      refine foldl_others P mine hright pre s s' ?_ hs
      intro x hx
      exact ⟨hl' x (List.mem_append_left _ hx), by simpa using hpre x hx⟩
    have hshared := hboth t s (pre.foldl f' s') (hl t List.mem_cons_self) ht hto
    exact ih post (f s t) (f' (pre.foldl f' s') t) hrest
      (fun x hx => hl' x (List.mem_append_right _ (List.mem_cons_of_mem _ hx))) hpost.symm hshared

end Loops

end Klio.Lib
