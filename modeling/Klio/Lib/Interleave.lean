import Klio.Lib.Prog

/-!
# Processes that interleave

A system is a shared state and one program per process. An event lets one process
issue its next operation, with a choice `c` that resolves whatever the semantics
leaves open (a fault, for instance), or crashes the machine: the state becomes what
the crash leaves of it and every process that had started is gone.

* `Sys.run`: the system after a list of events.
* `Guarded`: every event of the run meets a condition on the system before it.
* `run_inv`: an invariant of guarded steps holds after every guarded run.
* `run_uses`: the same for what every operation keeps.
* `run_proto`: the same for processes that each keep a protocol (`Proto`); the
  invariant may speak about the phases, and one step is one allowed operation.
* `Prog.eval`: one program run alone to its end, with `eval_sat` as its rule.
-/

namespace Klio.Lib

open List Function

variable {ι O : Type} {R : O → Type} {E S C K Ph α : Type}

/-- What operations and crashes do to the shared state. -/
structure Sem (ι O : Type) (R : O → Type) (S C K : Type) where
  exec : ι → (o : O) → C → S → R o × S
  crash : K → S → S

/-- A system: the shared state and what each process still has to do. -/
structure Sys (ι O : Type) (R : O → Type) (E S : Type) where
  st : S
  procs : ι → Prog O R E Unit
  started : ι → Bool

/-- An event of a run. -/
inductive Ev (ι C K : Type) where
  | step (i : ι) (c : C)
  | crash (x : K)

variable [DecidableEq ι]

namespace Sys

/-- Process `i` issues its next operation. A process that has ended does nothing. -/
def stepProc (M : Sem ι O R S C K) (s : Sys ι O R E S) (i : ι) (c : C) : Sys ι O R E S :=
  match s.procs i with
  | .call o k =>
    { st := (M.exec i o c s.st).2
      procs := Function.update s.procs i (k (M.exec i o c s.st).1)
      started := Function.update s.started i true }
  | _ => s

/-- One event. -/
def step (M : Sem ι O R S C K) (s : Sys ι O R E S) : Ev ι C K → Sys ι O R E S
  | .step i c => s.stepProc M i c
  | .crash x =>
    { st := M.crash x s.st
      procs := fun i => if s.started i then .ret () else s.procs i
      started := s.started }

def run (M : Sem ι O R S C K) (s : Sys ι O R E S) (es : List (Ev ι C K)) : Sys ι O R E S :=
  es.foldl (step M) s

/-- A process is under way: it has started and has not ended. -/
def Running (s : Sys ι O R E S) (i : ι) : Prop := s.started i = true ∧ ¬ (s.procs i).Finished

/-- The system before anything has happened. -/
def init (st : S) (procs : ι → Prog O R E Unit) : Sys ι O R E S := ⟨st, procs, fun _ => false⟩

variable {M : Sem ι O R S C K} {s : Sys ι O R E S}

@[simp] theorem run_nil : s.run M [] = s := rfl

@[simp] theorem run_cons (e : Ev ι C K) (es : List (Ev ι C K)) : s.run M (e :: es) = (s.step M e).run M es := rfl

theorem run_append (es es' : List (Ev ι C K)) : s.run M (es ++ es') = (s.run M es).run M es' := by
  unfold run; rw [foldl_append]

theorem stepProc_call {i : ι} {c : C} {o : O} {k : R o → Prog O R E Unit} (h : s.procs i = .call o k) :
    s.stepProc M i c =
      { st := (M.exec i o c s.st).2
        procs := update s.procs i (k (M.exec i o c s.st).1)
        started := update s.started i true } := by
  unfold stepProc; rw [h]

theorem stepProc_finished {i : ι} {c : C} (h : (s.procs i).Finished) : s.stepProc M i c = s := by
  unfold stepProc
  cases hp : s.procs i with
  | ret a => rfl
  | err e => rfl
  | call o k => rw [hp] at h; exact h.elim

/-- **What a step can be**: nothing, or the next operation of the process. -/
theorem stepProc_cases (M : Sem ι O R S C K) (s : Sys ι O R E S) (i : ι) (c : C) :
    s.stepProc M i c = s ∨ ∃ o k, s.procs i = .call o k ∧ s.stepProc M i c =
      { st := (M.exec i o c s.st).2
        procs := update s.procs i (k (M.exec i o c s.st).1)
        started := update s.started i true } := by
  cases hp : s.procs i with
  | ret a => exact .inl (stepProc_finished (by rw [hp]; trivial))
  | err e => exact .inl (stepProc_finished (by rw [hp]; trivial))
  | call o k => exact .inr ⟨o, k, rfl, stepProc_call hp⟩

theorem uses_step {L : O → Prop} (h : ∀ i, (s.procs i).Uses L) (e : Ev ι C K) (j : ι) : ((s.step M e).procs j).Uses L := by
  cases e with
  | crash x =>
    simp only [step]
    split
    · trivial
    · exact h j
  | step i c =>
    show ((s.stepProc M i c).procs j).Uses L
    rcases stepProc_cases M s i c with heq | ⟨o, k, hp, heq⟩
    · rw [heq]
      exact h j
    rw [heq]
    by_cases hj : j = i
    · subst hj
      have hi := h j
      rw [hp] at hi
      simp only [update_self]
      exact hi.2 _
    · simp only [update_of_ne hj]
      exact h j

end Sys

/-- Every event of the run meets the condition `G` on the system before it. -/
def Guarded (M : Sem ι O R S C K) (G : Sys ι O R E S → Ev ι C K → Prop) :
    Sys ι O R E S → List (Ev ι C K) → Prop
  | _, [] => True
  | s, e :: es => G s e ∧ Guarded M G (s.step M e) es

instance decidableGuarded (M : Sem ι O R S C K) (G : Sys ι O R E S → Ev ι C K → Prop) [h : ∀ s e, Decidable (G s e)] :
    ∀ (s : Sys ι O R E S) (es : List (Ev ι C K)), Decidable (Guarded M G s es)
  | _, [] => isTrue trivial
  | s, e :: es => @instDecidableAnd _ _ (h s e) (decidableGuarded M G (s.step M e) es)

instance (s : Sys ι O R E S) (i : ι) : Decidable (s.Running i) := inferInstanceAs (Decidable (_ ∧ _))

variable {M : Sem ι O R S C K} {G : Sys ι O R E S → Ev ι C K → Prop} {s : Sys ι O R E S}

theorem guarded_append (es es' : List (Ev ι C K)) :
    Guarded M G s (es ++ es') ↔ Guarded M G s es ∧ Guarded M G (s.run M es) es' := by
  induction es generalizing s with
  | nil => simp [Guarded]
  | cons e es ih => simp only [cons_append, Guarded, Sys.run_cons, ih, and_assoc]

theorem guarded_iff (es : List (Ev ι C K)) :
    Guarded M G s es ↔ ∀ es₁ e es₂, es = es₁ ++ e :: es₂ → G (s.run M es₁) e := by
  constructor
  · rintro h es₁ e es₂ rfl
    exact ((guarded_append es₁ (e :: es₂)).mp h).2.1
  intro h
  induction es generalizing s with
  | nil => trivial
  | cons e es ih =>
    refine ⟨h [] e es rfl, ih fun es₁ e' es₂ hes => ?_⟩
    have hmore := h (e :: es₁) e' es₂ (by rw [hes]; rfl)
    exact hmore

theorem guarded_of_forall : ∀ {es : List (Ev ι C K)} {s : Sys ι O R E S}, (∀ e ∈ es, ∀ s, G s e) → Guarded M G s es := by
  intro es
  induction es with
  | nil => intro s _; trivial
  | cons e es ih => intro s h; exact ⟨h e mem_cons_self s, ih fun e' he => h e' (mem_cons_of_mem _ he)⟩

theorem guarded_replicate {e : Ev ι C K} : ∀ (n : ℕ) (s : Sys ι O R E S),
    (∀ m, m < n → G (s.run M (replicate m e)) e) → Guarded M G s (replicate n e) := by
  intro n
  induction n with
  | zero => intro s _; trivial
  | succ n ih =>
    intro s h
    exact ⟨h 0 (Nat.succ_pos n), ih _ fun m hm => h (m + 1) (Nat.succ_lt_succ hm)⟩

theorem run_finished (h : ∀ i, (s.procs i).Finished) {es : List (Ev ι C K)}
    (hes : ∀ e ∈ es, ∃ i c, e = .step i c) : s.run M es = s := by
  induction es with
  | nil => rfl
  | cons e es ih =>
    obtain ⟨i, c, rfl⟩ := hes e mem_cons_self
    show (s.stepProc M i c).run M es = s
    rw [Sys.stepProc_finished (h i)]
    exact ih fun e' he => hes e' (mem_cons_of_mem _ he)

theorem Sys.running_stepProc {i j : ι} (c : C) (hj : j ≠ i) :
    (s.stepProc M i c).Running j ↔ s.Running j := by
  unfold Sys.stepProc Sys.Running
  split
  · simp only [update_of_ne hj]
  · exact Iff.rfl

/-- A condition that only asks for the other processes to be idle is met by a process that
runs alone. -/
theorem guarded_alone {i : ι} {c : C} (hG : ∀ s, (∀ j, j ≠ i → ¬ s.Running j) → G s (.step i c)) :
    ∀ (n : ℕ) (s : Sys ι O R E S), (∀ j, j ≠ i → ¬ s.Running j) → Guarded M G s (replicate n (.step i c)) := by
  intro n
  induction n with
  | zero => intro s _; trivial
  | succ n ih =>
    intro s hs
    refine ⟨hG s hs, ih _ ?_⟩
    intro j hj hrun
    exact hs j hj ((Sys.running_stepProc c hj).1 hrun)

/-- **Invariants of guarded steps hold after every guarded run.** -/
theorem run_inv (I : Sys ι O R E S → Prop) (hstep : ∀ s e, I s → G s e → I (s.step M e)) :
    ∀ (es : List (Ev ι C K)) (s : Sys ι O R E S), I s → Guarded M G s es → I (s.run M es) := by
  intro es
  induction es with
  | nil => intro s hs _; exact hs
  | cons e es ih => intro s hs hg; exact ih _ (hstep s e hs hg.1) hg.2

/-- **Invariants of operations.** What every operation that a process may issue keeps, whatever is chosen,
holds after every run. -/
theorem run_uses {L : O → Prop} (J : S → Prop) (hop : ∀ i o c st, L o → J st → J (M.exec i o c st).2)
    (hcrash : ∀ x st, J st → J (M.crash x st)) (hs : J s.st) (hL : ∀ i, (s.procs i).Uses L)
    (es : List (Ev ι C K)) : J (s.run M es).st := by
  have hinv := run_inv (M := M) (G := fun _ _ => True) (fun s => J s.st ∧ ∀ i, (s.procs i).Uses L) ?_ es s ⟨hs, hL⟩
    (guarded_of_forall fun _ _ _ => trivial)
  · exact hinv.1
  rintro s e ⟨hst, huses⟩ -
  refine ⟨?_, Sys.uses_step huses e⟩
  cases e with
  | crash x => exact hcrash x _ hst
  | step i c =>
    show J (s.stepProc M i c).st
    rcases Sys.stepProc_cases M s i c with heq | ⟨o, k, hp, heq⟩
    · rw [heq]
      exact hst
    · have hi := huses i
      rw [hp] at hi
      rw [heq]
      exact hop i o c s.st hi.1 hst

/-- Every process keeps its protocol from its phase on. -/
def Tracks (T : ι → Proto O R Ph) (s : Sys ι O R E S) (φ : ι → Ph) : Prop :=
  ∀ i, (s.procs i).Sat (T i) (fun _ _ => True) (fun _ _ => True) (φ i)

variable {T : ι → Proto O R Ph}

theorem tracks_call {φ : ι → Ph} (ht : Tracks T s φ) {i : ι} {c : C} {o : O}
    {k : R o → Prog O R E Unit} (h : s.procs i = .call o k) :
    (T i).allowed (φ i) o ∧ Tracks T (s.stepProc M i c)
      (update φ i ((T i).next (φ i) o (M.exec i o c s.st).1)) := by
  have hi := ht i
  rw [h] at hi
  refine ⟨hi.1, ?_⟩
  rw [Sys.stepProc_call h]
  intro j
  by_cases hj : j = i
  · subst hj; simp only [update_self]; exact hi.2 _
  · simp only [update_of_ne hj]; exact ht j

theorem tracks_crash {φ : ι → Ph} (ht : Tracks T s φ) (x : K) :
    Tracks T (s.step M (.crash x)) φ := by
  intro i
  simp only [Sys.step]
  split
  · trivial
  · exact ht i

/-- **Invariants of processes that keep their protocols.** It is enough that each
allowed operation, and each crash, keeps the invariant. -/
theorem run_proto (I : Sys ι O R E S → (ι → Ph) → Prop)
    (hcall : ∀ s φ i c o (k : R o → Prog O R E Unit), I s φ → G s (.step i c) → s.procs i = .call o k →
      (T i).allowed (φ i) o →
      I (s.stepProc M i c) (update φ i ((T i).next (φ i) o (M.exec i o c s.st).1)))
    (hcrash : ∀ s φ x, I s φ → G s (.crash x) → I (s.step M (.crash x)) φ) :
    ∀ (es : List (Ev ι C K)) (s : Sys ι O R E S) (φ : ι → Ph), Tracks T s φ → I s φ →
      Guarded M G s es → ∃ φ', Tracks T (s.run M es) φ' ∧ I (s.run M es) φ' := by
  intro es
  induction es with
  | nil => intro s φ ht hi _; exact ⟨φ, ht, hi⟩
  | cons e es ih =>
    intro s φ ht hi hg
    cases e with
    | crash x => exact ih _ φ (tracks_crash ht x) (hcrash s φ x hi hg.1) hg.2
    | step i c =>
      have hg2 : Guarded M G (s.stepProc M i c) es := hg.2
      show ∃ φ', Tracks T ((s.stepProc M i c).run M es) φ' ∧ I ((s.stepProc M i c).run M es) φ'
      cases hp : s.procs i with
      | call o k =>
        obtain ⟨ha, ht'⟩ := tracks_call (M := M) (c := c) ht hp
        exact ih _ _ ht' (hcall s φ i c o k hi hg.1 hp ha) hg2
      | ret a =>
        rw [Sys.stepProc_finished (by rw [hp]; trivial)] at hg2 ⊢
        exact ih s φ ht hi hg2
      | err e =>
        rw [Sys.stepProc_finished (by rw [hp]; trivial)] at hg2 ⊢
        exact ih s φ ht hi hg2

/-! ## One program alone -/

namespace Prog

omit [DecidableEq ι] in
/-- Run a program to its end; the `n`-th choice resolves its `n`-th operation. -/
def eval (M : Sem ι O R S C K) (i : ι) : Prog O R E α → (ℕ → C) → S → Except E α × S
  | .ret a, _, s => (.ok a, s)
  | .err e, _, s => (.error e, s)
  | .call o k, cs, s =>
    (k (M.exec i o (cs 0) s).1).eval M i (fun n => cs (n + 1)) (M.exec i o (cs 0) s).2

omit [DecidableEq ι] in
/-- **A program that keeps a protocol, run alone.** An invariant that ties the state to
the phase, kept by every allowed operation, holds at the end with what the program is
known to end in. -/
theorem eval_sat {T : Proto O R Ph} {Q : α → Ph → Prop} {X : E → Ph → Prop} (I : S → Ph → Prop)
    (ok : C → Prop) {i : ι}
    (hI : ∀ s ph o c, I s ph → T.allowed ph o → ok c → I (M.exec i o c s).2 (T.next ph o (M.exec i o c s).1)) :
    ∀ (p : Prog O R E α) (ph : Ph) (cs : ℕ → C) (s : S), p.Sat T Q X ph → I s ph → (∀ n, ok (cs n)) →
      ∃ ph', I (p.eval M i cs s).2 ph' ∧ match (p.eval M i cs s).1 with
        | .ok a => Q a ph'
        | .error e => X e ph' := by
  intro p
  induction p with
  | ret a => intro ph cs s hp hs _; exact ⟨ph, hs, hp⟩
  | err e => intro ph cs s hp hs _; exact ⟨ph, hs, hp⟩
  | call o k ih =>
    intro ph cs s hp hs hcs
    exact ih _ _ _ _ (hp.2 _) (hI s ph o (cs 0) hs hp.1 (hcs 0)) fun n => hcs (n + 1)

omit [DecidableEq ι] in
/-- An operation that is known to answer `a`. -/
theorem eval_call {i : ι} {o : O} {k : R o → Prog O R E α} {cs : ℕ → C} {s : S} {a : R o × S}
    (h : M.exec i o (cs 0) s = a) : (call o k).eval M i cs s = (k a.1).eval M i (fun n => cs (n + 1)) a.2 := by
  subst h
  rfl

omit [DecidableEq ι] in
/-- How many operations the program issues. -/
def used (M : Sem ι O R S C K) (i : ι) : Prog O R E α → (ℕ → C) → S → ℕ
  | .call o k, cs, s => (k (M.exec i o (cs 0) s).1).used M i (fun n => cs (n + 1)) (M.exec i o (cs 0) s).2 + 1
  | _, _, _ => 0

omit [DecidableEq ι] in
/-- Running one program after another: the second resolves its operations by the choices that are
left. -/
theorem eval_bind_used {β : Type} (i : ι) (f : α → Prog O R E β) : ∀ (p : Prog O R E α) (cs : ℕ → C) (s : S),
    (p.bind f).eval M i cs s = match p.eval M i cs s with
      | (.ok a, s') => (f a).eval M i (fun k => cs (k + p.used M i cs s)) s'
      | (.error e, s') => (.error e, s') := by
  intro p
  induction p with
  | ret a => intro cs s; rfl
  | err e => intro cs s; rfl
  | call o k ih =>
    intro cs s
    exact ih (M.exec i o (cs 0) s).1 (fun m => cs (m + 1)) (M.exec i o (cs 0) s).2

omit [DecidableEq ι] in
theorem eval_bind {β : Type} (i : ι) (f : α → Prog O R E β) (p : Prog O R E α) (cs : ℕ → C) (s : S) :
    ∃ n, (p.bind f).eval M i cs s = match p.eval M i cs s with
      | (.ok a, s') => (f a).eval M i (fun k => cs (k + n)) s'
      | (.error e, s') => (.error e, s') :=
  ⟨_, eval_bind_used i f p cs s⟩

omit [DecidableEq ι] in
theorem used_bind_ret {β : Type} (i : ι) (f : α → β) : ∀ (p : Prog O R E α) (cs : ℕ → C) (s : S),
    (p.bind fun a => .ret (f a)).used M i cs s = p.used M i cs s := by
  intro p
  induction p with
  | ret a => intro cs s; rfl
  | err e => intro cs s; rfl
  | call o k ih =>
    intro cs s
    show ((k _).bind fun a => .ret (f a)).used M i _ _ + 1 = (k _).used M i _ _ + 1
    rw [ih]

omit [DecidableEq ι] in
theorem eval_attempt (i : ι) : ∀ (p : Prog O R E α) (cs : ℕ → C) (s : S),
    p.attempt.eval M i cs s = (.ok (p.eval M i cs s).1, (p.eval M i cs s).2) := by
  intro p
  induction p with
  | ret a => intro cs s; rfl
  | err e => intro cs s; rfl
  | call o k ih => intro cs s; exact ih _ _ _

omit [DecidableEq ι] in
theorem eval_mapErr (i : ι) (f : E → E) (p : Prog O R E α) (cs : ℕ → C) (s : S) :
    (p.mapErr f).eval M i cs s = ((p.eval M i cs s).1.mapError f, (p.eval M i cs s).2) := by
  obtain ⟨n, hn⟩ := eval_bind (M := M) i (orErr f) p.attempt cs s
  unfold mapErr
  rw [hn, eval_attempt]
  cases (p.eval M i cs s).1 <;> rfl

end Prog

/-- **A program run alone is a run of the system** in which only its process steps. -/
theorem run_eval (M : Sem ι O R S C K) (i : ι) (c : C) : ∀ (p : Prog O R E Unit) (s : Sys ι O R E S), s.procs i = p →
    ∃ n, (s.run M (replicate n (.step i c))).st = (p.eval M i (fun _ => c) s.st).2 ∧
      ((s.run M (replicate n (.step i c))).procs i).Finished ∧
      ∀ j, j ≠ i → (s.run M (replicate n (.step i c))).procs j = s.procs j ∧
        (s.run M (replicate n (.step i c))).started j = s.started j := by
  intro p
  induction p with
  | ret a => intro s hs; exact ⟨0, rfl, by rw [replicate_zero, Sys.run_nil, hs]; trivial, fun _ _ => ⟨rfl, rfl⟩⟩
  | err e => intro s hs; exact ⟨0, rfl, by rw [replicate_zero, Sys.run_nil, hs]; trivial, fun _ _ => ⟨rfl, rfl⟩⟩
  | call o k ih =>
    intro s hs
    have hstep := Sys.stepProc_call (M := M) (c := c) hs
    have hprocs : (s.stepProc M i c).procs i = k (M.exec i o c s.st).1 := by
      rw [hstep]; exact update_self _ _ _
    obtain ⟨n, hst, hfin, hoth⟩ := ih _ (s.stepProc M i c) hprocs
    refine ⟨n + 1, ?_, hfin, ?_⟩
    · rw [replicate_succ, Sys.run_cons]
      show ((s.stepProc M i c).run M _).st = _
      rw [hst, hstep]; rfl
    intro j hj
    have := hoth j hj
    rw [hstep] at this
    simp only [update_of_ne hj] at this
    show ((s.stepProc M i c).run M _).procs j = _ ∧ ((s.stepProc M i c).run M _).started j = _
    rw [hstep]
    exact this

end Klio.Lib
