import Mathlib

/-!
# Programs over operations, and protocols they follow

A program is a tree of operations: it returns, fails, or issues an operation and
goes on with its result. Code that talks to a file system, a queue or a peer is
written in it, with the answers of the outside left open.

* `Prog.bind`, `Prog.attempt`: sequencing, and running a program to its outcome.
* `Proto`: a protocol automaton, which operations a phase allows and the phase an
  answer leads to.
* `Prog.Sat`: a program keeps the protocol whatever the answers are, and ends in a
  phase its postcondition describes (`Q` on return, `X` on failure). The rules are
  `sat_bind`, `sat_mono` and `sat_attempt`.
* `Prog.Uses`: all the operations a program may issue meet a condition.
-/

namespace Klio.Lib

/-- A program over operations `O` with results `R`, failing with `E`. -/
inductive Prog (O : Type) (R : O → Type) (E α : Type) : Type
  | ret (a : α)
  | err (e : E)
  | call (o : O) (k : R o → Prog O R E α)

namespace Prog

variable {O : Type} {R : O → Type} {E α β γ : Type}

/-- Sequencing: a failure stops the program. -/
def bind : Prog O R E α → (α → Prog O R E β) → Prog O R E β
  | ret a, f => f a
  | err e, _ => err e
  | call o k, f => call o fun r => (k r).bind f

instance : Monad (Prog O R E) where
  pure := ret
  bind := bind

/-- Issue one operation. -/
def op (o : O) : Prog O R E (R o) := call o ret

/-- Run a program to its outcome, failure included. -/
def attempt : Prog O R E α → Prog O R E (Except E α)
  | ret a => ret (.ok a)
  | err e => ret (.error e)
  | call o k => call o fun r => (k r).attempt

/-- Run a program to its outcome, inside one that fails in another way. -/
def outcome {E' : Type} : Prog O R E α → Prog O R E' (Except E α)
  | ret a => ret (.ok a)
  | err e => ret (.error e)
  | call o k => call o fun r => (k r).outcome

/-- Fail when the answer was an error, translated by `f`. -/
def orErr {ε : Type} (f : ε → E) : Except ε α → Prog O R E α
  | .ok a => ret a
  | .error e => err (f e)

/-- Report a failure as another one. -/
def mapErr (f : E → E) (p : Prog O R E α) : Prog O R E α := p.attempt.bind (orErr f)

/-- The program has ended, by returning or by failing. -/
def Finished : Prog O R E α → Prop
  | call _ _ => False
  | _ => True

instance (p : Prog O R E α) : Decidable p.Finished :=
  match p with
  | call _ _ => isFalse id
  | ret _ => isTrue trivial
  | err _ => isTrue trivial

/-- The operation that the program issues next. -/
def nextOp : Prog O R E α → Option O
  | call o _ => some o
  | _ => none

@[simp] theorem pure_def (a : α) : (pure a : Prog O R E α) = ret a := rfl

@[simp] theorem bind_def (p : Prog O R E α) (f : α → Prog O R E β) : (p >>= f) = p.bind f := rfl

@[simp] theorem ret_bind (a : α) (f : α → Prog O R E β) : (ret a).bind f = f a := rfl

@[simp] theorem err_bind (e : E) (f : α → Prog O R E β) : (err e : Prog O R E α).bind f = err e := rfl

@[simp] theorem call_bind (o : O) (k : R o → Prog O R E α) (f : α → Prog O R E β) :
    (call o k).bind f = call o fun r => (k r).bind f := rfl

@[simp] theorem op_bind (o : O) (f : R o → Prog O R E β) : (op o : Prog O R E (R o)).bind f = call o f := rfl

theorem bind_assoc (p : Prog O R E α) (f : α → Prog O R E β) (g : β → Prog O R E γ) :
    (p.bind f).bind g = p.bind fun a => (f a).bind g := by
  induction p with
  | ret a => rfl
  | err e => rfl
  | call o k ih => simp only [call_bind]; congr 1; funext r; exact ih r

end Prog

/-- **A protocol automaton** over phases `Ph`: what a phase allows, and where the
answer to an allowed operation leads. -/
structure Proto (O : Type) (R : O → Type) (Ph : Type) where
  allowed : Ph → O → Prop
  next : Ph → (o : O) → R o → Ph

def Proto.flag {O : Type} {R : O → Type} {Ph : Type} (T : Proto O R Ph) (sets : (o : O) → R o → Bool) :
    Proto O R (Ph × Bool) where
  allowed ph o := T.allowed ph.1 o
  next ph o r := (T.next ph.1 o r, ph.2 || sets o r)

namespace Prog

variable {O : Type} {R : O → Type} {E α β Ph : Type} {T : Proto O R Ph}

/-- **The program keeps the protocol** from a phase on, for every answer it may get,
and ends as `Q` (on return) or `X` (on failure) says. -/
def Sat (T : Proto O R Ph) (Q : α → Ph → Prop) (X : E → Ph → Prop) : Prog O R E α → Ph → Prop
  | ret a, ph => Q a ph
  | err e, ph => X e ph
  | call o k, ph => T.allowed ph o ∧ ∀ r, (k r).Sat T Q X (T.next ph o r)

variable {Q : α → Ph → Prop} {X : E → Ph → Prop}

variable {ph : Ph}

theorem sat_ret {a : α} (h : Q a ph) : (ret a : Prog O R E α).Sat T Q X ph := h

theorem sat_err {e : E} (h : X e ph) : (err e : Prog O R E α).Sat T Q X ph := h

theorem sat_call {o : O} {k : R o → Prog O R E α} (ha : T.allowed ph o)
    (hk : ∀ r, (k r).Sat T Q X (T.next ph o r)) : (call o k).Sat T Q X ph := ⟨ha, hk⟩

variable {p : Prog O R E α}

theorem sat_mono {Q' : α → Ph → Prop} {X' : E → Ph → Prop}
    (h : p.Sat T Q X ph) (hq : ∀ a ph, Q a ph → Q' a ph) (hx : ∀ e ph, X e ph → X' e ph) :
    p.Sat T Q' X' ph := by
  induction p generalizing ph with
  | ret a => exact hq a ph h
  | err e => exact hx e ph h
  | call o k ih => exact ⟨h.1, fun r => ih r (h.2 r)⟩

/-- **Sequencing**: the continuation starts in a phase the first program ends in. -/
theorem sat_bind {Q' : β → Ph → Prop} {f : α → Prog O R E β}
    (hp : p.Sat T Q X ph) (hf : ∀ a ph, Q a ph → (f a).Sat T Q' X ph) :
    (p.bind f).Sat T Q' X ph := by
  induction p generalizing ph with
  | ret a => exact hf a ph hp
  | err e => exact hp
  | call o k ih => exact ⟨hp.1, fun r => ih r (hp.2 r)⟩

/-- One condition on outcomes: `Q` of a result, `X` of a failure. -/
def Ends (Q : α → Ph → Prop) (X : E → Ph → Prop) : Except E α → Ph → Prop
  | .ok a => Q a
  | .error e => X e

theorem sat_attempt {Q' : Except E α → Ph → Prop}
    (hp : p.Sat T (fun a => Q' (.ok a)) (fun e => Q' (.error e)) ph) : p.attempt.Sat T Q' X ph := by
  induction p generalizing ph with
  | ret a => exact hp
  | err e => exact hp
  | call o k ih => exact ⟨hp.1, fun r => ih r (hp.2 r)⟩

theorem sat_outcome {E' : Type} {X' : E' → Ph → Prop} {Q' : Except E α → Ph → Prop}
    (hp : p.Sat T (fun a => Q' (.ok a)) (fun e => Q' (.error e)) ph) : (p.outcome : Prog O R E' (Except E α)).Sat T Q' X' ph := by
  induction p generalizing ph with
  | ret a => exact hp
  | err e => exact hp
  | call o k ih => exact ⟨hp.1, fun r => ih r (hp.2 r)⟩

theorem sat_orErr {ε : Type} {f : ε → E} {x : Except ε α} (hok : ∀ a, x = .ok a → Q a ph)
    (herr : ∀ e, x = .error e → X (f e) ph) : (orErr f x : Prog O R E α).Sat T Q X ph := by
  cases x with
  | ok a => exact hok a rfl
  | error e => exact herr e rfl

theorem sat_mapErr {f : E → E} : ∀ {p : Prog O R E α} {ph : Ph}, p.Sat T Q (fun e => X (f e)) ph → (p.mapErr f).Sat T Q X ph := by
  intro p
  induction p with
  | ret a => exact fun h => h
  | err e => exact fun h => h
  | call o k ih => exact fun h => ⟨h.1, fun r => ih r (h.2 r)⟩

/-! ## The operations a program issues -/

/-- Every operation the program may issue meets `P`. -/
def Uses (P : O → Prop) : Prog O R E α → Prop
  | call o k => P o ∧ ∀ r, (k r).Uses P
  | _ => True

variable {P : O → Prop}

theorem uses_mono {P' : O → Prop} (h : ∀ o, P o → P' o) : ∀ {p : Prog O R E α}, p.Uses P → p.Uses P' := by
  intro p
  induction p with
  | ret a => exact id
  | err e => exact id
  | call o k ih => exact fun hp => ⟨h o hp.1, fun r => ih r (hp.2 r)⟩

theorem uses_bind {f : α → Prog O R E β} (hf : ∀ a, (f a).Uses P) : ∀ {p : Prog O R E α}, p.Uses P → (p.bind f).Uses P := by
  intro p
  induction p with
  | ret a => exact fun _ => hf a
  | err e => exact id
  | call o k ih => exact fun hp => ⟨hp.1, fun r => ih r (hp.2 r)⟩

theorem uses_map {g : α → β} (hp : p.Uses P) : (p.bind fun a => ret (g a)).Uses P :=
  uses_bind (fun a => show (ret (g a) : Prog O R E β).Uses P from trivial) hp

theorem uses_attempt : ∀ {p : Prog O R E α}, p.Uses P → p.attempt.Uses P := by
  intro p
  induction p with
  | ret a => exact id
  | err e => exact id
  | call o k ih => exact fun hp => ⟨hp.1, fun r => ih r (hp.2 r)⟩

theorem uses_orErr {ε : Type} (f : ε → E) (x : Except ε α) : (orErr f x : Prog O R E α).Uses P := by
  cases x <;> trivial

theorem uses_mapErr {f : E → E} (hp : p.Uses P) : (p.mapErr f).Uses P :=
  uses_bind (fun x => uses_orErr f x) (uses_attempt hp)

theorem uses_any (p : Prog O R E α) : p.Uses fun _ => True := by
  induction p with
  | ret a => trivial
  | err e => trivial
  | call o k ih => exact ⟨trivial, ih⟩

theorem Sat.restrict {L : Ph → O → Prop} : ∀ {p : Prog O R E α} {ph : Ph}, p.Sat T Q X ph → p.Uses (fun o => ∀ ph, L ph o) →
    p.Sat ⟨fun ph o => T.allowed ph o ∧ L ph o, T.next⟩ Q X ph := by
  intro p
  induction p with
  | ret a => exact fun h _ => h
  | err e => exact fun h _ => h
  | call o k ih => exact fun h hu => ⟨⟨h.1, hu.1 _⟩, fun r => ih r (h.2 r) (hu.2 r)⟩

/-- **A flag beside the phase**, with what is kept about both. -/
theorem Sat.flag (sets : (o : O) → R o → Bool) (J : Ph × Bool → Prop)
    (hJ : ∀ ph b o r, J (ph, b) → T.allowed ph o → J (T.next ph o r, b || sets o r)) :
    ∀ {p : Prog O R E α} {ph : Ph} {b : Bool}, p.Sat T Q X ph → J (ph, b) →
      p.Sat (T.flag sets) (fun a ph => Q a ph.1 ∧ J ph) (fun e ph => X e ph.1 ∧ J ph) (ph, b) := by
  intro p
  induction p with
  | ret a => exact fun h hj => ⟨h, hj⟩
  | err e => exact fun h hj => ⟨h, hj⟩
  | call o k ih => exact fun h hj => ⟨h.1, fun r => ih r (h.2 r) (hJ _ _ o r hj h.1)⟩

theorem Sat.uses (hT : ∀ ph o, T.allowed ph o → P o) : ∀ {p : Prog O R E α} {ph : Ph}, p.Sat T Q X ph → p.Uses P := by
  intro p
  induction p with
  | ret a => exact fun _ => trivial
  | err e => exact fun _ => trivial
  | call o k ih => exact fun h => ⟨hT _ o h.1, fun r => ih r (h.2 r)⟩

theorem Uses.sat (hp : p.Uses P) (h : ∀ ph o, P o → T.allowed ph o) (ph : Ph) :
    p.Sat T (fun _ _ => True) (fun _ _ => True) ph := by
  induction p generalizing ph with
  | ret a => trivial
  | err e => trivial
  | call o k ih => exact ⟨h ph o hp.1, fun r => ih r (hp.2 r) _⟩

theorem Uses.sat_same (hp : p.Uses P) (ha : ∀ o, P o → T.allowed ph o)
    (hn : ∀ o r, P o → T.next ph o r = ph) : p.Sat T (fun _ ph' => ph' = ph) (fun _ ph' => ph' = ph) ph := by
  induction p with
  | ret a => rfl
  | err e => rfl
  | call o k ih =>
    refine ⟨ha o hp.1, fun r => ?_⟩
    rw [hn o r hp.1]
    exact ih r (hp.2 r)

end Prog

end Klio.Lib
