import Klio.Proof.PrefetchProto

/-!
# The mutex of a prefetcher and its pool

Work is given to the pool under the mutex, and a worker takes the mutex once it has downloaded a
segment. So a goroutine that holds the mutex while it waits for a worker may wait for workers that
wait for the mutex.

* `mutex_step`: whoever is in a section holds the mutex.
* `pool_cannot_deadlock`: nobody waits so, if a download is only started while a worker is free.
* `pool_deadlocks`: a run that gets there.
-/

namespace Klio

open Lib Function

variable {cfg : PrefetcherConfig} {held : Name → Option (List UInt8)} {wanted : ℕ → Wanted} {s s' : PfState}
  {φ : Goroutine → PfPhase} {i : Goroutine} {o : PfOp} {c : PfChoice} {r : o.Res}

/-! ## The mutex -/

/-- Whoever is in a section holds the mutex. -/
def Mutex (s : PfState) (φ : Goroutine → PfPhase) : Prop := ∀ i, (φ i).sect ≠ .out → s.mu = some i

theorem Mutex.alone (h : Mutex s φ) {j : Goroutine} (hi : (φ i).sect ≠ .out) (hj : (φ j).sect ≠ .out) : j = i :=
  Option.some.inj ((h j hj).symm.trans (h i hi))

/-- What is done under the mutex only. -/
def PfOp.UnderLock : PfOp → Prop
  | .unlock | .entryOf _ | .readEntry _ | .deleteEntry _ | .newEntry _ _ | .go _ _ => True
  | _ => False

variable {ph : PfPhase}

theorem allowed_underLock (ha : (pfProto cfg wanted i).allowed ph o) (ho : o.UnderLock) : ph.sect ≠ .out := by
  cases i with
  | request n =>
    cases o <;> try exact ho.elim
    case unlock => exact ha.1
    case entryOf => exact ha.1
    case readEntry =>
      obtain ⟨y, hy⟩ := ha
      rw [hy]
      exact nofun
    case deleteEntry =>
      rcases ha with ⟨e, he, -⟩ | ⟨hin, -⟩
      · rw [he]
        exact nofun
      · rw [hin]
        exact nofun
    case newEntry =>
      rw [ha.1]
      exact nofun
    case go =>
      have hcreated : ph.sect = _ := ha
      rw [hcreated]
      exact nofun
  | worker e =>
    cases o <;> first | exact ho.elim | exact ha.elim | exact ha.1

theorem sect_same (ho : ¬ o.UnderLock) (hlock : o ≠ .lock) : (pfNext ph o r).sect = ph.sect := by
  cases o <;> first | exact (ho trivial).elim | exact (hlock rfl).elim | rfl | skip
  case setErr => simp only [pfNext]; split <;> rfl
  case get => simp only [pfNext]; split <;> rfl
  case file f =>
    cases f <;> first | rfl | skip
    case rename => simp only [pfNext]; split <;> rfl
    case remove =>
      simp only [pfNext, PfPhase.removed]
      split <;> first | rfl | (split <;> rfl)

theorem sect_next (ha : (pfProto cfg wanted i).allowed ph o) (h : (pfNext ph o r).sect ≠ .out) :
    o = .lock ∨ (o ≠ .unlock ∧ ph.sect ≠ .out) := by
  by_cases ho : o.UnderLock
  · refine .inr ⟨?_, allowed_underLock ha ho⟩
    rintro rfl
    apply h
    simp only [pfNext, PfPhase.unlocked]
    split <;> rfl
  · by_cases hlock : o = .lock
    · exact .inl hlock
    · rw [sect_same ho hlock] at h
      exact .inr ⟨fun hu => ho (hu ▸ trivial), h⟩

theorem exec_mu (h : PfState.exec cfg held i o c s = some (r, s')) :
    (o = .lock ∧ s.mu = none ∧ s'.mu = some i) ∨ (o = .unlock ∧ s'.mu = none) ∨ (o ≠ .lock ∧ o ≠ .unlock ∧ s'.mu = s.mu) := by
  cases o
  case lock =>
    simp only [PfState.exec] at h
    split at h
    · rename_i hmu
      cases h
      exact .inl ⟨rfl, hmu, rfl⟩
    · cases h
  case unlock =>
    cases h
    exact .inr (.inl ⟨rfl, rfl⟩)
  all_goals
    refine .inr (.inr ⟨nofun, nofun, ?_⟩)
    simp only [PfState.exec] at h
    try split at h
    all_goals try split at h
    all_goals first | (cases h; rfl) | cases h

/-- **The mutex**, over one step. -/
theorem mutex_step (hmu : Mutex s φ) (ha : (pfProto cfg wanted i).allowed (φ i) o)
    (h : PfState.exec cfg held i o c s = some (r, s')) : Mutex s' (update φ i (pfNext (φ i) o r)) := by
  intro j hj
  by_cases hji : j = i
  · subst hji
    rw [update_self] at hj
    rcases sect_next ha hj with rfl | ⟨hunlock, hsect⟩
    · rcases exec_mu h with ⟨-, -, hmu'⟩ | ⟨ho, -⟩ | ⟨ho, -⟩
      · exact hmu'
      · cases ho
      · exact absurd rfl ho
    · have hheld := hmu j hsect
      rcases exec_mu h with ⟨-, hfree, -⟩ | ⟨ho, -⟩ | ⟨-, -, hsame⟩
      · rw [hheld] at hfree
        cases hfree
      · exact absurd ho hunlock
      · rw [hsame]
        exact hheld
  · rw [update_of_ne hji] at hj
    have hheld := hmu j hj
    rcases exec_mu h with ⟨-, hfree, -⟩ | ⟨ho, -⟩ | ⟨-, -, hsame⟩
    · rw [hheld] at hfree
      cases hfree
    · subst ho
      exact absurd (hmu.alone (allowed_underLock ha trivial) hj) hji
    · rw [hsame]
      exact hheld

/-! ## The pool -/

def takesMutex : PfProg Unit → Bool
  | .call .lock _ => true
  | _ => false

/-- The next operation gives work to the pool. -/
def callsGo : PfProg Unit → Bool
  | .call (.go _ _) _ => true
  | _ => false

/-- **A deadlock**: a goroutine that holds the mutex waits for a worker, and every worker is at work
and waits for the mutex. -/
def Deadlocked (cfg : PrefetcherConfig) (s : Sys Goroutine PfOp PfOp.Res WalErr PfState) (i : Goroutine) : Prop :=
  (s.st.mu = some i ∧ callsGo (s.procs i) = true) ∧ cfg.maxConcurrentDownloads ≤ s.st.busy ∧
    ∀ e < s.st.allocated, s.st.jobs e ≠ none → ¬ (s.procs (.worker e)).Finished → takesMutex (s.procs (.worker e)) = true

/-- **The condition**: an entry is made, for a download that is then given to the pool, only while a
worker is free. -/
def WorkerFree (cfg : PrefetcherConfig) (s : Sys Goroutine PfOp PfOp.Res WalErr PfState) (i : Goroutine) (_ : PfChoice) : Prop :=
  ∀ y isPrefetch k, s.procs i = .call (.newEntry y isPrefetch) k → s.st.busy < cfg.maxConcurrentDownloads

/-- Whoever is about to give work to the pool finds a free worker. -/
def PoolFree (cfg : PrefetcherConfig) (s : PfState) (φ : Goroutine → PfPhase) : Prop :=
  Mutex s φ ∧ ∀ i y e, (φ i).sect = .created y e → s.busy < cfg.maxConcurrentDownloads

theorem allowed_go {e : ℕ} {y : Name} (ha : (pfProto cfg wanted i).allowed ph (.go e y)) : ph.sect = .created y e := by
  cases i with
  | request n => exact ha
  | worker e => exact ha.elim

theorem sect_created {y : Name} {e : ℕ} (h : (pfNext ph o r).sect = .created y e) :
    (∃ isPrefetch, o = .newEntry y isPrefetch) ∨ (ph.sect = .created y e ∧ ∀ e' y', o ≠ .go e' y') := by
  by_cases ho : o.UnderLock
  · cases o <;> try exact ho.elim
    case newEntry z isPrefetch =>
      cases h
      exact .inl ⟨isPrefetch, rfl⟩
    case go => cases h
    case unlock =>
      simp only [pfNext, PfPhase.unlocked] at h
      split at h <;> cases h
    case entryOf =>
      simp only [pfNext] at h
      split at h <;> cases h
    case deleteEntry =>
      simp only [pfNext, PfPhase.deleted] at h
      split at h <;> cases h
    case readEntry =>
      refine .inr ⟨?_, by simp⟩
      simp only [pfNext] at h
      split at h
      · split at h
        · cases h
        · exact h
      · exact h
  · by_cases hlock : o = .lock
    · subst hlock
      cases h
    · rw [sect_same ho hlock] at h
      exact .inr ⟨h, fun e' y' hgo => ho (hgo ▸ trivial)⟩

theorem exec_busy (h : PfState.exec cfg held i o c s = some (r, s')) : s'.busy ≤ s.busy ∨ ∃ e y, o = .go e y := by
  cases o
  case go e y => exact .inr ⟨e, y, rfl⟩
  case finish =>
    cases h
    exact .inl (Nat.sub_le _ _)
  all_goals
    left
    simp only [PfState.exec] at h
    try split at h
    all_goals try split at h
    all_goals first | (cases h; exact Nat.le_refl _) | cases h

/-- **The pool**, over one step that meets the condition. -/
theorem poolFree_step (hpool : PoolFree cfg s φ) (ha : (pfProto cfg wanted i).allowed (φ i) o)
    (hfree : ∀ y isPrefetch, o = .newEntry y isPrefetch → s.busy < cfg.maxConcurrentDownloads)
    (h : PfState.exec cfg held i o c s = some (r, s')) : PoolFree cfg s' (update φ i (pfNext (φ i) o r)) := by
  refine ⟨mutex_step hpool.1 ha h, ?_⟩
  intro j y e hj
  rcases exec_busy h with hbusy | ⟨e', y', rfl⟩
  · refine Nat.lt_of_le_of_lt hbusy ?_
    by_cases hji : j = i
    · subst hji
      rw [update_self] at hj
      rcases sect_created hj with ⟨isPrefetch, ho⟩ | ⟨hcreated, -⟩
      · exact hfree y isPrefetch ho
      · exact hpool.2 j y e hcreated
    · rw [update_of_ne hji] at hj
      exact hpool.2 j y e hj
  · -- nobody else is in a section while work is given to the pool
    by_cases hji : j = i
    · subst hji
      rw [update_self] at hj
      cases hj
    rw [update_of_ne hji] at hj
    have hout : (φ j).sect ≠ .out := by
      rw [hj]
      exact nofun
    exact absurd (hpool.1.alone (allowed_underLock ha trivial) hout) hji

/-- **No deadlock**: for every size of the pool and every schedule in which a download is started only
while a worker is free. -/
theorem pool_cannot_deadlock (cfg : PrefetcherConfig) (held : Name → Option (List UInt8)) (wanted : ℕ → Wanted)
    (fs : Fs Name UInt8) (es : List (Goroutine × PfChoice))
    (hfree : Heeds (pfSem cfg held) (WorkerFree cfg) (prefetcher cfg wanted fs) es) (i : Goroutine) :
    ¬ Deadlocked cfg ((prefetcher cfg wanted fs).schedule (pfSem cfg held) es) i := by
  obtain ⟨φ, habides, -, hpool⟩ := schedule_proto (M := pfSem cfg held) (T := pfProto cfg wanted) (fun _ => {})
    (PoolFree cfg) (by
      intro s φ i c o k r s' _ _ hpool hg hp ha he
      cases i with
      | request n => exact poolFree_step hpool ha (fun y isPrefetch ho => by subst ho; exact hg y isPrefetch k hp) he
      | worker e => exact poolFree_step hpool ha (fun y isPrefetch ho => by subst ho; exact hg y isPrefetch k hp) he)
    es (prefetcher cfg wanted fs) (fun _ => {}) (prefetcher_abides cfg wanted fs) (fun _ _ => rfl)
    ⟨fun i h => absurd rfl h, nofun⟩ hfree
  rintro ⟨⟨-, hgo⟩, hbusy, -⟩
  generalize hp : ((prefetcher cfg wanted fs).schedule (pfSem cfg held) es).procs i = p at hgo
  unfold callsGo at hgo
  split at hgo
  · have hsect := allowed_go (habides.allowed hp)
    have hlt := hpool.2 i _ _ hsect
    omega
  · cases hgo

/-- One worker, and one file ahead. -/
def oneWorker : PrefetcherConfig := newWALPrefetcher [] 1 1

def twoSegments : ℕ → Wanted
  | 0 => ⟨"000000010000000000000001".toList, ["first".toList]⟩
  | _ => ⟨"000000010000000000000002".toList, ["second".toList]⟩

/-- The server holds both. -/
def bothHeld (_ : Name) : Option (List UInt8) := some [7]

/-- The server answers with the file. -/
def wholeFile : PfChoice := .reply (.opened [⟨[7], 1⟩] none)

/-- One request alone, and its worker. -/
theorem one_download_no_deadlock :
    Heeds (pfSem oneWorker bothHeld) (WorkerFree oneWorker) (prefetcher oneWorker twoSegments Fs.empty)
        (List.replicate 3 (.request 0, .none)) ∧
      ∀ i, ¬ Deadlocked oneWorker ((prefetcher oneWorker twoSegments Fs.empty).schedule (pfSem oneWorker bothHeld)
        (List.replicate 3 (.request 0, .none))) i := by
  have hheeds : Heeds (pfSem oneWorker bothHeld) (WorkerFree oneWorker) (prefetcher oneWorker twoSegments Fs.empty)
      (List.replicate 3 (.request 0, .none)) := by
    refine ⟨fun y b k _ => ?_, fun y b k _ => ?_, fun y b k _ => ?_, trivial⟩
    · decide +kernel
    · decide +kernel
    · decide +kernel
  exact ⟨hheeds, pool_cannot_deadlock oneWorker bothHeld twoSegments Fs.empty _ hheeds⟩

/-- The worker has downloaded the first segment and waits for the mutex, which the request for the
second one holds while it waits for the worker. -/
theorem pool_deadlocks :
    Deadlocked oneWorker ((prefetcher oneWorker twoSegments Fs.empty).schedule (pfSem oneWorker bothHeld)
      (List.replicate 5 (.request 0, .none) ++ [(.worker 0, .none), (.worker 0, .none), (.worker 0, wholeFile)] ++
        List.replicate 3 (.worker 0, .none) ++ List.replicate 3 (.request 1, .none))) (.request 1) := by
  refine ⟨⟨?_, ?_⟩, ?_, ?_⟩
  · decide +kernel
  · decide +kernel
  · decide +kernel
  · decide +kernel

end Klio
