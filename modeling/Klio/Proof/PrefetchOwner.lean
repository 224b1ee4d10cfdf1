import Klio.Proof.PrefetchPool

/-!
# Who may use a spool file

The spool file of a name is used by the worker that downloads it, and then by the requests that hold
its entry. A new download of the same name goes to the same file, so nobody may hold an older entry
when it starts.

* `Latest`: the newest entry of a name.
* `Owned`: what the map, the entries and the phases say of each other.
* `Unrivalled`: the condition, that a download is started while no other request for the name is under
  way.
* `owned_step`: one step keeps `Owned` under the condition.
-/

namespace Klio

open Lib Function PfState

variable {cfg : PrefetcherConfig} {held : Name → Option (List UInt8)} {wanted : ℕ → Wanted} {s s' : PfState}
  {φ : Goroutine → PfPhase} {i : Goroutine} {o : PfOp} {c : PfChoice} {r : o.Res} {y z : Name} {e e' : ℕ}

theorem spoolPath_inj (h : cfg.spoolPath y = cfg.spoolPath z) : y = z :=
  List.head_eq_of_cons_eq (List.append_cancel_left h)

/-! ## Entries -/

/-- The newest entry of a name. -/
structure Latest (cfg : PrefetcherConfig) (s : PfState) (y : Name) (e : ℕ) : Prop where
  allocated : e < s.allocated
  path : (s.cells e).spoolPath = cfg.spoolPath y
  newest : ∀ e' < s.allocated, (s.cells e').spoolPath = cfg.spoolPath y → e' ≤ e

theorem Latest.unique (h : Latest cfg s y e) (h' : Latest cfg s y e') : e = e' :=
  Nat.le_antisymm (h'.newest e h.allocated h.path) (h.newest e' h'.allocated h'.path)

def WalEntry.Fresh (x : WalEntry) : Prop := x.state = .downloading ∧ x.err = none ∧ x.done = false

/-- The download of an entry is over. -/
def WalEntry.Settled (x : WalEntry) : Prop := (x.state = .ready ∧ x.err = none) ∨ (x.state = .failed ∧ x.err ≠ none)

/-- Entries are made and come to their end; nothing else happens to them. -/
structure Later (s s' : PfState) : Prop where
  allocated : s.allocated ≤ s'.allocated
  path : ∀ e < s.allocated, (s'.cells e).spoolPath = (s.cells e).spoolPath
  done : ∀ e < s.allocated, (s.cells e).done = true → (s'.cells e).done = true
  settled : ∀ e < s.allocated, (s.cells e).state ≠ .downloading →
    (s'.cells e).state = (s.cells e).state ∧ (s'.cells e).err = (s.cells e).err

theorem Later.of_cells (ha : s'.allocated = s.allocated) (hc : s'.cells = s.cells) : Later s s' where
  allocated := Nat.le_of_eq ha.symm
  path e _ := by rw [hc]
  done e _ h := by rw [hc]; exact h
  settled e _ _ := by rw [hc]; exact ⟨rfl, rfl⟩

theorem Later.downloading (h : Later s s') (he : e < s.allocated) (hs : (s'.cells e).state = .downloading) :
    (s.cells e).state = .downloading := by
  by_contra hne
  have hsame := (h.settled e he hne).1
  exact hne (hsame.symm.trans hs)

theorem Latest.later (h : Latest cfg s y e) (hl : Later s s')
    (hnew : ∀ e', s.allocated ≤ e' → e' < s'.allocated → (s'.cells e').spoolPath ≠ cfg.spoolPath y) : Latest cfg s' y e where
  allocated := Nat.lt_of_lt_of_le h.allocated hl.allocated
  path := (hl.path e h.allocated).trans h.path
  newest e' he' hpath := by
    by_cases hold : e' < s.allocated
    · exact h.newest e' hold ((hl.path e' hold).symm.trans hpath)
    · exact absurd hpath (hnew e' (Nat.le_of_not_lt hold) he')

/-! ## The invariant -/

/-- What a goroutine in a section knows of the map. -/
def SectOk (s : PfState) : Sect → Prop
  | .out | .inside => True
  | .found y e => s.entries y = some e
  | .stale y e => s.entries y = some e ∧ (s.cells e).state = .failed
  | .absent y => s.entries y = none
  | .created y e => s.entries y = some e ∧ s.jobs e = none

/-- What a goroutine knows of its entry. -/
def StageOk (cfg : PrefetcherConfig) (wanted : ℕ → Wanted) (s : PfState) : Goroutine → Stage → Prop
  | .worker e, .start => e < s.allocated → (s.cells e).Fresh
  | .worker e, .fetching y => s.jobs e = some y ∧ (s.cells e).Fresh
  | .worker e, .erred y => s.jobs e = some y ∧ (s.cells e).state = .downloading ∧ (s.cells e).err ≠ none ∧ (s.cells e).done = false
  | .worker e, .ended => e < s.allocated ∧ (s.cells e).Settled
  | .worker _, _ => False
  | .request r, .holds e => Latest cfg s (wanted r).walName e
  | .request r, .settled e => Latest cfg s (wanted r).walName e ∧ (s.cells e).done = true
  | .request r, .ready e | .request r, .moved e | .request r, .stuck e | .request r, .clean e =>
    Latest cfg s (wanted r).walName e ∧ (s.cells e).state = .ready
  | .request _, .fetching _ | .request _, .erred _ | .request _, .ended => False
  | .request _, _ => True

/-- **The map, the entries and the phases.** A download that is not over is in the map. -/
structure Owned (cfg : PrefetcherConfig) (wanted : ℕ → Wanted) (s : PfState) (φ : Goroutine → PfPhase) : Prop where
  mutex : Mutex s φ
  sect : ∀ i, SectOk s (φ i).sect
  map : ∀ y e, s.entries y = some e → Latest cfg s y e
  jobs : ∀ e y, s.jobs e = some y → e < s.allocated ∧ (s.cells e).spoolPath = cfg.spoolPath y
  live : ∀ y e, e < s.allocated → (s.cells e).state = .downloading → (s.cells e).spoolPath = cfg.spoolPath y → s.entries y = some e
  stage : ∀ i, StageOk cfg wanted s i (φ i).stage

theorem Owned.init (cfg : PrefetcherConfig) (wanted : ℕ → Wanted) (fs : Fs Name UInt8) :
    Owned cfg wanted { fs := fs } fun _ => {} where
  mutex _ h := absurd rfl h
  sect _ := trivial
  map _ _ h := by cases h
  jobs _ _ h := by cases h
  live _ e h := absurd h (Nat.not_lt_zero e)
  stage i := by
    cases i with
    | request r => trivial
    | worker e => exact fun h => absurd h (Nat.not_lt_zero e)

/-- A request that holds an entry. -/
def Stage.entry : Stage → Option ℕ
  | .holds e | .settled e | .ready e | .moved e | .stuck e | .clean e => some e
  | _ => none

theorem StageOk.latest {q : ℕ} {st : Stage} (h : StageOk cfg wanted s (.request q) st) (he : st.entry = some e) :
    Latest cfg s (wanted q).walName e := by
  cases st <;> cases he
  case holds => exact h
  all_goals exact h.1

theorem Owned.fetching (h : Owned cfg wanted s φ) (hst : (φ (.worker e)).stage = .fetching y) :
    Latest cfg s y e ∧ (s.cells e).state = .downloading := by
  have hok := h.stage (.worker e)
  rw [hst] at hok
  obtain ⟨hlt, hpath⟩ := h.jobs e y hok.1
  exact ⟨h.map y e (h.live y e hlt hok.2.1 hpath), hok.2.1⟩

theorem Owned.settled (h : Owned cfg wanted s φ) (he : e < s.allocated) (hdone : (s.cells e).done = true) : (s.cells e).Settled := by
  have hok := h.stage (.worker e)
  cases hst : (φ (.worker e)).stage <;> rw [hst] at hok
  case ended => exact hok.2
  case start =>
    rw [(hok he).2.2] at hdone
    cases hdone
  case fetching =>
    rw [hok.2.2.2] at hdone
    cases hdone
  case erred =>
    rw [hok.2.2.2] at hdone
    cases hdone
  all_goals exact hok.elim

/-! ## What a step does -/

/-- What changes the map, the entries or what the pool was given. -/
def PfOp.Marks : PfOp → Prop
  | .deleteEntry _ | .newEntry _ _ | .go _ _ | .setErr _ _ | .setState _ _ | .closeDone _ => True
  | _ => False

/-- The map, the entries and what the pool was given are the same. -/
structure Unmarked (s s' : PfState) : Prop where
  entries : s'.entries = s.entries
  cells : s'.cells = s.cells
  allocated : s'.allocated = s.allocated
  jobs : s'.jobs = s.jobs

theorem exec_unmarked (h : exec cfg held i o c s = some (r, s')) (ho : ¬ o.Marks) : Unmarked s s' := by
  cases o <;> first | exact (ho trivial).elim | skip
  case learn =>
    cases h
    split <;> exact ⟨rfl, rfl, rfl, rfl⟩
  all_goals
    simp only [exec] at h
    try split at h
    all_goals try split at h
    all_goals first | (cases h; exact ⟨rfl, rfl, rfl, rfl⟩) | cases h

theorem StageOk.unmarked (hu : Unmarked s s') {st : Stage} (h : StageOk cfg wanted s i st) : StageOk cfg wanted s' i st := by
  have hlatest : ∀ y e, Latest cfg s y e → Latest cfg s' y e := fun y e hl =>
    hl.later (.of_cells hu.allocated hu.cells) fun e' hge hlt =>
      absurd (hu.allocated ▸ hlt) (Nat.not_lt_of_le hge)
  unfold StageOk at h ⊢
  rw [hu.cells, hu.allocated, hu.jobs]
  split at h
  all_goals first | exact h | exact hlatest _ _ h | exact ⟨hlatest _ _ h.1, h.2⟩

/-- **What becomes of an entry**: only its worker changes it. -/
theorem exec_cell (ha : (pfProto cfg wanted i).allowed (φ i) o) (h : exec cfg held i o c s = some (r, s')) (he : e < s.allocated) :
    s'.cells e = s.cells e ∨ i = .worker e ∧
      ((∃ err, o = .setErr e err ∧ s'.cells e = { s.cells e with err := some err }) ∨
        (∃ state, o = .setState e state ∧ s'.cells e = { s.cells e with state := state }) ∨
        (o = .closeDone e ∧ s'.cells e = { s.cells e with done := true })) := by
  by_cases ho : o.Marks
  · cases o <;> first | exact ho.elim | skip
    case deleteEntry => cases h; exact .inl rfl
    case go =>
      simp only [exec] at h
      split at h
      · cases h; exact .inl rfl
      · cases h
    case newEntry => cases h; exact .inl (update_of_ne (Nat.ne_of_lt he) _ _)
    all_goals
      cases i with
      | request q => exact ha.elim
      | worker q =>
        obtain ⟨hq, -⟩ := ha
        cases h
        by_cases hee : e = q
        · subst hee hq
          simp [setCell]
        · exact .inl (update_of_ne (fun heq => hee (heq.trans hq)) _ _)
  · exact .inl (congrFun (exec_unmarked h ho).cells e)

theorem exec_allocated (h : exec cfg held i o c s = some (r, s')) :
    s'.allocated = s.allocated ∨ ∃ y isPrefetch, o = .newEntry y isPrefetch ∧ s'.allocated = s.allocated + 1 ∧
      s'.cells s.allocated = { spoolPath := cfg.spoolPath y, isPrefetch := isPrefetch } := by
  by_cases ho : o.Marks
  · cases o <;> first | exact ho.elim | skip
    case newEntry y isPrefetch =>
      cases h
      exact .inr ⟨y, isPrefetch, rfl, rfl, update_self _ _ _⟩
    case go =>
      simp only [exec] at h
      split at h
      · cases h
        exact .inl rfl
      · cases h
    all_goals
      cases h
      exact .inl rfl
  · exact .inl (exec_unmarked h ho).allocated

section

variable (hown : Owned cfg wanted s φ) (ha : (pfProto cfg wanted i).allowed (φ i) o) (h : PfState.exec cfg held i o c s = some (r, s'))
include hown ha h

theorem later_step : Later s s' := by
  have hcell : ∀ e < s.allocated, (s'.cells e).spoolPath = (s.cells e).spoolPath ∧ ((s.cells e).done = true → (s'.cells e).done = true) ∧
      ((s.cells e).state ≠ .downloading → (s'.cells e).state = (s.cells e).state ∧ (s'.cells e).err = (s.cells e).err) := by
    intro e he
    have hok := hown.stage (.worker e)
    rcases exec_cell ha h he with hsame | ⟨rfl, ⟨err, rfl, hnew⟩ | ⟨state, rfl, hnew⟩ | ⟨rfl, hnew⟩⟩
    · rw [hsame]
      exact ⟨rfl, id, fun _ => ⟨rfl, rfl⟩⟩
    · obtain ⟨-, y, hst, -⟩ := ha
      rw [hst] at hok
      rw [hnew]
      exact ⟨rfl, id, fun hne => absurd hok.2.1 hne⟩
    · have hdown : (s.cells e).state = .downloading := by
        obtain ⟨-, y, ⟨-, hst⟩ | ⟨-, hst, -⟩⟩ := ha
        · rw [hst] at hok
          exact hok.2.1
        · rw [hst] at hok
          exact hok.2.1
      rw [hnew]
      exact ⟨rfl, id, fun hne => absurd hdown hne⟩
    · rw [hnew]
      exact ⟨rfl, fun _ => rfl, fun _ => ⟨rfl, rfl⟩⟩
  refine ⟨?_, fun e he => (hcell e he).1, fun e he => (hcell e he).2.1, fun e he => (hcell e he).2.2⟩
  rcases exec_allocated h with hsame | ⟨-, -, -, hsucc, -⟩
  · exact Nat.le_of_eq hsame.symm
  · exact hsucc ▸ Nat.le_succ _

theorem latest_step (hl : Latest cfg s y e) (hnew : ∀ isPrefetch, o ≠ .newEntry y isPrefetch) :
    Latest cfg s' y e := by
  refine hl.later (later_step hown ha h) ?_
  intro e' hge hlt hpath
  rcases exec_allocated h with hsame | ⟨z, isPrefetch, rfl, hsucc, hcell⟩
  · exact Nat.not_lt_of_le hge (hsame ▸ hlt)
  · obtain rfl : e' = s.allocated := by omega
    rw [hcell] at hpath
    obtain rfl := spoolPath_inj hpath
    exact hnew isPrefetch rfl

omit hown ha h in
theorem exec_entries (h : exec cfg held i o c s = some (r, s')) :
    (s'.entries = s.entries ∧ ∀ y isPrefetch, o ≠ .newEntry y isPrefetch) ∨
      (∃ y, o = .deleteEntry y ∧ s'.entries = update s.entries y none) ∨
      ∃ y isPrefetch, o = .newEntry y isPrefetch ∧ s'.entries = update s.entries y (some s.allocated) := by
  by_cases ho : o.Marks
  · cases o <;> first | exact ho.elim | skip
    case deleteEntry y => cases h; exact .inr (.inl ⟨y, rfl, rfl⟩)
    case newEntry y isPrefetch => cases h; exact .inr (.inr ⟨y, isPrefetch, rfl, rfl⟩)
    case go =>
      simp only [exec] at h
      split at h
      · cases h
        exact .inl ⟨rfl, by simp⟩
      · cases h
    all_goals
      cases h
      exact .inl ⟨rfl, by simp⟩
  · exact .inl ⟨(exec_unmarked h ho).entries, fun y isPrefetch hno => ho (hno ▸ trivial)⟩

omit hown ha h in
theorem exec_jobs (h : exec cfg held i o c s = some (r, s')) :
    s'.jobs = s.jobs ∨ ∃ e y, o = .go e y ∧ s'.jobs = update s.jobs e (some y) := by
  by_cases ho : o.Marks
  · cases o <;> first | exact ho.elim | skip
    case go e y =>
      simp only [exec] at h
      split at h
      · cases h
        exact .inr ⟨e, y, rfl, rfl⟩
      · cases h
    all_goals
      cases h
      exact .inl rfl
  · exact .inl (exec_unmarked h ho).jobs

/-! ## The map and the jobs -/

omit hown ha h in
theorem deleted_over (hown : Owned cfg wanted s φ) (ha : (pfProto cfg wanted i).allowed (φ i) (.deleteEntry y))
    (he : s.entries y = some e) : (s.cells e).state ≠ .downloading := by
  cases i with
  | worker q => exact ha.elim
  | request q =>
    rcases ha with ⟨e', hstale, -⟩ | ⟨-, rfl, e', hst⟩
    · have hok := hown.sect (.request q)
      rw [hstale] at hok
      obtain rfl : e = e' := Option.some.inj (he.symm.trans hok.1)
      rw [hok.2]
      exact nofun
    · -- the request holds the newest entry of its name, so it is this one
      have hok := hown.stage (.request q)
      have hready : Latest cfg s (wanted q).walName e' ∧ (s.cells e').state = .ready := by
        rcases hst with hst | hst
        · rw [hst] at hok
          exact hok
        · rw [hst] at hok
          exact hok
      obtain rfl := (hown.map _ e he).unique hready.1
      rw [hready.2]
      exact nofun

theorem map_step (he : s'.entries y = some e) : Latest cfg s' y e := by
  rcases exec_entries h with ⟨hsame, hno⟩ | ⟨z, rfl, hdel⟩ | ⟨z, isPrefetch, rfl, hnew⟩
  · rw [hsame] at he
    exact latest_step hown ha h (hown.map y e he) fun isPrefetch => hno y isPrefetch
  · rw [hdel] at he
    by_cases hyz : y = z
    · subst hyz
      rw [update_self] at he
      cases he
    · rw [update_of_ne hyz] at he
      exact latest_step hown ha h (hown.map y e he) nofun
  · rw [hnew] at he
    by_cases hyz : y = z
    · subst hyz
      rw [update_self] at he
      cases he
      cases h
      exact ⟨Nat.lt_succ_self _, by simp only [update_self], fun e' he' _ => Nat.le_of_lt_succ he'⟩
    · rw [update_of_ne hyz] at he
      exact latest_step hown ha h (hown.map y e he) fun _ hno => by cases hno; exact hyz rfl

omit hown ha h in
theorem created_jobs (hown : Owned cfg wanted s φ) (ha : (pfProto cfg wanted i).allowed (φ i) (.go e y)) :
    Latest cfg s y e ∧ s.jobs e = none := by
  have hok := hown.sect i
  rw [allowed_go ha] at hok
  exact ⟨hown.map y e hok.1, hok.2⟩

theorem jobs_step (he : s'.jobs e = some y) :
    e < s'.allocated ∧ (s'.cells e).spoolPath = cfg.spoolPath y := by
  have hlater := later_step hown ha h
  have hold : e < s.allocated ∧ (s.cells e).spoolPath = cfg.spoolPath y := by
    rcases exec_jobs h with hsame | ⟨e', z, rfl, hgo⟩
    · rw [hsame] at he
      exact hown.jobs e y he
    rw [hgo] at he
    by_cases hee : e = e'
    · subst hee
      rw [update_self] at he
      cases he
      have hlatest := (created_jobs hown ha).1
      exact ⟨hlatest.allocated, hlatest.path⟩
    · rw [update_of_ne hee] at he
      exact hown.jobs e y he
  exact ⟨Nat.lt_of_lt_of_le hold.1 hlater.allocated, (hlater.path e hold.1).trans hold.2⟩

theorem jobs_kept (he : s.jobs e = some y) : s'.jobs e = some y := by
  rcases exec_jobs h with hsame | ⟨e', z, rfl, hgo⟩
  · rw [hsame]
    exact he
  have hne : e ≠ e' := by
    rintro rfl
    rw [(created_jobs hown ha).2] at he
    cases he
  rw [hgo, update_of_ne hne]
  exact he

omit hown ha h in
theorem allowed_newEntry {isPrefetch : Bool} (hown : Owned cfg wanted s φ)
    (ha : (pfProto cfg wanted i).allowed (φ i) (.newEntry y isPrefetch)) : s.entries y = none := by
  cases i with
  | worker q => exact ha.elim
  | request q =>
    have hok := hown.sect (.request q)
    rw [ha.1] at hok
    exact hok

theorem live_step (he : e < s'.allocated) (hs : (s'.cells e).state = .downloading)
    (hpath : (s'.cells e).spoolPath = cfg.spoolPath y) : s'.entries y = some e := by
  have hlater := later_step hown ha h
  by_cases hold : e < s.allocated
  · have hdown := hlater.downloading hold hs
    have hentry := hown.live y e hold hdown ((hlater.path e hold).symm.trans hpath)
    rcases exec_entries h with ⟨hsame, -⟩ | ⟨z, rfl, hdel⟩ | ⟨z, isPrefetch, rfl, hnew⟩
    · rw [hsame]
      exact hentry
    · have hyz : y ≠ z := by
        rintro rfl
        exact deleted_over hown ha hentry hdown
      rw [hdel, update_of_ne hyz]
      exact hentry
    · have hyz : y ≠ z := by
        rintro rfl
        rw [allowed_newEntry hown ha] at hentry
        cases hentry
      rw [hnew, update_of_ne hyz]
      exact hentry
  · rcases exec_allocated h with hsame | ⟨z, isPrefetch, rfl, hsucc, hcell⟩
    · exact absurd (hsame ▸ he) hold
    obtain rfl : e = s.allocated := by omega
    rw [hcell] at hpath
    obtain rfl := spoolPath_inj hpath
    cases h
    exact update_self _ _ _

/-! ## The phases -/

theorem sectOk_kept (ho : ¬ o.UnderLock) {st : Sect} (hst : SectOk s st) : SectOk s' st := by
  have hentries : s'.entries = s.entries := by
    rcases exec_entries h with ⟨hsame, -⟩ | ⟨z, rfl, -⟩ | ⟨z, isPrefetch, rfl, -⟩
    · exact hsame
    · exact (ho trivial).elim
    · exact (ho trivial).elim
  have hjobs : s'.jobs = s.jobs := by
    rcases exec_jobs h with hsame | ⟨e, y, rfl, -⟩
    · exact hsame
    · exact (ho trivial).elim
  cases st with
  | out => trivial
  | inside => trivial
  | found y e => exact (congrFun hentries y).trans hst
  | absent y => exact (congrFun hentries y).trans hst
  | created y e => exact ⟨(congrFun hentries y).trans hst.1, (congrFun hjobs e).trans hst.2⟩
  | stale y e =>
    have hover : (s.cells e).state ≠ .downloading := by
      rw [hst.2]
      exact nofun
    have hsame := (later_step hown ha h).settled e (hown.map y e hst.1).allocated hover
    exact ⟨(congrFun hentries y).trans hst.1, hsame.1.trans hst.2⟩

theorem sectOk_next : SectOk s' (pfNext (φ i) o r).sect := by
  have hok := hown.sect i
  by_cases ho : o.UnderLock
  · cases o <;> first | exact ho.elim | skip
    case unlock =>
      simp only [pfNext, PfPhase.unlocked]
      split <;> trivial
    case entryOf y =>
      cases h
      cases hentry : s.entries y with
      | none => exact hentry
      | some e => exact hentry
    case readEntry e =>
      cases h
      simp only [pfNext]
      split
      · rename_i y e' hfound
        rw [hfound] at hok
        split
        · rename_i hfailed
          -- what is read is the entry that was found
          have he : e' = e := by
            cases i with
            | worker q => exact ha.elim
            | request q =>
              obtain ⟨z, hz⟩ := ha
              rw [hfound] at hz
              cases hz
              rfl
          subst he
          exact ⟨hok, hfailed⟩
        · rw [hfound]
          exact hok
      · exact hok
    case deleteEntry y =>
      cases h
      simp only [pfNext, PfPhase.deleted]
      split <;> exact update_self _ _ _
    case newEntry y isPrefetch =>
      cases h
      refine ⟨update_self _ _ _, ?_⟩
      by_contra hjob
      obtain ⟨z, hz⟩ := Option.ne_none_iff_exists'.mp hjob
      exact Nat.lt_irrefl _ (hown.jobs _ z hz).1
    case go e y =>
      rw [allowed_go ha] at hok
      simp only [exec] at h
      split at h
      · cases h
        exact hok.1
      · cases h
  · by_cases hlock : o = .lock
    · subst hlock
      trivial
    · rw [sect_same ho hlock]
      exact sectOk_kept hown ha h ho hok

theorem sectOk_other {j : Goroutine} (hj : j ≠ i) : SectOk s' (φ j).sect := by
  by_cases ho : o.UnderLock
  · by_cases hout : (φ j).sect = .out
    · rw [hout]
      trivial
    · exact absurd (hown.mutex.alone (allowed_underLock ha ho) hout) hj
  · exact sectOk_kept hown ha h ho (hown.sect j)

/-- What leads a goroutine to another stage. -/
def PfOp.Moves : PfOp → Prop
  | .unlock | .deleteEntry _ | .await _ | .entryErr _ | .setErr _ _ | .setState _ _ | .job _ => True
  | .file (.rename _ _) | .file (.remove _) => True
  | _ => False

omit hown ha h in
theorem stage_same {ph : PfPhase} (ho : ¬ o.Moves) : (pfNext ph o r).stage = ph.stage := by
  cases o <;> first | exact (ho trivial).elim | rfl | skip
  case readEntry =>
    simp only [pfNext]
    split
    · split <;> rfl
    · rfl
  case get =>
    simp only [pfNext]
    split <;> rfl
  case file f => cases f <;> first | exact (ho trivial).elim | rfl

theorem stageOk_request {q : ℕ} {st : Stage} (hst : StageOk cfg wanted s (.request q) st)
    (hnew : ∀ isPrefetch, o = .newEntry (wanted q).walName isPrefetch → st.entry = none) : StageOk cfg wanted s' (.request q) st := by
  have hlater := later_step hown ha h
  have hlatest : ∀ e, st.entry = some e → Latest cfg s' (wanted q).walName e := by
    intro e he
    refine latest_step hown ha h (hst.latest he) fun isPrefetch ho => ?_
    rw [hnew isPrefetch ho] at he
    cases he
  have hready : ∀ e, Latest cfg s (wanted q).walName e → (s.cells e).state = .ready → (s'.cells e).state = .ready := by
    intro e hl hs
    refine (hlater.settled e hl.allocated ?_).1.trans hs
    rw [hs]
    exact nofun
  cases st with
  | holds e => exact hlatest e rfl
  | settled e => exact ⟨hlatest e rfl, hlater.done e hst.1.allocated hst.2⟩
  | ready e => exact ⟨hlatest e rfl, hready e hst.1 hst.2⟩
  | moved e => exact ⟨hlatest e rfl, hready e hst.1 hst.2⟩
  | stuck e => exact ⟨hlatest e rfl, hready e hst.1 hst.2⟩
  | clean e => exact ⟨hlatest e rfl, hready e hst.1 hst.2⟩
  | fetching y => exact hst.elim
  | erred y => exact hst.elim
  | ended => exact hst.elim
  | start => trivial
  | direct => trivial
  | served => trivial
  | gone b => trivial

theorem stageOk_worker (hq : e < s.allocated → s'.cells e = s.cells e) {st : Stage}
    (hst : StageOk cfg wanted s (.worker e) st) : StageOk cfg wanted s' (.worker e) st := by
  have hlater := later_step hown ha h
  cases st with
  | start =>
    intro he
    by_cases hold : e < s.allocated
    · rw [hq hold]
      exact hst hold
    rcases exec_allocated h with hsame | ⟨y, isPrefetch, rfl, hsucc, hcell⟩
    · exact absurd (hsame ▸ he) hold
    · obtain rfl : e = s.allocated := by omega
      rw [hcell]
      exact ⟨rfl, rfl, rfl⟩
  | fetching y =>
    rw [StageOk, hq (hown.jobs e y hst.1).1]
    exact ⟨jobs_kept hown ha h hst.1, hst.2⟩
  | erred y =>
    rw [StageOk, hq (hown.jobs e y hst.1).1]
    exact ⟨jobs_kept hown ha h hst.1, hst.2⟩
  | ended =>
    rw [StageOk, hq hst.1]
    exact ⟨Nat.lt_of_lt_of_le hst.1 hlater.allocated, hst.2⟩
  | holds e => exact hst.elim
  | settled e => exact hst.elim
  | ready e => exact hst.elim
  | moved e => exact hst.elim
  | stuck e => exact hst.elim
  | clean e => exact hst.elim
  | direct => exact hst.elim
  | served => exact hst.elim
  | gone b => exact hst.elim

end

/-- **A worker** after its own step. -/
theorem stageOk_next_worker (hown : Owned cfg wanted s φ) (ha : (pfProto cfg wanted (.worker e)).allowed (φ (.worker e)) o)
    (h : exec cfg held (.worker e) o c s = some (r, s')) :
    StageOk cfg wanted s' (.worker e) (pfNext (φ (.worker e)) o r).stage := by
  have hok := hown.stage (.worker e)
  by_cases ho : o.Moves
  · cases o <;> first | exact ho.elim | exact ha.elim | skip
    case job e' =>
      obtain ⟨rfl, hst⟩ := ha
      rw [hst] at hok
      simp only [exec] at h
      split at h
      · rename_i hjob
        cases h
        exact ⟨hjob, hok (hown.jobs e' _ hjob).1⟩
      · cases h
    case unlock =>
      obtain ⟨-, y, hst⟩ := ha
      cases h
      simp only [pfNext, PfPhase.unlocked, hst]
      rw [hst] at hok
      exact hok
    case setErr e' err =>
      obtain ⟨rfl, y, hst, -⟩ := ha
      rw [hst] at hok
      cases h
      simp only [pfNext, hst, StageOk, setCell, update_self]
      exact ⟨hok.1, hok.2.1, by simp, hok.2.2.2⟩
    case setState e' state =>
      obtain ⟨rfl, y, hst⟩ := ha
      cases h
      have hlt : e' < s.allocated := by
        rcases hst with ⟨-, hst⟩ | ⟨-, hst, -⟩
        · rw [hst] at hok
          exact (hown.jobs e' y hok.1).1
        · rw [hst] at hok
          exact (hown.jobs e' y hok.1).1
      refine ⟨hlt, ?_⟩
      simp only [setCell, update_self]
      rcases hst with ⟨rfl, hst⟩ | ⟨rfl, hst, -⟩
      · rw [hst] at hok
        exact .inr ⟨rfl, hok.2.2.1⟩
      · rw [hst] at hok
        exact .inl ⟨rfl, hok.2.2.1⟩
    case file f =>
      cases f <;> first | exact ho.elim | exact ha.2.elim | skip
      case remove p =>
        obtain ⟨-, y, hst, -⟩ := ha
        have hsame : (pfNext (φ (.worker e)) (.file (.remove p)) r).stage = (φ (.worker e)).stage := by
          simp only [pfNext, PfPhase.removed, hst]
          split
          · rfl
          · exact hst
        rw [hsame]
        exact hok.unmarked (exec_unmarked h id)
  · rw [stage_same ho]
    by_cases hmark : o.Marks
    · cases o <;> first | exact hmark.elim | exact ha.elim | exact (ho trivial).elim | skip
      case closeDone e' =>
        obtain ⟨rfl, hst⟩ := ha
        rw [hst] at hok ⊢
        cases h
        refine ⟨hok.1, ?_⟩
        simp only [setCell, update_self]
        exact hok.2
    · exact hok.unmarked (exec_unmarked h hmark)

/-- **A request** after its own step. -/
theorem stageOk_next_request {q : ℕ} (hown : Owned cfg wanted s φ)
    (ha : (pfProto cfg wanted (.request q)).allowed (φ (.request q)) o)
    (h : exec cfg held (.request q) o c s = some (r, s')) :
    StageOk cfg wanted s' (.request q) (pfNext (φ (.request q)) o r).stage := by
  have hok := hown.stage (.request q)
  by_cases ho : o.Moves
  · have hkept : ∀ st, StageOk cfg wanted s (.request q) st → StageOk cfg wanted s' (.request q) st := by
      intro st hst
      refine stageOk_request hown ha h hst fun isPrefetch hnew => ?_
      subst hnew
      exact ho.elim
    refine hkept _ ?_
    cases o <;> first | exact ho.elim | exact ha.elim | skip
    case unlock =>
      have hsect := hown.sect (.request q)
      simp only [pfNext, PfPhase.unlocked]
      split
      · rename_i y e hst hfound
        obtain ⟨e', he' | he'⟩ := ha.2 hst
        · rw [hfound] at he' hsect
          cases he'
          exact hown.map _ e hsect
        · rw [hfound] at he'
          cases he'
      · rename_i y e hst hstale
        obtain ⟨e', he' | he'⟩ := ha.2 hst
        · rw [hstale] at he'
          cases he'
        · rw [hstale] at he' hsect
          cases he'
          exact hown.map _ e hsect.1
      · exact hok
    case deleteEntry y =>
      simp only [pfNext, PfPhase.deleted]
      split
      · trivial
      · rename_i e hst
        rw [hst] at hok
        exact hok
      · exact hok
    case await e =>
      rw [ha.2] at hok
      simp only [exec] at h
      split at h
      · cases h
        trivial
      split at h
      · rename_i hdone
        cases h
        exact ⟨hok, hdone⟩
      · cases h
    case entryErr e =>
      have hst : (φ (.request q)).stage = .settled e := ha
      rw [hst] at hok
      cases h
      simp only [pfNext]
      split
      · rename_i hnone
        rcases hown.settled hok.1.allocated hok.2 with ⟨hready, -⟩ | ⟨-, herr⟩
        · exact ⟨hok.1, hready⟩
        · exact absurd hnone herr
      · trivial
    case file f =>
      cases f <;> first | exact ho.elim | skip
      case rename p t =>
        simp only [pfNext]
        split
        · rename_i e _ hst
          rw [hst] at hok
          exact hok
        · rename_i e _ hst
          rw [hst] at hok
          exact hok
        · exact hok
      case remove p =>
        simp only [pfNext, PfPhase.removed]
        split
        · trivial
        · trivial
        · trivial
        · split
          · exact hok
          · exact hok
  · rw [stage_same ho]
    refine stageOk_request hown ha h hok fun isPrefetch hnew => ?_
    subst hnew
    rcases ha.2 with hst | hst | hst
    · rw [hst]; rfl
    · rw [hst]; rfl
    · rw [hst]; rfl

/-- **Ownership, over one step.** No other request holds an entry of the name for which one is made. -/
theorem owned_step (hown : Owned cfg wanted s φ) (ha : (pfProto cfg wanted i).allowed (φ i) o)
    (hnew : ∀ y isPrefetch, o = .newEntry y isPrefetch → ∀ q, Goroutine.request q ≠ i → (wanted q).walName = y →
      (φ (.request q)).stage.entry = none)
    (h : exec cfg held i o c s = some (r, s')) : Owned cfg wanted s' (update φ i (pfNext (φ i) o r)) where
  mutex := mutex_step hown.mutex ha h
  sect j := by
    by_cases hj : j = i
    · subst hj
      rw [update_self]
      exact sectOk_next hown ha h
    · rw [update_of_ne hj]
      exact sectOk_other hown ha h hj
  map _ _ he := map_step hown ha h he
  jobs _ _ he := jobs_step hown ha h he
  live _ _ he hs hpath := live_step hown ha h he hs hpath
  stage j := by
    by_cases hj : j = i
    · subst hj
      rw [update_self]
      cases j with
      | request q => exact stageOk_next_request hown ha h
      | worker e => exact stageOk_next_worker hown ha h
    · rw [update_of_ne hj]
      cases j with
      | request q => exact stageOk_request hown ha h (hown.stage _) fun isPrefetch ho => hnew _ isPrefetch ho q hj rfl
      | worker e => exact stageOk_worker hown ha h (fun he => (exec_cell ha h he).resolve_right fun hmine => hj hmine.1.symm) (hown.stage _)

/-! ## The condition -/

/-- **The condition**: a request starts a download, for itself or ahead, only while no other request for
that name is under way. -/
def Unrivalled (wanted : ℕ → Wanted) (s : Sys Goroutine PfOp PfOp.Res WalErr PfState) (i : Goroutine) (_ : PfChoice) : Prop :=
  ∀ p, i = .request p → ∀ y isPrefetch k, s.procs i = .call (.newEntry y isPrefetch) k →
    ∀ q, q ≠ p → (wanted q).walName = y → ¬ s.Running (.request q)

theorem running_of_entry {sys : Sys Goroutine PfOp PfOp.Res WalErr PfState} {q : ℕ}
    (hk : Abides (pfProto cfg wanted) (pfReturns wanted) pfFails sys φ) (h0 : ∀ j, sys.started j = false → φ j = {})
    (he : (φ (.request q)).stage.entry = some e) : sys.Running (.request q) := by
  refine ⟨?_, hk.not_finished ?_ ?_⟩
  · by_contra hno
    rw [h0 _ (Bool.eq_false_iff.mpr hno)] at he
    cases he
  · rintro ⟨-, hst | ⟨hst, -⟩ | hst⟩
    · rw [hst] at he; cases he
    · rw [hst] at he; cases he
    · rw [hst] at he; cases he
  · rintro ⟨-, hst | ⟨b, hst⟩⟩
    · rw [hst] at he; cases he
    · rw [hst] at he; cases he

end Klio
