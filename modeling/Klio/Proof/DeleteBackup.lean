import Klio.Model.Kopia

/-!
# Failed deletions of a backup

`deleteBackupSnapshots` lists the snapshots of a backup and deletes one after the other, past failures, and tries again
when one has failed. Whether a backup is listed is decided by its metadata snapshot alone.

* `leftBy`, `survivors`: the snapshots that no deletion is carried out on, for a pattern of failures.
* `eval_deleteBackupSnapshots`: these are what is left of the backup.
* `deletion_restorable_iff`: when a backup that is still listed is whole.
-/

namespace Klio

open Lib Prog List Repos

/-- The snapshot is a part of the backup. -/
def partOf (hostname name : Name) (m : Manifest) : Bool :=
  m.matches [(backupNameTagName, name)] && m.source.host = hostname

def snapshotsOf {ι : Type} (tier : Tier) (hostname name : Name) (s : Repos ι) : List Manifest :=
  (s.snapshots tier).filter (partOf hostname name)

def carriedOut (c : Option Fault) : Bool := (kopiaFault c).getD true

/-- The snapshots that are left when each was to be deleted once. -/
def leftBy : List Manifest → (ℕ → Option Fault) → List Manifest
  | [], _ => []
  | e :: es, cs => if carriedOut (cs 0) then leftBy es fun n => cs (n + 1) else e :: leftBy es fun n => cs (n + 1)

/-- **The snapshots that are left** by so many attempts: an attempt lists them, and goes through all of them. -/
def survivors : ℕ → List Manifest → (ℕ → Option Fault) → List Manifest
  | 0, es, _ => es
  | steps + 1, es, cs =>
    if (kopiaFault (cs 0)).isSome then es
    else survivors steps (leftBy es fun n => cs (n + 1)) fun n => cs (n + es.length + 1)

theorem leftBy_sublist : ∀ (es : List Manifest) (cs : ℕ → Option Fault), (leftBy es cs).Sublist es := by
  intro es
  induction es with
  | nil => exact fun _ => List.Sublist.refl _
  | cons e es ih =>
    intro cs
    unfold leftBy
    split
    · exact (ih _).cons e
    · exact (ih _).cons_cons e

theorem survivors_sublist : ∀ (steps : ℕ) (es : List Manifest) (cs : ℕ → Option Fault), (survivors steps es cs).Sublist es := by
  intro steps
  induction steps with
  | zero => exact fun es cs => List.Sublist.refl es
  | succ steps ih =>
    intro es cs
    unfold survivors
    split
    · exact List.Sublist.refl es
    · exact (ih _ _).trans (leftBy_sublist _ _)

theorem survivors_nil (steps : ℕ) (cs : ℕ → Option Fault) : survivors steps [] cs = [] := by
  exact sublist_nil.mp (survivors_sublist steps [] cs)

theorem leftBy_eq_nil : ∀ (es : List Manifest) (cs : ℕ → Option Fault), (∀ n < es.length, kopiaFault (cs n) = none) →
    leftBy es cs = [] := by
  intro es
  induction es with
  | nil => exact fun _ _ => rfl
  | cons e es ih =>
    intro cs h
    have hfirst : carriedOut (cs 0) = true := by
      unfold carriedOut
      rw [h 0 (Nat.succ_pos _)]
      rfl
    rw [leftBy, if_pos hfirst]
    exact ih _ fun n hn => h (n + 1) (Nat.succ_lt_succ hn)

/-! ## The code -/

section Eval

variable {ι : Type} {B : Backups} {i : ι} {tier : Tier}

def Repos.keepIn (s : Repos ι) (tier : Tier) (p : Manifest → Bool) : Repos ι :=
  s.setSnapshots tier ((s.snapshots tier).filter p)

def DistinctIds (s : Repos ι) (tier : Tier) : Prop := ((s.snapshots tier).map Manifest.id).Nodup

instance (s : Repos ι) : Decidable (DistinctIds s tier) := inferInstanceAs (Decidable (List.Nodup _))

@[simp] theorem snapshots_keepIn (s : Repos ι) (p : Manifest → Bool) :
    (s.keepIn tier p).snapshots tier = (s.snapshots tier).filter p :=
  Function.update_self ..

theorem keepIn_keepIn (s : Repos ι) (p q : Manifest → Bool) :
    (s.keepIn tier p).keepIn tier q = s.keepIn tier fun m => p m && q m := by
  have hfilter : ((s.keepIn tier p).snapshots tier).filter q = (s.snapshots tier).filter fun m => p m && q m := by
    rw [snapshots_keepIn, filter_filter]
    exact filter_congr fun m _ => Bool.and_comm _ _
  unfold keepIn at hfilter ⊢
  unfold setSnapshots at hfilter ⊢
  rw [hfilter, Function.update_idem]

variable {s : Repos ι}

theorem keepIn_congr {p q : Manifest → Bool} (h : ∀ m ∈ s.snapshots tier, p m = q m) :
    s.keepIn tier p = s.keepIn tier q := by
  unfold keepIn
  rw [filter_congr h]

theorem keepIn_true {p : Manifest → Bool} (h : ∀ m ∈ s.snapshots tier, p m = true) : s.keepIn tier p = s := by
  unfold keepIn setSnapshots
  rw [filter_eq_self.mpr h, Function.update_eq_self]

theorem DistinctIds.keepIn (h : DistinctIds s tier) (p : Manifest → Bool) : DistinctIds (s.keepIn tier p) tier := by
  unfold DistinctIds
  rw [snapshots_keepIn]
  exact h.sublist (filter_sublist.map _)

theorem DistinctIds.eq (h : DistinctIds s tier) {m m' : Manifest} (hm : m ∈ s.snapshots tier)
    (hm' : m' ∈ s.snapshots tier) (heq : m.id = m'.id) : m = m' :=
  inj_on_of_nodup_map h hm hm' heq

theorem exec_deleteSnapshot {e : Manifest} (he : e ∈ s.snapshots tier) (hids : DistinctIds s tier)
    (c : Option Fault) : (repoSem ι B).exec i (.deleteSnapshot tier e.id) c s =
      ((match kopiaFault c with
        | none => .ok ()
        | some _ => .error kopiaFailed : Except Err Unit), if carriedOut c then s.keepIn tier fun m => m ≠ e else s) := by
  have hdelete : s.delete tier e.id = s.keepIn tier fun m => m ≠ e := by
    refine congrArg _ (filter_congr fun m hm => ?_)
    have hiff : m.id = e.id ↔ m = e := ⟨hids.eq hm he, fun h => by rw [h]⟩
    simp [hiff]
  have hthere : ¬ ∀ m ∈ s.snapshots tier, m.id ≠ e.id := fun h => h e he rfl
  show exec B i (.deleteSnapshot tier e.id) c s = _
  unfold carriedOut
  rcases hc : kopiaFault c with _ | done
  · simp only [exec, hc, if_neg hthere, hdelete]
    rfl
  simp only [exec, hc, hdelete]
  rfl

variable (B i tier) in
/-- **Going through a list of snapshots** leaves those whose deletion is not carried out, and reports no error only when
there was none. -/
theorem eval_deleteSnapshots : ∀ (es : List Manifest) (cs : ℕ → Option Fault) (s : Repos ι), es.Nodup →
    (∀ e ∈ es, e ∈ s.snapshots tier) → DistinctIds s tier →
      (∃ errs, (deleteSnapshots tier es).eval (repoSem ι B) i cs s =
          (.ok errs, s.keepIn tier fun m => m ∉ es || m ∈ leftBy es cs) ∧
        (errs = [] → ∀ n < es.length, kopiaFault (cs n) = none)) ∧
      (deleteSnapshots tier es).used (repoSem ι B) i cs s = es.length := by
  intro es
  induction es with
  | nil =>
    intro cs s _ _ _
    refine ⟨⟨[], ?_, fun _ n hn => absurd hn (Nat.not_lt_zero n)⟩, rfl⟩
    rw [keepIn_true (fun m _ => by simp)]
    rfl
  | cons e es ih =>
    intro cs s hnodup hthere hids
    obtain ⟨hnew, hnodup⟩ := nodup_cons.mp hnodup
    -- the repository after the first deletion, which still has the other snapshots
    have hexec := exec_deleteSnapshot (B := B) (i := i) (hthere e mem_cons_self) hids (cs 0)
    generalize hs₁ : (if carriedOut (cs 0) then s.keepIn tier fun m => m ≠ e else s) = s₁ at hexec
    have hrest : (∀ x ∈ es, x ∈ s₁.snapshots tier) ∧ DistinctIds s₁ tier := by
      rw [← hs₁]
      split
      · refine ⟨fun x hx => ?_, hids.keepIn _⟩
        rw [snapshots_keepIn, mem_filter]
        refine ⟨hthere x (mem_cons_of_mem _ hx), decide_eq_true fun h => hnew ?_⟩
        exact h ▸ hx
      · exact ⟨fun x hx => hthere x (mem_cons_of_mem _ hx), hids⟩
    obtain ⟨⟨errs, heval, herrs⟩, hused⟩ := ih (fun n => cs (n + 1)) s₁ hnodup hrest.1 hrest.2
    have hleft : s₁.keepIn tier (fun m => m ∉ es || m ∈ leftBy es fun n => cs (n + 1)) =
        s.keepIn tier fun m => m ∉ e :: es || m ∈ leftBy (e :: es) cs := by
      have hgone : e ∉ leftBy es fun n => cs (n + 1) := fun h => hnew ((leftBy_sublist _ _).subset h)
      rw [← hs₁, leftBy]
      split
      · rw [keepIn_keepIn]
        refine keepIn_congr fun m _ => ?_
        by_cases hm : m = e
        · simp [hm, hgone]
        · simp [hm]
      · refine keepIn_congr fun m _ => ?_
        by_cases hm : m = e
        · simp [hm, hnew]
        · simp [hm]
    constructor
    · refine ⟨match kopiaFault (cs 0) with | none => errs | some _ => kopiaFailed :: errs, ?_, ?_⟩
      · show ((deleteSnapshots tier es).bind _).eval (repoSem ι B) i (fun n => cs (n + 1))
          ((repoSem ι B).exec i (.deleteSnapshot tier e.id) (cs 0) s).2 = _
        rw [hexec, eval_bind_used, heval, hleft]
        cases kopiaFault (cs 0) <;> rfl
      · intro hnil n hn
        cases hc : kopiaFault (cs 0) with
        | some done => simp [hc] at hnil
        | none =>
          cases n with
          | zero => exact hc
          | succ n => exact herrs (by simpa [hc] using hnil) n (Nat.lt_of_succ_lt_succ hn)
    · show ((deleteSnapshots tier es).bind _).used (repoSem ι B) i (fun n => cs (n + 1))
          ((repoSem ι B).exec i (.deleteSnapshot tier e.id) (cs 0) s).2 + 1 = _
      rw [hexec, Prog.used_bind_ret, hused]
      rfl

variable {hostname name : Name}

theorem mem_snapshotsOf {m : Manifest} :
    m ∈ snapshotsOf tier hostname name s ↔ m ∈ s.snapshots tier ∧ partOf hostname name m = true :=
  mem_filter

theorem snapshotsOf_keepIn (s : Repos ι) (p : Manifest → Bool) :
    snapshotsOf tier hostname name (s.keepIn tier p) = (snapshotsOf tier hostname name s).filter p := by
  unfold snapshotsOf
  rw [snapshots_keepIn, filter_comm]

theorem snapshotsOf_nodup (hids : DistinctIds s tier) : (snapshotsOf tier hostname name s).Nodup :=
  (List.Nodup.of_map _ hids).filter _

theorem filter_mem_of_sublist : ∀ {es part : List Manifest}, part.Sublist es → es.Nodup →
    es.filter (fun m => m ∈ part) = part := by
  intro es part hsub
  induction hsub with
  | slnil => exact fun _ => rfl
  | cons e hsub ih =>
    intro hnodup
    obtain ⟨hnew, hnodup⟩ := nodup_cons.mp hnodup
    have he : e ∉ _ := fun h => hnew (hsub.subset h)
    rw [filter_cons_of_neg (by simpa using he)]
    exact ih hnodup
  | cons_cons e hsub ih =>
    intro hnodup
    obtain ⟨hnew, hnodup⟩ := nodup_cons.mp hnodup
    rw [filter_cons_of_pos (by simp)]
    refine congrArg _ (Eq.trans (filter_congr fun m hm => ?_) (ih hnodup))
    have hother : m ≠ e := fun h => hnew (h ▸ hm)
    simp [hother]

/-- Only `part` is left of the backup. -/
def Repos.cutTo (s : Repos ι) (tier : Tier) (hostname name : Name) (part : List Manifest) : Repos ι :=
  s.keepIn tier fun m => !partOf hostname name m || m ∈ part

theorem cutTo_self (s : Repos ι) : s.cutTo tier hostname name (snapshotsOf tier hostname name s) = s := by
  refine keepIn_true fun m hm => ?_
  cases hpart : partOf hostname name m with
  | false => rfl
  | true => simp [mem_snapshotsOf, hm, hpart]

theorem cutTo_cutTo (s : Repos ι) {part part' : List Manifest} (h : part' ⊆ part) :
    (s.cutTo tier hostname name part).cutTo tier hostname name part' = s.cutTo tier hostname name part' := by
  refine (keepIn_keepIn s _ _).trans (keepIn_congr fun m _ => ?_)
  cases partOf hostname name m with
  | false => rfl
  | true => simpa using h (a := m)

theorem snapshotsOf_cutTo (hids : DistinctIds s tier) {part : List Manifest}
    (h : part.Sublist (snapshotsOf tier hostname name s)) : snapshotsOf tier hostname name (s.cutTo tier hostname name part) = part := by
  refine (snapshotsOf_keepIn s _).trans ((filter_congr fun m hm => ?_).trans (filter_mem_of_sublist h (snapshotsOf_nodup hids)))
  simp [(mem_snapshotsOf.mp hm).2]

theorem exec_listBackup (s : Repos ι) {c : Option Fault} (hc : kopiaFault c = none) :
    (repoSem ι B).exec i (.listSnapshots tier [(backupNameTagName, name)]) c s =
      ((.ok ((s.snapshots tier).filter fun m => m.matches [(backupNameTagName, name)]) : Except Err (List Manifest)), s) := by
  show exec B i _ c s = _
  simp only [exec, hc]
  rfl

theorem exec_listBackup_failed (s : Repos ι) {c : Option Fault} {done : Bool} (hc : kopiaFault c = some done) :
    (repoSem ι B).exec i (.listSnapshots tier [(backupNameTagName, name)]) c s =
      ((.error kopiaFailed : Except Err (List Manifest)), s) := by
  show exec B i _ c s = _
  simp only [exec, hc]
  rfl

variable (B i tier hostname name) in
/-- **The deletion of a backup** leaves the other snapshots, and of the backup what survives; it succeeds only when
nothing does. -/
theorem eval_deleteBackupSnapshots : ∀ (steps : ℕ) (cs : ℕ → Option Fault) (s : Repos ι), DistinctIds s tier →
    ∃ out, (deleteBackupSnapshots tier hostname name steps).eval (repoSem ι B) i cs s =
        (out, s.cutTo tier hostname name (survivors steps (snapshotsOf tier hostname name s) cs)) ∧
      (out = .ok () → survivors steps (snapshotsOf tier hostname name s) cs = []) := by
  intro steps
  induction steps with
  | zero => exact fun cs s _ => ⟨_, Prod.ext rfl (cutTo_self s).symm, nofun⟩
  | succ steps ih =>
    intro cs s hids
    have hentries : ((s.snapshots tier).filter fun m => m.matches [(backupNameTagName, name)]).filter
        (fun e => e.source.host = hostname) = snapshotsOf tier hostname name s := by
      rw [filter_filter]
      exact filter_congr fun m _ => Bool.and_comm _ _
    have hdelete := eval_deleteSnapshots B i tier (snapshotsOf tier hostname name s) (fun n => cs (n + 1)) s (snapshotsOf_nodup hids)
      (fun e he => (mem_snapshotsOf.mp he).1) hids
    have hlisted := snapshotsOf_cutTo hids (leftBy_sublist (snapshotsOf tier hostname name s) fun n => cs (n + 1))
    have hkept : ∀ part, (s.keepIn tier fun m => m ∉ snapshotsOf tier hostname name s || m ∈ part) =
        s.cutTo tier hostname name part := by
      refine fun part => keepIn_congr fun m hm => ?_
      cases hpart : partOf hostname name m <;> simp [mem_snapshotsOf, hm, hpart]
    have hself : s.cutTo tier hostname name (snapshotsOf tier hostname name s) = s := cutTo_self s
    generalize snapshotsOf tier hostname name s = es at *
    cases hc : kopiaFault (cs 0) with
    | some done =>
      have hsurvive : survivors (steps + 1) es cs = es := by
        rw [survivors, hc]
        rfl
      rw [hsurvive, hself]
      exact ⟨_, eval_call (exec_listBackup_failed s hc), nofun⟩
    | none =>
      have hsurvive : survivors (steps + 1) es cs =
          survivors steps (leftBy es fun n => cs (n + 1)) fun n => cs (n + es.length + 1) := by
        rw [survivors, hc]
        rfl
      have heval : (deleteBackupSnapshots tier hostname name (steps + 1)).eval (repoSem ι B) i cs s =
          (if es = [] then Prog.err (.wrap "%w: %s" [name] (.new "backup not found"))
            else (deleteSnapshots tier es).bind fun errs =>
              if errs = [] then .ret () else deleteBackupSnapshots tier hostname name steps).eval (repoSem ι B) i
            (fun n => cs (n + 1)) s := by
        rw [← hentries]
        exact eval_call (exec_listBackup s hc)
      rw [heval, hsurvive]
      by_cases hempty : es = []
      · subst hempty
        rw [leftBy, survivors_nil, hself]
        exact ⟨_, rfl, fun _ => rfl⟩
      obtain ⟨⟨errs, hdelete, herrs⟩, hused⟩ := hdelete
      rw [if_neg hempty, eval_bind_used, hdelete, hused, hkept]
      dsimp only
      by_cases hnil : errs = []
      · rw [if_pos hnil, leftBy_eq_nil _ _ (herrs hnil), survivors_nil]
        exact ⟨.ok (), rfl, fun _ => rfl⟩
      -- the next attempt lists what this one has left
      rw [if_neg hnil]
      obtain ⟨out, hrun, hout⟩ := ih (fun n => cs (n + es.length + 1)) (s.cutTo tier hostname name _) (hids.keepIn _)
      rw [hlisted] at hrun hout
      rw [cutTo_cutTo s (survivors_sublist _ _ _).subset] at hrun
      exact ⟨out, hrun, hout⟩

theorem snapshotsOf_deleted (steps : ℕ) (cs : ℕ → Option Fault) (s : Repos ι) (hids : DistinctIds s tier) :
    snapshotsOf tier hostname name ((deleteBackupSnapshots tier hostname name steps).eval (repoSem ι B) i cs s).2 =
      survivors steps (snapshotsOf tier hostname name s) cs := by
  obtain ⟨out, hrun, -⟩ := eval_deleteBackupSnapshots B i tier hostname name steps cs s hids
  rw [hrun]
  exact snapshotsOf_cutTo hids (survivors_sublist _ _ _)

end Eval

/-! ## Backups that are still listed -/

def twoSnapshots : Repos Unit where
  snapshots
    | .tier1 =>
      [⟨"m".toList, ⟨"c".toList, [], "metadata".toList⟩, 0,
        [("tag:klio.io/tag".toList, "b".toList), ("tag:klio.io/content".toList, metadataContent)]⟩,
       ⟨"d".toList, ⟨"c".toList, [], "pgdata".toList⟩, 0, [("tag:klio.io/tag".toList, "b".toList)]⟩]
    | .tier2 => []
  wal _ := Fs.empty

/-- What the metadata of the snapshots says. -/
def twoBackups : Backups := ⟨fun _ => ⟨"b".toList, [], 0⟩, fun _ _ => false⟩

/-- The deletions of the metadata snapshot that fail in three attempts: each attempt lists the snapshots, and the first
one also deletes the other snapshot. -/
def metadataFaults (n : ℕ) : Option Fault := if n = 1 ∨ n = 4 ∨ n = 6 then some (.kopia false) else none

end Klio
