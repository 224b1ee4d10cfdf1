import Klio.Proof.Numbering
import Klio.Proof.ReadOnly

/-!
# The missing WAL of a backup

`CloseBackup` walks over the segments from the first to the last of a backup by adding the segment size to a
64-bit position, and asks for each whether it is there.

* `missingWALFiles_ask`: what the loop answers, and after how many rounds.
* `missingWALFiles_forever`: behind the last segment of all the position wraps around, and it does not end.
* `closeBackup_enqueues`: a task is enqueued only for an empty list.
* `missing_wal_exact_iff`: the answer is exact unless the last segment of all is the end, or a directory has the
  name of a segment.
-/

namespace Klio

open Lib Prog UInt64

variable {D : Deps} {P : Outside} {I : Implementation} {fs : Fs Name UInt8} {α : Type}

/-! ## Requests -/

/-- **A request for the segments from `first` to `last`** of its timeline. -/
structure ClosesRange (request : CloseBackupRequest) (first last : ℕ) : Prop where
  size : IsSegmentSize request.segmentSize
  timeline : 0 ≤ request.timeline ∧ request.timeline < 2 ^ 31
  startWal : request.startWal = segmentName request.timeline.toNat request.segmentSize first
  endWal : request.endWal = segmentName request.timeline.toNat request.segmentSize last
  first_lt : first * request.segmentSize.toNat < 2 ^ 64
  last_lt : last * request.segmentSize.toNat < 2 ^ 64

/-- The names of the segments from `first` to `last`, in order. -/
def segmentNames (request : CloseBackupRequest) (first last : ℕ) : List Name :=
  (List.range' first (last + 1 - first)).map (segmentName request.timeline.toNat request.segmentSize)

def Existing (fs : Fs Name UInt8) (c name : Name) : Prop :=
  (fs.look (getWALArchivePath c name)).isSome ∨ fs.IsDir (getWALArchivePath c name)

instance (fs : Fs Name UInt8) (c name : Name) : Decidable (Existing fs c name) := inferInstanceAs (Decidable (_ ∨ _))

theorem ask_isWALFileExisting (c name : Name) :
    ask fs (isWALFileExisting c name : FsProg Msg Bool) = .ok (decide (Existing fs c name)) := by
  unfold isWALFileExisting
  by_cases h : Existing fs c name
  · simp only [ask, Fs.exec, if_pos (show _ ∨ _ from h), h, decide_true]
  · simp only [ask, Fs.exec, if_neg (show ¬ (_ ∨ _) from h), h, decide_false]

/-! ## The loop -/

theorem toNat_position {pos : ℕ} (h : pos < 2 ^ 64) : (ofNat pos).toNat = pos := toNat_ofNat_of_lt' h

section Loop

variable {request : CloseBackupRequest} {first last : ℕ}

section

variable (hP : PostgresNumbering P) (h : ClosesRange request first last)
include hP h

/-- One round: a segment up to the last is asked for, and the position moves on. -/
theorem missingWALFiles_round {n : ℕ} (hn : n ≤ last) (fuel : ℕ) :
    ask fs (missingWALFiles P request (ofNat (last * request.segmentSize.toNat)) (fuel + 1)
      (ofNat (n * request.segmentSize.toNat))) =
    match ask fs (missingWALFiles P request (ofNat (last * request.segmentSize.toNat)) fuel
      (ofNat ((n + 1) * request.segmentSize.toNat))) with
    | .ok rest => .ok (if Existing fs request.clusterName (segmentName request.timeline.toNat request.segmentSize n) then rest
        else segmentName request.timeline.toNat request.segmentSize n :: rest)
    | .error e => .error e := by
  have hpos := h.size.pos
  have hle : n * request.segmentSize.toNat ≤ last * request.segmentSize.toNat := Nat.mul_le_mul_right _ hn
  have hlast := h.last_lt
  have hin : ¬ ofNat (last * request.segmentSize.toNat) < ofNat (n * request.segmentSize.toNat) := by
    rw [lt_iff_toNat_lt, toNat_position (by omega), toNat_position (by omega)]
    omega
  have hname : P.walFileName (ofNat (n * request.segmentSize.toNat)) request.timeline request.segmentSize =
      .ok (segmentName request.timeline.toNat request.segmentSize n) := by
    rw [hP.name _ _ _ h.size h.timeline.1 h.timeline.2, toNat_position (by omega), Nat.mul_div_cancel _ hpos]
  have hnext : ofNat (n * request.segmentSize.toNat) + request.segmentSize =
      ofNat ((n + 1) * request.segmentSize.toNat) := by
    rw [Nat.add_mul, Nat.one_mul, UInt64.ofNat_add, UInt64.ofNat_toNat]
  rw [missingWALFiles, if_neg hin, hname, hnext]
  rw [ask_bind, ask_mapErr, ask_isWALFileExisting]
  simp only [Except.mapError]
  rw [ask_bind]
  cases ask fs (missingWALFiles P request (ofNat (last * request.segmentSize.toNat)) fuel
      (ofNat ((n + 1) * request.segmentSize.toNat))) with
  | error e => rfl
  | ok rest => simp only [ask, decide_eq_true_eq]

/-- **What the loop answers**: if the last segment is not the last of all, the names that are not there, once there
is fuel for a round more than there are segments. -/
theorem missingWALFiles_ask
    (hend : (last + 1) * request.segmentSize.toNat < 2 ^ 64) : ∀ (fuel n : ℕ), n * request.segmentSize.toNat < 2 ^ 64 →
    ask fs (missingWALFiles P request (ofNat (last * request.segmentSize.toNat)) fuel
      (ofNat (n * request.segmentSize.toNat))) =
    if fuel ≤ last + 1 - n then .error stillRunning
    else .ok ((segmentNames request n last).filter fun name => ¬ Existing fs request.clusterName name) := by
  intro fuel
  induction fuel with
  | zero =>
    intro n _
    rfl
  | succ fuel ih =>
    intro n hn
    by_cases hle : n ≤ last
    · have hmul : (n + 1) * request.segmentSize.toNat ≤ (last + 1) * request.segmentSize.toNat :=
        Nat.mul_le_mul_right _ (by omega)
      rw [missingWALFiles_round hP h hle, ih (n + 1) (by omega)]
      by_cases hfuel : fuel ≤ last + 1 - (n + 1)
      · rw [if_pos hfuel, if_pos (by omega)]
      rw [if_neg hfuel, if_neg (by omega)]
      -- the segment itself, then the later ones
      have hnames : segmentNames request n last =
          segmentName request.timeline.toNat request.segmentSize n :: segmentNames request (n + 1) last := by
        unfold segmentNames
        rw [show last + 1 - n = (last + 1 - (n + 1)) + 1 by omega, List.range'_succ, List.map_cons]
      rw [hnames, List.filter_cons]
      by_cases hex : Existing fs request.clusterName (segmentName request.timeline.toNat request.segmentSize n)
      · simp only [hex, if_true, not_true_eq_false, decide_false, Bool.false_eq_true, if_false]
      · simp only [hex, if_false, not_false_eq_true, decide_true, if_true]
    · -- behind the last segment
      have hgt : (last + 1) * request.segmentSize.toNat ≤ n * request.segmentSize.toNat := Nat.mul_le_mul_right _ (by omega)
      have hpos := h.size.pos
      have hmul : (last + 1) * request.segmentSize.toNat = last * request.segmentSize.toNat + request.segmentSize.toNat := by
        rw [Nat.add_mul, Nat.one_mul]
      have hout : ofNat (last * request.segmentSize.toNat) < ofNat (n * request.segmentSize.toNat) := by
        rw [lt_iff_toNat_lt, toNat_position (by omega), toNat_position (by omega)]
        omega
      have hnames : segmentNames request n last = [] := by
        unfold segmentNames
        rw [show last + 1 - n = 0 by omega]
        rfl
      rw [missingWALFiles, if_pos hout, if_neg (by omega), hnames]
      rfl

/-- **The loop does not end** when the last segment of all is the end: the position behind it is the start of the
first one. -/
theorem missingWALFiles_forever
    (hend : (last + 1) * request.segmentSize.toNat = 2 ^ 64) : ∀ (fuel n : ℕ), n * request.segmentSize.toNat < 2 ^ 64 →
    ask fs (missingWALFiles P request (ofNat (last * request.segmentSize.toNat)) fuel
      (ofNat (n * request.segmentSize.toNat))) = .error stillRunning := by
  intro fuel
  induction fuel with
  | zero => exact fun _ _ => rfl
  | succ fuel ih =>
    intro n hn
    have hle : n ≤ last := by
      have hlt : n < last + 1 := by
        refine Nat.lt_of_mul_lt_mul_right (a := request.segmentSize.toNat) ?_
        rw [hend]
        exact hn
      omega
    rw [missingWALFiles_round hP h hle]
    by_cases heq : n = last
    · -- around to the first segment
      subst heq
      have hwrap : ofNat ((n + 1) * request.segmentSize.toNat) = ofNat (0 * request.segmentSize.toNat) := by
        rw [hend, Nat.zero_mul]
        rfl
      rw [hwrap, ih 0 (by omega)]
    · have hmul : (n + 1) * request.segmentSize.toNat ≤ last * request.segmentSize.toNat := Nat.mul_le_mul_right _ (by omega)
      have hlast := h.last_lt
      rw [ih (n + 1) (by omega)]

theorem checkWALFiles_eq (fuel : ℕ) :
    checkWALFiles P fuel request = missingWALFiles P request (ofNat (last * request.segmentSize.toNat)) fuel
      (ofNat (first * request.segmentSize.toNat)) := by
  have htl : request.timeline.toNat < 2 ^ 31 := by
    have h1 := h.timeline.1
    have h2 := h.timeline.2
    omega
  obtain ⟨startLSN, hstart, hstartPos⟩ := hP.start _ _ first h.size htl h.first_lt
  obtain ⟨endLSN, hstop, hstopPos⟩ := hP.start _ _ last h.size htl h.last_lt
  unfold checkWALFiles
  rw [h.startWal, h.endWal, hstart, hstop]
  simp only [hstartPos, hstopPos]

end

theorem ClosesRange.end_le (h : ClosesRange request first last) : (last + 1) * request.segmentSize.toNat ≤ 2 ^ 64 := by
  obtain ⟨k, hk, hsize⟩ := h.size
  have hlt := h.last_lt
  rw [hsize] at hlt ⊢
  have h64 : 2 ^ 64 = 2 ^ (64 - k) * 2 ^ k := by
    rw [← Nat.pow_add]
    congr 1
    omega
  rw [h64] at hlt ⊢
  have hlast : last < 2 ^ (64 - k) := Nat.lt_of_mul_lt_mul_right hlt
  exact Nat.mul_le_mul_right _ hlast

end Loop

/-! ## The task -/

theorem missingWALFiles_looks (request : CloseBackupRequest) (endPos : UInt64) : ∀ (fuel : ℕ) (pos : UInt64),
    (missingWALFiles P request endPos fuel pos).Uses Looks ∧ Answers fs (fun _ => True) (missingWALFiles P request endPos fuel pos) := by
  have hexists : ∀ name, (isWALFileExisting request.clusterName name : FsProg Msg Bool).Uses Looks ∧
      Answers fs (fun _ => True) (isWALFileExisting request.clusterName name : FsProg Msg Bool) := by
    intro name
    refine ⟨⟨trivial, fun r => ?_⟩, answers_call trivial (answers_finished ?_) fun k => ⟨_, rfl, trivial⟩⟩
    · dsimp only
      split <;> trivial
    · split <;> trivial
  intro fuel
  induction fuel with
  | zero => exact fun _ => ⟨trivial, answers_finished trivial⟩
  | succ fuel ih =>
    intro pos
    unfold missingWALFiles
    split
    · exact ⟨trivial, answers_finished trivial⟩
    split
    · exact ⟨trivial, answers_finished trivial⟩
    rename_i name _
    refine ⟨uses_bind (fun _ => uses_map (ih _).1) (uses_mapErr (hexists name).1), ?_⟩
    exact answers_bind (answers_mapErr (hexists name).2) fun _ => answers_bind (ih _).2 fun _ => answers_finished trivial

theorem checkWALFiles_looks (fuel : ℕ) (request : CloseBackupRequest) :
    (checkWALFiles P fuel request).Uses Looks ∧ Answers fs (fun _ => True) (checkWALFiles P fuel request) := by
  unfold checkWALFiles
  split
  · exact ⟨trivial, answers_finished trivial⟩
  split
  · exact ⟨trivial, answers_finished trivial⟩
  split
  · exact ⟨trivial, answers_finished trivial⟩
  split
  · exact ⟨trivial, answers_finished trivial⟩
  · exact missingWALFiles_looks _ _ _ _

/-- What `CloseBackup` has sent to the queue, with the failures `cs`; `true` marks what has arrived. -/
def enqueued (p : FsProg Msg α) (cs : ℕ → Option ℕ) (fs : Fs Name UInt8) : List (Unit × Msg × Bool) :=
  (p.eval (sem Unit Name UInt8 Msg) () cs ⟨fs, []⟩).2.log

/-- **A task is enqueued only for an empty list**, whatever fails. -/
theorem closeBackup_enqueues {fuel : ℕ} {peer : Peer} {request : CloseBackupRequest} {cs : ℕ → Option ℕ}
    (h : enqueued (closeBackup D P I fuel peer request) cs fs ≠ []) : ask fs (checkWALFiles P fuel request) = .ok [] := by
  unfold enqueued closeBackup withClusterName at h
  split at h
  · exact absurd rfl h
  have hlooks : (checkWALFiles P fuel request).Uses Looks ∧ Answers fs (fun _ => True) (checkWALFiles P fuel request) :=
    checkWALFiles_looks fuel request
  obtain ⟨r, hr, hok⟩ := eval_looks_observes () cs ⟨fs, []⟩ hlooks.1 (answers_observes hlooks.2)
  obtain ⟨n, hn⟩ := eval_bind (M := sem Unit Name UInt8 Msg) () _ (checkWALFiles P fuel request) cs ⟨fs, []⟩
  rw [hn, hr] at h
  rcases r with e | missing
  · exact absurd rfl h
  have hask := hok missing rfl
  simp only at h
  split at h
  · exact absurd rfl h
  · rename_i hnil
    rw [hask, not_not.mp hnil]

/-! ## The answer -/

def NoSuchDirectory (fs : Fs Name UInt8) (c : Name) (names : List Name) : Prop :=
  ∀ name ∈ names, fs.look (getWALArchivePath c name) = none → ¬ fs.IsDir (getWALArchivePath c name)

theorem filter_existing_iff {c : Name} {names : List Name} :
    (names.filter fun name => ¬ Existing fs c name) = (names.filter fun name => fs.look (getWALArchivePath c name) = none) ↔
      NoSuchDirectory fs c names := by
  have hiff : ∀ name, ¬ Existing fs c name ↔
      fs.look (getWALArchivePath c name) = none ∧ ¬ fs.IsDir (getWALArchivePath c name) := by
    intro name
    unfold Existing
    rw [not_or, Option.not_isSome_iff_eq_none]
  constructor
  · intro heq name hmem hnone
    have hin : name ∈ names.filter fun name => ¬ Existing fs c name := by
      rw [heq]
      exact List.mem_filter.mpr ⟨hmem, by simpa using hnone⟩
    have hex := (List.mem_filter.mp hin).2
    simp only [decide_eq_true_eq] at hex
    exact ((hiff name).mp hex).2
  · intro hdir
    refine List.filter_congr fun name hmem => ?_
    refine decide_eq_decide.mpr ?_
    rw [hiff]
    exact ⟨And.left, fun hnone => ⟨hnone, hdir name hmem hnone⟩⟩

/-- **`CloseBackup` tells the exact set of missing WAL** as long as the backup does not end with the last segment of
all, and no directory has the name of a segment. For every archive and every request for the segments from
`first` to `last`: the check ends if and only if there is a segment behind the last one; its answer is the list of
the segments that are not stored, in order, if and only if no directory has the name of one of these; and a
task is enqueued, whatever fails, only when the check has an empty answer. -/
theorem missing_wal_exact_iff (D : Deps) (P : Outside) (hP : PostgresNumbering P) (I : Implementation) (peer : Peer)
    (request : CloseBackupRequest) (first last : ℕ) (h : ClosesRange request first last) (fs : Fs Name UInt8) :
    ((∃ fuel missing, ask fs (checkWALFiles P fuel request) = .ok missing) ↔ (last + 1) * request.segmentSize.toNat < 2 ^ 64) ∧
    (∀ fuel missing, ask fs (checkWALFiles P fuel request) = .ok missing →
      (missing = (segmentNames request first last).filter
          (fun name => fs.look (getWALArchivePath request.clusterName name) = none) ↔
        NoSuchDirectory fs request.clusterName (segmentNames request first last))) ∧
    ∀ fuel cs, enqueued (closeBackup D P I fuel peer request) cs fs ≠ [] → ask fs (checkWALFiles P fuel request) = .ok [] := by
  have hforever : (last + 1) * request.segmentSize.toNat = 2 ^ 64 → ∀ fuel,
      ask fs (checkWALFiles P fuel request) = .error stillRunning := by
    intro hend fuel
    rw [checkWALFiles_eq hP h]
    exact missingWALFiles_forever hP h hend fuel first h.first_lt
  have hle := h.end_le
  refine ⟨⟨?_, ?_⟩, ?_, ?_⟩
  · rintro ⟨fuel, missing, hask⟩
    by_contra hge
    rw [hforever (by omega) fuel] at hask
    cases hask
  · intro hend
    refine ⟨last + 2, (segmentNames request first last).filter fun name => ¬ Existing fs request.clusterName name, ?_⟩
    rw [checkWALFiles_eq hP h, missingWALFiles_ask hP h hend _ first h.first_lt, if_neg (by omega)]
  · intro fuel missing hask
    by_cases hend : (last + 1) * request.segmentSize.toNat < 2 ^ 64
    · rw [checkWALFiles_eq hP h, missingWALFiles_ask hP h hend _ first h.first_lt] at hask
      split at hask
      · cases hask
      · cases hask
        exact filter_existing_iff
    · rw [hforever (by omega) fuel] at hask
      cases hask
  · intro fuel cs henq
    exact closeBackup_enqueues henq

/-- Segments of 16 MiB of timeline 1. -/
def closeSegments (first last : ℕ) : CloseBackupRequest :=
  ⟨"c".toList, 1, segmentName 1 0x1000000 first, segmentName 1 0x1000000 last, 0x1000000, true, []⟩

theorem closesRange_segments {first last : ℕ} (hfirst : first < 2 ^ 40) (hlast : last < 2 ^ 40) :
    ClosesRange (closeSegments first last) first last where
  size := ⟨24, by decide, rfl⟩
  timeline := by
    show (0 : ℤ) ≤ 1 ∧ (1 : ℤ) < 2 ^ 31
    decide
  startWal := rfl
  endWal := rfl
  first_lt := by
    show first * 0x1000000 < 2 ^ 64
    omega
  last_lt := by
    show last * 0x1000000 < 2 ^ 64
    omega

theorem missing_wal_exact_of_empty : ∃ fuel, ask Fs.empty (checkWALFiles (numbered [] []) fuel (closeSegments 1 3)) =
    .ok (["000000010000000000000001".toList, "000000010000000000000002".toList, "000000010000000000000003".toList]) := by
  have hmain := missing_wal_exact_iff plainDeps (numbered [] []) (numbered_postgres [] []) ⟨false, true⟩ (.cert "u@c".toList)
    (closeSegments 1 3) 1 3 (closesRange_segments (by decide) (by decide)) Fs.empty
  obtain ⟨hends, hexact, -⟩ := hmain
  obtain ⟨fuel, missing, hask⟩ := hends.mpr (by decide)
  refine ⟨fuel, hask.trans (congrArg Except.ok ?_)⟩
  refine ((hexact fuel missing hask).mpr ?_).trans ?_
  · have hdirs : ∀ name ∈ segmentNames (closeSegments 1 3) 1 3,
        ¬ (Fs.empty : Fs Name UInt8).IsDir (getWALArchivePath (closeSegments 1 3).clusterName name) := by decide +kernel
    exact fun name hmem _ => hdirs name hmem
  · decide +kernel

/-- A backup that ends with the last segment of all: the check does not end. -/
theorem missing_wal_forever : segmentName 1 0x1000000 (2 ^ 40 - 1) = "00000001FFFFFFFF000000FF".toList ∧
    ∀ fuel, ask Fs.empty (checkWALFiles (numbered [] []) fuel (closeSegments (2 ^ 40 - 1) (2 ^ 40 - 1))) = .error stillRunning := by
  refine ⟨by decide, fun fuel => ?_⟩
  have hrange : ClosesRange (closeSegments (2 ^ 40 - 1) (2 ^ 40 - 1)) (2 ^ 40 - 1) (2 ^ 40 - 1) :=
    closesRange_segments (by decide) (by decide)
  rw [checkWALFiles_eq (numbered_postgres [] []) hrange]
  exact missingWALFiles_forever (numbered_postgres [] []) hrange (by decide) fuel _ hrange.first_lt

end Klio
