import Klio.Proof.ControlFile
import Klio.Proof.Prune
import Klio.Proof.ReadOnly

/-!
# The newest archived WAL

`GetLatestWALFileForCluster` looks into the greatest directory of the cluster and nowhere else.

* `Tidy`: the layout of a cluster's directory, kept by uploads and retention runs in any interleaving, with any
  failures and crashes (`run_tidy`).
* `ask_latest`: the answer as a function of what the directories list.
* `newest_wal_found_iff`: it is the newest WAL unless the greatest directory is empty and hides the others.
-/

namespace Klio

open Lib List Fs

variable {D : Deps} {K : Codec} {P : Outside} {I : Implementation} {peer : Peer} {c : Name} {fs fs' : Fs Name UInt8} {ι : Type}

/-! ## The greatest name -/

theorem nil_le_name (n : Name) : [] ≤ n := not_lt.mp (not_lt_nil n)

theorem foldl_latest (names : List Name) : ∀ acc : Name,
    let r := names.foldl (fun latest name => if latest < name then name else latest) acc
    (r = acc ∨ r ∈ names) ∧ acc ≤ r ∧ ∀ n ∈ names, n ≤ r := by
  induction names with
  | nil => intro acc; exact ⟨.inl rfl, le_rfl, nofun⟩
  | cons x names ih =>
    intro acc
    simp only [foldl_cons]
    obtain ⟨hmem, hacc, hall⟩ := ih (if acc < x then x else acc)
    have hle : acc ≤ (if acc < x then x else acc) ∧ x ≤ (if acc < x then x else acc) := by
      split
      · rename_i h; exact ⟨h.le, le_rfl⟩
      · rename_i h; exact ⟨le_rfl, not_lt.mp h⟩
    refine ⟨?_, hle.1.trans hacc, ?_⟩
    · rcases hmem with heq | hin
      · rw [heq]
        split
        · exact .inr mem_cons_self
        · exact .inl rfl
      · exact .inr (mem_cons_of_mem x hin)
    · intro n hn
      rcases mem_cons.mp hn with rfl | hn
      · exact hle.2.trans hacc
      · exact hall n hn

theorem latestName_mem (names : List Name) : latestName names = [] ∨ latestName names ∈ names := (foldl_latest names []).1

variable {n : Name}

theorem latestName_le {names : List Name} (hn : n ∈ names) : n ≤ latestName names := (foldl_latest names []).2.2 n hn

theorem latestName_congr {names names' : List Name} (h : ∀ n, n ∈ names ↔ n ∈ names') : latestName names = latestName names' := by
  have hle : ∀ {l l' : List Name}, (∀ n, n ∈ l → n ∈ l') → latestName l ≤ latestName l' := by
    intro l l' hsub
    rcases latestName_mem l with hnil | hmem
    · rw [hnil]
      exact nil_le_name _
    · exact latestName_le (hsub _ hmem)
  exact le_antisymm (hle fun n => (h n).mp) (hle fun n => (h n).mpr)

/-! ## What a listing shows -/

/-- The directories in a directory. -/
def dirNames (fs : Fs Name UInt8) (p : Path) : List Name := ((fs.entries p).filter fun entry => entry.isDir).map DirEntry.name

/-- The files in a directory. -/
def fileNames (fs : Fs Name UInt8) (p : Path) : List Name := ((fs.entries p).filter fun entry => !entry.isDir).map DirEntry.name

theorem mem_dirNames {p : Path} : n ∈ dirNames fs p ↔ p ++ [n] ∈ fs.dirs := by
  unfold dirNames
  rw [← mem_entries_dir, mem_map]
  constructor
  · rintro ⟨⟨m, b⟩, he, rfl⟩
    obtain ⟨he, hb⟩ := mem_filter.mp he
    obtain rfl : b = true := hb
    exact he
  · intro he
    exact ⟨_, mem_filter.mpr ⟨he, rfl⟩, rfl⟩

theorem mem_fileNames {p : Path} : n ∈ fileNames fs p ↔ fs.look (p ++ [n]) ≠ none := by
  unfold fileNames
  rw [← mem_entries_file, mem_map]
  constructor
  · rintro ⟨⟨m, b⟩, he, rfl⟩
    obtain ⟨he, hb⟩ := mem_filter.mp he
    obtain rfl : b = false := by simpa using hb
    exact he
  · intro he
    exact ⟨_, mem_filter.mpr ⟨he, rfl⟩, rfl⟩

/-- **What `GetLatestWALFileForCluster` answers**, nothing failing. -/
theorem ask_latest (fs : Fs Name UInt8) (c : Name) : ask fs (getLatestWALFileForCluster c : FsProg Msg Name) =
    if fs.IsDir (joinPath [c]) then
      let d := latestName (dirNames fs (joinPath [c]))
      if d = [] then .ok []
      else if fs.IsDir (joinPath [c, d]) then .ok (latestName (fileNames fs (joinPath [c, d])))
      else .error (.wrap "while reading WAL directory: %w" [] (.fs .notExist))
    else .ok [] := by
  unfold getLatestWALFileForCluster
  by_cases hC : fs.IsDir (joinPath [c])
  · simp only [ask, exec, if_pos hC]
    show ask fs (if latestName (dirNames fs (joinPath [c])) = [] then _ else _) = _
    split
    · rfl
    simp only [ask, exec]
    by_cases hd : fs.IsDir (joinPath [c, latestName (dirNames fs (joinPath [c]))])
    · have hd' := hd
      unfold dirNames at hd'
      rw [if_pos hd, if_pos hd']
      rfl
    · have hd' := hd
      unfold dirNames at hd'
      rw [if_neg hd, if_neg hd']
      rfl
  · simp only [ask, exec, if_neg hC]

/-! ## Where accepted names are stored -/

theorem walFileRE_segment (h8 : hexRun 8 (n.take 8) = true) (h16 : hexRun 16 ((n.drop 8).take 16) = true) :
    IsSegment (n.take 24) := by
  unfold hexRun at h8 h16
  rw [Bool.and_eq_true_iff, beq_iff_eq] at h8 h16
  have hsplit : n.take 24 = n.take 8 ++ (n.drop 8).take 16 := by rw [← take_add]
  unfold IsSegment hexRun
  rw [Bool.and_eq_true_iff, beq_iff_eq, hsplit, length_append, all_append, h8.1, h16.1, h8.2, h16.2]
  exact ⟨rfl, rfl⟩

theorem trim_pathExt {x y : Name} (hy : ∀ ch ∈ y, ch ≠ '.' ∧ ch ≠ '/') :
    trimSuffix (x ++ '.' :: y) (pathExt (x ++ '.' :: y)) = x := by
  rw [pathExt_append hy, trimSuffix_append]

/-- An accepted name that goes to a WAL directory is a segment, complete or partial. -/
theorem segment_of_length (h : walFileRE n = true)
    (hlen : byteLen (trimSuffix n (pathExt n)) = expectedWalFileNameLength) : ∃ x, IsSegment x ∧ IsFileOf x n := by
  unfold walFileRE at h
  rw [Bool.and_eq_true_iff, Bool.or_eq_true_iff, Bool.and_eq_true_iff] at h
  obtain ⟨h8, ⟨h16, hext⟩ | hhist⟩ := h
  · have hx := walFileRE_segment h8 h16
    refine ⟨n.take 24, hx, ?_⟩
    unfold walExtension at hext
    rw [Bool.or_eq_true_iff, Bool.or_eq_true_iff, Bool.and_eq_true_iff] at hext
    rcases hext with (hnil | hpart) | ⟨-, hbackup⟩
    · left
      have hn := take_append_drop 24 n
      rw [beq_iff_eq.mp hnil, append_nil] at hn
      exact hn.symm
    · right
      have hn := take_append_drop 24 n
      rw [beq_iff_eq.mp hpart] at hn
      exact hn.symm
    · -- a backup label is stored in the cluster's directory
      exfalso
      have hdrop : n.drop 33 = '.' :: "backup".toList := by
        have hb := beq_iff_eq.mp hbackup
        rw [drop_drop] at hb
        exact hb
      have hn := take_append_drop 33 n
      rw [hdrop] at hn
      have hlong : 33 ≤ byteLen (n.take 33) := by
        have hle := length_le_byteLen (n.take 33)
        have hl := congrArg length hdrop
        rw [length_drop, length_cons] at hl
        rw [length_take] at hle
        omega
      rw [← hn, trim_pathExt (by simp)] at hlen
      exact absurd (hlen ▸ hlong) (by decide)
  · -- and so is a history file
    exfalso
    have hn := take_append_drop 8 n
    rw [beq_iff_eq.mp hhist] at hn
    have hhex := h8
    unfold hexRun at hhex
    rw [Bool.and_eq_true_iff, beq_iff_eq, all_eq_true] at hhex
    have hshort : byteLen (n.take 8) = 8 := by rw [byteLen_hex hhex.2, hhex.1]
    rw [← hn, show ".history".toList = '.' :: "history".toList from by decide, trim_pathExt (by simp), hshort] at hlen
    exact absurd hlen (by decide)

variable {r : PutRequest}

/-- **The two places of an accepted name**: a WAL directory for a segment, the cluster's directory for the
rest. -/
theorem accepted_paths (h : walFileRE r.walName = true) :
    (∃ x, IsSegment x ∧ stagingPath r = joinPath [r.clusterName] ++ [x.take walSubdirectoryLength] ++ [x ++ partialSuffix] ∧
      finalPath r = joinPath [r.clusterName] ++ [x.take walSubdirectoryLength] ++ [x]) ∨
    ∃ n n', stagingPath r = joinPath [r.clusterName] ++ [n] ∧ finalPath r = joinPath [r.clusterName] ++ [n'] := by
  by_cases hlen : byteLen (trimSuffix r.walName (pathExt r.walName)) = expectedWalFileNameLength
  · left
    obtain ⟨x, hx, hn⟩ := segment_of_length h hlen
    have hwith : withPartialSuffix r.walName = x ++ partialSuffix := by
      rcases hn with hn | hn
      · rw [hn, hx.withPartial]
      · rw [hn, withPartialSuffix_append]
    refine ⟨x, hx, ?_, ?_⟩
    · rw [stagingPath_eq (hn.path r.clusterName hx), hwith]
    · rw [finalPath_eq (hn.path r.clusterName hx), hwith, trimPartialSuffix_append]
  · right
    have hplain : Plain r.walName := plain_of_length (Nat.lt_trans (by decide) (walFileRE_length h))
    have hpath : getWALArchivePath r.clusterName r.walName = joinPath [r.clusterName] ++ [r.walName] := by
      unfold getWALArchivePath
      rw [if_neg hlen]
      exact joinPath_append hplain [r.clusterName]
    exact ⟨_, _, stagingPath_eq hpath, finalPath_eq hpath⟩

theorem clusterDir_cases (c : Name) : joinPath [c] = [] ∨ joinPath [c] = [c] := by
  show pushComponent [] c = [] ∨ pushComponent [] c = [c]
  unfold pushComponent
  split
  · exact .inl rfl
  split
  · exact .inr rfl
  · exact .inr rfl

/-! ## The layout of a cluster's directory -/

/-- **The layout of a cluster's directory**: its directories are named after segments and hold files of these. -/
structure Tidy (c : Name) (fs : Fs Name UInt8) : Prop where
  dirs : ∀ d, [c, d] ∈ fs.dirs → (∃ x, IsSegment x ∧ x.take walSubdirectoryLength = d) ∧ [c] ∈ fs.dirs
  files : ∀ d n, fs.look [c, d, n] ≠ none →
    (∃ x, IsSegment x ∧ IsFileOf x n ∧ x.take walSubdirectoryLength = d) ∧ [c, d] ∈ fs.dirs

/-- What uploads and retention runs do to the archive: they create directories and files for accepted names
only. -/
def ArchiveOp : FsOp Name UInt8 Msg → Prop
  | .mkdirAll p => ∃ r : PutRequest, walFileRE r.walName = true ∧ p = (stagingPath r).dropLast
  | .openTrunc p => ∃ r : PutRequest, walFileRE r.walName = true ∧ p = stagingPath r
  | .rename p q => ∃ r : PutRequest, walFileRE r.walName = true ∧ p = stagingPath r ∧ q = finalPath r
  | _ => True

theorem Tidy.mkdirs (h : Tidy c fs) {ds : List Path}
    (hds : ∀ d, [c, d] ∈ ds → (∃ x, IsSegment x ∧ x.take walSubdirectoryLength = d) ∧ [c] ∈ ds) : Tidy c (fs.mkdirs ds) := by
  have hmem : ∀ p, p ≠ [] → (p ∈ (fs.mkdirs ds).dirs ↔ p ∈ fs.dirs ∨ p ∈ ds) := by
    intro p hp
    have hdir : (fs.mkdirs ds).IsDir p ↔ fs.IsDir p ∨ p ∈ ds := isDir_mkdirs
    unfold Fs.IsDir at hdir
    simpa only [hp, false_or] using hdir
  constructor
  · intro d hd
    rw [hmem _ (by simp)] at hd
    rw [hmem _ (by simp)]
    rcases hd with hd | hd
    · exact ⟨(h.dirs d hd).1, .inl (h.dirs d hd).2⟩
    · exact ⟨(hds d hd).1, .inr (hds d hd).2⟩
  · intro d n hl
    rw [hmem _ (by simp)]
    have hold := h.files d n hl
    exact ⟨hold.1, .inl hold.2⟩

theorem ancestors_tidy (hr : walFileRE r.walName = true) (k : ℕ) (d : Name)
    (hd : [c, d] ∈ (ancestors (stagingPath r).dropLast).take k) :
    (∃ x, IsSegment x ∧ x.take walSubdirectoryLength = d) ∧ [c] ∈ (ancestors (stagingPath r).dropLast).take k := by
  have hpre := (mem_ancestors.mp (mem_of_mem_take hd)).1
  rcases accepted_paths hr with ⟨x, hx, hstg, -⟩ | ⟨n, -, hstg, -⟩
  · rw [hstg, dropLast_concat] at hd hpre ⊢
    rcases clusterDir_cases r.clusterName with hC | hC
    · rw [hC] at hpre
      have hlen := hpre.length_le
      simp at hlen
    rw [hC] at hd hpre ⊢
    have heq : [c, d] = [r.clusterName, x.take walSubdirectoryLength] := hpre.eq_of_length rfl
    obtain ⟨rfl, rfl⟩ : c = r.clusterName ∧ d = x.take walSubdirectoryLength := by simpa using heq
    refine ⟨⟨x, hx, rfl⟩, ?_⟩
    have hanc : ancestors ([r.clusterName] ++ [x.take walSubdirectoryLength]) =
      [[r.clusterName], [r.clusterName, x.take walSubdirectoryLength]] := rfl
    rw [hanc] at hd ⊢
    -- the cluster's directory comes first
    cases k with
    | zero => cases hd
    | succ k => exact mem_cons_self
  · rw [hstg, dropLast_concat] at hpre
    have hlen := hpre.length_le
    rcases clusterDir_cases r.clusterName with hC | hC <;> rw [hC] at hlen <;> simp at hlen

theorem accepted_file (hr : walFileRE r.walName = true) {d n : Name}
    (hp : [c, d, n] = stagingPath r ∨ [c, d, n] = finalPath r) :
    (∃ x, IsSegment x ∧ IsFileOf x n ∧ x.take walSubdirectoryLength = d) ∧ (stagingPath r).dropLast = [c, d] ∧
      ∃ n', stagingPath r = [c, d, n'] := by
  rcases accepted_paths hr with ⟨x, hx, hstg, hfin⟩ | ⟨m, m', hstg, hfin⟩
  · rw [hstg, hfin] at hp
    rcases clusterDir_cases r.clusterName with hC | hC
    · rw [hC] at hp
      rcases hp with hp | hp <;> simp at hp
    rw [hC] at hp
    rw [hstg, hC, dropLast_concat]
    rcases hp with hp | hp
    · obtain ⟨rfl, rfl, rfl⟩ : c = r.clusterName ∧ d = x.take walSubdirectoryLength ∧ n = x ++ partialSuffix := by
        simpa using hp
      exact ⟨⟨x, hx, .inr rfl, rfl⟩, rfl, _, rfl⟩
    · obtain ⟨rfl, rfl, rfl⟩ : c = r.clusterName ∧ d = x.take walSubdirectoryLength ∧ n = x := by simpa using hp
      exact ⟨⟨n, hx, .inl rfl, rfl⟩, rfl, _, rfl⟩
  · rw [hstg, hfin] at hp
    rcases clusterDir_cases r.clusterName with hC | hC <;> rw [hC] at hp <;> rcases hp with hp | hp <;> simp at hp

theorem Tidy.openTrunc (h : Tidy c fs) (hr : walFileRE r.walName = true) :
    Tidy c (fs.openTrunc (stagingPath r)).2 := by
  have hdirs : (fs.openTrunc (stagingPath r)).2.dirs = fs.dirs := by
    unfold Fs.openTrunc
    split
    · rfl
    split
    · rfl
    cases fs.look (stagingPath r) <;> rfl
  refine ⟨fun d hd => ?_, fun d n hl => ?_⟩
  · rw [hdirs] at hd ⊢
    exact h.dirs d hd
  rw [hdirs]
  by_cases hp : [c, d, n] = stagingPath r
  · obtain ⟨hname, hparent, -⟩ := accepted_file hr (.inl hp)
    refine ⟨hname, ?_⟩
    -- the file was there, or it was created in a directory that exists
    by_cases hdir : fs.IsDir [c, d]
    · exact hdir.resolve_left (by simp)
    have hsame : (fs.openTrunc (stagingPath r)).2 = fs := by
      unfold Fs.openTrunc
      split
      · rfl
      · rw [if_pos (by rwa [hparent])]
    rw [hsame] at hl
    exact (h.files d n hl).2
  · rw [(same_openTrunc hp).1] at hl
    exact h.files d n hl

theorem Tidy.rename (h : Tidy c fs) (hr : walFileRE r.walName = true) :
    Tidy c (fs.rename (stagingPath r) (finalPath r)).2 := by
  rcases rename_cases fs (stagingPath r) (finalPath r) with ⟨e, he⟩ | ⟨i, hi, hstg, he⟩
  · rw [he]
    exact h
  rw [he]
  refine ⟨h.dirs, fun d n hl => ?_⟩
  by_cases hp : [c, d, n] = finalPath r
  · obtain ⟨hname, -, n', hn'⟩ := accepted_file hr (.inr hp)
    have hold := h.files d n' (by rw [← hn', hstg]; exact Option.some_ne_none i)
    exact ⟨hname, hold.2⟩
  · simp only [look_link, if_neg hp] at hl
    split at hl
    · exact absurd rfl hl
    · exact h.files d n hl

theorem Tidy.remove (h : Tidy c fs) (p : Path) : Tidy c (fs.remove p).2 := by
  have hlook : ∀ q, (fs.remove p).2.look q ≠ none → fs.look q ≠ none ∧ q ≠ p := by
    intro q hq
    rw [look_remove] at hq
    split at hq
    · exact absurd rfl hq
    · rename_i hne
      exact ⟨hq, hne⟩
  -- a directory that is removed is empty
  have hdirs : ∀ q, q ∈ (fs.remove p).2.dirs → q ∈ fs.dirs := by
    intro q
    unfold Fs.remove
    split
    · exact id
    split
    · split
      · exact fun hq => (mem_filter.mp hq).1
      · exact id
    · exact id
  have hkeep : ∀ q, q ∈ fs.dirs → ((∃ n, fs.look (q ++ [n]) ≠ none) ∨ ∃ d, q ++ [d] ∈ fs.dirs) → q ∈ (fs.remove p).2.dirs := by
    intro q hq hin
    unfold Fs.remove
    split
    · exact hq
    split
    · split
      · rename_i hempty
        refine mem_filter.mpr ⟨hq, ?_⟩
        simp only [ne_eq, decide_eq_true_eq]
        rintro rfl
        rcases hin with ⟨n, hn⟩ | ⟨d, hd⟩
        · have hmem := mem_entries_file.mpr hn
          rw [hempty] at hmem
          cases hmem
        · have hmem := mem_entries_dir.mpr hd
          rw [hempty] at hmem
          cases hmem
      · exact hq
    · exact hq
  refine ⟨fun d hd => ?_, fun d n hl => ?_⟩
  · have hold := h.dirs d (hdirs _ hd)
    exact ⟨hold.1, hkeep [c] hold.2 (.inr ⟨d, hdirs _ hd⟩)⟩
  · have hold := h.files d n (hlook _ hl).1
    exact ⟨hold.1, hkeep [c, d] hold.2 (.inl ⟨n, (hlook _ hl).1⟩)⟩

/-- **Operations of uploads and retention runs keep the layout**, whether they fail or not. -/
theorem exec_tidy {o : FsOp Name UInt8 Msg} (ho : ArchiveOp o) (k : Option ℕ) (h : Tidy c fs) : Tidy c (exec o k fs).2 := by
  cases o with
  | mkdirAll p =>
    obtain ⟨r, hr, rfl⟩ := ho
    cases k with
    | some k => exact h.mkdirs fun d hd => ancestors_tidy hr k d hd
    | none =>
      simp only [exec]
      split
      · exact h
      · refine h.mkdirs fun d hd => ?_
        have hall := ancestors_tidy (c := c) hr (ancestors (stagingPath r).dropLast).length d
        rw [take_length] at hall
        exact hall hd
  | openTrunc p =>
    obtain ⟨r, hr, rfl⟩ := ho
    cases k with
    | some k => exact h
    | none => exact h.openTrunc hr
  | rename p q =>
    obtain ⟨r, hr, rfl, rfl⟩ := ho
    cases k with
    | some k => exact h
    | none => exact h.rename hr
  | remove p =>
    cases k with
    | some k => exact h
    | none => exact h.remove p
  | write fd bs => cases k <;> exact ⟨h.dirs, h.files⟩
  | sync fd => cases k <;> exact ⟨h.dirs, h.files⟩
  | close fd => cases k <;> exact h
  | readDir p => rw [exec_readOnly (o := .readDir p) trivial]; exact h
  | readFile p => rw [exec_readOnly (o := .readFile p) trivial]; exact h
  | stat p => rw [exec_readOnly (o := .stat p) trivial]; exact h
  | emit m => rw [exec_readOnly (o := .emit m) trivial]; exact h

/-! ## Uploads and retention runs -/

/-- What changes the WAL archive. -/
inductive ArchiveProc where
  | put (stream : PutStream)
  | retention (cluster firstWAL : Name)

/-- Its program. -/
def ArchiveProc.prog (D : Deps) (K : Codec) (I : Implementation) : ArchiveProc → FsProg Msg Unit
  | .put stream => stream.prog D K I
  | .retention cluster firstWAL => setFirstRequiredOnCluster D cluster firstWAL

theorem send_uses {L : FsOp Name UInt8 Msg → Prop} (hL : ∀ m, L (.emit m)) (text : String) (m : Msg) :
    (PutHandler.send text m).Uses L := by
  refine ⟨hL m, fun (r : Except FsErr Unit) => ?_⟩
  cases r <;> trivial

theorem validateRequest_walName (h : validateRequest D peer r = .ok ()) : walFileRE r.walName = true := by
  unfold validateRequest at h
  split at h
  · cases h
  split at h
  · cases h
  split at h
  · cases h
  split at h
  · cases h
  rename_i hname
  unfold validateWalFileName at hname
  split at hname
  · assumption
  · cases hname

theorem put_uses (rand : ℕ → ℕ) (peer : Peer) (batches : List Batch) : (put D K I rand peer batches).Uses ArchiveOp := by
  rcases put_refused (D := D) (K := K) (I := I) rand peer batches with ⟨b, bs, m, rfl, hok⟩ | ⟨e, he⟩ | ⟨text, m, he⟩
  · have hre : walFileRE b.first.walName = true := validateRequest_walName (acceptBlock_ok hok).1
    refine Prog.Sat.uses ?_ (put_sat (b :: bs))
    intro ph o ha
    cases o <;> try trivial
    case mkdirAll p => exact ⟨b.first, hre, ha.2⟩
    case openTrunc p => exact ⟨b.first, hre, ha.2⟩
    case rename p q =>
      obtain ⟨w, s, -, -, hp, hq⟩ := ha
      exact ⟨b.first, hre, hp, hq⟩
  · rw [he]
    trivial
  · rw [he]
    exact send_uses (fun _ => trivial) text m

theorem archiveProc_uses (p : ArchiveProc) : (p.prog D K I).Uses ArchiveOp := by
  cases p with
  | put stream => exact put_uses _ _ _
  | retention cluster firstWAL =>
    refine ⟨trivial, fun _ => ?_⟩
    have hsat : (setFirstRequired D cluster firstWAL).Sat (pruning Unit fun _ => True) (fun _ _ => True) (fun _ _ => True) () :=
      setFirstRequired_sat cluster fun _ _ => trivial
    refine hsat.uses ?_
    intro ph o ha
    cases o <;> trivial

/-- **The layout holds after every run** of uploads and retention runs, with any failures and crashes. -/
theorem run_tidy [DecidableEq ι] (procs : ι → ArchiveProc) (h : Tidy c fs) (es : List (Ev ι (Option ℕ) (ℕ → ℕ))) :
    Tidy c ((Sys.init ⟨fs, []⟩ fun i => (procs i).prog D K I).run (sem ι Name UInt8 Msg) es).st.fs := by
  refine run_uses (L := ArchiveOp) (fun w : World ι Name UInt8 Msg => Tidy c w.fs) ?_ ?_ h (fun i => archiveProc_uses (procs i)) es
  · intro i o k w ho hw
    exact exec_tidy ho k hw
  · intro keep w hw
    exact ⟨hw.dirs, hw.files⟩

/-! ## The start of a stream -/

/-- A listing shows neither the directory itself nor its parent, and is one of a directory. -/
structure Listed (c : Name) (fs : Fs Name UInt8) : Prop where
  plain : ∀ d, joinPath [c] ++ [d] ∈ fs.dirs → Plain d
  isDir : ∀ d, joinPath [c] ++ [d] ∈ fs.dirs → fs.IsDir (joinPath [c])

theorem getLatest_uses {L : FsOp Name UInt8 Msg → Prop} (hL : ∀ p, L (.readDir p)) :
    (getLatestWALFileForCluster c : FsProg Msg Name).Uses L := by
  refine ⟨hL _, fun (r : Except FsErr (List (DirEntry Name))) => ?_⟩
  rcases r with e | es
  · cases e <;> trivial
  dsimp only
  split
  · trivial
  · refine ⟨hL _, fun (r : Except FsErr (List (DirEntry Name))) => ?_⟩
    cases r <;> trivial

variable {f : ControlFile} {rand : ℕ → ℕ} {data : List UInt8} {out : Except Err Unit × Fs Name UInt8}

theorem StoreOutcome.isDir_iff (h : StoreOutcome f K rand c data fs out) {d : Path} (hd : d ≠ joinPath [c]) :
    out.2.IsDir d ↔ fs.IsDir d := by
  refine ⟨fun hout => (h.made d hout).resolve_right fun hmem => ?_, h.dirs d⟩
  obtain ⟨hpre, hne⟩ := mem_ancestors.mp hmem
  rcases clusterDir_cases c with hC | hC
  · rw [hC] at hpre
    exact hne (prefix_nil.mp hpre)
  rw [hC] at hpre hd
  have hlen : d.length = 1 := by
    have h1 := hpre.length_le
    have h2 := length_pos_iff.mpr hne
    simp only [length_singleton] at h1
    omega
  exact hd (hpre.eq_of_length hlen)

theorem StoreOutcome.subdirs (h : StoreOutcome f K rand c data fs out) (d : Name) :
    joinPath [c] ++ [d] ∈ out.2.dirs ↔ joinPath [c] ++ [d] ∈ fs.dirs := by
  have hiff := h.isDir_iff (d := joinPath [c] ++ [d]) (by simp)
  unfold Fs.IsDir at hiff
  simpa using hiff

theorem StoreOutcome.listed (h : StoreOutcome f K rand c data fs out) (hlist : Listed c fs) : Listed c out.2 := by
  constructor
  · intro d hd
    exact hlist.plain d ((h.subdirs d).mp hd)
  · intro d hd
    exact h.dirs _ (hlist.isDir d ((h.subdirs d).mp hd))

/-- **Storing a control file does not change the latest WAL**: it touches no WAL directory. -/
theorem latest_after_store (h : StoreOutcome f K rand c data fs out) (hlist : Listed c fs) :
    ask out.2 (getLatestWALFileForCluster c : FsProg Msg Name) = ask fs (getLatestWALFileForCluster c : FsProg Msg Name) := by
  have hnames : latestName (dirNames out.2 (joinPath [c])) = latestName (dirNames fs (joinPath [c])) :=
    latestName_congr fun n => by rw [mem_dirNames, mem_dirNames, h.subdirs]
  rw [ask_latest, ask_latest, hnames]
  set d := latestName (dirNames fs (joinPath [c])) with hd
  by_cases hnil : d = []
  · simp only [if_pos hnil, ite_self]
  have hmem : joinPath [c] ++ [d] ∈ fs.dirs := mem_dirNames.mp ((latestName_mem _).resolve_left hnil)
  have hC := hlist.isDir d hmem
  have hpath : joinPath [c, d] = joinPath [c] ++ [d] := joinPath_append (hlist.plain d hmem) [c]
  have hfiles : latestName (fileNames out.2 (joinPath [c, d])) = latestName (fileNames fs (joinPath [c, d])) := by
    refine latestName_congr fun n => ?_
    have hlen : ∀ m, joinPath [c, d] ++ [n] ≠ joinPath [c] ++ [m] := by
      intro m heq
      have hl := congrArg length heq
      rw [hpath] at hl
      simp at hl
    have hsame := h.other (joinPath [c, d] ++ [n]) (by rw [f.staging_eq]; exact hlen _) (by rw [f.path_eq]; exact hlen _)
    rw [mem_fileNames, mem_fileNames, hsame.1]
  have hne : joinPath [c, d] ≠ joinPath [c] := by rw [hpath]; simp
  simp only [if_pos hC, if_pos (h.dirs _ hC), if_neg hnil, h.isDir_iff hne, hfiles]

def startOf (latestStoredWAL : Name) (gaps : List WALGap) (currentWalName : Name) : Name :=
  let serverSideWALFile := if latestStoredWAL < latestWALGapEnd gaps then latestWALGapEnd gaps else latestStoredWAL
  if serverSideWALFile = [] then currentWalName else serverSideWALFile

variable {req : WALStartRequest}

theorem negotiateWALStart_uses {m : ClusterMetadata} : (negotiateWALStart m req).Uses Looks := by
  unfold negotiateWALStart
  split
  · trivial
  · exact Prog.uses_map (Prog.uses_mapErr (getLatest_uses fun _ => trivial))

theorem ask_negotiate {m : ClusterMetadata} {a : Name} :
    ask fs (negotiateWALStart m req) = .ok a ↔ m.systemId = req.systemId ∧
      ∃ w, ask fs (getLatestWALFileForCluster req.clusterName : FsProg Msg Name) = .ok w ∧ a = startOf w m.gaps req.currentWalName := by
  unfold negotiateWALStart
  split
  · rename_i hne
    exact ⟨by rintro ⟨⟩, fun h => absurd h.1 hne⟩
  rename_i heq
  rw [ask_bind, ask_mapErr]
  rcases ask fs (getLatestWALFileForCluster req.clusterName : FsProg Msg Name) with e | w
  · exact ⟨by rintro ⟨⟩, by rintro ⟨_, w, ⟨⟩, _⟩⟩
  refine ⟨fun h => ⟨not_not.mp heq, w, rfl, ?_⟩, ?_⟩
  · exact (Except.ok.inj h).symm
  · rintro ⟨_, w', hw, ha⟩
    obtain rfl := Except.ok.inj hw
    rw [ha]
    rfl

/-- **`RequestWALStart` on an authorized request**, nothing failing: the metadata is there, or is written first. -/
theorem alone_requestWALStart {rand : ℕ → ℕ} (hro : I.isReadOnly = false)
    (hcheck : checkClusterName D peer req.clusterName = .ok ()) :
    alone (requestWALStart D K P I rand peer req) (fun _ => none) fs =
      match ask fs (getClusterMetadata K P req.clusterName) with
      | .ok m => (ask fs (negotiateWALStart m req), fs)
      | .error e =>
        if e.isNotExist then
          match alone (writeClusterMetadata K P rand req.clusterName ⟨req.systemId, []⟩) (fun _ => none) fs with
          | (.ok _, fs') => (ask fs' (negotiateWALStart ⟨req.systemId, []⟩ req), fs')
          | (.error e', fs') => (.error (.status .internal (.wrap "error while writing cluster metadata: %v" [] e')), fs')
        else (.error (.status .internal (.wrap "error while reading cluster metadata: %v" [] e)), fs) := by
  have hmeta : (getClusterMetadata K P req.clusterName).attempt.Uses Looks :=
    Prog.uses_attempt (getClusterMetadata_uses trivial)
  unfold requestWALStart unlessReadOnly withClusterName
  simp only [hro, hcheck, Bool.false_eq_true, if_false]
  rw [alone_bind, alone_looks hmeta, ask_attempt]
  cases ask fs (getClusterMetadata K P req.clusterName) with
  | ok m => exact alone_looks negotiateWALStart_uses fs
  | error e =>
    simp only
    split
    · rw [alone_bind, alone_mapErr]
      cases alone (writeClusterMetadata K P rand req.clusterName ⟨req.systemId, []⟩) (fun _ => none) fs with
      | mk r fs' =>
        cases r with
        | error e' => rfl
        | ok u => exact alone_looks negotiateWALStart_uses fs'
    · rfl

theorem requestWALStart_authorized {rand : ℕ → ℕ} {a : Name} {cs : ℕ → Option ℕ}
    (h : (alone (requestWALStart D K P I rand peer req) cs fs).1 = .ok a) :
    I.isReadOnly = false ∧ checkClusterName D peer req.clusterName = .ok () := by
  unfold requestWALStart unlessReadOnly withClusterName at h
  split at h
  · cases h
  rename_i hro
  split at h
  · cases h
  rename_i hcheck
  exact ⟨Bool.eq_false_iff.mpr hro, hcheck⟩

/-! ## The newest WAL -/

/-- `n` is a segment or a partial file that is stored. -/
def StoredWAL (fs : Fs Name UInt8) (c n : Name) : Prop :=
  (∃ x, IsSegment x ∧ IsFileOf x n) ∧ fs.look (getWALArchivePath c n) ≠ none

/-- **The latest WAL is the newest one**, and empty only if none is stored. -/
def FindsNewest (fs : Fs Name UInt8) (c : Name) : Prop :=
  ∃ w, ask fs (getLatestWALFileForCluster c : FsProg Msg Name) = .ok w ∧
    (w = [] → ∀ n, ¬ StoredWAL fs c n) ∧ (w ≠ [] → IsGreatest {n | StoredWAL fs c n} w)

/-- **No empty directory hides a stored WAL**: if any is stored, the greatest directory holds one. -/
def NothingHidden (fs : Fs Name UInt8) (c : Name) : Prop :=
  (∃ n, StoredWAL fs c n) → ∃ n, StoredWAL fs c n ∧ ∀ d, [c, d] ∈ fs.dirs → d ≤ n.take walSubdirectoryLength

def OwnDirectory (c : Name) : Prop := c ≠ [] ∧ c ≠ ".".toList

theorem OwnDirectory.joinPath (h : OwnDirectory c) : Klio.joinPath [c] = [c] := by
  show pushComponent [] c = [c]
  unfold pushComponent
  rw [if_neg (by rintro (hc | hc); exacts [h.1 hc, h.2 hc])]
  split <;> rfl

theorem IsFileOf.take {x n : Name} (hx : IsSegment x) (hn : IsFileOf x n) :
    n.take walSubdirectoryLength = x.take walSubdirectoryLength := by
  rcases hn with rfl | rfl
  · rfl
  · rw [take_append_of_le_length]
    rw [hx.length]
    decide

theorem StoredWAL.look (hc : OwnDirectory c) (h : StoredWAL fs c n) :
    fs.look [c, n.take walSubdirectoryLength, n] ≠ none := by
  obtain ⟨⟨x, hx, hn⟩, hl⟩ := h
  rw [hn.path c hx, hc.joinPath, ← hn.take hx] at hl
  exact hl

theorem Tidy.stored (h : Tidy c fs) (hc : OwnDirectory c) {d n : Name} (hl : fs.look [c, d, n] ≠ none) :
    StoredWAL fs c n ∧ n.take walSubdirectoryLength = d := by
  obtain ⟨⟨x, hx, hn, hd⟩, -⟩ := h.files d n hl
  refine ⟨⟨⟨x, hx, hn⟩, ?_⟩, (hn.take hx).trans hd⟩
  rw [hn.path c hx, hc.joinPath, hd]
  exact hl

theorem Tidy.listed (h : Tidy c fs) (hc : OwnDirectory c) : Listed c fs := by
  constructor
  · intro d hd
    rw [hc.joinPath] at hd
    obtain ⟨⟨x, hx, rfl⟩, -⟩ := h.dirs d hd
    refine plain_of_length ?_
    rw [length_take, hx.length]
    decide
  · intro d hd
    rw [hc.joinPath] at hd ⊢
    exact .inr (h.dirs d hd).2

theorem le_of_take_lt {x y : Name} (h : x.take walSubdirectoryLength < y.take walSubdirectoryLength) : x ≤ y := by
  by_contra hlt
  exact not_take_lt_take walSubdirectoryLength (not_le.mp hlt) h

/-- **In a tidy repository the latest WAL is the newest one exactly when nothing is hidden.** -/
theorem findsNewest_iff (h : Tidy c fs) (hc : OwnDirectory c) : FindsNewest fs c ↔ NothingHidden fs c := by
  have hnone : (∀ d, [c, d] ∉ fs.dirs) → ∀ n, ¬ StoredWAL fs c n := by
    intro hno n hn
    exact hno _ (h.files _ n (hn.look hc)).2
  have hlatest := ask_latest fs c
  rw [hc.joinPath] at hlatest
  have hmem : ∀ d, d ∈ dirNames fs [c] ↔ [c, d] ∈ fs.dirs := fun d => mem_dirNames
  set d := latestName (dirNames fs [c]) with hd
  by_cases hnil : d = []
  · -- there is no directory
    have hno : ∀ d', [c, d'] ∉ fs.dirs := by
      intro d' hd'
      obtain ⟨⟨x, hx, hxd⟩, -⟩ := h.dirs d' hd'
      have hle := latestName_le ((hmem d').mpr hd')
      rw [← hd, hnil] at hle
      have hzero : d' = [] := le_antisymm hle (nil_le_name d')
      have hlen := congrArg length (hxd.trans hzero)
      rw [length_take, hx.length] at hlen
      exact absurd hlen (by decide)
    have hempty := hnone hno
    have hask : ask fs (getLatestWALFileForCluster c : FsProg Msg Name) = .ok [] := by
      rw [hlatest]
      simp only [hnil, if_true, ite_self]
    refine ⟨fun _ ⟨n, hn⟩ => absurd hn (hempty n), fun _ => ⟨[], hask, fun _ => hempty, fun hne => absurd rfl hne⟩⟩
  · have hdir : [c, d] ∈ fs.dirs := (hmem d).mp ((latestName_mem _).resolve_left hnil)
    have hpath : joinPath [c, d] = [c, d] := by
      have happ := joinPath_append ((h.listed hc).plain d (by rw [hc.joinPath]; exact hdir)) [c]
      rw [hc.joinPath] at happ
      exact happ
    have hask : ask fs (getLatestWALFileForCluster c : FsProg Msg Name) = .ok (latestName (fileNames fs [c, d])) := by
      rw [hlatest]
      have hC : fs.IsDir [c] := .inr (h.dirs d hdir).2
      have hcd : fs.IsDir [c, d] := .inr hdir
      simp only [if_neg hnil, hpath, if_pos hC, if_pos hcd]
    have hfile : ∀ n, n ∈ fileNames fs [c, d] ↔ fs.look [c, d, n] ≠ none := fun n => mem_fileNames
    set w := latestName (fileNames fs [c, d]) with hw
    by_cases hwnil : w = []
    · -- the greatest directory is empty
      have hno : ∀ n, fs.look [c, d, n] = none := by
        intro n
        by_contra hl
        obtain ⟨⟨x, hx, hn, -⟩, -⟩ := h.files d n hl
        have hle := latestName_le ((hfile n).mpr hl)
        rw [← hw, hwnil] at hle
        have hzero : n = [] := le_antisymm hle (nil_le_name n)
        have hlen := hn.length_le hx
        rw [hzero] at hlen
        exact absurd hlen (by decide)
      constructor
      · rintro ⟨w', hw', hempty, -⟩ ⟨n, hn⟩
        obtain rfl : w = w' := Except.ok.inj (hask.symm.trans hw')
        exact absurd hn (hempty hwnil n)
      intro hhid
      refine ⟨w, hask, fun _ n hn => ?_, fun hne => absurd hwnil hne⟩
      obtain ⟨n', hn', hall⟩ := hhid ⟨n, hn⟩
      have hl := hn'.look hc
      have hge : n'.take walSubdirectoryLength ≤ d := latestName_le ((hmem _).mpr (h.files _ n' hl).2)
      rw [le_antisymm hge (hall d hdir)] at hl
      exact hl (hno n')
    · -- it holds a file, and the greatest one is the newest
      have hwfile : fs.look [c, d, w] ≠ none := (hfile w).mp ((latestName_mem _).resolve_left hwnil)
      obtain ⟨hstored, htake⟩ := h.stored hc hwfile
      have hgreatest : IsGreatest {n | StoredWAL fs c n} w := by
        refine ⟨hstored, fun n hn => ?_⟩
        have hl := StoredWAL.look hc hn
        have hge : n.take walSubdirectoryLength ≤ d := latestName_le ((hmem _).mpr (h.files _ n hl).2)
        rcases hge.lt_or_eq with hlt | heq
        · rw [← htake] at hlt
          exact le_of_take_lt hlt
        · rw [heq] at hl
          exact latestName_le ((hfile n).mpr hl)
      refine ⟨fun _ _ => ⟨w, hstored, fun d' hd' => ?_⟩, fun _ => ⟨w, hask, fun hz => absurd hz hwnil, fun _ => hgreatest⟩⟩
      rw [htake]
      exact latestName_le ((hmem d').mpr hd')

def recordedGaps (K : Codec) (P : Outside) (c : Name) (fs : Fs Name UInt8) : List WALGap :=
  match ask fs (getClusterMetadata K P c) with
  | .ok m => m.gaps
  | .error _ => []

/-- **What `RequestWALStart` answers**, nothing failing: the start that the archive and the recorded gaps give. -/
theorem requestWALStart_answer (hlist : Listed c fs) {rand : ℕ → ℕ} {systemId cur a : Name}
    (h : (alone (requestWALStart D K P I rand peer ⟨c, systemId, cur⟩) (fun _ => none) fs).1 = .ok a) :
    ∃ w, ask fs (getLatestWALFileForCluster c : FsProg Msg Name) = .ok w ∧ a = startOf w (recordedGaps K P c fs) cur := by
  obtain ⟨hro, hcheck⟩ := requestWALStart_authorized h
  rw [alone_requestWALStart hro hcheck] at h
  unfold recordedGaps
  cases hread : ask fs (getClusterMetadata K P c) with
  | ok m =>
    rw [hread] at h
    exact (ask_negotiate.mp h).2
  | error e =>
    rw [hread] at h
    simp only at h
    split at h
    · -- the metadata is written, which does not change the latest WAL
      have hstore : StoreOutcome .metadata K rand c (bytesOf (P.marshalMetadata ⟨systemId, []⟩)) fs
          (alone (writeClusterMetadata K P rand c ⟨systemId, []⟩) (fun _ => none) fs) := writeClusterMetadata_stores _ _
      have hlatest := latest_after_store hstore hlist
      cases hwrite : alone (writeClusterMetadata K P rand c ⟨systemId, []⟩) (fun _ => none) fs with
      | mk r fs' =>
        rw [hwrite] at h hlatest
        rcases r with e' | u
        · cases h
        obtain ⟨-, w, hw, ha⟩ := ask_negotiate.mp h
        exact ⟨w, hlatest.symm.trans hw, ha⟩
    · cases h

/-- What the server knows about a cluster's WAL: what is stored, and where gaps end. -/
def known (fs : Fs Name UInt8) (c : Name) (gaps : List WALGap) : Set Name := {n | StoredWAL fs c n} ∪ {e | ∃ g ∈ gaps, g.stop = e}

theorem latestWALGapEnd_mem (gaps : List WALGap) : latestWALGapEnd gaps = [] ∨ ∃ g ∈ gaps, g.stop = latestWALGapEnd gaps := by
  rcases latestName_mem (gaps.map WALGap.stop) with h | h
  · exact .inl h
  · exact .inr (mem_map.mp h)

theorem stop_le_latestWALGapEnd {gaps : List WALGap} {g : WALGap} (hg : g ∈ gaps) : g.stop ≤ latestWALGapEnd gaps :=
  latestName_le (mem_map.mpr ⟨g, hg, rfl⟩)

/-- **A stream starts at the greatest WAL the server knows**, if it knows any. -/
theorem startOf_greatest {w cur : Name} {gaps : List WALGap} (hnil : w = [] → ∀ n, ¬ StoredWAL fs c n)
    (hgr : w ≠ [] → IsGreatest {n | StoredWAL fs c n} w)
    (hany : (∃ n, StoredWAL fs c n) ∨ ∃ g ∈ gaps, g.stop ≠ []) : IsGreatest (known fs c gaps) (startOf w gaps cur) := by
  have hstored : ∀ n, StoredWAL fs c n → n ≤ w := by
    intro n hn
    have hw : w ≠ [] := fun h0 => hnil h0 n hn
    exact (hgr hw).2 hn
  unfold startOf
  by_cases hlt : w < latestWALGapEnd gaps
  · -- the latest gap ends after everything stored
    have hne : latestWALGapEnd gaps ≠ [] := by
      intro h0
      rw [h0] at hlt
      exact absurd hlt (not_lt_nil w)
    simp only [if_pos hlt, if_neg hne]
    refine ⟨.inr ((latestWALGapEnd_mem gaps).resolve_left hne), ?_⟩
    rintro n (hn | ⟨g, hg, rfl⟩)
    · exact (hstored n hn).trans hlt.le
    · exact stop_le_latestWALGapEnd hg
  · have hge : latestWALGapEnd gaps ≤ w := not_lt.mp hlt
    have hne : w ≠ [] := by
      rintro rfl
      rcases hany with ⟨n, hn⟩ | ⟨g, hg, hstop⟩
      · exact hnil rfl n hn
      · have hle := (stop_le_latestWALGapEnd hg).trans hge
        exact hstop (le_antisymm hle (nil_le_name _))
    simp only [if_neg hlt, if_neg hne]
    refine ⟨.inl (hgr hne).1, ?_⟩
    rintro n (hn | ⟨g, hg, rfl⟩)
    · exact hstored n hn
    · exact (stop_le_latestWALGapEnd hg).trans hge

/-- **Streaming resumes at the newest archived WAL** exactly when no empty directory hides it. In every state
reached by uploads and retention runs, whatever fails, `GetLatestWALFileForCluster` finds the newest segment or
partial file, and nothing only if none is stored, if and only if the greatest directory of the cluster holds
a file or nothing is stored. `RequestWALStart` then answers with the greatest WAL that is stored or that a gap
ends at, as soon as there is one: it follows the client only when there is none. -/
theorem newest_wal_found_iff [DecidableEq ι] (D : Deps) (K : Codec) (P : Outside) (I : Implementation) (procs : ι → ArchiveProc)
    (fs : Fs Name UInt8) (c : Name) (hc : OwnDirectory c) (htidy : Tidy c fs) (es : List (Ev ι (Option ℕ) (ℕ → ℕ)))
    (fs' : Fs Name UInt8) (hrun : ((Sys.init ⟨fs, []⟩ fun i => (procs i).prog D K I).run (sem ι Name UInt8 Msg) es).st.fs = fs') :
    (FindsNewest fs' c ↔ NothingHidden fs' c) ∧
      (NothingHidden fs' c → ∀ (rand : ℕ → ℕ) (peer : Peer) (systemId currentWalName a : Name),
        (alone (requestWALStart D K P I rand peer ⟨c, systemId, currentWalName⟩) (fun _ => none) fs').1 = .ok a →
        ((∃ n, StoredWAL fs' c n) ∨ ∃ g ∈ recordedGaps K P c fs', g.stop ≠ []) →
        IsGreatest (known fs' c (recordedGaps K P c fs')) a) := by
  have htidy' : Tidy c fs' := by
    rw [← hrun]
    exact run_tidy procs htidy es
  have hiff := findsNewest_iff htidy' hc
  refine ⟨hiff, fun hhid rand peer systemId cur a hok hany => ?_⟩
  obtain ⟨w, hw, hnil, hgr⟩ := hiff.mpr hhid
  obtain ⟨w', hw', rfl⟩ := requestWALStart_answer (htidy'.listed hc) hok
  obtain rfl : w = w' := Except.ok.inj (hw.symm.trans hw')
  exact startOf_greatest hnil hgr hany

theorem tidy_empty (c : Name) : Tidy c empty := ⟨nofun, fun _ _ h => absurd rfl h⟩

/-- An upload of the first segment, and one of a segment in the next directory. -/
def twoUploads (first : Bool) : ArchiveProc :=
  if first then .put (oneByteStream [[7]])
  else .put { oneByteStream [] with
    batches := [⟨{ oneByteRequest [7] with walName := "000000010000000100000000".toList }, []⟩] }

/-- The repository after both uploads; the second one opens its file if `opens`. -/
def afterUploads (opens : Bool) : Fs Name UInt8 :=
  ((Sys.init ⟨Fs.empty, []⟩ fun i => (twoUploads i).prog plainDeps plainCodec ⟨false, false⟩).run (sem Bool Name UInt8 Msg)
    (List.replicate 8 (.step true none) ++ [.step false none, .step false (if opens then none else some 0)] ++
      List.replicate 6 (.step false none))).st.fs

def askStart (fs : Fs Name UInt8) : Except Err Name :=
  (alone (requestWALStart plainDeps plainCodec twoSystems ⟨false, false⟩ (fun _ => 0) (.cert "u@c".toList)
    ⟨"c".toList, "A".toList, "000000010000000000000005".toList⟩) (fun _ => none) fs).1

set_option maxRecDepth 10000 in
theorem newest_wal_found_after_uploads : OwnDirectory "c".toList ∧ Tidy "c".toList Fs.empty ∧
    FindsNewest (afterUploads true) "c".toList := by
  have hc : OwnDirectory "c".toList := ⟨by decide, by decide⟩
  refine ⟨hc, tidy_empty _, ?_⟩
  refine (newest_wal_found_iff plainDeps plainCodec twoSystems ⟨false, false⟩ twoUploads empty "c".toList hc (tidy_empty _)
    (replicate 8 (.step true none) ++ [.step false none, .step false none] ++ replicate 6 (.step false none))
    (afterUploads true) rfl).1.mpr ?_
  intro _
  refine ⟨"000000010000000100000000".toList, ⟨⟨"000000010000000100000000".toList, by decide, .inl rfl⟩, by decide +kernel⟩,
    fun d hd => ?_⟩
  have hdirs : (afterUploads true).dirs = [["c".toList], ["c".toList, "0000000100000000".toList],
    ["c".toList, "0000000100000001".toList]] := by decide +kernel
  rw [hdirs] at hd
  have hcases : d = "0000000100000000".toList ∨ d = "0000000100000001".toList := by simpa using hd
  rcases hcases with rfl | rfl
  · decide
  · decide

set_option maxRecDepth 10000 in
/-- The second upload creates its directory and fails to open its file: the first segment is stored, but no
latest WAL is found, and the stream starts where the client says, after the stored segment. -/
theorem newest_wal_hidden : StoredWAL (afterUploads false) "c".toList "000000010000000000000001".toList ∧
    ask (afterUploads false) (getLatestWALFileForCluster "c".toList : FsProg Msg Name) = .ok [] ∧
    askStart (afterUploads false) = .ok "000000010000000000000005".toList := by
  refine ⟨⟨⟨"000000010000000000000001".toList, by decide, .inl rfl⟩, by decide +kernel⟩, ?_, ?_⟩
  · rfl
  · rfl

end Klio
