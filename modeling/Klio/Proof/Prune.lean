import Klio.Proof.Publish
import Klio.Model.Repository

/-!
# What the retention of WAL files removes

`setFirstRequiredOnCluster D c f` only looks around and removes files of segments before `f`, and
directories it has emptied (`setFirstRequired_prunes`, whatever fails). Nothing failing, the files of
every segment before `f` are gone afterwards (`setFirstRequired_removes`).
-/

namespace Klio

open Lib Prog List

variable {ι Ph : Type} {D : Deps} {firstWAL : Name}

/-! ## Names -/

/-- The name of a file of the segment `x`. -/
def IsFileOf (x n : Name) : Prop := n = x ∨ n = x ++ partialSuffix

theorem isWALFile_segment {x : Name} (hx : IsSegment x) : D.isWALFile x = true := by
  rw [D.isWALFile_eq x (hx.not_mem (by decide))]
  exact hx

variable {x n : Name}

theorem IsFileOf.walFileRE (hx : IsSegment x) (hn : IsFileOf x n) : walFileRE n = true := by
  rcases hn with rfl | rfl
  · exact isSegment_walFileRE hx
  exact walFileRE_append hx (by decide)

theorem IsFileOf.compareName (hx : IsSegment x) (hn : IsFileOf x n) :
    compareName D n = x ∧ isWALSegmentOrPartial D n = true := by
  rcases hn with rfl | rfl
  · have hno : isPartialWALFile D n = false := by
      unfold isPartialWALFile
      rw [Bool.and_eq_false_iff]
      exact .inl (Bool.eq_false_iff.2 fun h => hx.not_suffix (hasSuffix_iff.1 h))
    exact ⟨by simp [Klio.compareName, hno], by simp [isWALSegmentOrPartial, isWALFile_segment hx]⟩
  · have hyes : isPartialWALFile D (x ++ partialSuffix) = true := by
      unfold isPartialWALFile
      rw [trimSuffix_append, isWALFile_segment hx, hasSuffix_iff.2 (suffix_append _ _)]; rfl
    refine ⟨?_, ?_⟩
    · rw [Klio.compareName, if_pos hyes, trimPartialSuffix_append]
    · rw [isWALSegmentOrPartial, hyes, Bool.or_true]

/-- **A file of a segment is obsolete exactly before the first one required.** -/
theorem isObsolete_iff (hx : IsSegment x) (hn : IsFileOf x n) :
    isObsolete D firstWAL ⟨n, false⟩ = true ↔ x < firstWAL := by
  obtain ⟨hcmp, hwal⟩ := hn.compareName (D := D) hx
  unfold isObsolete
  rw [hn.walFileRE hx, hwal, hcmp]
  simp

variable {e : DirEntry Name}

theorem isObsolete_plain (he : isObsolete D firstWAL e = true) : Plain e.name := by
  unfold isObsolete at he
  simp only [Bool.and_eq_true] at he
  exact plain_of_length (Nat.lt_trans (by decide) (walFileRE_length he.1.1.2))

theorem isObsolete_file (he : isObsolete D firstWAL e = true) : e.isDir = false := by
  unfold isObsolete at he
  simp only [Bool.and_eq_true, Bool.not_eq_true'] at he
  exact he.1.1.1

theorem IsFileOf.path (c : Name) (hx : IsSegment x) (hn : IsFileOf x n) :
    getWALArchivePath c n = joinPath [c] ++ [x.take walSubdirectoryLength] ++ [n] := by
  have hdir : segmentDir c x = joinPath [c] ++ [x.take walSubdirectoryLength] := by
    refine joinPath_append (plain_of_length ?_) [c]
    rw [length_take, hx.length]; decide
  rw [← hdir]
  rcases hn with rfl | rfl
  · exact archivePath_segment c hx
  · exact archivePath_partialSegment c hx

theorem IsFileOf.length_le (hx : IsSegment x) (hn : IsFileOf x n) : 24 ≤ n.length := by
  have hlen := hx.length
  rcases hn with rfl | rfl
  · omega
  · rw [length_append]; omega

theorem pushComponent_plain {dir : Path} {c : Name} (hc : Plain c) : pushComponent dir c = dir ++ [c] := by
  unfold pushComponent
  rw [if_neg (by rintro (h | h); exacts [hc.1 h, hc.2.1 h]), if_neg hc.2.2]

theorem plain_of_byteLen {d : Name} (h : byteLen d = walSubdirectoryLength) : Plain d := by
  refine ⟨?_, ?_, ?_⟩
  · rintro rfl; exact absurd h (by decide)
  · rintro rfl; exact absurd h (by decide)
  · rintro rfl; exact absurd h (by decide)

theorem not_take_lt_take {x y : Name} (n : ℕ) (h : x < y) : ¬ y.take n < x.take n := by
  intro hlt
  induction n generalizing x y with
  | zero => simp at hlt
  | succ n ih =>
    rcases y with _ | ⟨b, y⟩
    · simp at h
    rcases x with _ | ⟨a, x⟩
    · simp at hlt
    simp only [take_succ_cons, cons_lt_cons_iff] at h hlt
    rcases hlt with hlt | ⟨rfl, hlt⟩
    · rcases h with h | ⟨rfl, h⟩
      · exact lt_asymm h hlt
      · exact lt_irrefl _ hlt
    · rcases h with h | ⟨-, h⟩
      · exact lt_irrefl _ h
      · exact ih h hlt

theorem length_le_byteLen (s : Name) : s.length ≤ byteLen s := by
  unfold byteLen
  induction s with
  | nil => exact Nat.le_refl _
  | cons c s ih =>
    have := Char.utf8Size_pos c
    simp only [length_cons, map_cons, sum_cons]
    omega

/-! ## What may go -/

def PrunedIn (D : Deps) (firstWAL : Name) (directory p : Path) : Prop :=
  p = directory ∨ ∃ entry, isObsolete D firstWAL entry = true ∧ p = pushComponent directory entry.name

def PrunedOf (D : Deps) (firstWAL : Name) (clusterDirectory p : Path) : Prop :=
  ∃ d, byteLen d = walSubdirectoryLength ∧ PrunedIn D firstWAL (pushComponent clusterDirectory d) p

variable {Z : Path → Prop} {directory : Path} {ph : Ph}

theorem removeObsolete_sat (es : List (DirEntry Name))
    (hZ : ∀ entry, isObsolete D firstWAL entry = true → Z (pushComponent directory entry.name)) :
    (removeObsolete D directory firstWAL es : FsProg Msg Unit).Sat (pruning Ph Z) (fun _ _ => True) (fun _ _ => True) ph := by
  induction es with
  | nil => trivial
  | cons e es ih =>
    unfold removeObsolete
    split
    · rename_i he
      exact ⟨hZ e he, fun _ => ih⟩
    · exact ih

theorem setFirstRequiredOnDirectory_sat
    (hZ : ∀ p, PrunedIn D firstWAL directory p → Z p) :
    (setFirstRequiredOnDirectory D directory firstWAL : FsProg Msg Unit).Sat (pruning Ph Z) (fun _ _ => True)
      (fun _ _ => True) ph := by
  refine ⟨trivial, fun (r : Except FsErr (List (DirEntry Name))) => ?_⟩
  rcases r with e | entries
  · trivial
  refine sat_bind (removeObsolete_sat entries fun e he => hZ _ (.inr ⟨e, he, rfl⟩)) ?_
  intro _ ph' _
  refine ⟨trivial, fun (r : Except FsErr (List (DirEntry Name))) => ?_⟩
  rcases r with e | entries
  · trivial
  -- the directory goes only if the second listing shows nothing
  show Prog.Sat _ _ _ (if entries.length = 0 then _ else _) _
  split
  · exact ⟨hZ _ (.inl rfl), fun _ => trivial⟩
  · trivial

/-- **Pruning a cluster** removes nothing else, whatever the directories look like. -/
theorem setFirstRequiredOnEntries_sat {clusterDirectory : Path} (es : List (DirEntry Name))
    (hZ : ∀ d, ⟨d, true⟩ ∈ es → byteLen d = walSubdirectoryLength →
      ∀ p, PrunedIn D firstWAL (pushComponent clusterDirectory d) p → Z p) :
    (setFirstRequiredOnEntries D clusterDirectory firstWAL es : FsProg Msg Unit).Sat (pruning Ph Z) (fun _ _ => True)
      (fun _ _ => True) ph := by
  induction es generalizing ph with
  | nil => trivial
  | cons e es ih =>
    have hes := @ih ph fun d hd => hZ d (mem_cons_of_mem _ hd)
    unfold setFirstRequiredOnEntries
    split
    · rename_i he
      simp only [Bool.and_eq_true, beq_iff_eq] at he
      have hmem : ⟨e.name, true⟩ ∈ e :: es := by
        rw [← he.1.1]
        exact mem_cons_self
      have hdir : (setFirstRequiredOnDirectory D (pushComponent clusterDirectory e.name) firstWAL).attempt.Sat
          (pruning Ph Z) (fun _ _ => True) (fun _ _ => True) ph :=
        sat_attempt (setFirstRequiredOnDirectory_sat (hZ _ hmem he.1.2))
      refine sat_bind hdir ?_
      intro _ ph' _
      exact ih fun d hd => hZ d (mem_cons_of_mem _ hd)
    · exact hes

/-- **A file of a segment may go only by pruning its own cluster**, and before `firstWAL`. -/
theorem prunedOf_segment {c c' x n : Name} (hx : IsSegment x) (hn : IsFileOf x n)
    (hp : PrunedOf D firstWAL (joinPath [c]) (getWALArchivePath c' n)) : joinPath [c'] = joinPath [c] ∧ x < firstWAL := by
  obtain ⟨d, hd, hp⟩ := hp
  rw [hn.path c' hx, pushComponent_plain (plain_of_byteLen hd)] at hp
  rcases hp with hp | ⟨e, he, hp⟩
  · -- the directory itself: its name is shorter
    have hlast := congrArg getLast? hp
    rw [getLast?_concat, getLast?_concat, Option.some.injEq] at hlast
    have hlen := length_le_byteLen d
    have hn24 := hn.length_le hx
    rw [hd, ← hlast] at hlen
    exact absurd (Nat.le_trans hn24 hlen) (by decide)
  · rw [pushComponent_plain (isObsolete_plain he)] at hp
    have hsplit := append_inj_left' hp rfl
    have hlast := congrArg getLast? hp
    rw [getLast?_concat, getLast?_concat, Option.some.injEq] at hlast
    have hobs : isObsolete D firstWAL ⟨n, false⟩ = true := by
      have hfile : e.isDir = false := isObsolete_file he
      have heq : e = ⟨n, false⟩ := by rw [hlast, ← hfile]
      rw [← heq]
      exact he
    exact ⟨append_inj_left' hsplit rfl, (isObsolete_iff hx hn).1 hobs⟩

/-! ## What does go -/

/-- Run a pruning program alone, nothing failing. -/
def settle {α : Type} (i : ι) (p : FsProg Msg α) (w : World ι Name UInt8 Msg) : World ι Name UInt8 Msg :=
  (p.eval (sem ι Name UInt8 Msg) i (fun _ => none) w).2

variable (i : ι)

theorem settle_bind {α β : Type} (p : FsProg Msg α) (f : α → FsProg Msg β) (w : World ι Name UInt8 Msg) :
    settle i (p.bind f) w = match (p.eval (sem ι Name UInt8 Msg) i (fun _ => none) w).1 with
      | .ok a => settle i (f a) (settle i p w)
      | .error _ => settle i p w := by
  obtain ⟨n, hn⟩ := eval_bind (M := sem ι Name UInt8 Msg) i f p (fun _ => none) w
  unfold settle
  rw [hn]
  cases (p.eval (sem ι Name UInt8 Msg) i (fun _ => none) w) with
  | mk out w' => cases out <;> rfl

theorem settle_attempt_bind {α β : Type} (p : FsProg Msg α) (f : Except Err α → FsProg Msg β)
    (w : World ι Name UInt8 Msg) :
    settle i (p.attempt.bind f) w = settle i (f (p.eval (sem ι Name UInt8 Msg) i (fun _ => none) w).1) (settle i p w) := by
  rw [settle_bind, eval_attempt]
  unfold settle
  rw [eval_attempt]

theorem settle_pruned {α : Type} {p : FsProg Msg α}
    (hp : p.Sat (pruning Unit Z) (fun _ _ => True) (fun _ _ => True) ()) (i : ι) (w : World ι Name UInt8 Msg) :
    Fs.Pruned Z w.fs (settle i p w).fs := eval_pruning i hp _ w

theorem removeObsolete_removes (directory : Path) (he : isObsolete D firstWAL e = true)
    {es : List (DirEntry Name)} (hmem : e ∈ es) (w : World ι Name UInt8 Msg) :
    (settle i (removeObsolete D directory firstWAL es) w).fs.look (pushComponent directory e.name) = none := by
  induction es generalizing w with
  | nil => cases hmem
  | cons a es ih =>
    unfold removeObsolete
    by_cases hae : a = e
    · rw [hae, if_pos he]
      -- gone by the first removal, and never created again
      refine (settle_pruned (removeObsolete_sat (Z := fun _ => True) es fun _ _ => trivial) i _).gone _ ?_
      show (w.fs.remove (pushComponent directory e.name)).2.look (pushComponent directory e.name) = none
      rw [Fs.look_remove, if_pos rfl]
    · have hmem' : e ∈ es := (mem_cons.1 hmem).resolve_left fun h => hae h.symm
      split
      · exact ih hmem' _
      · exact ih hmem' w

variable {w : World ι Name UInt8 Msg}

theorem settle_readDir {α : Type} {p : Path} {k : Except FsErr (List (DirEntry Name)) → FsProg Msg α} (h : w.fs.IsDir p) :
    settle i (.call (.readDir p) k) w = settle i (k (.ok (w.fs.entries p))) w := by
  have hex : Fs.exec (.readDir p : FsOp Name UInt8 Msg) none w.fs = (.ok (w.fs.entries p), w.fs) := by
    simp only [Fs.exec, if_pos h]
  show ((k (Fs.exec (.readDir p : FsOp Name UInt8 Msg) none w.fs).1).eval (sem ι Name UInt8 Msg) i (fun _ => none)
    ⟨(Fs.exec (.readDir p : FsOp Name UInt8 Msg) none w.fs).2, w.log⟩).2 = _
  rw [hex]
  rfl

theorem setFirstRequiredOnDirectory_removes
    (he : isObsolete D firstWAL e = true) (hdir : w.fs.IsDir directory)
    (hmem : e ∈ w.fs.entries directory) :
    (settle i (setFirstRequiredOnDirectory D directory firstWAL) w).fs.look (pushComponent directory e.name) = none := by
  unfold setFirstRequiredOnDirectory
  rw [settle_readDir i hdir]
  have hgone := removeObsolete_removes i directory he hmem w
  simp only [settle_bind]
  split
  · -- what follows only looks, or removes the directory
    refine (settle_pruned (Z := fun _ => True) ?_ i _).gone _ hgone
    refine ⟨trivial, fun (r : Except FsErr (List (DirEntry Name))) => ?_⟩
    rcases r with e | entries
    · trivial
    show Prog.Sat _ _ _ (if entries.length = 0 then _ else _) _
    split
    · exact ⟨trivial, fun _ => trivial⟩
    · trivial
  · exact hgone

theorem not_prunedIn_neighbour {C : Path} {d d' : Name} (hd : byteLen d = walSubdirectoryLength) (hne : d' ≠ d) :
    ¬ PrunedIn D firstWAL (pushComponent C d) (C ++ [d']) := by
  rw [pushComponent_plain (plain_of_byteLen hd)]
  rintro (h | ⟨e, he, h⟩)
  · exact hne (by simpa using h)
  · rw [pushComponent_plain (isObsolete_plain he)] at h
    have := congrArg length h
    simp at this

/-- **The loop over the directories** reaches every segment before `firstWAL`. -/
theorem setFirstRequiredOnEntries_removes {C : Path} {d n : Name}
    (hobs : isObsolete D firstWAL ⟨n, false⟩ = true) (hd : byteLen d = walSubdirectoryLength)
    (hle : ¬ firstWAL.take walSubdirectoryLength < d) {es : List (DirEntry Name)} (hmem : ⟨d, true⟩ ∈ es)
    (w : World ι Name UInt8 Msg) (hdir : C ++ [d] ∈ w.fs.dirs) :
    (settle i (setFirstRequiredOnEntries D C firstWAL es) w).fs.look (C ++ [d] ++ [n]) = none := by
  induction es generalizing w with
  | nil => cases hmem
  | cons e es ih =>
    have hpn : pushComponent (C ++ [d]) n = C ++ [d] ++ [n] := pushComponent_plain (isObsolete_plain hobs)
    have hpd : pushComponent C d = C ++ [d] := pushComponent_plain (plain_of_byteLen hd)
    have hrest : ∀ w' : World ι Name UInt8 Msg, w'.fs.look (C ++ [d] ++ [n]) = none →
        (settle i (setFirstRequiredOnEntries D C firstWAL es) w').fs.look (C ++ [d] ++ [n]) = none := fun w' hw' =>
      (settle_pruned (setFirstRequiredOnEntries_sat (Z := fun _ => True) es fun _ _ _ _ _ => trivial) i w').gone _ hw'
    unfold setFirstRequiredOnEntries
    by_cases hed : e = ⟨d, true⟩
    · -- its own directory: the file is listed and removed, or was not there
      have hcond : (e.isDir && byteLen e.name == walSubdirectoryLength &&
          !decide (firstWAL.take walSubdirectoryLength < e.name)) = true := by
        rw [hed]; simp [hd, hle]
      rw [if_pos hcond, settle_attempt_bind, hed]
      apply hrest
      simp only [hpd]
      rcases hl : w.fs.look (C ++ [d] ++ [n]) with _ | j
      · exact (settle_pruned (setFirstRequiredOnDirectory_sat (Z := fun _ => True) fun _ _ => trivial) i w).gone _ hl
      rw [← hpn]
      exact setFirstRequiredOnDirectory_removes i hobs (.inr hdir) (Fs.mem_entries_file.mpr (by rw [hl]; exact Option.some_ne_none _))
    · have hmem' : ⟨d, true⟩ ∈ es := (mem_cons.1 hmem).resolve_left fun h => hed h.symm
      split
      · rename_i hcond
        simp only [Bool.and_eq_true, beq_iff_eq] at hcond
        have hne : d ≠ e.name := by
          rintro rfl
          exact hed (by rw [← hcond.1.1])
        rw [settle_attempt_bind]
        refine ih hmem' _ ?_
        have hsat : (setFirstRequiredOnDirectory D (pushComponent C e.name) firstWAL).Sat
            (pruning Unit (PrunedIn D firstWAL (pushComponent C e.name))) (fun _ _ => True) (fun _ _ => True) () :=
          setFirstRequiredOnDirectory_sat fun p hp => hp
        exact (settle_pruned hsat i w).dirs _ hdir (not_prunedIn_neighbour hcond.1.2 hne)
      · exact ih hmem' w hdir

/-- Every file and every directory is in a directory. -/
def Rooted (fs : Fs Name UInt8) : Prop := ∀ p, fs.look p ≠ none ∨ p ∈ fs.dirs → fs.IsDir p.dropLast

theorem setFirstRequired_sat (c : Name) (hZ : ∀ p, PrunedOf D firstWAL (joinPath [c]) p → Z p) :
    (setFirstRequired D c firstWAL : FsProg Msg Unit).Sat (pruning Ph Z) (fun _ _ => True) (fun _ _ => True) ph := by
  refine ⟨trivial, fun (r : Except FsErr (List (DirEntry Name))) => ?_⟩
  rcases r with e | es
  · trivial
  show Prog.Sat _ _ _ (if byteLen firstWAL < walSubdirectoryLength then _ else _) _
  split
  · trivial
  · exact setFirstRequiredOnEntries_sat es fun d _ hd p hp => hZ p ⟨d, hd, hp⟩

theorem eval_setFirstRequiredOnCluster (D : Deps) (firstWAL : Name) (i : ι) (c : Name) (cs : ℕ → Option ℕ) (w : World ι Name UInt8 Msg) :
    ∃ w₁ : World ι Name UInt8 Msg, w₁.fs = w.fs ∧
      (setFirstRequiredOnCluster D c firstWAL).eval (sem ι Name UInt8 Msg) i cs w =
        (setFirstRequired D c firstWAL).eval (sem ι Name UInt8 Msg) i (fun n => cs (n + 1)) w₁ :=
  ⟨((sem ι Name UInt8 Msg).exec i (.emit (.settingFirstRequiredWAL c firstWAL)) (cs 0) w).2,
    Fs.exec_readOnly (o := .emit (Msg.settingFirstRequiredWAL c firstWAL)) trivial (cs 0) w.fs, rfl⟩

/-- **`SetFirstRequiredOnCluster` keeps the segments from the first one required on**, whatever
fails. -/
theorem setFirstRequired_keeps (c c' : Name) (hx : IsSegment x) (hn : IsFileOf x n)
    (hle : ¬ x < firstWAL) (cs : ℕ → Option ℕ) (w : World ι Name UInt8 Msg) :
    w.fs.Same ((setFirstRequiredOnCluster D c firstWAL).eval (sem ι Name UInt8 Msg) i cs w).2.fs
      (getWALArchivePath c' n) := by
  obtain ⟨w₁, hfs, heval⟩ := eval_setFirstRequiredOnCluster D firstWAL i c cs w
  have hsat : (setFirstRequired D c firstWAL).Sat (pruning Unit (PrunedOf D firstWAL (joinPath [c])))
      (fun _ _ => True) (fun _ _ => True) () := setFirstRequired_sat c fun _ hp => hp
  have hpr := eval_pruning i hsat (fun n => cs (n + 1)) w₁
  rw [heval, ← hfs]
  exact hpr.same _ fun hp => hle (prunedOf_segment hx hn hp).2

/-- **Nothing failing, it removes the segments before the first one required.** -/
theorem setFirstRequired_removes (c : Name) (hx : IsSegment x) (hn : IsFileOf x n)
    (hlt : x < firstWAL) (hre : walFileRE firstWAL = true) (hroot : Rooted w.fs) :
    ((setFirstRequiredOnCluster D c firstWAL).eval (sem ι Name UInt8 Msg) i (fun _ => none) w).2.fs.look
      (getWALArchivePath c n) = none := by
  obtain ⟨w₁, hfs, heval⟩ := eval_setFirstRequiredOnCluster D firstWAL i c (fun _ => none) w
  rw [heval]
  rw [← hfs] at hroot
  show (settle i (setFirstRequired D c firstWAL) w₁).fs.look (getWALArchivePath c n) = none
  have hd : byteLen (x.take walSubdirectoryLength) = walSubdirectoryLength := by
    rw [byteLen_hex fun ch hch => hx.hex ch (mem_of_mem_take hch), length_take, hx.length]; rfl
  have hlen : ¬ byteLen firstWAL < walSubdirectoryLength := by
    have h1 := walFileRE_length hre
    have h2 := length_le_byteLen firstWAL
    show ¬ byteLen firstWAL < 16
    omega
  -- a file that is not there stays away; for one that is there the directories exist
  rcases hl : w₁.fs.look (getWALArchivePath c n) with _ | j
  · have hsat : (setFirstRequired D c firstWAL).Sat (pruning Unit fun _ => True) (fun _ _ => True) (fun _ _ => True) () :=
      setFirstRequired_sat c fun _ _ => trivial
    exact (settle_pruned hsat i w₁).gone _ hl
  rw [hn.path c hx] at hl ⊢
  have hdir : joinPath [c] ++ [x.take walSubdirectoryLength] ∈ w₁.fs.dirs := by
    have h := hroot _ (.inl (by rw [hl]; exact Option.some_ne_none j))
    rw [dropLast_concat] at h
    exact h.resolve_left (by simp)
  have hC : w₁.fs.IsDir (joinPath [c]) := by
    have h := hroot _ (.inr hdir)
    rwa [dropLast_concat] at h
  unfold setFirstRequired
  rw [settle_readDir i hC]
  simp only [if_neg hlen]
  exact setFirstRequiredOnEntries_removes i ((isObsolete_iff hx hn).2 hlt) hd (not_take_lt_take _ hlt)
    (Fs.mem_entries_dir.mpr hdir) w₁ hdir

end Klio
