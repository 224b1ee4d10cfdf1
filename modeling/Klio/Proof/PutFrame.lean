import Klio.Proof.Publish

/-!
# What a `Put` touches

One `Put` stream alone on any repository. Its staging file carries the suffix `.partial`, added to
a name that does not have it yet, and the file it publishes has it removed. So the upload of a
name that ends in `.partial` publishes under another name than the one it was given.

* `put_touches_only_iff`: a stream touches nothing but the archive path of its name and its staging
  file, exactly when it does not complete under such a name.
-/

namespace Klio

open Lib

variable {D : Deps} {K : Codec} {I : Implementation}

/-- The archive path of the name in `r`. -/
def archivePath (r : PutRequest) : Path := getWALArchivePath r.clusterName r.walName

/-- The files after some operations of one stream, each with its fault or none. -/
def filesAfter (D : Deps) (K : Codec) (I : Implementation) (t : PutStream) (fs : Fs Name UInt8)
    (cs : List (Option ℕ)) : Fs Name UInt8 :=
  ((putSys D K I (fun _ : Unit => t) fs).run (sem Unit Name UInt8 Msg) (cs.map (.step ()))).st.fs

theorem finalPath_eq_archive {r : PutRequest} (h : walFileRE r.walName = true) (hs : ¬ partialSuffix <:+ r.walName) :
    finalPath r = archivePath r := by
  obtain ⟨dir, hdir⟩ := archivePath_accepted h
  unfold archivePath
  rw [finalPath_eq hdir, hdir, withPartialSuffix_of_not hs, trimPartialSuffix_append]

theorem stagingPath_eq_archive {r : PutRequest} (h : walFileRE r.walName = true) (hs : partialSuffix <:+ r.walName) :
    stagingPath r = archivePath r := by
  obtain ⟨dir, hdir⟩ := archivePath_accepted h
  obtain ⟨x, hx⟩ := hs
  unfold archivePath
  rw [stagingPath_eq hdir, hdir, ← hx, withPartialSuffix_append]

theorem staging_ne_final (r : PutRequest) : stagingPath r ≠ finalPath r := by
  obtain ⟨dir, x, hx⟩ := stagingPath_last r
  obtain ⟨y, hy⟩ := suffix_withPartialSuffix x
  have hstg : stagingPath r = dir ++ [y ++ partialSuffix] := by rw [hx, hy]
  have hfin : finalPath r = dir ++ [y] := by
    rw [finalPath, hstg, onBase, List.dropLast_concat, List.getLastD_concat, trimPartialSuffix_append]
  intro heq
  rw [hstg, hfin] at heq
  -- the suffix is not empty
  have hlast : partialSuffix = [] := by simpa using heq
  exact absurd hlast (by decide)

theorem filesAfter_alone {t : PutStream} (fs : Fs Name UInt8) (cs : List (Option ℕ)) :
    ∃ ph, Stage.Alone (putSpec D K t.peer t.blocks) fs (filesAfter D K I t fs cs) ph ∧
      (Stage.Blocked (putSpec D K t.peer t.blocks) fs .start →
        Stage.Blocked (putSpec D K t.peer t.blocks) (filesAfter D K I t fs cs) ph) := by
  have hne : (putSpec D K t.peer t.blocks).stg ≠ (putSpec D K t.peer t.blocks).fin := staging_ne_final _
  obtain ⟨φ, -, hinv⟩ := run_proto (M := sem Unit Name UInt8 Msg) (G := fun _ e => ∃ i c, e = .step i c)
    (T := fun _ => Stage.proto (putSpec D K t.peer t.blocks))
    (fun s φ => Stage.Alone (putSpec D K t.peer t.blocks) fs s.st.fs (φ ()) ∧
      (Stage.Blocked (putSpec D K t.peer t.blocks) fs .start → Stage.Blocked (putSpec D K t.peer t.blocks) s.st.fs (φ ())))
    (by
      intro s φ i c o k ⟨h, hb⟩ _ hp ha
      rw [Sys.stepProc_call hp, Function.update_self]
      exact ⟨Stage.exec_alone hne ha h c, fun h0 => Stage.exec_blocked ha (hb h0) c⟩)
    (by rintro s φ x _ ⟨i, c, hx⟩; cases hx)
    (cs.map (.step ())) (putSys D K I (fun _ : Unit => t) fs) (fun _ => .start) (streams_track _ fs)
    ⟨⟨trivial, fun p _ _ => Fs.Same.refl fs p, fun _ => Fs.Same.refl fs _, nofun⟩, id⟩
    (guarded_of_forall fun e he s => by obtain ⟨c, -, rfl⟩ := List.mem_map.1 he; exact ⟨(), c, rfl⟩)
  exact ⟨φ (), hinv⟩

/-- A complete upload, with nothing in its way, of a file whose name has the suffix. -/
structure CompletesPartial (D : Deps) (I : Implementation) (peer : Peer) (rs : List PutRequest) (fs : Fs Name UInt8) :
    Prop where
  writable : I.isReadOnly = false
  suffix : partialSuffix <:+ (firstBlock rs).walName
  accepted : ∃ m, acceptBlocks D peer {} rs = .ok m
  size : SizeReached rs
  clear : Unobstructed fs (firstBlock rs)

/-- **A stream touches only the file it names and its staging file**, with any draws and any
faults and at any moment, exactly when it is not a complete upload under a name with the suffix. -/
theorem put_touches_only_iff (D : Deps) (K : Codec) (I : Implementation) (peer : Peer) (batches : List Batch)
    (fs : Fs Name UInt8) (hname : walFileRE (firstBlock (streamBlocks batches)).walName = true) :
    (∀ rand cs p, p ≠ archivePath (firstBlock (streamBlocks batches)) → p ≠ stagingPath (firstBlock (streamBlocks batches)) →
        fs.Same (filesAfter D K I ⟨peer, rand, batches⟩ fs cs) p) ↔
      ¬ CompletesPartial D I peer (streamBlocks batches) fs := by
  constructor
  · intro hframe hc
    obtain ⟨rand, hdr⟩ := exists_draws K
    have hne : streamBlocks batches ≠ [] := by
      intro h0; rw [h0] at hname; exact absurd hname (by decide)
    have hstg := stagingPath_eq_archive hname hc.suffix
    have hfin := staging_ne_final (firstBlock (streamBlocks batches))
    -- without faults the stream gets done, and its final path then names another file
    obtain ⟨-, hdone⟩ := put_done (t := ⟨peer, rand, batches⟩) (I := I) hc.writable hdr hc.accepted hne hc.size
      (w := (⟨fs, []⟩ : World Unit Name UInt8 Msg)) hc.clear ()
      (J := fun fs' ph => Stage.Alone (putSpec D K peer (streamBlocks batches)) fs fs' ph)
      ⟨trivial, fun p _ _ => Fs.Same.refl fs p, fun _ => Fs.Same.refl fs _, nofun⟩
      (fun _ _ _ h ha => Stage.exec_alone hfin ha h none)
    obtain ⟨-, ino, hl, hl0⟩ := hdone.after rfl
    obtain ⟨n, hst, -⟩ := run_eval (sem Unit Name UInt8 Msg) () none _
      (putSys D K I (fun _ : Unit => ⟨peer, rand, batches⟩) fs) rfl
    have hsame := hframe rand (List.replicate n none) (finalPath (firstBlock (streamBlocks batches)))
      (fun h => hfin (hstg.trans h.symm)) hfin.symm
    unfold filesAfter at hsame
    rw [List.map_replicate, hst] at hsame
    exact hl0 (hsame.1.symm.trans hl)
  · intro hnc rand cs p hp hstg
    by_cases hro : I.isReadOnly = true
    · have hprog : (⟨peer, rand, batches⟩ : PutStream).prog D K I =
          .err (.status .failedPrecondition (.new "read only repository")) := by
        unfold PutStream.prog put; rw [hro]; rfl
      unfold filesAfter
      rw [run_finished (fun i => by show (PutStream.prog D K I _).Finished; rw [hprog]; trivial)
        fun e he => by obtain ⟨c, -, rfl⟩ := List.mem_map.1 he; exact ⟨(), c, rfl⟩]
      exact Fs.Same.refl fs p
    obtain ⟨ph, halone, hblock⟩ := filesAfter_alone (D := D) (K := K) (I := I) (t := ⟨peer, rand, batches⟩) fs cs
    by_cases hfin : p = finalPath (firstBlock (streamBlocks batches))
    swap
    · exact halone.other p hstg hfin
    rw [hfin] at hp ⊢
    apply halone.before
    rintro rfl
    obtain ⟨⟨w, s, hpub⟩, -⟩ := halone.after rfl
    apply hnc
    refine ⟨Bool.eq_false_iff.2 hro, ?_, hpub.2.2.2, hpub.2.2.1, ?_⟩
    · by_contra hs
      exact hp (finalPath_eq_archive hname hs)
    by_contra hu
    apply hblock
    by_cases h1 : fs.IsDir (stagingPath (firstBlock (streamBlocks batches)))
    · exact .inl h1
    by_cases h2 : fs.IsDir (finalPath (firstBlock (streamBlocks batches)))
    · exact .inr (.inl h2)
    right; right
    by_contra h3
    push Not at h3
    exact hu ⟨h1, h2, h3⟩

theorem put_touches_only_segment :
    walFileRE "000000010000000000000001".toList = true ∧
      ∀ rand cs p, p ≠ archivePath (oneByteRequest [7]) → p ≠ stagingPath (oneByteRequest [7]) →
        (Fs.empty : Fs Name UInt8).Same
          (filesAfter plainDeps plainCodec ⟨false, true⟩ ⟨.cert "u@c".toList, rand, [⟨oneByteRequest [7], []⟩]⟩ Fs.empty cs) p :=
  ⟨by decide, (put_touches_only_iff plainDeps plainCodec ⟨false, true⟩ (.cert "u@c".toList) [⟨oneByteRequest [7], []⟩]
    Fs.empty (by decide)).2 fun h => absurd h.suffix (by decide)⟩

/-- A one-byte upload of the partial file of the same segment. -/
def partialStream : PutStream where
  peer := .cert "u@c".toList
  rand := fun _ => 0
  batches := [⟨⟨"c".toList, "000000010000000000000001.partial".toList, [9], 1, 0, false⟩, []⟩]

/-- The repository after a complete upload of the segment. -/
def segmentStored : Fs Name UInt8 :=
  filesAfter plainDeps plainCodec ⟨false, true⟩ (oneByteStream [[7]]) Fs.empty (List.replicate 8 none)

set_option maxRecDepth 10000 in
theorem partial_upload_replaces_segment :
    (segmentStored.read (archivePath (oneByteRequest [])) ≠
        (filesAfter plainDeps plainCodec ⟨false, true⟩ partialStream segmentStored (List.replicate 8 none)).read
          (archivePath (oneByteRequest []))) ∧
      archivePath (oneByteRequest []) ≠ archivePath partialStream.first ∧
      archivePath (oneByteRequest []) ≠ stagingPath partialStream.first := by
  refine ⟨?_, by decide +kernel, by decide +kernel⟩
  decide +kernel

end Klio
