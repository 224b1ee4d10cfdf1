import Klio.Proof.LatestWal

/-!
# Resetting a stream

`ResetWALStream` records one more gap, and `RequestWALStart` starts at the greatest end of all the gaps on
record.

* `alone_resetWALStream`: what a reset does.
* `StreamCall`, `serveAll`: sequences of resets and requests for a start.
* `start_iff_recorded`: after a granted reset a stream starts at its end exactly when the gaps on record end there.
* `reset_takes_effect_iff`: they do exactly when no gap of an earlier reset ends later.
* `metadata_roundtrip_iff`: when metadata is read back as it was written.
-/

namespace Klio

open Lib List

variable {D : Deps} {K : Codec} {P : Outside} {I : Implementation} {peer : Peer} {c : Name} {fs fs' : Fs Name UInt8}
  {rand : ℕ → ℕ}

/-! ## A reset -/

def withGap (m : ClusterMetadata) (now : ℤ) (latestStoredWAL currentWalName : Name) : ClusterMetadata :=
  { m with gaps := m.gaps ++ [⟨now, latestStoredWAL, currentWalName⟩] }

/-- A reset is granted if it ends after the latest WAL of a cluster whose system asks for it. -/
structure Grants (D : Deps) (K : Codec) (P : Outside) (I : Implementation) (peer : Peer) (req : WALStartRequest)
    (fs : Fs Name UInt8) (m : ClusterMetadata) (w : Name) : Prop where
  writable : I.isReadOnly = false
  authorized : checkClusterName D peer req.clusterName = .ok ()
  metadata : ask fs (getClusterMetadata K P req.clusterName) = .ok m
  system : m.systemId = req.systemId
  latest : ask fs (getLatestWALFileForCluster req.clusterName : FsProg Msg Name) = .ok w
  later : w < req.currentWalName
  some : w ≠ []

/-- **A reset that is refused changes nothing**; one that is granted writes the metadata with one more gap, and its
outcome is that of the write. -/
theorem alone_resetWALStream (rand : ℕ → ℕ) (now : ℤ) (peer : Peer) (req : WALStartRequest) (fs : Fs Name UInt8) :
    (∃ e, alone (resetWALStream D K P I rand now peer req) (fun _ => none) fs = (.error e, fs)) ∨
    ∃ m w, Grants D K P I peer req fs m w ∧
      alone (resetWALStream D K P I rand now peer req) (fun _ => none) fs =
        match alone (writeClusterMetadata K P rand req.clusterName (withGap m now w req.currentWalName)) (fun _ => none) fs with
        | (.ok _, fs') => (.ok req.currentWalName, fs')
        | (.error e, fs') => (.error (.status .internal (.wrap "error while writing cluster metadata: %v" [] e)), fs') := by
  have hmeta : (getClusterMetadata K P req.clusterName).Uses Looks := getClusterMetadata_uses trivial
  have hlatest : (getLatestWALFileForCluster req.clusterName : FsProg Msg Name).Uses Looks := getLatest_uses fun _ => trivial
  unfold resetWALStream unlessReadOnly withClusterName
  split
  · exact .inl ⟨_, rfl⟩
  rename_i hro
  split
  · exact .inl ⟨_, rfl⟩
  rename_i hcheck
  rw [alone_bind, alone_mapErr, alone_looks hmeta]
  rcases hread : ask fs (getClusterMetadata K P req.clusterName) with e | m
  · exact .inl ⟨_, rfl⟩
  simp only [Except.mapError]
  split
  · exact .inl ⟨_, rfl⟩
  rename_i hid
  rw [alone_bind, alone_mapErr, alone_looks hlatest]
  rcases hw : ask fs (getLatestWALFileForCluster req.clusterName : FsProg Msg Name) with e | w
  · exact .inl ⟨_, rfl⟩
  simp only [Except.mapError]
  split
  · exact .inl ⟨_, rfl⟩
  rename_i hne
  split
  · exact .inl ⟨_, rfl⟩
  rename_i hlt
  refine .inr ⟨m, w, ⟨Bool.eq_false_iff.mpr hro, hcheck, hread, not_not.mp hid, hw, not_not.mp hlt, hne⟩, ?_⟩
  rw [alone_bind, alone_mapErr]
  unfold withGap
  cases alone (writeClusterMetadata K P rand req.clusterName
    { m with gaps := m.gaps ++ [⟨now, w, req.currentWalName⟩] }) (fun _ => none) fs with
  | mk r fs' => cases r <;> rfl

theorem wraps_of_draws (h : Draws K rand) (data : List UInt8) : Wraps K rand data := by
  have hchunks : ∀ (fuel : ℕ) (rand : ℕ → ℕ) (data : List UInt8), Draws K rand → (wrapChunks K fuel rand data).2 = true := by
    intro fuel
    induction fuel with
    | zero => exact fun _ _ _ => rfl
    | succ fuel ih =>
      intro rand data hdr
      unfold wrapChunks
      split
      · rfl
      · obtain ⟨w, hw⟩ := hdr 0 _ (length_take_le walBlockSize data)
        rw [hw]
        exact ih _ _ fun k => hdr (k + 1)
  exact hchunks data.length rand data h

theorem writeClusterMetadata_ok {m : ClusterMetadata} (hdir : ¬ fs.IsDir (ControlFile.path .metadata c))
    (hok : (alone (writeClusterMetadata K P rand c m) (fun _ => none) fs).1 = .ok ()) :
    (alone (writeClusterMetadata K P rand c m) (fun _ => none) fs).2.read (ControlFile.path .metadata c) =
      some (blockFile K rand (bytesOf (P.marshalMetadata m))) := by
  refine (writeClusterMetadata_stores m _).stored ?_
  unfold writeClusterMetadata at hok ⊢
  rcases hmar : P.marshalMetadata m with e | data
  · rw [hmar] at hok
    cases hok
  rw [hmar] at hok
  exact eval_storeBlock_ok (f := .metadata) hdir hok

/-! ## Sequences of calls -/

theorem metadata_not_isDir (hfile : fs.look (ControlFile.path .metadata c) ≠ none → ¬ fs.IsDir (ControlFile.path .metadata c))
    (hread : ∀ e, ask fs (getClusterMetadata K P c) = .error e → e.isNotExist = true) : ¬ fs.IsDir (ControlFile.path .metadata c) := by
  intro hdir
  have hlook : fs.look (ControlFile.path .metadata c) = none := by
    by_contra hne
    exact hfile hne hdir
  have hnone : fs.read (getWALArchivePath c metadataFileName) = none := by
    unfold Fs.read
    rw [show fs.look (getWALArchivePath c metadataFileName) = none from hlook]
    rfl
  have hask : ask fs (getClusterMetadata K P c) = .error (.wrap "while reading WAL file header: %w" [] (.fs .isDir)) := by
    unfold getClusterMetadata
    rw [ask_bind]
    simp only [newReader, ask, Fs.exec, hnone]
    rw [if_pos (show fs.IsDir (getWALArchivePath c metadataFileName) from hdir)]
    rfl
  have hbad := hread _ hask
  cases hbad

/-- A directory is not a file, and listings are sane. -/
structure Sane (c : Name) (fs : Fs Name UInt8) : Prop extends Listed c fs where
  file : fs.look (ControlFile.path .metadata c) ≠ none → ¬ fs.IsDir (ControlFile.path .metadata c)

theorem StoreOutcome.sane {data : List UInt8} {out : Except Err Unit × Fs Name UInt8}
    (h : StoreOutcome .metadata K rand c data fs out) (hs : Sane c fs) (hdir : ¬ fs.IsDir (ControlFile.path .metadata c)) :
    Sane c out.2 :=
  ⟨h.listed hs.toListed, fun _ hd => hdir (h.isDir.mp hd)⟩

inductive StreamCall where
  | resetWALStream (rand : ℕ → ℕ) (now : ℤ) (peer : Peer) (currentWalName : Name)
  | requestWALStart (rand : ℕ → ℕ) (peer : Peer) (currentWalName : Name)

def StreamCall.source : StreamCall → ℕ → ℕ
  | .resetWALStream rand _ _ _ => rand
  | .requestWALStart rand _ _ => rand

def StreamCall.isReset : StreamCall → Bool
  | .resetWALStream .. => true
  | .requestWALStart .. => false

section Calls

variable (D K P I) (c systemId : Name)

/-- A call is served, and nothing fails. -/
def serve : StreamCall → Fs Name UInt8 → Except Err Name × Fs Name UInt8
  | .resetWALStream rand now peer currentWalName =>
    alone (resetWALStream D K P I rand now peer ⟨c, systemId, currentWalName⟩) fun _ => none
  | .requestWALStart rand peer currentWalName =>
    alone (requestWALStart D K P I rand peer ⟨c, systemId, currentWalName⟩) fun _ => none

def serveAll (calls : List StreamCall) (fs : Fs Name UInt8) : Fs Name UInt8 :=
  calls.foldl (fun fs call => (serve D K P I c systemId call fs).2) fs

def NoneGranted : List StreamCall → Fs Name UInt8 → Prop
  | [], _ => True
  | call :: calls, fs =>
    (call.isReset = true → ∀ a, (serve D K P I c systemId call fs).1 ≠ .ok a) ∧
      NoneGranted calls (serve D K P I c systemId call fs).2

end Calls

variable {systemId : Name}

/-- **What a call leaves**: the files as they were, or those of one write of the metadata. The outcome of a reset is
that of the write; a request for a start writes only metadata that is not there. -/
inductive Left (K : Codec) (P : Outside) (c : Name) (call : StreamCall) (fs : Fs Name UInt8) :
    Except Err Name × Fs Name UInt8 → Prop
  | same (r : Except Err Name) : Left K P c call fs (r, fs)
  | reset (m m' : ClusterMetadata) (r : Except Err Name) (out : Except Err Unit × Fs Name UInt8) (hcall : call.isReset = true)
      (hread : ask fs (getClusterMetadata K P c) = .ok m)
      (hout : alone (writeClusterMetadata K P call.source c m') (fun _ => none) fs = out)
      (hfails : (∀ a, r ≠ .ok a) → ∃ e, out.1 = .error e) : Left K P c call fs (r, out.2)
  | created (m : ClusterMetadata) (r : Except Err Name) (out : Except Err Unit × Fs Name UInt8) (e : Err)
      (hread : ask fs (getClusterMetadata K P c) = .error e) (hnot : e.isNotExist = true)
      (hout : alone (writeClusterMetadata K P call.source c m) (fun _ => none) fs = out) : Left K P c call fs (r, out.2)

theorem serve_left (call : StreamCall) (fs : Fs Name UInt8) : Left K P c call fs (serve D K P I c systemId call fs) := by
  cases call with
  | resetWALStream rand now peer n =>
    simp only [serve]
    rcases alone_resetWALStream (D := D) (K := K) (P := P) (I := I) rand now peer ⟨c, systemId, n⟩ fs
      with ⟨e, he⟩ | ⟨m, w, hgrants, heq⟩
    · rw [he]
      exact .same _
    rw [heq]
    cases hout : alone (writeClusterMetadata K P rand c (withGap m now w n)) (fun _ => none) fs with
    | mk r fs' =>
      cases r with
      | ok u =>
        refine .reset m (withGap m now w n) _ (.ok u, fs') rfl hgrants.metadata hout ?_
        intro hno
        exact absurd rfl (hno n)
      | error e => exact .reset m (withGap m now w n) _ (.error e, fs') rfl hgrants.metadata hout fun _ => ⟨e, rfl⟩
  | requestWALStart rand peer cur =>
    simp only [serve]
    by_cases hro : I.isReadOnly = false
    · rcases hcheck : checkClusterName D peer c with e | u
      · have heq : alone (requestWALStart D K P I rand peer ⟨c, systemId, cur⟩) (fun _ => none) fs =
            (.error e, fs) := by
          unfold requestWALStart unlessReadOnly withClusterName
          simp only [hro, hcheck, Bool.false_eq_true, if_false]
          rfl
        rw [heq]
        exact .same _
      rw [alone_requestWALStart hro hcheck]
      cases hread : ask fs (getClusterMetadata K P c) with
      | ok m => exact .same _
      | error e =>
        simp only
        split
        · rename_i hnot
          cases hout : alone (writeClusterMetadata K P rand c ⟨systemId, []⟩) (fun _ => none) fs with
          | mk r fs' =>
            cases r with
            | ok u => exact .created _ _ (.ok u, fs') e hread hnot hout
            | error e' => exact .created _ _ (.error e', fs') e hread hnot hout
        · exact .same _
    · have hro' : I.isReadOnly = true := Bool.not_eq_false _ |>.mp hro
      have heq : ∃ e, alone (requestWALStart D K P I rand peer ⟨c, systemId, cur⟩) (fun _ => none) fs = (.error e, fs) := by
        unfold requestWALStart unlessReadOnly
        rw [if_pos hro']
        exact ⟨_, rfl⟩
      obtain ⟨e, he⟩ := heq
      rw [he]
      exact .same _

theorem serve_sane (h : Sane c fs) (call : StreamCall) : Sane c (serve D K P I c systemId call fs).2 := by
  have hleft : Left K P c call fs (serve D K P I c systemId call fs) := serve_left call fs
  generalize serve D K P I c systemId call fs = served at hleft ⊢
  cases hleft with
  | same r => exact h
  | reset m m' r out hcall hread hout hfails =>
    subst hout
    refine (writeClusterMetadata_stores m' _).sane h (metadata_not_isDir (K := K) (P := P) h.file fun e he => ?_)
    cases hread.symm.trans he
  | created m r out e hread hnot hout =>
    subst hout
    refine (writeClusterMetadata_stores m _).sane h (metadata_not_isDir (K := K) (P := P) h.file fun e' he => ?_)
    cases hread.symm.trans he
    exact hnot

theorem serveAll_sane : ∀ (calls : List StreamCall) {fs : Fs Name UInt8}, Sane c fs → Sane c (serveAll D K P I c systemId calls fs) := by
  intro calls
  induction calls with
  | nil => exact fun h => h
  | cons call calls ih => exact fun h => ih (serve_sane h call)

/-! ## What is on record -/

/-- **The record answers `n`**: it is that of the system, and its latest gap ends at `n`. -/
def Recorded (K : Codec) (P : Outside) (c systemId n : Name) (fs : Fs Name UInt8) : Prop :=
  ∃ m, ask fs (getClusterMetadata K P c) = .ok m ∧ m.systemId = systemId ∧ latestWALGapEnd m.gaps = n

/-- Between the latest WAL and the end of a reset. -/
structure After (K : Codec) (c n w : Name) (fs : Fs Name UInt8) : Prop where
  sane : Sane c fs
  /-- The metadata was written by `storeBlock`. -/
  written : ∃ rand data, fs.read (ControlFile.path .metadata c) = some (blockFile K rand data)
  latest : ask fs (getLatestWALFileForCluster c : FsProg Msg Name) = .ok w
  some : w ≠ []
  later : w < n

theorem metadataOf_exists {b : Option (List UInt8)} {e : Err} (he : metadataOf P b = .error e) : e.isNotExist = false := by
  unfold metadataOf at he
  split at he
  · cases he
    rfl
  · split at he
    · cases he
      rfl
    · cases he

theorem After.exists {n w : Name} (h : After K c n w fs) {e : Err} (he : ask fs (getClusterMetadata K P c) = .error e) :
    e.isNotExist = false := by
  obtain ⟨rand, data, hread⟩ := h.written
  rw [ask_metadata_blockFile hread] at he
  exact metadataOf_exists he

/-- **A stream starts at `n` exactly when the record answers `n`.** -/
theorem start_iff_recorded {n w cur : Name} (h : After K c n w fs) (hro : I.isReadOnly = false)
    (hcheck : checkClusterName D peer c = .ok ()) :
    (alone (requestWALStart D K P I rand peer ⟨c, systemId, cur⟩) (fun _ => none) fs).1 = .ok n ↔ Recorded K P c systemId n fs := by
  -- the latest WAL is older than `n`, so that only a gap can end there
  have hstart : ∀ gaps, n = startOf w gaps cur ↔ latestWALGapEnd gaps = n := by
    intro gaps
    unfold startOf
    by_cases hlt : w < latestWALGapEnd gaps
    · have hne : latestWALGapEnd gaps ≠ [] := by
        intro h0
        rw [h0] at hlt
        exact absurd hlt (not_lt_nil w)
      simp only [if_pos hlt, if_neg hne]
      exact eq_comm
    · simp only [if_neg hlt, if_neg h.some]
      constructor
      · intro hn
        exact absurd h.later (by rw [hn]; exact lt_irrefl w)
      · intro hn
        rw [hn] at hlt
        exact absurd h.later hlt
  rw [alone_requestWALStart hro hcheck]
  unfold Recorded
  cases hread : ask fs (getClusterMetadata K P c) with
  | ok m =>
    rw [ask_negotiate]
    constructor
    · rintro ⟨hid, w', hw', hn⟩
      obtain rfl := Except.ok.inj (h.latest.symm.trans hw')
      exact ⟨m, rfl, hid, (hstart m.gaps).mp hn⟩
    · rintro ⟨m', hm', hid, hend⟩
      obtain rfl := Except.ok.inj hm'
      exact ⟨hid, w, h.latest, (hstart m.gaps).mpr hend⟩
  | error e =>
    simp only [h.exists hread, Bool.false_eq_true, if_false]
    constructor
    · intro hbad
      cases hbad
    · rintro ⟨m, hm, -⟩
      cases hm

/-- **A later call leaves the archive between the same bounds.** If it is no granted reset and all its blocks can be
wrapped, it leaves the record alone. -/
theorem serve_after {n w : Name} (h : After K c n w fs) (call : StreamCall) :
    After K c n w (serve D K P I c systemId call fs).2 ∧
      ((call.isReset = true → ∀ a, (serve D K P I c systemId call fs).1 ≠ .ok a) → Draws K call.source →
        ask (serve D K P I c systemId call fs).2 (getClusterMetadata K P c) = ask fs (getClusterMetadata K P c)) := by
  have hsane : Sane c (serve D K P I c systemId call fs).2 := serve_sane h.sane call
  have hleft : Left K P c call fs (serve D K P I c systemId call fs) := serve_left call fs
  generalize serve D K P I c systemId call fs = served at hleft hsane ⊢
  cases hleft with
  | same r => exact ⟨h, fun _ _ => rfl⟩
  | created m r out e hread hnot hout =>
    have hex := h.exists hread
    rw [hnot] at hex
    cases hex
  | reset m m' r out hcall hread hout hfails =>
    have hstore : StoreOutcome .metadata K call.source c (bytesOf (P.marshalMetadata m')) fs out := by
      rw [← hout]
      exact writeClusterMetadata_stores m' _
    refine ⟨⟨hsane, ?_, (latest_after_store hstore h.sane.toListed).trans h.latest, h.some, h.later⟩, ?_⟩
    · by_cases hrep : Replaced fs out.2 (ControlFile.path .metadata c)
      · exact ⟨_, _, hstore.stored hrep⟩
      · obtain ⟨rand, data, hold⟩ := h.written
        exact ⟨rand, data, (hstore.kept hrep).trans hold⟩
    · intro hno hdraws
      have hkept : ¬ Replaced fs out.2 (ControlFile.path .metadata c) := by
        intro hrep
        exact hstore.error (hfails (hno hcall)) hrep (wraps_of_draws hdraws _)
      exact ask_congr (getClusterMetadata_uses (Fs.exec_readFile_congr (hstore.kept hkept) hstore.isDir))

theorem serveAll_after {n w : Name} : ∀ (calls : List StreamCall) {fs : Fs Name UInt8}, After K c n w fs →
    NoneGranted D K P I c systemId calls fs → After K c n w (serveAll D K P I c systemId calls fs) ∧
      ((∀ call ∈ calls, Draws K call.source) →
        ask (serveAll D K P I c systemId calls fs) (getClusterMetadata K P c) = ask fs (getClusterMetadata K P c)) := by
  intro calls
  induction calls with
  | nil => exact fun h _ => ⟨h, fun _ => rfl⟩
  | cons call calls ih =>
    intro fs h hnone
    have hone : After K c n w (serve D K P I c systemId call fs).2 ∧ _ := serve_after h call
    obtain ⟨hrest, hsame⟩ := ih hone.1 hnone.2
    refine ⟨hrest, fun hdraws => ?_⟩
    have htail := hsame fun call' hmem => hdraws call' (mem_cons_of_mem _ hmem)
    exact htail.trans (hone.2 hnone.1 (hdraws call mem_cons_self))

/-! ## A granted reset -/

/-- A granted reset leaves the archive before its end, and what it has stored. -/
theorem reset_after (hs : Sane c fs) {now : ℤ} {n a : Name}
    (h : alone (resetWALStream D K P I rand now peer ⟨c, systemId, n⟩) (fun _ => none) fs = (.ok a, fs')) :
    a = n ∧ ∃ m w, Grants D K P I peer ⟨c, systemId, n⟩ fs m w ∧ After K c n w fs' ∧
      fs'.read (ControlFile.path .metadata c) = some (blockFile K rand (bytesOf (P.marshalMetadata (withGap m now w n)))) ∧
      Wraps K rand (bytesOf (P.marshalMetadata (withGap m now w n))) := by
  have hsane : Sane c fs' := by
    have hserve : Sane c (serve D K P I c systemId (.resetWALStream rand now peer n) fs).2 := serve_sane hs _
    simp only [serve, h] at hserve
    exact hserve
  rcases alone_resetWALStream (D := D) (K := K) (P := P) (I := I) rand now peer ⟨c, systemId, n⟩ fs
    with ⟨e, he⟩ | ⟨m, w, hgrants, heq⟩
  · rw [he] at h
    cases h
  have hdir : ¬ fs.IsDir (ControlFile.path .metadata c) := by
    refine metadata_not_isDir (K := K) (P := P) hs.file fun e he => ?_
    cases hgrants.metadata.symm.trans he
  rw [heq] at h
  cases hout : alone (writeClusterMetadata K P rand c (withGap m now w n)) (fun _ => none) fs with
  | mk r fs₁ =>
    rw [hout] at h
    rcases r with e | u
    · cases h
    cases h
    have hstore : StoreOutcome .metadata K rand c (bytesOf (P.marshalMetadata (withGap m now w n))) fs (.ok u, fs') := by
      rw [← hout]
      exact writeClusterMetadata_stores _ _
    have hread : fs'.read (ControlFile.path .metadata c) =
        some (blockFile K rand (bytesOf (P.marshalMetadata (withGap m now w n)))) := by
      have hok := writeClusterMetadata_ok (K := K) (P := P) (m := withGap m now w n) hdir (by rw [hout])
      rwa [hout] at hok
    refine ⟨rfl, m, w, hgrants, ⟨hsane, ⟨_, _, hread⟩, ?_, hgrants.some, hgrants.later⟩, hread, hstore.ok rfl⟩
    exact (latest_after_store hstore hs.toListed).trans hgrants.latest

theorem firstChunk_of_wraps {b : List UInt8} (hwraps : Wraps K rand b) (hne : b ≠ []) :
    firstChunk K rand b = some (b.take walBlockSize) := by
  unfold firstChunk
  rw [if_neg hne]
  cases hx : K.wrap (rand 0) (b.take walBlockSize) with
  | ok x => rfl
  | error e =>
    -- the first chunk would not have been wrapped
    unfold Wraps at hwraps
    obtain ⟨y, ys, rfl⟩ := exists_cons_of_ne_nil hne
    rw [length_cons, wrapChunks, if_neg hne, hx] at hwraps
    cases hwraps

/-- When the metadata fits in one block, a granted reset is what the record answers exactly when no older gap ends
later. -/
theorem recorded_iff {n w : Name} {now : ℤ} {m : ClusterMetadata} {b : List UInt8} (hid : m.systemId = systemId)
    (hread : fs.read (ControlFile.path .metadata c) = some (blockFile K rand (bytesOf (P.marshalMetadata (withGap m now w n)))))
    (hmar : P.marshalMetadata (withGap m now w n) = .ok b) (hne : b ≠ []) (hlen : b.length ≤ walBlockSize)
    (hwraps : Wraps K rand b) : Recorded K P c systemId n fs ↔ ∀ g ∈ m.gaps, g.stop ≤ n := by
  have hask : ask fs (getClusterMetadata K P c) = .ok (withGap m now w n) := by
    have hchunk : firstChunk K rand b = some b := by rw [firstChunk_of_wraps hwraps hne, take_of_length_le hlen]
    rw [ask_metadata_blockFile hread, hmar]
    show metadataOf P (firstChunk K rand b) = _
    rw [hchunk]
    simp only [metadataOf, P.unmarshal_metadata _ _ hmar]
  have hrec : Recorded K P c systemId n fs ↔ latestWALGapEnd (withGap m now w n).gaps = n := by
    constructor
    · rintro ⟨m', hm', -, hend⟩
      obtain rfl := Except.ok.inj (hask.symm.trans hm')
      exact hend
    · exact fun hend => ⟨_, hask, hid, hend⟩
  rw [hrec]
  have hlast : ⟨now, w, n⟩ ∈ (withGap m now w n).gaps := mem_append_right _ (mem_singleton.mpr rfl)
  have hge : n ≤ latestWALGapEnd (withGap m now w n).gaps := stop_le_latestWALGapEnd hlast
  constructor
  · intro hend g hg
    rw [← hend]
    exact stop_le_latestWALGapEnd (mem_append_left _ hg)
  intro hall
  rcases latestWALGapEnd_mem (withGap m now w n).gaps with h0 | ⟨g, hg, hstop⟩
  · rw [h0] at hge ⊢
    exact le_antisymm (nil_le_name n) hge
  refine le_antisymm ?_ hge
  rw [← hstop]
  rcases mem_append.mp hg with hold | hnew
  · exact hall g hold
  · rw [mem_singleton.mp hnew]

/-- **A granted reset takes effect exactly when no gap on record ends later.** For every archive and every sequence
of calls before the reset and, none of them a granted reset, after it: the reset returns the WAL it was asked
for, and a `RequestWALStart` after all of them answers with it if and only if the record then answers it. Calls
whose blocks can be wrapped leave the record as the reset left it, and if the metadata fits in one block it
answers the end of the reset if and only if no gap that was on record before ends later. -/
theorem reset_takes_effect_iff (D : Deps) (K : Codec) (P : Outside) (I : Implementation) (c systemId n a : Name)
    (before later : List StreamCall) (rand : ℕ → ℕ) (now : ℤ) (peer : Peer) (fs fs₁ fs₂ fs₃ : Fs Name UInt8) (hs : Sane c fs)
    (hbefore : serveAll D K P I c systemId before fs = fs₁)
    (hgranted : alone (resetWALStream D K P I rand now peer ⟨c, systemId, n⟩) (fun _ => none) fs₁ = (.ok a, fs₂))
    (hnone : NoneGranted D K P I c systemId later fs₂) (hlater : serveAll D K P I c systemId later fs₂ = fs₃) :
    a = n ∧
    (∀ (rand : ℕ → ℕ) (peer : Peer) (currentWalName : Name), checkClusterName D peer c = .ok () →
      ((alone (requestWALStart D K P I rand peer ⟨c, systemId, currentWalName⟩) (fun _ => none) fs₃).1 = .ok n ↔
        Recorded K P c systemId n fs₃)) ∧
    ((∀ call ∈ later, Draws K call.source) → (Recorded K P c systemId n fs₃ ↔ Recorded K P c systemId n fs₂)) ∧
    ∀ m w b, ask fs₁ (getClusterMetadata K P c) = .ok m → ask fs₁ (getLatestWALFileForCluster c : FsProg Msg Name) = .ok w →
      P.marshalMetadata (withGap m now w n) = .ok b → b ≠ [] → b.length ≤ walBlockSize →
      (Recorded K P c systemId n fs₂ ↔ ∀ g ∈ m.gaps, g.stop ≤ n) := by
  have hs₁ : Sane c fs₁ := by
    rw [← hbefore]
    exact serveAll_sane before hs
  obtain ⟨rfl, m, w, hgrants, hafter, hread, hwraps⟩ := reset_after hs₁ hgranted
  obtain ⟨hafter', hsame⟩ := serveAll_after later hafter hnone
  rw [hlater] at hafter' hsame
  refine ⟨rfl, ?_, ?_, ?_⟩
  · intro rand' peer' cur hcheck
    exact start_iff_recorded hafter' hgrants.writable hcheck
  · intro hdraws
    unfold Recorded
    rw [hsame hdraws]
  · intro m' w' b hm' hw' hmar hne hlen
    obtain rfl := Except.ok.inj (hgrants.metadata.symm.trans hm')
    obtain rfl := Except.ok.inj (hgrants.latest.symm.trans hw')
    rw [hmar] at hwraps
    exact recorded_iff hgrants.system hread hmar hne hlen hwraps

/-- A gap from segment 1 to a later one. -/
def gapTo (stop : Name) : WALGap := ⟨0, "000000010000000000000001".toList, stop⟩

/-- Outside code that knows the metadata of one system with gaps to segments 5 and 3, in both orders. -/
def gapTable : Outside :=
  let five := gapTo "000000010000000000000005".toList
  let three := gapTo "000000010000000000000003".toList
  numbered [] [⟨[], []⟩, ⟨"A".toList, []⟩, ⟨"A".toList, [five]⟩, ⟨"A".toList, [three]⟩, ⟨"A".toList, [five, three]⟩,
    ⟨"A".toList, [three, five]⟩]

def oneSegment : Fs Name UInt8 :=
  (alone (put plainDeps plainCodec ⟨false, false⟩ (fun _ => 0) (.cert "u@c".toList) (oneByteStream [[7]]).batches) (fun _ => none)
    Fs.empty).2

/-- A first request creates the metadata; a first reset, to `n`, is granted. -/
def firstCalls (n : Name) : List StreamCall :=
  [.requestWALStart (fun _ => 0) (.cert "u@c".toList) "000000010000000000000001".toList,
    .resetWALStream (fun _ => 0) 0 (.cert "u@c".toList) n]

/-- What a second reset, to `n`, returns. -/
def secondReset (first n : Name) : Except Err Name × Fs Name UInt8 :=
  alone (resetWALStream plainDeps plainCodec gapTable ⟨false, false⟩ (fun _ => 0) 0 (.cert "u@c".toList) ⟨"c".toList, "A".toList, n⟩)
    (fun _ => none) (serveAll plainDeps plainCodec gapTable ⟨false, false⟩ "c".toList "A".toList (firstCalls first) oneSegment)

def startAfter (first n : Name) : Except Err Name :=
  (alone (requestWALStart plainDeps plainCodec gapTable ⟨false, false⟩ (fun _ => 0) (.cert "u@c".toList)
    ⟨"c".toList, "A".toList, "000000010000000000000001".toList⟩) (fun _ => none) (secondReset first n).2).1

theorem sane_oneSegment : Sane "c".toList oneSegment := by
  have hdirs : oneSegment.dirs = [["c".toList], ["c".toList, "0000000100000000".toList]] := by decide +kernel
  have hsub : ∀ d, joinPath ["c".toList] ++ [d] ∈ oneSegment.dirs → d = "0000000100000000".toList := by
    intro d hd
    rw [hdirs, show joinPath ["c".toList] = ["c".toList] from rfl] at hd
    simpa using hd
  refine ⟨⟨fun d hd => ?_, fun d _ => ?_⟩, fun _ => ?_⟩
  · rw [hsub d hd]
    exact ⟨by decide, by decide, by decide⟩
  · refine .inr ?_
    rw [hdirs]
    decide
  · unfold Fs.IsDir
    decide

set_option maxRecDepth 10000 in
/-- A reset to segment 5 after one to segment 3: the stream starts at segment 5. -/
theorem reset_forward_takes_effect :
    startAfter "000000010000000000000003".toList "000000010000000000000005".toList = .ok "000000010000000000000005".toList := by
  have hmain := reset_takes_effect_iff plainDeps plainCodec gapTable ⟨false, false⟩ "c".toList "A".toList
    "000000010000000000000005".toList "000000010000000000000005".toList (firstCalls "000000010000000000000003".toList) []
    (fun _ => 0) 0 (.cert "u@c".toList) oneSegment _ _ _ sane_oneSegment rfl
    (show secondReset "000000010000000000000003".toList "000000010000000000000005".toList = (.ok _, _) from rfl) trivial rfl
  obtain ⟨-, hstart, -, hfits⟩ := hmain
  refine (hstart _ _ _ rfl).mpr ((hfits ⟨"A".toList, [gapTo "000000010000000000000003".toList]⟩ "000000010000000000000001".toList
    _ rfl rfl rfl (by decide) (by decide)).mpr ?_)
  intro g hg
  rw [mem_singleton.mp hg]
  decide

set_option maxRecDepth 10000 in
/-- A reset to segment 3 after one to segment 5 is granted, but the stream starts at segment 5. -/
theorem reset_backward_ignored :
    (secondReset "000000010000000000000005".toList "000000010000000000000003".toList).1 = .ok "000000010000000000000003".toList ∧
    startAfter "000000010000000000000005".toList "000000010000000000000003".toList = .ok "000000010000000000000005".toList := by
  refine ⟨?_, ?_⟩
  · rfl
  · rfl

/-! ## Reading the metadata back -/

/-- **Metadata is read back exactly if** its encoding is not empty and the first block of it is enough: no block is
written for an empty one, and only one is read. It is enough for an encoding that fits into it. -/
theorem metadata_roundtrip_iff (K : Codec) (P : Outside) (rand : ℕ → ℕ) (c : Name) (m : ClusterMetadata) (fs : Fs Name UInt8)
    (hdir : ¬ fs.IsDir (ControlFile.path .metadata c))
    (hok : (alone (writeClusterMetadata K P rand c m) (fun _ => none) fs).1 = .ok ()) :
    ∃ b, P.marshalMetadata m = .ok b ∧ (b.length ≤ walBlockSize → P.unmarshalMetadata (b.take walBlockSize) = some m) ∧
      (ask (alone (writeClusterMetadata K P rand c m) (fun _ => none) fs).2 (getClusterMetadata K P c) = .ok m ↔
        b ≠ [] ∧ P.unmarshalMetadata (b.take walBlockSize) = some m) := by
  have hread := writeClusterMetadata_ok hdir hok
  have hwraps := (writeClusterMetadata_stores m _).ok hok
  rcases hmar : P.marshalMetadata m with e | b
  · rw [writeClusterMetadata, hmar] at hok
    cases hok
  rw [hmar, bytesOf] at hread hwraps
  refine ⟨b, rfl, fun hlen => ?_, ?_⟩
  · rw [take_of_length_le hlen]
    exact P.unmarshal_metadata m b hmar
  rw [ask_metadata_blockFile hread]
  by_cases hne : b = []
  · simp [hne, firstChunk, metadataOf]
  · rw [firstChunk_of_wraps hwraps hne]
    cases hun : P.unmarshalMetadata (b.take walBlockSize) <;> simp [metadataOf, hne, hun]

theorem metadata_roundtrip_small : (alone (setA 0) (fun _ => none) Fs.empty).1 = .ok () ∧
    ask (alone (setA 0) (fun _ => none) Fs.empty).2 (getClusterMetadata plainCodec twoSystems "c".toList) = .ok ⟨"A".toList, []⟩ := by
  obtain ⟨b, hb, -, hiff⟩ := metadata_roundtrip_iff plainCodec twoSystems (fun _ => 0) "c".toList ⟨"A".toList, []⟩ Fs.empty
    (by decide) rfl
  cases hb
  exact ⟨rfl, hiff.2 ⟨by decide, rfl⟩⟩

/-- Metadata without a system and gaps is written, and cannot be read. -/
theorem empty_metadata_lost :
    (alone (writeClusterMetadata plainCodec twoSystems (fun _ => 0) "c".toList ⟨[], []⟩) (fun _ => none) Fs.empty).1 = .ok () ∧
      ask (alone (writeClusterMetadata plainCodec twoSystems (fun _ => 0) "c".toList ⟨[], []⟩) (fun _ => none) Fs.empty).2
        (getClusterMetadata plainCodec twoSystems "c".toList) = .error endOfFile :=
  ⟨rfl, rfl⟩

end Klio
