import Klio.Model.Plain
import Klio.Model.Server
import Klio.Proof.Publish

/-!
# The tier 2 WAL server of a read-only installation

With tier 1 disabled the server is documented as read-only. `Start` sets its flag to `false` all
the same, and two handlers have no check for the flag, so that it writes whenever it accepts a write.

* `Rpc.Writes`: the calls that are accepted as writes, given the files they meet.
* `tier2_server_unchanged`: calls none of which is one leave every file as it was, in any
  interleaving and with any faults.
* `tier2_server_accepts_writes`: two calls that are.
-/

namespace Klio

open Lib

variable {D : Deps} {K : Codec} {P : Outside} {I : Implementation} {fs : Fs Name UInt8} {peer : Peer} {α : Type}

/-- **The calls that are accepted as writes.** -/
def Rpc.Writes (D : Deps) (K : Codec) (P : Outside) (fs : Fs Name UInt8) (peer : Peer) : Rpc → Prop
  | .put _ batches => ∃ b bs m, batches = b :: bs ∧ acceptBlock D peer {} b.first = .ok m
  | .requestWALStart _ req => checkClusterName D peer req.clusterName = .ok () ∧
      (∃ e, ask fs (getClusterMetadata K P req.clusterName) = .error e ∧ e.isNotExist = true) ∧
      ∃ b, P.marshalMetadata ⟨req.systemId, []⟩ = .ok b
  | .resetWALStream _ now req => checkClusterName D peer req.clusterName = .ok () ∧
      ∃ m w, ask fs (getClusterMetadata K P req.clusterName) = .ok m ∧ m.systemId = req.systemId ∧
        ask fs (getLatestWALFileForCluster req.clusterName : FsProg Msg Name) = .ok w ∧ w ≠ [] ∧ w < req.currentWalName ∧
        ∃ b, P.marshalMetadata { m with gaps := m.gaps ++ [⟨now, w, req.currentWalName⟩] } = .ok b
  | .setRetentionPolicy _ clusterName policy => checkClusterName D peer clusterName = .ok () ∧
      ∃ b, policy.elim (.ok []) P.marshalPolicy = .ok b
  | .closeBackup _ _ | .get _ _ | .getMetadata _ | .getRetentionPolicy _ => False

/-! ## Queries -/

theorem newReader_answers (c n : Name) : Answers fs (fun e => e.isNotExist = false) (newReader K c n : FsProg Msg Reader) := by
  refine answers_call trivial (answers_finished ?_) fun k => ⟨_, rfl, rfl⟩
  split
  · trivial
  · trivial
  · split <;> trivial

variable (c : Name)

theorem getClusterMetadata_answers : Answers fs (fun e => e.isNotExist = false) (getClusterMetadata K P c) := by
  refine answers_bind (newReader_answers c _) fun r => answers_finished ?_
  split
  · trivial
  · split <;> trivial

theorem getLatest_answers : Answers fs (fun _ => True) (getLatestWALFileForCluster c : FsProg Msg Name) := by
  refine answers_call trivial ?_ fun k => ⟨_, rfl, trivial⟩
  split
  · exact answers_finished trivial
  · exact answers_finished trivial
  · simp only
    split
    · exact answers_finished trivial
    · refine answers_call trivial (answers_finished ?_) fun k => ⟨_, rfl, trivial⟩
      split <;> trivial

theorem send_observes (text : String) (m : Msg) :
    Observes fs (fun _ => True) (fun _ => True) (PutHandler.send text m) := by
  refine ⟨trivial, fun c => ?_⟩
  cases c <;> trivial

/-! ## Handlers -/

theorem withClusterName_observes {c : Name} {p : FsProg Msg α}
    (h : checkClusterName D peer c = .ok () → Observes fs (fun _ => True) (fun _ => True) p) :
    Observes fs (fun _ => True) (fun _ => True) (withClusterName D peer c p) := by
  unfold withClusterName
  split
  · trivial
  · rename_i hok; exact h hok

theorem getRetentionPolicy_observes :
    Observes fs (fun _ => True) (fun _ => True) (getRetentionPolicy D K P peer c) := by
  refine withClusterName_observes fun _ => observes_mapErr ?_
  refine observes_bind ?_ (observes_attempt (observes_true (newReader_answers c _)))
  intro out _
  rcases out with e | r
  · simp only; split <;> trivial
  simp only
  split
  · split <;> trivial
  · split <;> trivial

theorem getMetadata_observes :
    Observes fs (fun _ => True) (fun _ => True) (getMetadata D K P peer c) :=
  withClusterName_observes fun _ => observes_mapErr (observes_true (getClusterMetadata_answers c))

theorem sendBlocks_observes : ∀ (fuel : ℕ) (r : Reader), Observes fs (fun _ => True) (fun _ => True) (sendBlocks K fuel r) := by
  intro fuel
  induction fuel with
  | zero => intro r; trivial
  | succ fuel ih =>
    intro r
    unfold sendBlocks
    split
    · exact observes_bind (fun _ _ => ih _) (send_observes _ _)
    · split
      · exact send_observes _ _
      · trivial

theorem getWAL_observes (c n : Name) : Observes fs (fun _ => True) (fun _ => True) (getWAL D K peer c n) := by
  refine withClusterName_observes fun _ => ?_
  split
  · trivial
  split
  · trivial
  · exact observes_bind (fun r _ => sendBlocks_observes _ r) (observes_mapErr (answers_observes (newReader_answers c n)))

theorem isWALFileExisting_observes (c n : Name) :
    Observes fs (fun _ => True) (fun _ => True) (isWALFileExisting c n : FsProg Msg Bool) := by
  refine ⟨trivial, fun ch => ?_⟩
  simp only
  split <;> trivial

theorem missingWALFiles_observes (request : CloseBackupRequest) (endPos : UInt64) :
    ∀ (fuel : ℕ) (pos : UInt64), Observes fs (fun _ => True) (fun _ => True) (missingWALFiles P request endPos fuel pos) := by
  intro fuel
  induction fuel with
  | zero => intro pos; trivial
  | succ fuel ih =>
    intro pos
    unfold missingWALFiles
    split
    · trivial
    split
    · trivial
    · refine observes_bind (fun exist _ => ?_) (observes_mapErr (isWALFileExisting_observes _ _))
      exact observes_map (ih _)

theorem closeBackup_observes (fuel : ℕ) (request : CloseBackupRequest) :
    Observes fs (fun _ => True) (fun _ => True) (closeBackup D P I fuel peer request) := by
  refine withClusterName_observes fun _ => ?_
  have hcheck : Observes fs (fun _ => True) (fun _ => True) (checkWALFiles P fuel request) := by
    unfold checkWALFiles
    repeat' split
    all_goals first | trivial | exact missingWALFiles_observes _ _ _ _
  refine observes_bind (fun missing _ => ?_) hcheck
  split
  · trivial
  split
  · refine ⟨trivial, fun c => ?_⟩
    cases c <;> trivial
  · trivial

theorem unlessReadOnly_observes {p : FsProg Msg α} (h : Observes fs (fun _ => True) (fun _ => True) p) :
    Observes fs (fun _ => True) (fun _ => True) (unlessReadOnly I p) := by
  unfold unlessReadOnly
  split
  · trivial
  · exact h

variable {rand : ℕ → ℕ}

theorem writeClusterMetadata_observes {c : Name} {m : ClusterMetadata}
    (h : ¬ ∃ b, P.marshalMetadata m = .ok b) :
    Observes fs (fun _ => True) (fun _ => True) (writeClusterMetadata K P rand c m) := by
  unfold writeClusterMetadata
  split
  · trivial
  · rename_i b hb; exact absurd ⟨b, hb⟩ h

theorem negotiateWALStart_observes (m : ClusterMetadata) (req : WALStartRequest) :
    Observes fs (fun _ => True) (fun _ => True) (negotiateWALStart m req) := by
  unfold negotiateWALStart
  split
  · trivial
  · exact observes_map (observes_mapErr (observes_true (getLatest_answers _)))

theorem requestWALStart_observes {req : WALStartRequest}
    (h : ¬ (Rpc.requestWALStart rand req).Writes D K P fs peer) :
    Observes fs (fun _ => True) (fun _ => True) (requestWALStart D K P I rand peer req) := by
  refine unlessReadOnly_observes (withClusterName_observes fun hok => ?_)
  refine observes_bind ?_ (observes_attempt (getClusterMetadata_answers req.clusterName))
  intro out hout
  cases out with
  | ok m => exact negotiateWALStart_observes m req
  | error e =>
    simp only
    split
    · rename_i hne
      -- the file is missing, and not because of a fault
      have hask : ask fs (getClusterMetadata K P req.clusterName) = .error e := by
        rcases hout with hout | hout
        · exact hout
        · rw [hout] at hne; cases hne
      have hm : ¬ ∃ b, P.marshalMetadata ⟨req.systemId, []⟩ = .ok b := fun hb => h ⟨hok, ⟨e, hask, hne⟩, hb⟩
      exact observes_bind (fun _ _ => negotiateWALStart_observes _ req) (observes_mapErr (writeClusterMetadata_observes hm))
    · trivial

theorem resetWALStream_observes {now : ℤ} {req : WALStartRequest}
    (h : ¬ (Rpc.resetWALStream rand now req).Writes D K P fs peer) :
    Observes fs (fun _ => True) (fun _ => True) (resetWALStream D K P I rand now peer req) := by
  refine unlessReadOnly_observes (withClusterName_observes fun hok => ?_)
  refine observes_bind ?_ (observes_mapErr (answers_observes (getClusterMetadata_answers req.clusterName)))
  intro m hm
  split
  · trivial
  rename_i hid
  refine observes_bind ?_ (observes_mapErr (answers_observes (getLatest_answers req.clusterName)))
  intro w hw
  split
  · trivial
  rename_i hne
  split
  · trivial
  rename_i hlt
  have hb : ¬ ∃ b, P.marshalMetadata { m with gaps := m.gaps ++ [⟨now, w, req.currentWalName⟩] } = .ok b := by
    intro hb
    exact h ⟨hok, m, w, hm, not_not.1 hid, hw, hne, not_not.1 hlt, hb⟩
  exact observes_map (observes_mapErr (writeClusterMetadata_observes hb))

theorem setRetentionPolicy_observes {c : Name} {policy : Option RetentionPolicy}
    (h : ¬ (Rpc.setRetentionPolicy rand c policy).Writes D K P fs peer) :
    Observes fs (fun _ => True) (fun _ => True) (setRetentionPolicy D K P rand peer c policy) := by
  refine withClusterName_observes fun hok => ?_
  split
  · trivial
  · rename_i b hb; exact absurd ⟨hok, b, hb⟩ h

theorem put_refused (rand : ℕ → ℕ) (peer : Peer) (batches : List Batch) :
    (∃ b bs m, batches = b :: bs ∧ acceptBlock D peer {} b.first = .ok m) ∨
      (∃ e, put D K I rand peer batches = .err e) ∨ ∃ text m, put D K I rand peer batches = PutHandler.send text m := by
  unfold put
  split
  · exact .inr (.inl ⟨_, rfl⟩)
  rcases batches with _ | ⟨b, bs⟩
  · exact .inr (.inr ⟨_, _, rfl⟩)
  cases ha : acceptBlock D peer {} b.first with
  | ok m => exact .inl ⟨b, bs, m, rfl, ha⟩
  | error e =>
    have hval : PutHandler.validateBlock D K rand peer {} b.first = .err e := by
      unfold PutHandler.validateBlock
      rw [ha]
    refine .inr (.inl ⟨e, ?_⟩)
    unfold PutHandler.run PutHandler.processBatch Batch.blocks PutHandler.validateBlocks
    rw [hval]
    rfl

theorem put_observes {batches : List Batch} (h : ¬ (Rpc.put rand batches).Writes D K P fs peer) :
    Observes fs (fun _ => True) (fun _ => True) (put D K I rand peer batches) := by
  rcases put_refused (D := D) (K := K) (I := I) rand peer batches with hacc | ⟨e, he⟩ | ⟨text, m, he⟩
  · exact absurd hacc h
  · rw [he]
    trivial
  · rw [he]
    exact send_observes text m

/-- **A call that is not accepted as a write only looks.** -/
theorem handler_observes {rpc : Rpc} (h : ¬ rpc.Writes D K P fs peer) :
    Observes fs (fun _ => True) (fun _ => True) (rpc.handler D K P I peer) := by
  cases rpc with
  | put rand batches => exact put_observes h
  | requestWALStart rand req => exact observes_map (requestWALStart_observes h)
  | resetWALStream rand now req => exact observes_map (resetWALStream_observes h)
  | setRetentionPolicy rand c policy => exact setRetentionPolicy_observes h
  | closeBackup fuel request => exact observes_map (closeBackup_observes fuel request)
  | get c n => exact getWAL_observes c n
  | getMetadata c => exact observes_map (getMetadata_observes c)
  | getRetentionPolicy c => exact observes_map (getRetentionPolicy_observes c)

/-! ## The server -/

/-- The calls served by `I` on the repository `fs`, none of them started. -/
def serving {ι : Type} (D : Deps) (K : Codec) (P : Outside) (I : Implementation) (fs : Fs Name UInt8)
    (calls : ι → Peer × Rpc) : PutSys ι :=
  Sys.init ⟨fs, []⟩ fun i => (calls i).2.handler D K P I (calls i).1

/-- **The tier 2 WAL server leaves every file as it was** as long as no call is accepted as a
write: any number of calls, in any interleaving, with any faults, on the server `I` that is started
for tier 2 when tier 1 is disabled. -/
theorem tier2_server_unchanged {ι : Type} [DecidableEq ι] (D : Deps) (K : Codec) (P : Outside) (I : Implementation)
    (hI : (tier2WALServer ⟨false, true⟩).map Tier2WALServer.serve = some I)
    (fs : Fs Name UInt8) (calls : ι → Peer × Rpc) (hcalls : ∀ i, ¬ (calls i).2.Writes D K P fs (calls i).1)
    (cs : List (ι × Option ℕ)) :
    ∀ p, fs.Same ((serving D K P I fs calls).run (sem ι Name UInt8 Msg) (cs.map fun x => .step x.1 x.2)).st.fs p := by
  intro p
  obtain rfl : start [] = I := Option.some.inj hI
  have hobs : ∀ i, Observes (serving D K P (start []) fs calls).st.fs (fun _ => True) (fun _ => True)
      ((serving D K P (start []) fs calls).procs i) := fun i => handler_observes (hcalls i)
  rw [run_observes hobs cs]
  exact Fs.Same.refl fs p

/-- Outside code that marshals empty messages only. -/
def plainOutside : Outside where
  marshalPolicy p := if p = {} then .ok [] else .error (.new "unsupported")
  unmarshalPolicy b := if b = [] then some {} else none
  marshalMetadata _ := .error (.new "unsupported")
  unmarshalMetadata _ := none
  unmarshalCompression _ := none
  lsnStartFromWALName _ _ := .error (.new "unsupported")
  parseLSN _ := .error (.new "unsupported")
  walFileName _ _ _ := .error (.new "unsupported")
  unmarshal_policy p b h := by
    split at h
    · rename_i hp; cases h; rw [hp]; rfl
    · cases h
  unmarshal_metadata m b h := by cases h

theorem tier2_server_unchanged_get :
    (Fs.empty : Fs Name UInt8).Same ((serving plainDeps plainCodec plainOutside (start []) Fs.empty
      (fun _ : Unit => (.cert "u@c".toList, .getMetadata "c".toList))).run (sem Unit Name UInt8 Msg)
        ([((), none)].map fun x => .step x.1 x.2)).st.fs ["c".toList] :=
  tier2_server_unchanged plainDeps plainCodec plainOutside (start []) rfl Fs.empty
    (fun _ : Unit => (.cert "u@c".toList, .getMetadata "c".toList)) (fun _ h => h) [((), none)] ["c".toList]

set_option maxRecDepth 10000 in
/-- The server accepts an upload, and a retention policy: both leave a file in the empty
repository. -/
theorem tier2_server_accepts_writes :
    (tier2WALServer ⟨false, true⟩).map Tier2WALServer.serve = some (start []) ∧
      ((serving plainDeps plainCodec plainOutside (start []) Fs.empty
        (fun _ : Unit => (.cert "u@c".toList, .put (fun _ => 0) [⟨oneByteRequest [7], []⟩]))).run (sem Unit Name UInt8 Msg)
          (List.replicate 8 (.step () none))).st.fs.read
            (getWALArchivePath "c".toList "000000010000000000000001".toList) ≠ none ∧
      ((serving plainDeps plainCodec plainOutside (start []) Fs.empty
        (fun _ : Unit => (.cert "u@c".toList, .setRetentionPolicy (fun _ => 0) "c".toList (some {})))).run
          (sem Unit Name UInt8 Msg) (List.replicate 8 (.step () none))).st.fs.read
            (getWALArchivePath "c".toList retentionPolicyFileName) ≠ none := by
  refine ⟨rfl, ?_, ?_⟩
  · decide +kernel
  · decide +kernel

end Klio
