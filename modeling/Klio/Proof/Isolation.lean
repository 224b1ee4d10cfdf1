import Klio.Lib.TwoRuns
import Klio.Proof.Handles
import Klio.Proof.LatestWal

/-!
# Clusters on one WAL server

Every call is for the cluster of the client's certificate, and every path is joined from the name of this
cluster and names that were checked. The directory of cluster `c` is the entry `c` of the repository.

* `archivePath_below`: the archive paths of a cluster lie in its directory, if its name is not `.`.
* `put_confined`, `storeBlock_confined`, `getLatest_confined`, …: what each handler does stays there.
* `Isolated`: what a call uses is in the directory, and two repositories that agree on it cannot be told
  apart. `clusters_isolated_iff`: this holds of every cluster but `.`, whose files are those of the root.
-/

namespace Klio

open Lib Prog

variable {D : Deps} {K : Codec} {P : Outside} {I : Implementation} {peer : Peer} {rand : ℕ → ℕ} {c : Name}

/-! ## Paths of a cluster -/

/-- A name that stays at the start of a path. -/
def Leads (c : Name) : Prop := c ≠ [] ∧ c ≠ ".".toList

theorem Leads.joinPath (hc : Leads c) : joinPath [c] = [c] := by
  show pushComponent [] c = [c]
  unfold pushComponent
  rw [if_neg (not_or.mpr hc)]
  split
  · rw [if_pos (.inl rfl)]
    rfl
  · rfl

theorem Lib.Below.concat {dir : Path} {x : Name} (hdir : Below Plain c dir) (hx : Plain x) : Below Plain c (dir ++ [x]) := by
  obtain ⟨rest, rfl, hrest⟩ := hdir
  refine ⟨rest ++ [x], rfl, ?_⟩
  intro n hn
  rcases List.mem_append.mp hn with hn | hn
  · exact hrest n hn
  · rw [List.mem_singleton.mp hn]
    exact hx

theorem Leads.below (hc : Leads c) : Below Plain c (Klio.joinPath [c]) := by
  rw [hc.joinPath]
  exact ⟨[], rfl, nofun⟩

theorem Leads.below_entry (hc : Leads c) {n : Name} (hn : Plain n) : Below Plain c (Klio.joinPath [c, n]) := by
  have hjoin : Klio.joinPath [c, n] = Klio.joinPath [c] ++ [n] := joinPath_append hn [c]
  rw [hjoin]
  exact hc.below.concat hn

/-- **A file of the archive is in a directory of its cluster.** -/
theorem archivePath_below (hc : Leads c) {n : Name} (hn : 15 < n.length) : ∃ dir, Below Plain c dir ∧ getWALArchivePath c n = dir ++ [n] := by
  have hplain : Plain n := plain_of_length (by omega)
  have hdir : Plain (n.take walSubdirectoryLength) := by
    refine plain_of_length ?_
    have hlen : (n.take walSubdirectoryLength).length = 16 := by
      rw [List.length_take]
      exact Nat.min_eq_left hn
    omega
  unfold getWALArchivePath
  split
  · exact ⟨_, hc.below_entry hdir, joinPath_append hplain [c, _]⟩
  · exact ⟨_, hc.below, joinPath_append hplain [c]⟩

theorem archivePath_below_self (hc : Leads c) {n : Name} (hn : 15 < n.length) : Below Plain c (getWALArchivePath c n) := by
  obtain ⟨dir, hdir, heq⟩ := archivePath_below hc hn
  rw [heq]
  exact hdir.concat (plain_of_length (by omega))

theorem controlFile_below (hc : Leads c) (f : ControlFile) : Below Plain c (f.path c) ∧ Below Plain c (f.staging c) := by
  rw [f.path_eq, f.staging_eq]
  exact ⟨hc.below.concat (by cases f <;> exact plain_of_length (by decide)),
    hc.below.concat (by cases f <;> exact plain_of_length (by decide))⟩

theorem upload_below (hc : Leads c) {r : PutRequest} (hr : r.clusterName = c) (hre : walFileRE r.walName = true) :
    Below Plain c (stagingPath r).dropLast ∧ Below Plain c (stagingPath r) ∧ Below Plain c (finalPath r) := by
  have hlen := walFileRE_length hre
  subst hr
  obtain ⟨dir, hdir, heq⟩ := archivePath_below hc hlen
  rw [stagingPath_eq heq, finalPath_eq heq, List.dropLast_concat]
  -- taking `.partial` off a name of sixteen characters leaves eight
  have hstaging : 15 < (withPartialSuffix r.walName).length := by
    unfold withPartialSuffix
    split
    · exact hlen
    · rw [List.length_append]
      omega
  have hfinal : 2 < (trimPartialSuffix (withPartialSuffix r.walName)).length := by
    have hsuffix : partialSuffix.length = 8 := rfl
    unfold trimPartialSuffix trimSuffix
    split
    · rw [List.length_take]
      omega
    · omega
  exact ⟨hdir, hdir.concat (plain_of_length (by omega)), hdir.concat (plain_of_length hfinal)⟩

/-! ## Uploads -/

theorem finalize_held {ph : PutHandler} {h : Option Handle} (hh : ph.Held h) :
    (ph.finalize I).Sat holdingFiles (fun _ _ => True) (fun _ _ => True) h := by
  rcases hw : ph.walBuffer with _ | w
  · unfold PutHandler.finalize
    rw [hw]
    exact sat_mono ((send_neutral _ _).held h) (fun _ _ _ => trivial) fun _ _ _ => trivial
  obtain rfl : h = some (.writing w.inner.buffer.fd) := by
    rw [PutHandler.Held, hw] at hh
    exact hh
  obtain ⟨F, hF, herr, hok⟩ := finalize_eq (I := I) hw
  rw [hF]
  refine sat_bind bufio_flush_held ?_
  rintro ⟨b, r⟩ h' ⟨rfl, hfd⟩
  rcases r with e | u
  · obtain ⟨x, hx⟩ := herr b e
    rw [hx]
    trivial
  obtain ⟨k, hk, hrest⟩ := hok b
  rw [hk]
  have hb : b.fd = w.inner.buffer.fd := hfd
  refine sat_call (congrArg (fun fd => some (Handle.writing fd)) hb.symm) fun r => ?_
  exact sat_mono (hrest r) (fun _ _ _ => trivial) fun _ _ _ => trivial

theorem put_held (batches : List Batch) : (put D K I rand peer batches).Sat holdingFiles (fun _ _ => True) (fun _ _ => True) none := by
  have hstart : ({} : PutHandler).Held none := rfl
  unfold put
  split
  · trivial
  rcases batches with _ | ⟨batch, batches⟩
  · exact finalize_held hstart
  obtain ⟨R, hR, hheld⟩ := receiveAll_first D K rand peer batch batches
  rw [run_eq, hR, Prog.bind_assoc]
  refine sat_bind (sat_mono (validateBlock_held hstart batch.first) (fun _ _ hq => hq) fun _ _ _ => trivial) ?_
  rintro ph h ⟨hh, hb, -⟩
  refine sat_bind (sat_mono (hheld ph h hh hb) (fun _ _ hq => hq) fun _ _ _ => trivial) ?_
  rintro ph' h' ⟨hh', -, -⟩
  exact finalize_held hh'

theorem validateRequest_peer {r : PutRequest} (h : validateRequest D peer r = .ok ()) : peerClusterName peer = .ok r.clusterName := by
  unfold validateRequest at h
  split at h
  · cases h
  split at h
  · cases h
  rename_i hauth
  unfold authorizeClusterName at hauth
  split at hauth
  · cases hauth
  rename_i name hname
  split at hauth
  · cases hauth
  · rename_i heq
    rw [hname, not_not.mp heq]

/-- **An upload stays in the directory of its cluster.** -/
theorem put_confined (hc : Leads c) (hpeer : peerClusterName peer = .ok c) (batches : List Batch) :
    (put D K I rand peer batches).Confined Plain c (fun _ _ => True) (fun _ _ => True) none := by
  refine (put_held batches).confined ?_
  rcases put_refused (D := D) (K := K) (I := I) rand peer batches with ⟨b, bs, m, rfl, hok⟩ | ⟨e, he⟩ | ⟨text, m, he⟩
  · have hvalid := (acceptBlock_ok hok).1
    have hcluster : b.first.clusterName = c := by
      have hname := (validateRequest_peer hvalid).symm.trans hpeer
      exact Except.ok.inj hname
    obtain ⟨hdir, hstaging, hfinal⟩ := upload_below hc hcluster (validateRequest_walName hvalid)
    refine Prog.Sat.uses ?_ (put_sat (b :: bs))
    intro ph o ha
    cases o with
    | mkdirAll p =>
      obtain rfl : p = (stagingPath b.first).dropLast := ha.2
      exact hdir
    | openTrunc p =>
      obtain rfl : p = stagingPath b.first := ha.2
      exact hstaging
    | rename p q =>
      obtain ⟨w, s, -, -, hp, hq⟩ := ha
      have hp : p = stagingPath b.first := hp
      have hq : q = finalPath b.first := hq
      subst hp hq
      exact ⟨hstaging, hfinal⟩
    | write | sync | close | remove | readDir | readFile | stat | emit => trivial
  · rw [he]
    trivial
  · rw [he]
    exact send_uses (fun _ => trivial) text m

theorem put_blind (batches : List Batch) : (put D K I rand peer batches).OrderBlind := by
  refine Prog.Uses.orderBlind (Prog.Sat.uses ?_ (put_held batches))
  intro h o ha
  cases o with
  | readDir p => exact ha.elim
  | mkdirAll | openTrunc | write | sync | close | rename | remove | readFile | stat | emit => trivial

/-! ## Control files -/

theorem closeMarkDone_held (w : Writer) : (w.closeMarkDone : FsProg Msg (Writer × Except Err Unit)).Sat holdingFiles
    (fun _ _ => True) (fun _ _ => True) (some (.writing w.inner.buffer.fd)) := by
  unfold Writer.closeMarkDone DirectWriter.close
  rw [Prog.bind_assoc]
  refine sat_bind bufio_flush_held ?_
  rintro ⟨b, r⟩ h' ⟨rfl, hfd⟩
  rcases r with e | _
  · trivial
  have hb : b.fd = w.inner.buffer.fd := hfd
  refine sat_call (congrArg (fun fd => some (Handle.writing fd)) hb.symm) fun (r : Except FsErr Unit) => ?_
  rcases r with e | _
  · trivial
  refine sat_call rfl fun (r : Except FsErr Unit) => ?_
  cases r <;> trivial

theorem storeBlock_held (name : Name) (data : List UInt8) (creating writing : Err → Err) :
    (storeBlock K rand c name data creating writing).Sat holdingFiles (fun _ _ => True) (fun _ _ => True) none := by
  have hnew : (newWriter K rand ⟨c, name, UInt64.ofNat data.length, 0⟩ : FsProg Msg Writer).Sat holdingFiles
      (fun w h' => h' = some (.writing w.inner.buffer.fd)) (fun _ _ => True) none := by
    refine sat_bind (sat_mono (newDirectWriterAtPath_held _ _) (fun _ _ hq => hq) fun _ _ _ => trivial) ?_
    intro w h' hw
    exact hw
  refine sat_bind (sat_mapErr hnew) ?_
  rintro w h rfl
  have hwrite : (w.writeBlock K data : FsProg Msg (Writer × Except Err Unit)).Sat holdingFiles
      (fun out h' => h' = some (.writing w.inner.buffer.fd) ∧ out.1.inner.buffer.fd = w.inner.buffer.fd) (fun _ _ => True)
      (some (.writing w.inner.buffer.fd)) :=
    sat_mono (lift_held rfl (writeChunks_held _ _ _)) (fun _ _ hq => hq) fun _ _ _ => trivial
  refine sat_bind hwrite ?_
  rintro ⟨w', r⟩ h' ⟨rfl, hfd⟩
  have hfd : w'.inner.buffer.fd = w.inner.buffer.fd := hfd
  rw [← hfd]
  refine sat_bind (closeMarkDone_held w') ?_
  rintro - h'' -
  cases r <;> trivial

/-- **A control file is stored in the directory of its cluster.** -/
theorem storeBlock_confined (hc : Leads c) (f : ControlFile) (data : List UInt8) (creating writing : Err → Err) :
    (storeBlock K rand c f.fileName data creating writing).Confined Plain c (fun _ _ => True) (fun _ _ => True) none := by
  refine (storeBlock_held _ _ _ _).confined ?_
  obtain ⟨hfinal, hstaging⟩ := controlFile_below hc f
  have hsat : (storeBlock K rand c f.fileName data creating writing).Sat (controlProto f K rand c data) _ _ _ :=
    storeBlock_sat creating writing
  refine Prog.Sat.uses ?_ hsat
  intro ph o ha
  cases o with
  | mkdirAll p =>
    obtain rfl : p = (f.staging c).dropLast := ha.2
    rw [f.staging_dropLast]
    exact hc.below
  | openTrunc p =>
    obtain rfl : p = f.staging c := ha.2
    exact hstaging
  | rename p q =>
    obtain ⟨w, s, -, -, hp, hq⟩ := ha
    have hp : p = f.staging c := hp
    have hq : q = f.path c := hq
    subst hp hq
    exact ⟨hstaging, hfinal⟩
  | write | sync | close | remove | readDir | readFile | stat | emit => trivial

theorem storeBlock_blind (name : Name) (data : List UInt8) (creating writing : Err → Err) :
    (storeBlock K rand c name data creating writing).OrderBlind := by
  refine Prog.Uses.orderBlind (Prog.Sat.uses ?_ (storeBlock_held name data creating writing))
  intro h o ha
  cases o with
  | readDir p => exact ha.elim
  | mkdirAll | openTrunc | write | sync | close | rename | remove | readFile | stat | emit => trivial

/-! ## The latest file -/

/-- **The latest file is looked for in the directory**, as long as listings show real names. -/
theorem getLatest_confined (hc : Leads c) (h : Option Handle) : (getLatestWALFileForCluster c : FsProg Msg Name).Confined Plain c
    (fun _ h' => h' = h) (fun _ h' => h' = h) h := by
  refine satIf_call hc.below fun (r : Except FsErr (List (DirEntry Name))) hr => ?_
  rcases r with e | entries
  · cases e <;> exact rfl
  dsimp only
  split
  · exact rfl
  rename_i hne
  have hreal : Plain (latestName ((entries.filter fun entry => entry.isDir).map DirEntry.name)) := by
    obtain ⟨entry, hentry, heq⟩ := List.mem_map.mp ((latestName_mem _).resolve_left hne)
    rw [← heq]
    exact hr entries rfl entry (List.mem_filter.mp hentry).1
  refine satIf_call (hc.below_entry hreal) fun (r : Except FsErr (List (DirEntry Name))) _ => ?_
  cases r <;> exact rfl

theorem latestName_entries {l l' : List (DirEntry Name)} (h : ∀ e, e ∈ l ↔ e ∈ l') (keep : DirEntry Name → Bool) :
    latestName ((l.filter keep).map DirEntry.name) = latestName ((l'.filter keep).map DirEntry.name) := by
  refine latestName_congr fun n => ?_
  simp only [List.mem_map, List.mem_filter, h]

theorem getLatest_blind : (getLatestWALFileForCluster c : FsProg Msg Name).OrderBlind := by
  refine ⟨?_, fun (r : Except FsErr (List (DirEntry Name))) => ?_⟩
  · intro r r' hr
    match r, r', hr with
    | .error e, .error e', hr =>
      obtain rfl : e = e' := hr
      rfl
    | .ok l, .ok l', hr =>
      dsimp only
      rw [latestName_entries hr]
  · rcases r with e | entries
    · cases e <;> trivial
    dsimp only
    split
    · trivial
    refine ⟨?_, fun (r : Except FsErr (List (DirEntry Name))) => by cases r <;> trivial⟩
    intro r r' hr
    match r, r', hr with
    | .error e, .error e', hr =>
      obtain rfl : e = e' := hr
      rfl
    | .ok l, .ok l', hr =>
      dsimp only
      rw [latestName_entries hr]

/-! ## The handlers -/

/-- What `WALFileName` of the machinery library makes: three numbers in hexadecimal, of eight digits or more.
A timeline below zero has a sign. -/
def SegmentNames (P : Outside) : Prop := ∀ pos timeline size name, P.walFileName pos timeline size = .ok name →
  24 ≤ name.length ∧ ∀ ch ∈ name, isHexDigit ch = true ∨ ch = '-'

/-- The program keeps to the directory of `c`, and no order of a listing matters to it. -/
structure KeepsTo (c : Name) {α : Type} (p : FsProg Msg α) : Prop where
  confined : p.Confined Plain c (fun _ _ => True) (fun _ _ => True) none
  blind : p.OrderBlind

section Handlers

variable {α β : Type}

theorem KeepsTo.err (e : Err) : KeepsTo c (.err e : FsProg Msg α) := ⟨trivial, trivial⟩

variable {p : FsProg Msg α}

theorem orderBlind_map (h : p.OrderBlind) (g : α → β) : (p.bind fun a => .ret (g a)).OrderBlind :=
  Prog.orderBlind_bind (fun a => show (.ret (g a) : FsProg Msg β).OrderBlind from trivial) h

theorem KeepsTo.map (h : KeepsTo c p) (g : α → β) : KeepsTo c (p.bind fun a => .ret (g a)) :=
  ⟨satIf_bind h.confined fun _ _ _ => trivial, orderBlind_map h.blind g⟩

theorem confined_mapErr {Q : α → Option Handle → Prop} {X : Err → Option Handle → Prop} {h : Option Handle}
    (hp : p.Confined Plain c Q X h) (f : Err → Err) : (p.mapErr f).Confined Plain c Q (fun _ _ => True) h := by
  have hout : p.attempt.Confined Plain c (fun out h' => ∀ a, out = .ok a → Q a h') (fun _ _ => True) h := by
    refine satIf_attempt (satIf_mono (fun _ _ ha => ha) rfl hp ?_ ?_)
    · rintro a h' hq a' ⟨⟩
      exact hq
    · rintro e h' - a' hno
      cases hno
  refine satIf_bind hout ?_
  intro out h' hend
  cases out with
  | ok a => exact hend a rfl
  | error e => trivial

theorem KeepsTo.mapErr (h : KeepsTo c p) (f : Err → Err) : KeepsTo c (p.mapErr f) :=
  ⟨confined_mapErr h.confined f, Prog.orderBlind_mapErr h.blind⟩

theorem KeepsTo.after {f : α → FsProg Msg β} (hp : p.Uses (FsOp.LooksBelow Plain c)) (hblind : p.OrderBlind)
    (hf : ∀ a, KeepsTo c (f a)) : KeepsTo c (p.bind f) := by
  refine ⟨satIf_bind (satIf_mono (fun _ _ ha => ha) rfl (hp.confined none) (fun _ _ hq => hq) fun _ _ _ => trivial) ?_,
    Prog.orderBlind_bind (fun a => (hf a).blind) hblind⟩
  rintro a h rfl
  exact (hf a).confined

theorem Lib.Prog.Uses.keepsTo (hp : p.Uses (FsOp.LooksBelow Plain c)) (hlist : p.Uses FsOp.NoListing) : KeepsTo c p :=
  ⟨satIf_mono (fun _ _ ha => ha) rfl (hp.confined none) (fun _ _ _ => trivial) fun _ _ _ => trivial, hlist.orderBlind⟩

theorem withClusterName_keeps (hpeer : peerClusterName peer = .ok c) {clusterName : Name}
    (hp : clusterName = c → KeepsTo c p) : KeepsTo c (withClusterName D peer clusterName p) := by
  unfold withClusterName
  rcases hcheck : checkClusterName D peer clusterName with e | _
  · exact KeepsTo.err e
  refine hp ?_
  unfold checkClusterName at hcheck
  split at hcheck
  · cases hcheck
  unfold authorizeClusterName at hcheck
  rw [hpeer] at hcheck
  dsimp only at hcheck
  split at hcheck
  · cases hcheck
  · rename_i heq
    exact (not_not.mp heq).symm

theorem unlessReadOnly_keeps (hp : KeepsTo c p) : KeepsTo c (unlessReadOnly I p) := by
  unfold unlessReadOnly
  split
  · exact KeepsTo.err _
  · exact hp

variable (hc : Leads c)
include hc

theorem readFile_below (f : ControlFile) : (FsOp.readFile (f.path c) : FsOp Name UInt8 Msg).LooksBelow Plain c :=
  (controlFile_below hc f).1

theorem getClusterMetadata_keeps : KeepsTo c (getClusterMetadata K P c) :=
  Prog.Uses.keepsTo (getClusterMetadata_uses (readFile_below hc .metadata)) (getClusterMetadata_uses trivial)

theorem getClusterRetentionPolicy_keeps : KeepsTo c (getClusterRetentionPolicy K P c) :=
  Prog.Uses.keepsTo (getClusterRetentionPolicy_uses (readFile_below hc .retentionPolicy)) (getClusterRetentionPolicy_uses trivial)

theorem writeClusterMetadata_keeps (metadata : ClusterMetadata) : KeepsTo c (writeClusterMetadata K P rand c metadata) := by
  unfold writeClusterMetadata
  split
  · exact KeepsTo.err _
  · exact ⟨storeBlock_confined hc .metadata _ _ _, storeBlock_blind _ _ _ _⟩

theorem setRetentionPolicy_keeps (hpeer : peerClusterName peer = .ok c) (clusterName : Name) (policy : Option RetentionPolicy) :
    KeepsTo c (setRetentionPolicy D K P rand peer clusterName policy) := by
  refine withClusterName_keeps hpeer ?_
  rintro rfl
  split
  · exact KeepsTo.err _
  · exact ⟨storeBlock_confined hc .retentionPolicy _ _ _, storeBlock_blind _ _ _ _⟩

theorem latestThen_confined {f : Name → FsProg Msg β} {h : Option Handle} (g : Err → Err)
    (hf : ∀ n, (f n).Confined Plain c (fun _ _ => True) (fun _ _ => True) h) :
    (((getLatestWALFileForCluster c).mapErr g).bind f).Confined Plain c (fun _ _ => True) (fun _ _ => True) h := by
  refine satIf_bind (confined_mapErr (getLatest_confined hc h) g) ?_
  rintro n h' rfl
  exact hf n

theorem negotiateWALStart_confined (metadata : ClusterMetadata) {req : WALStartRequest} (hreq : req.clusterName = c) (h : Option Handle) :
    (negotiateWALStart metadata req).Confined Plain c (fun _ _ => True) (fun _ _ => True) h := by
  subst hreq
  unfold negotiateWALStart
  split
  · trivial
  · exact latestThen_confined hc _ fun _ => trivial

omit hc in
theorem negotiateWALStart_blind (metadata : ClusterMetadata) (req : WALStartRequest) : (negotiateWALStart metadata req).OrderBlind := by
  unfold negotiateWALStart
  split
  · trivial
  · exact orderBlind_map (Prog.orderBlind_mapErr getLatest_blind) _

theorem requestWALStart_keeps (hpeer : peerClusterName peer = .ok c) (req : WALStartRequest) :
    KeepsTo c (requestWALStart D K P I rand peer req) := by
  refine unlessReadOnly_keeps (withClusterName_keeps hpeer fun hreq => ?_)
  have hmeta : (getClusterMetadata K P req.clusterName).Uses (FsOp.LooksBelow Plain c) := by
    rw [hreq]
    exact getClusterMetadata_uses (readFile_below hc .metadata)
  refine KeepsTo.after (uses_attempt hmeta) (Prog.orderBlind_attempt (getClusterMetadata_uses trivial).orderBlind) fun out => ?_
  cases out with
  | ok metadata => exact ⟨negotiateWALStart_confined hc metadata hreq none, negotiateWALStart_blind _ _⟩
  | error e =>
    dsimp only
    split
    · -- the metadata is stored, and its file may be left open
      have hwrite : KeepsTo c (writeClusterMetadata K P rand req.clusterName ⟨req.systemId, []⟩) := by
        rw [hreq]
        exact writeClusterMetadata_keeps hc _
      exact ⟨satIf_bind (hwrite.mapErr _).confined fun _ h _ => negotiateWALStart_confined hc _ hreq h,
        Prog.orderBlind_bind (fun _ => negotiateWALStart_blind _ _) (hwrite.mapErr _).blind⟩
    · exact KeepsTo.err _

theorem resetWALStream_keeps (hpeer : peerClusterName peer = .ok c) (now : ℤ) (req : WALStartRequest) :
    KeepsTo c (resetWALStream D K P I rand now peer req) := by
  refine unlessReadOnly_keeps (withClusterName_keeps hpeer fun hreq => ?_)
  have hmeta : (getClusterMetadata K P req.clusterName).Uses (FsOp.LooksBelow Plain c) := by
    rw [hreq]
    exact getClusterMetadata_uses (readFile_below hc .metadata)
  refine KeepsTo.after (uses_mapErr hmeta) (Prog.orderBlind_mapErr (getClusterMetadata_uses trivial).orderBlind) fun metadata => ?_
  split
  · exact KeepsTo.err _
  -- what follows the listing: a refusal, or the metadata with the gap
  have hrest : ∀ latest : Name, KeepsTo c (if latest = [] then .err (.status .invalidArgument (.new "empty WAL archive"))
      else if ¬ latest < req.currentWalName then
        .err (.status .invalidArgument (.errorf "proposed WAL starting point too old (latest WAL archived): %q" [latest]))
      else
        ((writeClusterMetadata K P rand req.clusterName
            { metadata with gaps := metadata.gaps ++ [⟨now, latest, req.currentWalName⟩] }).mapErr fun e =>
          .status .internal (.wrap "error while writing cluster metadata: %v" [] e)).bind fun _ =>
        .ret req.currentWalName : FsProg Msg Name) := by
    intro latest
    split
    · exact KeepsTo.err _
    · split
      · exact KeepsTo.err _
      · rw [hreq]
        exact ((writeClusterMetadata_keeps hc _).mapErr _).map fun _ => req.currentWalName
  rw [hreq] at hrest ⊢
  exact ⟨latestThen_confined hc _ fun latest => (hrest latest).confined,
    Prog.orderBlind_bind (fun latest => (hrest latest).blind) (Prog.orderBlind_mapErr getLatest_blind)⟩

variable {L : FsOp Name UInt8 Msg → Prop}

omit hc in
theorem sendBlocks_emits (fuel : ℕ) (hL : ∀ m, L (.emit m)) : ∀ r : Reader, (sendBlocks K fuel r).Uses L := by
  induction fuel with
  | zero => intro r; trivial
  | succ fuel ih =>
    intro r
    unfold sendBlocks
    split
    · exact uses_bind (fun _ => ih _) (send_uses hL _ _)
    · split_ifs
      · exact send_uses hL _ _
      · trivial

theorem getWAL_keeps (hpeer : peerClusterName peer = .ok c) (clusterName walName : Name) :
    KeepsTo c (getWAL D K peer clusterName walName) := by
  refine withClusterName_keeps hpeer ?_
  rintro rfl
  split
  · exact KeepsTo.err _
  split
  · exact KeepsTo.err _
  rename_i hname
  have hre : walFileRE walName = true := by
    unfold validateWalFileName at hname
    split at hname
    · assumption
    · cases hname
  have hread : (FsOp.readFile (getWALArchivePath clusterName walName) : FsOp Name UInt8 Msg).LooksBelow Plain clusterName :=
    archivePath_below_self hc (walFileRE_length hre)
  exact Prog.Uses.keepsTo
    (uses_bind (fun _ => sendBlocks_emits _ (fun _ => trivial) _) (uses_mapErr (newReader_uses hread)))
    (uses_bind (fun _ => sendBlocks_emits _ (fun _ => trivial) _) (uses_mapErr (newReader_uses trivial)))

omit hc in
theorem missingWALFiles_uses {request : CloseBackupRequest} {endPos : UInt64}
    (hL : ∀ pos name, P.walFileName pos request.timeline request.segmentSize = .ok name →
      L (.stat (getWALArchivePath request.clusterName name))) (fuel : ℕ) :
    ∀ pos : UInt64, (missingWALFiles P request endPos fuel pos).Uses L := by
  induction fuel with
  | zero => intro pos; trivial
  | succ fuel ih =>
    intro pos
    unfold missingWALFiles
    split
    · trivial
    split
    · trivial
    rename_i name hname
    refine uses_bind (fun _ => uses_map (ih _)) (uses_mapErr ⟨hL _ _ hname, fun (r : Except FsErr Unit) => ?_⟩)
    cases r with
    | ok _ => trivial
    | error e => cases e <;> trivial

omit hc in
theorem closeBackup_uses {fuel : ℕ} {request : CloseBackupRequest}
    (hL : ∀ pos name, P.walFileName pos request.timeline request.segmentSize = .ok name →
      L (.stat (getWALArchivePath request.clusterName name))) (hemit : ∀ m, L (.emit m)) :
    ((checkWALFiles P fuel request).bind fun missing =>
      if missing ≠ [] then .ret ⟨false, missing⟩
      else if I.queue then (scheduleBackupRelay P request).bind fun _ => .ret ⟨request.sendToTier2, []⟩
      else .ret ⟨false, []⟩ : FsProg Msg CloseBackupResult).Uses L := by
  refine uses_bind (fun missing => ?_) ?_
  · split
    · trivial
    split
    · refine uses_map ⟨hemit _, fun (r : Except FsErr Unit) => ?_⟩
      cases r <;> trivial
    · trivial
  · unfold checkWALFiles
    split
    · trivial
    split
    · trivial
    split
    · trivial
    split
    · trivial
    · exact missingWALFiles_uses hL _ _

theorem closeBackup_keeps (hP : SegmentNames P) (hpeer : peerClusterName peer = .ok c) (fuel : ℕ) (request : CloseBackupRequest) :
    KeepsTo c (closeBackup D P I fuel peer request) := by
  refine withClusterName_keeps hpeer fun hreq => ?_
  refine Prog.Uses.keepsTo (closeBackup_uses ?_ fun _ => trivial) (closeBackup_uses (fun _ _ _ => trivial) fun _ => trivial)
  intro pos name hname
  have hlen := (hP _ _ _ _ hname).1
  rw [hreq]
  exact archivePath_below_self hc (by omega)

/-- **Every call keeps to the directory** of the client's cluster. -/
theorem respond_keeps (hP : SegmentNames P) (hpeer : peerClusterName peer = .ok c) (rpc : Rpc) : KeepsTo c (rpc.respond D K P I peer) := by
  cases rpc with
  | put rand batches => exact KeepsTo.map ⟨put_confined hc hpeer batches, put_blind batches⟩ _
  | requestWALStart rand req => exact (requestWALStart_keeps hc hpeer req).map _
  | resetWALStream rand now req => exact (resetWALStream_keeps hc hpeer now req).map _
  | setRetentionPolicy rand clusterName policy => exact (setRetentionPolicy_keeps hc hpeer clusterName policy).map _
  | closeBackup fuel request => exact (closeBackup_keeps hc hP hpeer fuel request).map _
  | get clusterName walName => exact (getWAL_keeps hc hpeer clusterName walName).map _
  | getMetadata clusterName =>
    refine KeepsTo.map (withClusterName_keeps hpeer ?_) _
    rintro rfl
    exact (getClusterMetadata_keeps hc).mapErr _
  | getRetentionPolicy clusterName =>
    refine KeepsTo.map (withClusterName_keeps hpeer ?_) _
    rintro rfl
    exact (getClusterRetentionPolicy_keeps hc).mapErr _

end Handlers

/-! ## Isolation -/

/-- **A call is isolated in the directory of `c`.** Whatever fails: the paths it uses are in the directory, and
the handles it uses were opened there by itself; and two repositories that agree on the directory give the same
answer, the same messages and the same directory in the end. The names of a real directory are plain ones. -/
structure Isolated (c : Name) {α : Type} (p : FsProg Msg α) : Prop where
  inside : ∀ (cs : ℕ → Option ℕ) (fs : Fs Name UInt8), fs.RealNames Plain c →
    ∀ o ∈ p.ops (sem Unit Name UInt8 Msg) () cs ⟨fs, []⟩, o.Inside c fs.nextFd
  same : ∀ (cs : ℕ → Option ℕ) (fs fs' : Fs Name UInt8), fs.RealNames Plain c → Agree c fs fs' →
    let out := p.eval (sem Unit Name UInt8 Msg) () cs ⟨fs, []⟩
    let out' := p.eval (sem Unit Name UInt8 Msg) () cs ⟨fs', []⟩
    out.1 = out'.1 ∧ out.2.log = out'.2.log ∧ Agree c out.2.fs out'.2.fs

theorem KeepsTo.isolated {α : Type} {p : FsProg Msg α} (h : KeepsTo c p) : Isolated c p := by
  have hstart : ∀ {fs fs' : Fs Name UInt8}, fs.RealNames Plain c → Agree c fs fs' → InStep Plain c fs.nextFd none fs fs' :=
    fun hnames hagree => ⟨hagree, hnames, Nat.le_refl _, nofun⟩
  refine ⟨?_, ?_⟩
  · intro cs fs hnames
    have hself : Agree c fs fs := ⟨fun _ => rfl, fun _ => Iff.rfl, rfl⟩
    exact (eval_confined () h.confined h.blind cs ⟨fs, []⟩ ⟨fs, []⟩ (hstart hnames hself) rfl).1
  · intro cs fs fs' hnames hagree
    exact (eval_confined () h.confined h.blind cs ⟨fs, []⟩ ⟨fs', []⟩ (hstart hnames hagree) rfl).2

theorem dot_not_isolated (hpeer : peerClusterName peer = .ok ".".toList) : ¬ Isolated ".".toList (Rpc.respond D K P I peer (.getMetadata ".".toList)) := by
  intro h
  have hcheck : checkClusterName D peer ".".toList = .ok () := by
    have hvalid : validatePathComponent D ".".toList = .ok () := by simp [validatePathComponent, validCharacter]
    simp only [checkClusterName, hvalid, authorizeClusterName, hpeer, ne_eq, not_true_eq_false, if_false]
  have hnames : (Fs.empty : Fs Name UInt8).RealNames Plain ".".toList := by
    rintro rest (hl | hd)
    · exact absurd rfl hl
    · cases hd
  have hop : (FsOp.readFile (ControlFile.path .metadata ".".toList) : FsOp Name UInt8 Msg) ∈
      (Rpc.respond D K P I peer (.getMetadata ".".toList)).ops (sem Unit Name UInt8 Msg) () (fun _ => none) ⟨Fs.empty, []⟩ := by
    simp only [Rpc.respond, getMetadata, withClusterName, hcheck]
    exact List.mem_cons_self
  have hinside : [".".toList] <+: ControlFile.path .metadata ".".toList := h.inside (fun _ => none) Fs.empty hnames _ hop
  exact absurd hinside (by decide)

theorem peerClusterName_ne (hpeer : peerClusterName peer = .ok c) : c ≠ [] := by
  unfold peerClusterName at hpeer
  split at hpeer
  · cases hpeer
  · cases hpeer
  · cases hpeer
  · split at hpeer
    · cases hpeer
      exact List.cons_ne_nil _ _
    · cases hpeer

variable (D K I) in
/-- **Clusters are isolated on the WAL server**, but for one: a certificate for the cluster `.` gives the root
of the repository. -/
theorem clusters_isolated_iff (hP : SegmentNames P) (hpeer : peerClusterName peer = .ok c) :
    (∀ rpc : Rpc, Isolated c (rpc.respond D K P I peer)) ↔ c ≠ ".".toList := by
  constructor
  · rintro h rfl
    exact dot_not_isolated hpeer (h (.getMetadata ".".toList))
  · intro hdot rpc
    exact (respond_keeps ⟨peerClusterName_ne hpeer, hdot⟩ hP hpeer rpc).isolated

theorem cluster_c_isolated : "c".toList ≠ ".".toList ∧
    ∀ rpc : Rpc, Isolated "c".toList (rpc.respond plainDeps plainCodec plainOutside ⟨false, false⟩ (.cert "u@c".toList)) := by
  have hP : SegmentNames plainOutside := by
    intro pos timeline size name h
    cases h
  have hpeer : peerClusterName (.cert "u@c".toList) = .ok "c".toList := rfl
  exact ⟨by decide, (clusters_isolated_iff plainDeps plainCodec ⟨false, false⟩ hP hpeer).mpr (by decide)⟩

/-- The file `zz` of the cluster `d`. -/
def fileOfOther : Fs Name UInt8 := { Fs.single ["d".toList, "zz".toList] [] with dirs := [["d".toList]] }

/-- A first `RequestWALStart` for the cluster `.`. -/
def startDot : FsProg Msg Response :=
  Rpc.respond plainDeps plainCodec twoSystems ⟨false, false⟩ (.cert "u@.".toList)
    (.requestWALStart (fun _ => 0) ⟨".".toList, "A".toList, "000000010000000000000001".toList⟩)

set_option maxRecDepth 20000 in
/-- An empty repository, and one where the cluster `d` has a file: the cluster `.` is told the name of this file,
and its metadata are stored beside the other clusters. -/
theorem dot_cluster_sees_others :
    (∀ rest, (Fs.empty : Fs Name UInt8).read (".".toList :: rest) = fileOfOther.read (".".toList :: rest)) ∧
      (∀ rest, ".".toList :: rest ∈ (Fs.empty : Fs Name UInt8).dirs ↔ ".".toList :: rest ∈ fileOfOther.dirs) ∧
      (startDot.eval (sem Unit Name UInt8 Msg) () (fun _ => none) ⟨Fs.empty, []⟩).1 =
        .ok (.walStart "000000010000000000000001".toList) ∧
      (startDot.eval (sem Unit Name UInt8 Msg) () (fun _ => none) ⟨fileOfOther, []⟩).1 = .ok (.walStart "zz".toList) ∧
      (startDot.eval (sem Unit Name UInt8 Msg) () (fun _ => none) ⟨fileOfOther, []⟩).2.fs.look ["metadata".toList] ≠ none := by
  refine ⟨?_, ?_, rfl, rfl, by decide +kernel⟩
  · intro rest
    simp [Fs.read, Fs.look, fileOfOther, Fs.single, Fs.empty]
  · intro rest
    simp [fileOfOther, Fs.empty]

end Klio
