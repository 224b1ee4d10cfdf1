import Klio.Model.Download
import Klio.Proof.Publish

/-!
# What a download writes

The loop of `getWAL` on the server and that of `GetWALStreaming` on the client, each with its own end
of the stream, put together.

* `serveGet_ok`, `serveGet_clean`: what is sent.
* `getWALStreaming_sat`: what is written.
* `streamed_is_restored`: a stream that was put is downloaded as it was sent, a partial one with zeros
  behind it.
* `download_full_length_iff`: a download that succeeds has the announced length exactly if the blocks
  of the file add up to it.
-/

namespace Klio

open Lib Prog List Reader

variable {D : Deps} {K : Codec}

/-! ## The server -/

theorem readBlock_fileLength {r r' : Reader} {res : Except Err (List UInt8)} (h : r.readBlock K = (res, r')) :
    r'.getFileLength = r.getFileLength := by
  unfold readBlock at h
  split at h
  · cases h
    rfl
  · split at h <;> cases h <;> rfl

/-- The file is read to the end, with the blocks `bs`. -/
def ReadsWhole (K : Codec) (r : Reader) (bs : List (List UInt8)) : Prop :=
  ∃ e, r.readBlocks K (r.rest.length + 1) = (bs, some e) ∧ e.isEOF = true

/-- The messages of a download: the blocks, and an empty one for the end of the file. -/
def results (n : UInt64) (bs : List (List UInt8)) : List GetResult := bs.map (⟨·, n⟩) ++ [⟨[], n⟩]

theorem results_segmentSize {n : UInt64} {bs : List (List UInt8)} : ∀ g ∈ results n bs, g.segmentSize = n := by
  intro g hg
  rcases mem_append.mp hg with hg | hg
  · obtain ⟨b, -, rfl⟩ := mem_map.mp hg
    rfl
  · rw [mem_singleton.mp hg]

theorem results_walBlock (n : UInt64) (bs : List (List UInt8)) : (results n bs).flatMap GetResult.walBlock = bs.flatten := by
  unfold results
  rw [flatMap_append, flatMap_map]
  simp [flatMap_id']

theorem eval_send (text : String) (m : Msg) (p : FsProg Msg Unit) (cs : ℕ → Option ℕ) (w : World Unit Name UInt8 Msg) :
    ((PutHandler.send text m).bind fun _ => p).eval (sem Unit Name UInt8 Msg) () cs w =
      if cs 0 = none then p.eval (sem Unit Name UInt8 Msg) () (fun n => cs (n + 1)) ⟨w.fs, w.log ++ [((), m, true)]⟩
      else (.error (.status .internal (.wrap text [] (.fs .io))), ⟨w.fs, w.log ++ [((), m, false)]⟩) := by
  rcases h : cs 0 with _ | k
  · have hexec : (sem Unit Name UInt8 Msg).exec () (.emit m) (cs 0) w =
        ((.ok () : Except FsErr Unit), ⟨w.fs, w.log ++ [((), m, true)]⟩) := by rw [h]; rfl
    exact eval_call hexec
  have hexec : (sem Unit Name UInt8 Msg).exec () (.emit m) (cs 0) w =
      ((.error .io : Except FsErr Unit), ⟨w.fs, w.log ++ [((), m, false)]⟩) := by rw [h]; rfl
  exact eval_call hexec

theorem send_bind_ret (text : String) (m : Msg) : ((PutHandler.send text m).bind fun _ => .ret ()) = PutHandler.send text m := by
  refine congrArg (Prog.call _) (funext fun (r : Except FsErr Unit) => ?_)
  cases r <;> rfl

theorem sentResults_append (log log' : List (Unit × Msg × Bool)) :
    sentResults (log ++ log') = sentResults log ++ sentResults log' := filterMap_append

/-- **The loop of `getWAL`**: if it returns, the file was read to its end and all of it was sent. -/
theorem eval_sendBlocks (fuel : ℕ) : ∀ (r : Reader) (cs : ℕ → Option ℕ) (w : World Unit Name UInt8 Msg),
    r.rest.length < fuel → ((sendBlocks K fuel r).eval (sem Unit Name UInt8 Msg) () cs w).1 = .ok () →
    ∃ bs e, r.readBlocks K fuel = (bs, some e) ∧ e.isEOF = true ∧
      sentResults ((sendBlocks K fuel r).eval (sem Unit Name UInt8 Msg) () cs w).2.log =
        sentResults w.log ++ results r.getFileLength bs := by
  induction fuel with
  | zero => intro r cs w hlen; omega
  | succ fuel ih =>
    intro r cs w hlen hok
    unfold sendBlocks at hok ⊢
    unfold readBlocks
    cases hb : r.readBlock K with
    | mk res r' =>
      have hn := readBlock_fileLength hb
      simp only [hb] at hok
      cases res with
      | ok b =>
        have hlen' : r'.rest.length < fuel := by
          have := readBlock_length hb
          omega
        simp only [eval_send] at hok ⊢
        split at hok
        · rename_i hc
          rw [if_pos hc]
          obtain ⟨bs, e, hread, heof, hlog⟩ := ih r' _ _ hlen' hok
          refine ⟨b :: bs, e, by rw [hread], heof, ?_⟩
          rw [hlog, sentResults_append, hn, append_assoc]
          rfl
        · cases hok
      | error e =>
        -- the end of the file is a message too
        by_cases heof : e.isEOF = true
        · simp only [if_pos heof] at hok ⊢
          rw [← send_bind_ret, eval_send] at hok ⊢
          split at hok
          · rename_i hc
            refine ⟨[], e, rfl, heof, ?_⟩
            rw [if_pos hc, ← hn]
            exact sentResults_append _ _
          · cases hok
        · simp only [if_neg heof] at hok
          cases hok

theorem eval_sendBlocks_clean (fuel : ℕ) : ∀ (r : Reader) (bs : List (List UInt8)) (e : Err)
    (w : World Unit Name UInt8 Msg), r.readBlocks K fuel = (bs, some e) → e.isEOF = true →
    ((sendBlocks K fuel r).eval (sem Unit Name UInt8 Msg) () (fun _ => none) w).1 = .ok () := by
  induction fuel with
  | zero => intro r bs e w h; cases h
  | succ fuel ih =>
    intro r bs e w h heof
    unfold sendBlocks
    cases hb : r.readBlock K with
    | mk res r' =>
      cases res with
      | ok b =>
        rw [readBlocks_succ hb] at h
        cases hrest : r'.readBlocks K fuel with
        | mk bs' e' =>
          rw [hrest] at h
          cases h
          simp only [eval_send]
          exact ih r' bs' e _ hrest heof
      | error e' =>
        unfold readBlocks at h
        rw [hb] at h
        cases h
        simp only [if_pos heof]
        rfl

/-! ### The whole handler -/

/-- Requests that are let through. -/
structure GetAccepted (D : Deps) (peer : Peer) (clusterName walName : Name) : Prop where
  cluster : checkClusterName D peer clusterName = .ok ()
  component : validatePathComponent D walName = .ok ()
  name : validateWalFileName walName = .ok ()

variable {peer : Peer} {c x : Name} {fs : Fs Name UInt8}

/-- What the handler has left to do once it has its reader. -/
def getFrom (K : Codec) (c x : Name) : FsProg Msg Unit :=
  ((newReader K c x).mapErr fun e =>
    if e.isNotExist then .status .notFound (.errorf "WAL not found: %v/%v" [c, x])
    else .status .internal (.wrap "error while reading WAL (opening): %v" [] e)).bind fun walReader =>
  sendBlocks K (walReader.rest.length + 1) walReader

theorem getWAL_accepted (h : GetAccepted D peer c x) : getWAL D K peer c x = getFrom K c x := by
  unfold getWAL withClusterName
  rw [h.cluster, h.component, h.name]
  rfl

theorem accepted_of_ok {cs : ℕ → Option ℕ} (h : (serveGet D K peer c x fs cs).2 = .ok ()) : GetAccepted D peer c x := by
  unfold serveGet getWAL withClusterName at h
  rcases h₁ : checkClusterName D peer c with e | _
  · rw [h₁] at h; cases h
  rcases h₂ : validatePathComponent D x with e | _
  · rw [h₁, h₂] at h; cases h
  cases h₃ : validateWalFileName x with
  | error e => rw [h₁, h₂, h₃] at h; cases h
  | ok _ => exact ⟨h₁, h₂, h₃⟩

/-- What `NewReader` returns for an answer of the file system. -/
def openResult (K : Codec) (path : Path) : Except FsErr (List UInt8) → Except Err Reader
  | .error .isDir => .error (.wrap "while reading WAL file header: %w" [] (.fs .isDir))
  | .error e => .error (.wrap "error while opening file %s: %w" [showPath path] (.fs e))
  | .ok data => Reader.ofContent K path data

theorem openResult_ok {path : Path} {ans : Except FsErr (List UInt8)} {r : Reader} (h : openResult K path ans = .ok r) :
    ∃ data, ans = .ok data ∧ ofContent K path data = .ok r := by
  cases ans with
  | error e => cases e <;> cases h
  | ok data => exact ⟨data, rfl, h⟩

theorem eval_openReader (K : Codec) (c x : Name) (fs : Fs Name UInt8) (cs : ℕ → Option ℕ) :
    (newReader K c x : FsProg Msg Reader).eval (sem Unit Name UInt8 Msg) () cs ⟨fs, []⟩ =
      (openResult K (getWALArchivePath c x) (Fs.exec (M := Msg) (.readFile (getWALArchivePath c x)) (cs 0) fs).1, ⟨fs, []⟩) := by
  have hexec : (sem Unit Name UInt8 Msg).exec () (.readFile (getWALArchivePath c x)) (cs 0) ⟨fs, []⟩ =
      ((Fs.exec (M := Msg) (.readFile (getWALArchivePath c x)) (cs 0) fs).1, ⟨fs, []⟩) := by
    refine Prod.ext rfl ?_
    show (⟨(Fs.exec (M := Msg) (.readFile (getWALArchivePath c x)) (cs 0) fs).2, []⟩ : World Unit Name UInt8 Msg) = ⟨fs, []⟩
    rw [Fs.exec_readOnly (o := .readFile (getWALArchivePath c x)) trivial]
  refine (eval_call hexec).trans ?_
  generalize (Fs.exec (M := Msg) (.readFile (getWALArchivePath c x)) (cs 0) fs).1 = ans
  rcases ans with e | data
  · cases e <;> rfl
  dsimp only [openResult]
  cases ofContent K (getWALArchivePath c x) data <;> rfl

theorem serveGet_accepted (K : Codec) (fs : Fs Name UInt8) (hacc : GetAccepted D peer c x) (cs : ℕ → Option ℕ) :
    ∃ n, serveGet D K peer c x fs cs =
      match openResult K (getWALArchivePath c x) (Fs.exec (M := Msg) (.readFile (getWALArchivePath c x)) (cs 0) fs).1 with
      | .ok r =>
        let out := (sendBlocks K (r.rest.length + 1) r).eval (sem Unit Name UInt8 Msg) () (fun k => cs (k + n)) ⟨fs, []⟩
        (sentResults out.2.log, out.1)
      | .error e => ([], .error (if e.isNotExist then .status .notFound (.errorf "WAL not found: %v/%v" [c, x])
          else .status .internal (.wrap "error while reading WAL (opening): %v" [] e))) := by
  obtain ⟨n, hn⟩ := eval_bind (M := sem Unit Name UInt8 Msg) ()
    (fun walReader : Reader => sendBlocks K (walReader.rest.length + 1) walReader)
    ((newReader K c x).mapErr fun e =>
      if e.isNotExist then .status .notFound (.errorf "WAL not found: %v/%v" [c, x])
      else .status .internal (.wrap "error while reading WAL (opening): %v" [] e)) cs ⟨fs, []⟩
  rw [eval_mapErr, eval_openReader] at hn
  refine ⟨n, ?_⟩
  unfold serveGet
  rw [getWAL_accepted hacc]
  unfold getFrom
  rw [hn]
  cases openResult K (getWALArchivePath c x)
    (Fs.exec (M := Msg) (.readFile (getWALArchivePath c x)) (cs 0) fs).1 <;> rfl

/-- **A call that is served** has sent the whole file. -/
theorem serveGet_ok {cs : ℕ → Option ℕ} (h : (serveGet D K peer c x fs cs).2 = .ok ()) :
    ∃ data r bs, fs.read (getWALArchivePath c x) = some data ∧ ofContent K (getWALArchivePath c x) data = .ok r ∧
      ReadsWhole K r bs ∧ (serveGet D K peer c x fs cs).1 = results r.getFileLength bs := by
  obtain ⟨n, hn⟩ := serveGet_accepted K fs (accepted_of_ok h) cs
  rw [hn] at h ⊢
  cases hopen : openResult K (getWALArchivePath c x)
      (Fs.exec (M := Msg) (.readFile (getWALArchivePath c x)) (cs 0) fs).1 with
  | error e => rw [hopen] at h; cases h
  | ok r =>
    rw [hopen] at h
    obtain ⟨data, hans, hr⟩ := openResult_ok hopen
    obtain ⟨bs, e, hbs, heof, hlog⟩ := eval_sendBlocks _ r _ ⟨fs, []⟩ (Nat.lt_succ_self _) h
    exact ⟨data, r, bs, Fs.read_of_readFile hans, hr, ⟨e, hbs, heof⟩, hlog⟩

/-- **Without faults** a file that can be read to its end is served. -/
theorem serveGet_clean (hacc : GetAccepted D peer c x) {data : List UInt8} {r : Reader} {bs : List (List UInt8)}
    (hread : fs.read (getWALArchivePath c x) = some data) (hr : ofContent K (getWALArchivePath c x) data = .ok r)
    (hbs : ReadsWhole K r bs) : serveGet D K peer c x fs (fun _ => none) = (results r.getFileLength bs, .ok ()) := by
  obtain ⟨e, hblocks, heof⟩ := hbs
  have hok : (serveGet D K peer c x fs fun _ => none).2 = .ok () := by
    have hans : (Fs.exec (M := Msg) (.readFile (getWALArchivePath c x)) none fs).1 =
        (.ok data : Except FsErr (List UInt8)) := by
      simp only [Fs.exec, hread]
      rfl
    obtain ⟨n, hn⟩ := serveGet_accepted K fs hacc fun _ => none
    rw [hn, hans]
    simp only [openResult, hr]
    exact eval_sendBlocks_clean _ r bs e _ hblocks heof
  obtain ⟨data', r', bs', hread', hr', ⟨e', hblocks', -⟩, hsent⟩ := serveGet_ok hok
  obtain rfl : data = data' := Option.some.inj (hread.symm.trans hread')
  obtain rfl : r = r' := Except.ok.inj (hr.symm.trans hr')
  obtain rfl : bs = bs' := congrArg Prod.fst (hblocks.symm.trans hblocks')
  exact Prod.ext hsent hok

theorem serveGet_missing (hacc : GetAccepted D peer c x) (hread : fs.read (getWALArchivePath c x) = none)
    (hdir : ¬ fs.IsDir (getWALArchivePath c x)) :
    serveGet D K peer c x fs (fun _ => none) =
      ([], .error (.status .notFound (.errorf "WAL not found: %v/%v" [c, x]))) := by
  have hans : (Fs.exec (M := Msg) (.readFile (getWALArchivePath c x)) none fs).1 =
      (.error .notExist : Except FsErr (List UInt8)) := by
    simp only [Fs.exec, hread, if_neg hdir]
    rfl
  obtain ⟨n, hn⟩ := serveGet_accepted K fs hacc fun _ => none
  rw [hn, hans]
  rfl

/-! ## The client -/

section Client

variable {n : UInt64} {last : Option Err} {out : List UInt8}

theorem toInt64_of_lt {k : ℕ} (h : k < 2 ^ 63) : toInt64 k = k := by
  unfold toInt64
  rw [Int.bmod_def]
  split <;> omega

theorem toInt64_add (a b : ℕ) : toInt64 (toInt64 a + b) = toInt64 ((a + b : ℕ) : ℤ) := by
  unfold toInt64
  rw [Int.bmod_add_bmod, Int.natCast_add]

theorem sinkWrite_sat (text : String) (bs : List UInt8) :
    (sinkWrite text bs).Sat (Sink.proto UInt8) (fun _ ph => ph = some (out ++ bs)) (fun _ ph => ph = none) (some out) := by
  refine sat_call nofun fun (r : Except FsErr Unit) => ?_
  cases r <;> exact rfl

/-- The size is an `int`. -/
def FitsInt (n : UInt64) : Prop := n.toNat < 2 ^ 63

theorem receiveBlocks_nil_error (e : Err) (size written : ℤ) :
    ∃ e', receiveBlocks sinkWrite (some e) [] size written = .err e' := by
  by_cases hnf : e.isNotFound = true
  · exact ⟨_, if_pos hnf⟩
  by_cases hpos : 0 < written
  · exact ⟨_, (if_neg hnf).trans (if_pos hpos)⟩
  · exact ⟨_, (if_neg hnf).trans (if_neg hpos)⟩

theorem receiveBlocks_error_sat (e : Err) : ∀ (gs : List GetResult) (size written : ℤ) (out : List UInt8),
    (receiveBlocks sinkWrite (some e) gs size written).Sat (Sink.proto UInt8) (fun _ _ => False) (fun _ _ => True)
      (some out) := by
  intro gs
  induction gs with
  | nil =>
    intro size written out
    obtain ⟨e', he'⟩ := receiveBlocks_nil_error e size written
    rw [he']
    exact trivial
  | cons g gs ih =>
    intro size written out
    unfold receiveBlocks
    split
    · exact trivial
    · refine sat_bind (sat_mono (sinkWrite_sat _ _) (fun _ _ h => h) fun _ _ _ => trivial) ?_
      rintro - ph rfl
      exact ih _ _ _

/-- **The loop of `GetWALStreaming`** over messages of one segment size. It counts what was written in
an `int`, and has the size once a message has come. -/
theorem receiveBlocks_sat : ∀ (gs : List GetResult) (out : List UInt8) (size : ℤ), (∀ g ∈ gs, g.segmentSize = n) →
    (size = 0 ∨ FitsInt n ∧ size = (n.toNat : ℤ)) →
    (receiveBlocks sinkWrite last gs size (toInt64 out.length)).Sat (Sink.proto UInt8)
      (fun p ph => last = none ∧ (gs = [] ∧ p.1 = size ∨ FitsInt n ∧ p.1 = (n.toNat : ℤ)) ∧
        ph = some (out ++ gs.flatMap GetResult.walBlock) ∧
        p.2 = toInt64 (out ++ gs.flatMap GetResult.walBlock).length)
      (fun _ ph => ph = none ∨ last ≠ none ∨ ¬ FitsInt n) (some out) := by
  intro gs
  induction gs with
  | nil =>
    intro out size _ _
    rcases last with _ | e
    · refine sat_ret ⟨rfl, .inl ⟨rfl, rfl⟩, ?_, ?_⟩
      · rw [flatMap_nil, append_nil]
      · rw [flatMap_nil, append_nil]
    have hlast : some e ≠ none := Option.some_ne_none e
    obtain ⟨e', he'⟩ := receiveBlocks_nil_error e size (toInt64 out.length)
    rw [he']
    exact sat_err (.inr (.inl hlast))
  | cons g gs ih =>
    intro out size hall hsize
    have hg : g.segmentSize = n := hall g mem_cons_self
    have hgs : ∀ g' ∈ gs, g'.segmentSize = n := fun g' h => hall g' (mem_cons_of_mem _ h)
    unfold receiveBlocks
    by_cases hn : FitsInt n
    · -- the size is known after the first message
      have hconv : (if size = 0 then convertInt g.segmentSize else .ok size) = .ok (n.toNat : ℤ) := by
        have hfits : convertInt n = .ok (n.toNat : ℤ) := if_pos hn
        rw [hg, hfits]
        split
        · rfl
        · rename_i h0
          rcases hsize with h | h
          · exact absurd h h0
          · rw [h.2]
      rw [hconv]
      refine sat_bind (sat_mono (sinkWrite_sat _ _) (fun _ _ h => h) fun _ _ h => .inl h) ?_
      rintro - ph rfl
      have hcount : toInt64 (toInt64 out.length + g.walBlock.length) = toInt64 (out ++ g.walBlock).length := by
        rw [toInt64_add, length_append]
      rw [hcount]
      refine sat_mono (ih (out ++ g.walBlock) n.toNat hgs (.inr ⟨hn, rfl⟩)) ?_ fun _ _ h => h
      rintro p ph ⟨hlast, hknown, hph, hwritten⟩
      refine ⟨hlast, .inr ⟨hn, ?_⟩, ?_, ?_⟩
      · rcases hknown with h | h
        · exact h.2
        · exact h.2
      · rw [hph, flatMap_cons, append_assoc]
      · rw [hwritten, flatMap_cons, append_assoc]
    · have hconv : (if size = 0 then convertInt g.segmentSize else .ok size) =
          .error (.new "conversion issue: maximum value for this type exceeded") := by
        rcases hsize with h | h
        · rw [if_pos h, hg]
          exact if_neg hn
        · exact absurd h.1 hn
      rw [hconv]
      exact sat_err (.inr (.inr (hn)))

/-- **`padWithZeros`** writes as many zeros as it is told to. -/
theorem padLoop_sat : ∀ (fuel : ℕ) (k done : ℕ) (out : List UInt8), k ≤ fuel →
    (padLoop sinkWrite fuel ((done + k : ℕ) : ℤ) done).Sat (Sink.proto UInt8)
      (fun _ ph => ph = some (out ++ replicate k 0)) (fun _ ph => ph = none) (some out) := by
  intro fuel
  induction fuel with
  | zero =>
    intro k done out hk
    obtain rfl : k = 0 := by omega
    show some out = some (out ++ [])
    rw [append_nil]
  | succ fuel ih =>
    intro k done out hk
    unfold padLoop
    by_cases h0 : k = 0
    · subst h0
      rw [if_neg (by omega)]
      show some out = some (out ++ [])
      rw [append_nil]
    · rw [if_pos (by omega)]
      obtain ⟨j, hj, hj0, hjk⟩ : ∃ j : ℕ, min padBlockSize (((done + k : ℕ) : ℤ) - done) = j ∧ 0 < j ∧ j ≤ k := by
        refine ⟨(min padBlockSize k).toNat, ?_, ?_, ?_⟩ <;> unfold padBlockSize <;> omega
      simp only [hj, Int.toNat_natCast]
      refine sat_bind (sinkWrite_sat _ _) ?_
      rintro - ph rfl
      have hrest := ih (k - j) (done + j) (out ++ replicate j 0) (by omega)
      have hsum : done + j + (k - j) = done + k := by omega
      rw [hsum, Int.natCast_add done j] at hrest
      refine sat_mono hrest ?_ fun _ _ h => h
      rintro - ph rfl
      rw [append_assoc, replicate_append_replicate, Nat.add_sub_cancel' hjk]

/-- The zeros behind `t` bytes of a file with the name `x` and the size `n`. -/
def padding (x : Name) (n : UInt64) (t : ℕ) : ℕ :=
  if hasSuffix x partialSuffix ∧ toInt64 t < n.toNat then (toInt64 (n.toNat - toInt64 t)).toNat else 0

theorem padWithZeros_sat (z : ℤ) :
    (padWithZeros sinkWrite z).Sat (Sink.proto UInt8)
      (fun _ ph => ph = some (out ++ replicate z.toNat 0)) (fun _ ph => ph = none) (some out) := by
  unfold padWithZeros
  by_cases hz : 0 ≤ z
  · have h := padLoop_sat z.toNat z.toNat 0 out (Nat.le_refl _)
    rwa [Nat.zero_add, Int.toNat_of_nonneg hz] at h
  -- a negative number of zeros is none
  have h0 : z.toNat = 0 := by omega
  rw [h0]
  show some out = some (out ++ [])
  rw [append_nil]

theorem padIfPartial_sat (x : Name) (size written : ℤ) :
    (if hasSuffix x partialSuffix = true ∧ written < size then padWithZeros sinkWrite (toInt64 (size - written))
      else .ret ()).Sat (Sink.proto UInt8)
      (fun _ ph => ph = some (out ++ replicate
        (if hasSuffix x partialSuffix = true ∧ written < size then (toInt64 (size - written)).toNat else 0) 0))
      (fun _ ph => ph = none) (some out) := by
  by_cases hpad : hasSuffix x partialSuffix = true ∧ written < size
  · rw [if_pos hpad, if_pos hpad]
    exact padWithZeros_sat _
  · rw [if_neg hpad, if_neg hpad]
    refine sat_ret ?_
    rw [replicate_zero, append_nil]

/-- **`GetWALStreaming`** on messages of one segment size. -/
theorem getWALStreaming_sat (x : Name) (last : Option Err) {gs : List GetResult} (hne : gs ≠ []) (hgs : ∀ g ∈ gs, g.segmentSize = n) :
    (getWALStreaming sinkWrite x (.opened gs last)).Sat (Sink.proto UInt8)
      (fun _ ph => last = none ∧ FitsInt n ∧ ph = some (gs.flatMap GetResult.walBlock ++
        replicate (padding x n (gs.flatMap GetResult.walBlock).length) 0))
      (fun _ ph => ph = none ∨ last ≠ none ∨ ¬ FitsInt n) (some []) := by
  refine sat_bind (receiveBlocks_sat gs [] 0 hgs (.inl rfl)) ?_
  intro p ph hp
  obtain ⟨hlast, hsize, hph, hwritten⟩ := hp
  obtain ⟨hfits, hsize⟩ : FitsInt n ∧ p.1 = (n.toNat : ℤ) := by
    rcases hsize with h | h
    · exact absurd h.1 hne
    · exact h
  rw [hph]
  simp only [hsize, hwritten]
  refine sat_mono (padIfPartial_sat x n.toNat _) ?_ fun _ _ h => .inl h
  intro _ ph' hph'
  exact ⟨hlast, hfits, hph'⟩

theorem getWALStreaming_error_sat (x : Name) (gs : List GetResult) (e : Err) :
    (getWALStreaming sinkWrite x (.opened gs (some e))).Sat (Sink.proto UInt8) (fun _ _ => False) (fun _ _ => True)
      (some []) := by
  refine sat_bind (receiveBlocks_error_sat e gs 0 0 []) ?_
  intro p ph h
  exact h.elim

end Client

/-! ## Both sides -/

/-- What a download of a file with the blocks `bs` writes. -/
def restored (x : Name) (n : UInt64) (bs : List (List UInt8)) : List UInt8 :=
  bs.flatten ++ List.replicate (padding x n bs.flatten.length) 0

theorem results_ne_nil (n : UInt64) (bs : List (List UInt8)) : results n bs ≠ [] :=
  append_ne_nil_of_right_ne_nil _ (cons_ne_nil _ _)

/-- **A download that succeeds** has written the whole file. -/
theorem downloads_ok {written : List UInt8} (h : Downloads D K peer c x fs (.ok ()) written) :
    ∃ data r bs, fs.read (getWALArchivePath c x) = some data ∧ ofContent K (getWALArchivePath c x) data = .ok r ∧
      ReadsWhole K r bs ∧ FitsInt r.getFileLength ∧ written = restored x r.getFileLength bs := by
  obtain ⟨cs, call, cs', hcall, heval⟩ := h
  cases hserve : serveGet D K peer c x fs cs with
  | mk sent res =>
    rw [hserve] at hcall
    cases hcall with
    | returned =>
      have hok : (serveGet D K peer c x fs cs).2 = .ok () := by rw [hserve]
      obtain ⟨data, r, bs, hread, hr, hbs, hsent⟩ := serveGet_ok hok
      rw [hserve] at hsent
      obtain rfl : sent = results r.getFileLength bs := hsent
      have hend := Sink.eval_sink (getWALStreaming_sat x none (results_ne_nil r.getFileLength bs) results_segmentSize) cs'
      rw [heval] at hend
      obtain ⟨ph, hph, -, hfits, hwritten⟩ := hend
      rw [results_walBlock] at hwritten
      exact ⟨data, r, bs, hread, hr, hbs, hfits, hph _ hwritten⟩
    | failed e =>
      have hend := Sink.eval_sink (getWALStreaming_error_sat x sent e) cs'
      rw [heval] at hend
      obtain ⟨-, -, hfalse⟩ := hend
      exact hfalse.elim
    | refused _ e =>
      have herr : ∃ e', getWALStreaming sinkWrite x (.refused e) = .err e' := by
        unfold getWALStreaming
        by_cases hnf : e.isNotFound = true
        · exact ⟨_, if_pos hnf⟩
        · exact ⟨_, if_neg hnf⟩
      obtain ⟨e', he'⟩ := herr
      rw [he'] at heval
      cases heval
    | cut _ received e _ =>
      have hend := Sink.eval_sink (getWALStreaming_error_sat x received e) cs'
      rw [heval] at hend
      obtain ⟨-, -, hfalse⟩ := hend
      exact hfalse.elim

/-- **Without faults** a file that can be read to its end is downloaded. -/
theorem download_ok (hacc : GetAccepted D peer c x) {data : List UInt8} {r : Reader} {bs : List (List UInt8)}
    (hread : fs.read (getWALArchivePath c x) = some data) (hr : ofContent K (getWALArchivePath c x) data = .ok r)
    (hbs : ReadsWhole K r bs) (hfits : FitsInt r.getFileLength) :
    download D K peer c x fs = (.ok (), restored x r.getFileLength bs) := by
  unfold download
  rw [serveGet_clean hacc hread hr hbs]
  have hend := Sink.eval_sink_clean (getWALStreaming_sat x none (results_ne_nil r.getFileLength bs) results_segmentSize)
  unfold carried
  cases hout : (getWALStreaming sinkWrite x (.opened (results r.getFileLength bs) none)).eval (Sink.sinkSem UInt8) ()
      (fun _ => none) [] with
  | mk res written =>
    rw [hout] at hend
    cases res with
    | ok _ =>
      obtain ⟨-, -, hwritten⟩ := hend
      rw [results_walBlock] at hwritten
      exact Prod.ext rfl (Option.some.inj hwritten)
    | error e =>
      rcases hend with h | h | h
      · cases h
      · exact absurd rfl h
      · exact absurd hfits h

theorem download_missing (hacc : GetAccepted D peer c x) (hread : fs.read (getWALArchivePath c x) = none)
    (hdir : ¬ fs.IsDir (getWALArchivePath c x)) : download D K peer c x fs = (.error .missingWALFile, []) := by
  unfold download
  rw [serveGet_missing hacc hread hdir]
  rfl

theorem download_downloads (D : Deps) (K : Codec) (peer : Peer) (c x : Name) (fs : Fs Name UInt8) :
    Downloads D K peer c x fs (download D K peer c x fs).1 (download D K peer c x fs).2 := by
  refine ⟨fun _ => none, _, fun _ => none, ?_, rfl⟩
  cases hserve : serveGet D K peer c x fs (fun _ => none) with
  | mk sent res =>
    cases res with
    | ok _ => exact .returned
    | error e => exact .failed e

/-! ### Segments and their partial files -/

def NameOf (X x : Name) : Prop := x = X ∨ x = X ++ partialSuffix

theorem getAccepted {X : Name} (hX : IsSegment X) (hx : NameOf X x) (hc : checkClusterName D peer c = .ok ()) :
    GetAccepted D peer c x := by
  have hhex : ∀ d ∈ X, validCharacter D d = true := fun d hd => validCharacter_hex D (hX.hex d hd)
  rcases hx with rfl | rfl
  · exact ⟨hc, validatePathComponent_ok D hhex, if_pos (isSegment_walFileRE hX)⟩
  · refine ⟨hc, validatePathComponent_ok D fun d hd => ?_, if_pos (walFileRE_append hX rfl)⟩
    rcases mem_append.mp hd with hd | hd
    · exact hhex d hd
    · exact validCharacter_suffix D d hd

variable {n : UInt64} {t : ℕ}

theorem padding_of_no_suffix (hx : hasSuffix x partialSuffix = false) : padding x n t = 0 := by
  unfold padding
  rw [if_neg]
  rintro ⟨h, -⟩
  rw [hx] at h
  cases h

theorem padding_of_suffix (hx : hasSuffix x partialSuffix = true) (hn : FitsInt n) (ht : t ≤ n.toNat) :
    padding x n t = n.toNat - t := by
  unfold FitsInt at hn
  unfold padding
  rw [toInt64_of_lt (by omega)]
  by_cases hlt : (t : ℤ) < n.toNat
  · rw [if_pos ⟨hx, hlt⟩]
    have hsub : (n.toNat : ℤ) - t = ((n.toNat - t : ℕ) : ℤ) := by omega
    rw [hsub, toInt64_of_lt (by omega)]
    rfl
  · rw [if_neg (fun h => hlt h.2)]
    omega

/-- The blocks of a file add up to the size its header declares, or to less for a partial file. -/
def Fills (K : Codec) (x : Name) (r : Reader) : Prop :=
  ∀ bs, ReadsWhole K r bs → FitsInt r.getFileLength →
    if hasSuffix x partialSuffix then bs.flatten.length ≤ r.getFileLength.toNat
    else bs.flatten.length = r.getFileLength.toNat

theorem restored_length (x : Name) (n : UInt64) (bs : List (List UInt8)) :
    (restored x n bs).length = bs.flatten.length + padding x n bs.flatten.length := by
  unfold restored
  rw [length_append, length_replicate]

theorem fills_iff {r : Reader} :
    Fills K x r ↔ ∀ bs, ReadsWhole K r bs → FitsInt r.getFileLength →
      (restored x r.getFileLength bs).length = r.getFileLength.toNat := by
  refine forall_congr' fun bs => forall_congr' fun _ => forall_congr' fun hfits => ?_
  rw [restored_length]
  rcases hx : hasSuffix x partialSuffix with _ | _
  · rw [padding_of_no_suffix hx]
    simp
  rw [if_pos rfl]
  constructor
  · intro hle
    rw [padding_of_suffix hx hfits hle]
    omega
  · intro heq
    omega

/-- **A download that succeeds has the announced length**, for every fault, exactly if the blocks of
the file add up to it. -/
theorem download_full_length_iff (D : Deps) (K : Codec) (peer : Peer) (c X x : Name) (hX : IsSegment X) (hx : NameOf X x)
    (hc : checkClusterName D peer c = .ok ()) (fs : Fs Name UInt8) (data : List UInt8) (r : Reader)
    (hread : fs.read (getWALArchivePath c x) = some data) (hr : Reader.ofContent K (getWALArchivePath c x) data = .ok r) :
    (∀ written, Downloads D K peer c x fs (.ok ()) written → written.length = r.getFileLength.toNat) ↔ Fills K x r := by
  rw [fills_iff]
  constructor
  · intro h bs hbs hfits
    have hdown := download_downloads D K peer c x fs
    rw [download_ok (getAccepted hX hx hc) hread hr hbs hfits] at hdown
    exact h _ hdown
  · intro h written hdown
    obtain ⟨data', r', bs, hread', hr', hbs, hfits, rfl⟩ := downloads_ok hdown
    obtain rfl : data = data' := Option.some.inj (hread.symm.trans hread')
    obtain rfl : r = r' := Except.ok.inj (hr.symm.trans hr')
    exact h bs hbs hfits

/-- A segment of two bytes whose file has these blocks. -/
def storedBlocks (blocks : List (List UInt8)) : Fs Name UInt8 :=
  Fs.single (getWALArchivePath "c".toList "000000010000000000000001".toList)
    (plainCodec.header 2 ++ blocks.flatMap fun b => appendFixed64 b.length ++ b)

theorem stored_blocks_full_length :
    Downloads plainDeps plainCodec (.cert "u@c".toList) "c".toList "000000010000000000000001".toList
      (storedBlocks [[7], [8]]) (.ok ()) [7, 8] ∧ ([7, 8] : List UInt8).length = 2 := by
  have hdown : Downloads plainDeps plainCodec (.cert "u@c".toList) "c".toList "000000010000000000000001".toList
      (storedBlocks [[7], [8]]) (.ok ()) [7, 8] := by
    have hran := download_downloads plainDeps plainCodec (.cert "u@c".toList) "c".toList "000000010000000000000001".toList
      (storedBlocks [[7], [8]])
    have hout : download plainDeps plainCodec (.cert "u@c".toList) "c".toList "000000010000000000000001".toList
      (storedBlocks [[7], [8]]) = (.ok (), [7, 8]) := by decide +kernel
    rwa [hout] at hran
  refine ⟨hdown, (download_full_length_iff plainDeps plainCodec (.cert "u@c".toList) "c".toList "000000010000000000000001".toList
    "000000010000000000000001".toList (by decide) (.inl rfl) rfl (storedBlocks [[7], [8]]) _
    ⟨appendFixed64 1 ++ [7] ++ appendFixed64 1 ++ [8], 2⟩ rfl rfl).mpr ?_ [7, 8] hdown⟩
  rintro bs ⟨e, hblocks, -⟩ -
  have hread : readBlocks plainCodec 19 ⟨appendFixed64 1 ++ [7] ++ appendFixed64 1 ++ [8], 2⟩ =
      ([[7], [8]], some endOfFile) := by decide +kernel
  have hbs : [[7], [8]] = bs := congrArg Prod.fst (hread.symm.trans hblocks)
  rw [← hbs]
  rfl

/-- The file ends behind its first block, or goes on behind its last: both downloads succeed. -/
theorem short_and_long_downloads_succeed :
    download plainDeps plainCodec (.cert "u@c".toList) "c".toList "000000010000000000000001".toList (storedBlocks [[7]]) =
        (.ok (), [7]) ∧
      download plainDeps plainCodec (.cert "u@c".toList) "c".toList "000000010000000000000001".toList
        (storedBlocks [[7], [8], [9]]) = (.ok (), [7, 8, 9]) ∧
      ∃ written, Downloads plainDeps plainCodec (.cert "u@c".toList) "c".toList "000000010000000000000001".toList
        (storedBlocks [[7]]) (.ok ()) written ∧ written.length ≠ 2 := by
  have hshort : download plainDeps plainCodec (.cert "u@c".toList) "c".toList "000000010000000000000001".toList
      (storedBlocks [[7]]) = (.ok (), [7]) := by decide +kernel
  refine ⟨hshort, by decide +kernel, [7], ?_, by decide⟩
  have hdown := download_downloads plainDeps plainCodec (.cert "u@c".toList) "c".toList "000000010000000000000001".toList
    (storedBlocks [[7]])
  rwa [hshort] at hdown

/-! ## From one stream to the other -/

theorem image_reads {n : UInt64} {d p : List UInt8} (h : Image K n d p) (path : Path) :
    ∃ r bs, ofContent K path d = .ok r ∧ r.getFileLength = n ∧ ReadsWhole K r bs ∧ bs.flatten = p := by
  obtain ⟨e, cs, rfl, hf, rfl⟩ := h
  have hfuel : cs.length < e.length + 1 := Nat.lt_succ_of_le hf.length_le
  exact ⟨⟨e, n⟩, cs, ofContent_header n path e, rfl, ⟨endOfFile, readBlocks_whole hf n hfuel, rfl⟩, rfl⟩

/-- A download of `x` gives these bytes, and no download that succeeds gives others. -/
def RestoredAs (D : Deps) (K : Codec) (peer : Peer) (c x : Name) (fs : Fs Name UInt8) (bytes : List UInt8) : Prop :=
  download D K peer c x fs = (.ok (), bytes) ∧ ∀ written, Downloads D K peer c x fs (.ok ()) written → written = bytes

theorem restoredAs_of_image (hacc : GetAccepted D peer c x) {n : UInt64} {d p : List UInt8}
    (hread : fs.read (getWALArchivePath c x) = some d) (him : Image K n d p) (hfits : FitsInt n) :
    RestoredAs D K peer c x fs (p ++ replicate (padding x n p.length) 0) := by
  obtain ⟨r, bs, hr, rfl, hbs, rfl⟩ := image_reads him (getWALArchivePath c x)
  refine ⟨download_ok hacc hread hr hbs hfits, fun written hdown => ?_⟩
  obtain ⟨data', r', bs', hread', hr', ⟨e', hblocks', -⟩, -, rfl⟩ := downloads_ok hdown
  obtain rfl : d = data' := Option.some.inj (hread.symm.trans hread')
  obtain rfl : r = r' := Except.ok.inj (hr.symm.trans hr')
  obtain ⟨e, hblocks, -⟩ := hbs
  obtain rfl : bs = bs' := congrArg Prod.fst (hblocks.symm.trans hblocks')
  rfl

variable {I : Implementation}

/-- What a stream leaves in the repository. -/
def uploaded (D : Deps) (K : Codec) (I : Implementation) (t : PutStream) (fs : Fs Name UInt8) : Fs Name UInt8 :=
  (Prog.eval (sem Unit Name UInt8 Msg) () (t.prog D K I) (fun _ => none) ⟨fs, []⟩).2.fs

theorem sizeReached_iff {t : PutStream} (hS : FitsInt t.first.segmentSize)
    (hT : t.payload.length ≤ t.first.segmentSize.toNat) :
    SizeReached t.blocks ↔ t.payload.length = t.first.segmentSize.toNat := by
  have hlt : t.payload.length < 2 ^ 64 := by
    unfold FitsInt at hS
    omega
  constructor
  · intro h
    have hnat := congrArg UInt64.toNat (show UInt64.ofNat t.payload.length = t.first.segmentSize from h)
    rwa [UInt64.toNat_ofNat', Nat.mod_eq_of_lt hlt] at hnat
  · intro h
    show UInt64.ofNat t.payload.length = t.first.segmentSize
    rw [h, UInt64.ofNat_toNat]

/-- **What is streamed is what is restored.** -/
theorem streamed_is_restored (D : Deps) (K : Codec) (I : Implementation) (hI : I.isReadOnly = false) (t : PutStream)
    (hdr : Draws K t.rand) (hacc : ∃ m, acceptBlocks D t.peer {} t.blocks = .ok m) (hX : IsSegment t.first.walName)
    (fs : Fs Name UInt8) (hclear : Unobstructed fs t.first)
    (hfree : fs.read (getWALArchivePath t.first.clusterName t.first.walName) = none)
    (hS : t.first.segmentSize.toNat < 2 ^ 63) (hpos : 0 < t.payload.length)
    (hT : t.payload.length ≤ t.first.segmentSize.toNat) (peer : Peer)
    (hc : checkClusterName D peer t.first.clusterName = .ok ()) :
    (t.payload.length = t.first.segmentSize.toNat →
      RestoredAs D K peer t.first.clusterName t.first.walName (uploaded D K I t fs) t.payload) ∧
    (t.payload.length < t.first.segmentSize.toNat →
      download D K peer t.first.clusterName t.first.walName (uploaded D K I t fs) = (.error .missingWALFile, []) ∧
      RestoredAs D K peer t.first.clusterName (t.first.walName ++ partialSuffix) (uploaded D K I t fs)
        (t.payload ++ List.replicate (t.first.segmentSize.toNat - t.payload.length) 0)) := by
  have hwal := isSegment_walFileRE hX
  have hfinal := finalPath_segment hX
  have hstaging := stagingPath_segment hX
  rw [hX.withPartial] at hstaging
  have hne : t.blocks ≠ [] := by
    intro h0
    unfold PutStream.payload at hpos
    rw [h0] at hpos
    exact Nat.lt_irrefl _ hpos
  have hsize : SizeReached t.blocks ↔ t.payload.length = t.first.segmentSize.toNat := sizeReached_iff hS hT
  obtain ⟨ph, hend, -, hleaves⟩ := put_ended (K := K) hI hdr hacc (w := ⟨fs, []⟩) hclear ()
    (Stage.Leaves.start (putSpec D K t.peer t.blocks) fs)
    fun fs' ph o h ha => Stage.exec_leaves (((finalPath_notPartial hwal).ne_staging _).symm) ha h none
  rcases hend with ⟨h0, -⟩ | ⟨d, rfl, him, hnot⟩ | ⟨hreached, rfl⟩
  · exact absurd h0 hne
  · -- the stream is shorter than the segment: its file keeps the suffix
    refine ⟨fun heq => absurd (hsize.mpr heq) hnot, fun hlt => ⟨?_, ?_⟩⟩
    · have hsame := hleaves.alone.before nofun
      refine download_missing (getAccepted hX (.inl rfl) hc) ?_ ?_
      · rw [← hfinal] at hfree ⊢
        exact hsame.read.trans hfree
      rw [← hfinal]
      intro hdir
      rcases hleaves.dirs _ hdir with h | h
      · exact hclear.final h
      · exact finalPath_not_ancestor _ h
    · obtain ⟨ino, hlook, hdata, -⟩ := hleaves.alone.holds
      have hread : (uploaded D K I t fs).read (getWALArchivePath t.first.clusterName (t.first.walName ++ partialSuffix)) =
          some d := by
        rw [← hstaging, ← hdata]
        exact congrArg (Option.map _) hlook
      have him : Image K t.first.segmentSize d t.payload := him
      have hrest := restoredAs_of_image (getAccepted hX (.inr rfl) hc) hread him hS
      rwa [padding_of_suffix (hasSuffix_iff.mpr (suffix_append _ _)) hS hT] at hrest
  · refine ⟨fun _ => ?_, fun hlt => absurd (hsize.mp hreached) (Nat.ne_of_lt hlt)⟩
    obtain ⟨ino, hlook, him, -⟩ := hleaves.published rfl
    have hread : (uploaded D K I t fs).read (getWALArchivePath t.first.clusterName t.first.walName) =
        some ((uploaded D K I t fs).data ino) := by
      rw [← hfinal]
      exact congrArg (Option.map _) hlook
    have hrest := restoredAs_of_image (getAccepted hX (.inl rfl) hc) hread him hS
    have hsuffix : hasSuffix t.first.walName partialSuffix = false :=
      Bool.eq_false_iff.mpr fun h => hX.not_suffix (hasSuffix_iff.mp h)
    rwa [padding_of_no_suffix hsuffix, replicate_zero, append_nil] at hrest

/-- A stream with the first byte of a segment of two. -/
def halfStream : PutStream where
  peer := .cert "u@c".toList
  rand := fun _ => 0
  batches := [⟨⟨"c".toList, "000000010000000000000001".toList, [7], 2, 0, false⟩, []⟩]

theorem half_stream_restored :
    download plainDeps plainCodec (.cert "u@c".toList) "c".toList "000000010000000000000001".toList
        (uploaded plainDeps plainCodec ⟨false, true⟩ halfStream Fs.empty) = (.error .missingWALFile, []) ∧
      RestoredAs plainDeps plainCodec (.cert "u@c".toList) "c".toList "000000010000000000000001.partial".toList
        (uploaded plainDeps plainCodec ⟨false, true⟩ halfStream Fs.empty) [7, 0] := by
  have hsmall : (2 : UInt64).toNat < 2 ^ 63 := by decide
  have hclear : Unobstructed (Fs.empty : Fs Name UInt8) halfStream.first := ⟨by decide, by decide, fun _ _ => rfl⟩
  exact (streamed_is_restored plainDeps plainCodec ⟨false, true⟩ rfl halfStream plain_draws ⟨_, rfl⟩ (by decide) Fs.empty
    hclear rfl hsmall (by decide) (by decide) (.cert "u@c".toList) rfl).2 (by decide)

end Klio
