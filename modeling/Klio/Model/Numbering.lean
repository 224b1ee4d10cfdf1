import Klio.Model.Prefetcher
import Klio.Model.Server

/-!
# The numbering of segments

PostgreSQL numbers segments through the whole range of positions, and splits the number into a log and a
segment of that log in the name of the file. The machinery library, which is not part of this repository,
does this for the server and the client.

* `segmentName`: the name of a segment; `segmentNumber`: the number in a name.
* `numbered`: the outside code of the handlers with this numbering, on which the model can be run.
-/

namespace Klio

/-- How many segments have the same log in their names. -/
def segmentsPerLog (segmentSize : UInt64) : ℕ := maxWALBytesPerLog.toNat / segmentSize.toNat

/-- The name of segment `n` of a timeline. -/
def segmentName (timeline : ℕ) (segmentSize : UInt64) (n : ℕ) : Name :=
  formatHex timeline ++ formatHex (n / segmentsPerLog segmentSize) ++ formatHex (n % segmentsPerLog segmentSize)

def segmentNumber (segmentSize : UInt64) (walName : Name) : Option ℕ :=
  if walName.length ≠ 24 then none
  else do
    let _ ← parseHex (walName.take 8)
    let logNum ← parseHex ((walName.drop 8).take 8)
    let segNum ← parseHex ((walName.drop 16).take 8)
    if segNum < segmentsPerLog segmentSize then some (logNum * segmentsPerLog segmentSize + segNum) else none

/-- `%X/%X` -/
def lsnText (pos : ℕ) : Name :=
  (Nat.toDigits 16 (pos / 2 ^ 32)).map Char.toUpper ++ '/' :: (Nat.toDigits 16 (pos % 2 ^ 32)).map Char.toUpper

/-- Read a position. -/
def parseLsnText (text : Name) : Option ℕ := do
  let hi ← parseHex (text.takeWhile (· != '/'))
  let lo ← parseHex ((text.dropWhile (· != '/')).drop 1)
  some (hi * 2 ^ 32 + lo)

section Table

variable {α : Type} [DecidableEq α]

/-- A message is encoded by its place in a table. -/
def tableMarshal (table : List α) (x : α) : Except Err (List UInt8) :=
  if x ∈ table then .ok (List.replicate (table.idxOf x) 1) else .error (.new "unknown message")

/-- The message with this place. -/
def tableUnmarshal (table : List α) (b : List UInt8) : Option α := table[b.length]?

theorem table_roundtrip {table : List α} {x : α} {b : List UInt8} (h : tableMarshal table x = .ok b) :
    tableUnmarshal table b = some x := by
  unfold tableMarshal at h
  split at h
  · rename_i hx
    cases h
    rw [tableUnmarshal, List.length_replicate]
    exact List.getElem?_idxOf hx
  · cases h

end Table

/-- **The outside code of the handlers**, for these retention policies and cluster metadata. -/
def numbered (policies : List RetentionPolicy) (metadata : List ClusterMetadata) : Outside where
  marshalPolicy := tableMarshal policies
  unmarshalPolicy := tableUnmarshal policies
  marshalMetadata := tableMarshal metadata
  unmarshalMetadata := tableUnmarshal metadata
  unmarshalCompression text := some text
  lsnStartFromWALName walName segmentSize := match segmentNumber segmentSize walName with
    | some n => .ok (lsnText (n * segmentSize.toNat))
    | none => .error (.new "invalid WAL name")
  parseLSN text := match parseLsnText text with
    | some pos => .ok (UInt64.ofNat pos)
    | none => .error (.new "invalid LSN")
  walFileName pos timeline segmentSize := .ok (segmentName timeline.toNat segmentSize (pos.toNat / segmentSize.toNat))
  unmarshal_policy _ _ := table_roundtrip
  unmarshal_metadata _ _ := table_roundtrip

end Klio
