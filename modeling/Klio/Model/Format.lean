import Klio.Lib.Bufio
import Klio.Model.Name

/-!
# The WAL file format: writers and reader

`repository/writer.go` and `repository/reader.go`. A file is a header and a sequence
of blocks, each with its length in front; a block of at most 1 MiB is compressed and
encrypted on its own.

* `Codec`: compression, encryption and the header's protobuf encoding.
* `DirectWriter`, `Writer`: the writers; `Writer` writes aside and renames.
* `Reader`, `readBlock`: the reader. `decode` reads a whole file.
-/

namespace Klio

open Lib

/-- The gRPC status codes in use. -/
inductive Code where
  | invalidArgument
  | failedPrecondition
  | permissionDenied
  | notFound
  | internal
  deriving DecidableEq

/-- Errors. `wrap` is `fmt.Errorf` with a format ending in `%w`, whose other arguments
come with it; `status` is `status.Errorf` on a text, where a `wrap` inside stands for a
cause that is only quoted. -/
inductive Err where
  | fs (e : FsErr)
  | name (e : NameErr)
  | eof
  | unexpectedEOF
  | new (text : String)
  | errorf (text : String) (args : List Name)
  | wrap (text : String) (args : List Name) (e : Err)
  | status (code : Code) (e : Err)
  /-- A run-time panic. -/
  | panics (text : String)
  deriving DecidableEq

/-- `errors.Is(err, os.ErrNotExist)` -/
def Err.isNotExist : Err → Bool
  | .fs .notExist => true
  | .wrap _ _ e => e.isNotExist
  | _ => false

/-- `errors.Is(err, io.EOF)` -/
def Err.isEOF : Err → Bool
  | .eof => true
  | .wrap _ _ e => e.isEOF
  | _ => false

/-- The longest slice the runtime allocates. -/
def maxAlloc : ℕ := 2 ^ 48

/-- `walBlockSize`: the longest block that is wrapped at once. -/
def walBlockSize : ℕ := 2 ^ 20

/-- **Outside code of the file format.** `wrap` compresses and encrypts; its first
argument is what it draws from the random source, and wrapping fails only with a draw that
fails. The header is a protobuf message with its size in
front, `delim` and `startBlock` being what `protodelim.MarshalTo` writes for the version 1
and this file length. -/
structure Codec where
  wrap : ℕ → List UInt8 → Except Err (List UInt8)
  unwrap : List UInt8 → Except Err (List UInt8)
  delim : UInt64 → List UInt8
  startBlock : UInt64 → List UInt8
  unmarshalFrom : List UInt8 → Except Err (UInt64 × List UInt8)
  unwrap_wrap : ∀ r b w, wrap r b = .ok w → unwrap w = .ok b
  wrap_length : ∀ r b w, wrap r b = .ok w → w.length ≤ maxAlloc
  wrap_total : ∃ r, ∀ b, b.length ≤ walBlockSize → ∃ w, wrap r b = .ok w
  unmarshal_marshal : ∀ n rest, unmarshalFrom (delim n ++ startBlock n ++ rest) = .ok (n, rest)
  unmarshal_nil : unmarshalFrom [] = .error .eof

def Codec.header (K : Codec) (n : UInt64) : List UInt8 := K.delim n ++ K.startBlock n

/-- The `k` low bytes of a number, lowest first. -/
def littleEndian : ℕ → ℕ → List UInt8
  | 0, _ => []
  | k + 1, n => UInt8.ofNat (n % 256) :: littleEndian k (n / 256)

/-- `protowire.AppendFixed64` of a length. -/
def appendFixed64 (n : ℕ) : List UInt8 := littleEndian 8 n

def consumeFixed64 (bs : List UInt8) : ℕ := bs.foldr (fun b n => b.toNat + 256 * n) 0

/-- A program of the repository. -/
abbrev FsProg (M α : Type) := Prog (FsOp Name UInt8 M) FsOp.Res Err α

variable {M : Type}

/-! ## Writers -/

def defaultChunkSize : ℤ := 64 * 1024

/-- `WriterOptions`, as far as the format depends on it. -/
structure WriterOptions where
  clusterName : Name
  walName : Name
  segmentSize : UInt64
  bufferSize : ℤ := 0

/-- `DirectWriter`: a buffered file, and the nonces still to be drawn. -/
structure DirectWriter where
  buffer : Bufio UInt8
  rand : ℕ → ℕ

/-- A path as it appears in messages. -/
def showPath (p : Path) : Name := List.intercalate "/".toList p

/-- `newDirectWriter`: write the header of a new file. -/
def newDirectWriter (K : Codec) (rand : ℕ → ℕ) (fd : ℕ) (opts : WriterOptions) : FsProg M DirectWriter :=
  let size := if opts.bufferSize = 0 then defaultChunkSize else opts.bufferSize
  ((Bufio.newWriterSize fd size).write (K.delim opts.segmentSize)).bind fun
    | (_, .error e) => .err (.wrap "while writing WAL file header: %w" [] (.fs e))
    | (b, .ok _) => (b.write (K.startBlock opts.segmentSize)).bind fun
      | (_, .error e) => .err (.wrap "while writing WAL file header: %w" [] (.fs e))
      | (b, .ok _) => .ret ⟨b, rand⟩

def newDirectWriterAtPath (K : Codec) (rand : ℕ → ℕ) (filePath : Path) (opts : WriterOptions) :
    FsProg M DirectWriter :=
  .call (.mkdirAll filePath.dropLast) fun (r : Except FsErr Unit) => match r with
    | .error e => .err (.wrap "error while creating directory %s: %w" [filePath.getLastD []] (.fs e))
    | .ok _ => .call (.openTrunc filePath) fun (r : Except FsErr ℕ) => match r with
      | .error e => .err (.wrap "error while opening file %s: %w" [showPath filePath] (.fs e))
      | .ok fd => (newDirectWriter K rand fd opts).attempt.bind fun
        | .ok w => .ret w
        | .error e => .call (.close fd) fun _ => .err e

/-- `NewDirectWriter` -/
def newDirectWriterFor (K : Codec) (rand : ℕ → ℕ) (opts : WriterOptions) : FsProg M DirectWriter :=
  newDirectWriterAtPath K rand (getWALArchivePath opts.clusterName opts.walName) opts

namespace DirectWriter

def flush (w : DirectWriter) : FsProg M (DirectWriter × Except Err Unit) :=
  w.buffer.flush.bind fun
    | (b, .error e) => .ret ({ w with buffer := b }, .error (.wrap "flush: while writing buffer: %w" [] (.fs e)))
    | (b, .ok _) => .call (.sync b.fd) fun (r : Except FsErr Unit) => match r with
      | .error e => .ret ({ w with buffer := b }, .error (.wrap "flush: while syncing: %w" [] (.fs e)))
      | .ok _ => .ret ({ w with buffer := b }, .ok ())

def close (w : DirectWriter) : FsProg M (DirectWriter × Except Err Unit) :=
  w.buffer.flush.bind fun
    | (b, .error e) => .ret ({ w with buffer := b }, .error (.wrap "close: while writing buffer: %w" [] (.fs e)))
    | (b, .ok _) => .call (.close b.fd) fun (r : Except FsErr Unit) => match r with
      | .error e => .ret ({ w with buffer := b }, .error (.wrap "while closing the wal writer: %w" [] (.fs e)))
      | .ok _ => .ret ({ w with buffer := b }, .ok ())

/-- `writeBlockData`: the length of a wrapped block, then the block. -/
def writeBlockData (w : DirectWriter) (wrappedBlock : List UInt8) : FsProg M (DirectWriter × Except Err Unit) :=
  (w.buffer.write (appendFixed64 wrappedBlock.length)).bind fun
    | (b, .error e) => .ret ({ w with buffer := b }, .error (.wrap "while writing prefix: %w" [] (.fs e)))
    | (b, .ok _) => (b.write wrappedBlock).bind fun
      | (b, .error e) =>
        .ret ({ w with buffer := b }, .error (.wrap "while writing WAL file block: %w" [] (.fs e)))
      | (b, .ok _) => .ret ({ w with buffer := b }, .ok ())

/-- The loop of `WriteBlock`. Each round takes at least one byte, so the length of the data
is fuel enough. -/
def writeChunks (K : Codec) : ℕ → DirectWriter → List UInt8 → FsProg M (DirectWriter × Except Err Unit)
  | 0, w, _ => .ret (w, .ok ())
  | fuel + 1, w, data =>
    if data = [] then .ret (w, .ok ())
    else match K.wrap (w.rand 0) (data.take walBlockSize) with
      | .error e => .ret ({ w with rand := fun n => w.rand (n + 1) },
          .error (.wrap "while wrapping WAL block: %w" [] (.wrap "error while wrapping block: %w" [] e)))
      | .ok wrappedBlock =>
        (({ w with rand := fun n => w.rand (n + 1) } : DirectWriter).writeBlockData wrappedBlock).bind fun
          | (w, .error e) => .ret (w, .error (.wrap "while writing WAL block data: %w" [] e))
          | (w, .ok _) => writeChunks K fuel w (data.drop walBlockSize)

def writeBlock (K : Codec) (w : DirectWriter) (data : List UInt8) : FsProg M (DirectWriter × Except Err Unit) :=
  writeChunks K data.length w data

end DirectWriter

/-- `Writer`: writes to a `.partial` file that `closeMarkDone` renames. -/
structure Writer where
  walFilePath : Path
  inner : DirectWriter

def newWriter (K : Codec) (rand : ℕ → ℕ) (opts : WriterOptions) : FsProg M Writer :=
  let walFilePath := onBase withPartialSuffix (getWALArchivePath opts.clusterName opts.walName)
  (newDirectWriterAtPath K rand walFilePath opts).bind fun inner => .ret ⟨walFilePath, inner⟩

namespace Writer

/-- Run an operation of the inner writer. -/
def lift (w : Writer) (p : FsProg M (DirectWriter × Except Err Unit)) : FsProg M (Writer × Except Err Unit) :=
  p.bind fun out => .ret ({ w with inner := out.1 }, out.2)

def flush (w : Writer) : FsProg M (Writer × Except Err Unit) := w.lift w.inner.flush

def close (w : Writer) : FsProg M (Writer × Except Err Unit) := w.lift w.inner.close

def writeBlock (K : Codec) (w : Writer) (data : List UInt8) : FsProg M (Writer × Except Err Unit) :=
  w.lift (w.inner.writeBlock K data)

def closeMarkDone (w : Writer) : FsProg M (Writer × Except Err Unit) :=
  w.inner.close.bind fun
    | (inner, .error e) => .ret ({ w with inner := inner }, .error (.wrap "while closing partial file: %w" [] e))
    | (inner, .ok _) =>
      let completedWalFilePath := onBase trimPartialSuffix w.walFilePath
      .call (.rename w.walFilePath completedWalFilePath) fun (r : Except FsErr Unit) => match r with
        | .error e => .ret ({ w with inner := inner }, .error (.wrap "while renaming partial file: %w" [] (.fs e)))
        | .ok _ => .ret (⟨completedWalFilePath, inner⟩, .ok ())

end Writer

/-! ## Reader -/

/-- `Reader`: what is left of the file, and the length its header declares. -/
structure Reader where
  rest : List UInt8
  segmentLength : UInt64

/-- `NewReader` on the content of the file. -/
def Reader.ofContent (K : Codec) (walFilePath : Path) (data : List UInt8) : Except Err Reader :=
  match K.unmarshalFrom data with
  | .ok (n, rest) => .ok ⟨rest, n⟩
  | .error e =>
    if e.isEOF then .error (.wrap "empty WAL file %s: %w" [showPath walFilePath] (.fs .notExist))
    else .error (.wrap "while reading WAL file header: %w" [] e)

def newReader (K : Codec) (clusterName walName : Name) : FsProg M Reader :=
  let walFilePath := getWALArchivePath clusterName walName
  .call (.readFile walFilePath) fun (r : Except FsErr (List UInt8)) => match r with
    -- a directory can be opened, but not read
    | .error .isDir => .err (.wrap "while reading WAL file header: %w" [] (.fs .isDir))
    | .error e => .err (.wrap "error while opening file %s: %w" [showPath walFilePath] (.fs e))
    | .ok data => match Reader.ofContent K walFilePath data with
      | .ok rd => .ret rd
      | .error e => .err e

def Reader.getFileLength (r : Reader) : UInt64 := r.segmentLength

/-- `io.ReadFull` of `n` bytes, with what it leaves. -/
def readFull (n : ℕ) (rest : List UInt8) : Except Err (List UInt8) × List UInt8 :=
  if n = 0 then (.ok [], rest)
  else if rest = [] then (.error .eof, [])
  else if rest.length < n then (.error .unexpectedEOF, [])
  else (.ok (rest.take n), rest.drop n)

def readBlockData (rest : List UInt8) : Except Err (List UInt8) × List UInt8 :=
  match readFull 8 rest with
  | (.error e, rest) => (.error (.wrap "while reading WAL file block prefix: %w" [] e), rest)
  | (.ok blockLenBytes, rest) =>
    if maxAlloc < consumeFixed64 blockLenBytes then (.error (.panics "makeslice: len out of range"), rest)
    else match readFull (consumeFixed64 blockLenBytes) rest with
      | (.error e, rest) => (.error (.wrap "while reading WAL file block: %w" [] e), rest)
      | (.ok block, rest) => (.ok block, rest)

def Reader.readBlock (K : Codec) (r : Reader) : Except Err (List UInt8) × Reader :=
  match readBlockData r.rest with
  | (.error e, rest) => (.error e, { r with rest := rest })
  | (.ok block, rest) => match K.unwrap block with
    | .error e => (.error (.wrap "while unwrapping WAL file block: %w" [] e), { r with rest := rest })
    | .ok data => (.ok data, { r with rest := rest })

/-- Call `ReadBlock` until it fails: the blocks it has returned, and the error. -/
def Reader.readBlocks (K : Codec) : ℕ → Reader → List (List UInt8) × Option Err
  | 0, _ => ([], none)
  | fuel + 1, r => match r.readBlock K with
    | (.error e, _) => ([], some e)
    | (.ok b, r) => match r.readBlocks K fuel with
      | (bs, e) => (b :: bs, e)

/-- A file read to its end. Every block takes eight bytes or more, so that the calls end. -/
structure Decoded where
  fileLength : UInt64
  blocks : List (List UInt8)
  last : Option Err

/-- Read a whole file. -/
def decode (K : Codec) (data : List UInt8) : Except Err Decoded :=
  match Reader.ofContent K [] data with
  | .error e => .error e
  | .ok r => match r.readBlocks K (data.length + 1) with
    | (blocks, last) => .ok ⟨r.getFileLength, blocks, last⟩

end Klio
