import Klio.Model.Format

/-!
# Creating and opening a repository

`repository/initialize.go`, `Open` of `repository/repository.go`, and the keys of `repository/config.go` and
`repository/encryption.go`, on the one file `repository.config`. The file is opened without truncation and never synced;
every handle has its own offset.

* `ConfigDeps`: the cryptography, hexadecimal text and JSON, with what they are documented to do.
* `CfgOp`, `CfgState`, `cfgSem`: the file, the random source, and what calls have returned so far.
* `initializeRepository`, `openRepository`: the calls, and `CfgCall.prog` for a process that makes one.
-/

namespace Klio

open Lib

/-- `KlioRepositoryKey`, without the iterations, which nothing reads. -/
structure KlioRepositoryKey where
  nonce : Name
  cipherText : Name
  salt : Name
  deriving DecidableEq

/-- `KlioRepositoryConfig`: the encrypted keys. -/
structure KlioRepositoryConfig where
  keys : List KlioRepositoryKey
  deriving DecidableEq

/-- **Outside code**, with what it is documented to do: PBKDF2 gives keys that AES takes, AES-GCM opens what it has
sealed, hexadecimal text and JSON are read back, and an empty file is no JSON. -/
structure ConfigDeps where
  pbkdf2 : Name → List UInt8 → List UInt8
  newCipher : List UInt8 → Except Err Unit
  gcmSeal : List UInt8 → List UInt8 → List UInt8 → List UInt8
  gcmOpen : List UInt8 → List UInt8 → List UInt8 → Option (List UInt8)
  hexEncode : List UInt8 → Name
  hexDecode : Name → Option (List UInt8)
  encodeJSON : KlioRepositoryConfig → List UInt8
  decodeJSON : List UInt8 → Except Err KlioRepositoryConfig
  newCipher_pbkdf2 : ∀ password salt, newCipher (pbkdf2 password salt) = .ok ()
  gcmOpen_gcmSeal : ∀ key nonce text, gcmOpen key nonce (gcmSeal key nonce text) = some text
  hexDecode_hexEncode : ∀ bs, hexDecode (hexEncode bs) = some bs
  decode_encode : ∀ c, decodeJSON (encodeJSON c) = .ok c
  decode_nil : ∀ c, decodeJSON [] ≠ .ok c

/-! ## Operations -/

/-- What the caller of a process sees. -/
inductive CfgNote where
  | initialized (ok : Bool)
  | opening
  | opened (masterKey : Option (List UInt8))
  deriving DecidableEq

/-- The operations of the calls. -/
inductive CfgOp where
  | mkdirAll
  | stat
  | rand (n : ℕ)
  /-- `OpenFile` with `O_WRONLY|O_CREATE`. -/
  | openFile
  | write (bs : List UInt8)
  | close
  /-- `OpenFile` with `O_RDONLY`. -/
  | openRead
  | readAll
  | note (x : CfgNote)

/-- What an operation answers. -/
def CfgOp.Res : CfgOp → Type
  | .rand _ => Except Err (List UInt8)
  | .readAll => Except FsErr (List UInt8)
  | .note _ => Unit
  | _ => Except FsErr Unit

abbrev CfgProg (α : Type) := Prog CfgOp CfgOp.Res Err α

/-- The configuration file, if it exists, the offsets of the handles, and what the callers have seen. -/
structure CfgState (ι : Type) where
  content : Option (List UInt8) := none
  offset : ι → ℕ := fun _ => 0
  log : List (ι × CfgNote) := []

/-- How an operation turns out: with a fault, which lets a write do its first bytes, and what a random source delivers. -/
structure CfgChoice where
  fault : Option ℕ := none
  bytes : List UInt8 := []

variable {ι : Type} [DecidableEq ι]

/-- An operation that may fail. -/
def CfgChoice.orFail {α : Type} (c : CfgChoice) (r : Except FsErr α) : Except FsErr α :=
  if c.fault.isSome then .error .io else r

/-- **What an operation answers and does.** -/
def CfgState.exec (i : ι) : (o : CfgOp) → CfgChoice → CfgState ι → o.Res × CfgState ι
  | .mkdirAll, c, s => (c.orFail (.ok ()), s)
  | .stat, c, s => (c.orFail (if s.content.isSome then .ok () else .error .notExist), s)
  | .rand n, c, s =>
    ((if c.fault.isSome then .error (.new "rand") else .ok ((c.bytes ++ List.replicate n 0).take n) : Except Err (List UInt8)), s)
  | .openFile, c, s => match c.fault with
    | some _ => ((.error .io : Except FsErr Unit), s)
    | none => ((.ok () : Except FsErr Unit),
        { s with content := some (s.content.getD []), offset := Function.update s.offset i 0 })
  | .write bs, c, s =>
    let done := match c.fault with
      | some k => bs.take k
      | none => bs
    (c.orFail (.ok ()),
      { s with
        content := some (Fs.patch (s.content.getD []) (s.offset i) done)
        offset := Function.update s.offset i (s.offset i + done.length) })
  | .close, c, s => (c.orFail (.ok ()), s)
  | .openRead, c, s => (c.orFail (if s.content.isSome then .ok () else .error .notExist), s)
  | .readAll, c, s => (c.orFail (.ok (s.content.getD [])), s)
  | .note x, _, s => ((), { s with log := s.log ++ [(i, x)] })

/-- The semantics of processes on the configuration file. A crash ends them; the file stays. -/
def cfgSem (ι : Type) [DecidableEq ι] : Sem ι CfgOp CfgOp.Res (CfgState ι) CfgChoice Unit where
  exec := CfgState.exec
  crash _ s := s

/-! ## Keys -/

def repositoryConfigFileName : Name := "repository.config".toList

def keySaltLen : ℕ := 128

def createNewMasterKey (Z : ConfigDeps) (password : Name) : CfgProg (List UInt8) :=
  .call (.rand keySaltLen) fun (r : Except Err (List UInt8)) => match r with
    | .error e => .err (.wrap "while generating random master key salt: %w" [] e)
    | .ok masterKeySalt => .ret (Z.pbkdf2 password masterKeySalt)

/-- `envelopeMasterKey`, with the hexadecimal text that goes into the configuration. -/
def envelopeMasterKey (Z : ConfigDeps) (masterKey : List UInt8) (password : Name) : CfgProg KlioRepositoryKey :=
  .call (.rand keySaltLen) fun (r : Except Err (List UInt8)) => match r with
    | .error e => .err (.wrap "while generating random master key salt: %w" [] e)
    | .ok passwordSalt => match Z.newCipher (Z.pbkdf2 password passwordSalt) with
      | .error e => .err (.wrap "while generating encryption block: %w" [] e)
      | .ok _ => .call (.rand 12) fun (r : Except Err (List UInt8)) => match r with
        | .error e => .err (.wrap "while generating random nonce: %w" [] e)
        | .ok nonce => .ret ⟨Z.hexEncode nonce, Z.hexEncode (Z.gcmSeal (Z.pbkdf2 password passwordSalt) nonce masterKey),
            Z.hexEncode passwordSalt⟩

def createNewRepositoryConfiguration (Z : ConfigDeps) (password : Name) : CfgProg KlioRepositoryConfig :=
  (createNewMasterKey Z password).bind fun masterKey =>
  (envelopeMasterKey Z masterKey password).bind fun key => .ret ⟨[key]⟩

/-- `RecoverMasterKey` of a key -/
def KlioRepositoryKey.recoverMasterKey (Z : ConfigDeps) (password : Name) (c : KlioRepositoryKey) : Except Err (List UInt8) :=
  match Z.hexDecode c.salt with
  | none => .error (.new "invalid key salt format")
  | some passwordSalt => match Z.hexDecode c.nonce with
    | none => .error (.new "invalid nonce format")
    | some nonce => match Z.hexDecode c.cipherText with
      | none => .error (.new "invalid encrypted key format")
      | some cipherText => match Z.newCipher (Z.pbkdf2 password passwordSalt) with
        | .error e => .error (.wrap "while generating encryption block from recovered key: %w" [] e)
        | .ok _ => match Z.gcmOpen (Z.pbkdf2 password passwordSalt) nonce cipherText with
          | none => .error (.new "invalid password")
          | some masterKey => .ok masterKey

/-- `RecoverMasterKey`: the first key that the password opens. Without any key there is no error either; of several errors,
the first is kept. -/
def recoverMasterKey (Z : ConfigDeps) (password : Name) : List KlioRepositoryKey → Except Err (List UInt8)
  | [] => .ok []
  | key :: keys => match key.recoverMasterKey Z password with
    | .ok masterKey => .ok masterKey
    | .error e => if keys = [] then .error e else (recoverMasterKey Z password keys).mapError fun _ => e

/-! ## The calls -/

/-- `FileExists` of the configuration -/
def configExisting : CfgProg Bool :=
  .call .stat fun (r : Except FsErr Unit) => match r with
    | .ok _ => .ret true
    | .error .notExist => .ret false
    | .error e => .err (.fs e)

/-- `Initialize`: the error of `Close` is dropped. -/
def initializeRepository (Z : ConfigDeps) (password : Name) : CfgProg Unit :=
  .call .mkdirAll fun (r : Except FsErr Unit) => match r with
    | .error e => .err (.wrap "while ensuring that the repository directory exists: %w" [] (.fs e))
    | .ok _ =>
      (configExisting.mapErr (.wrap "while checking config file %s existence: %w" [repositoryConfigFileName])).bind fun
        | true => .ret ()
        | false =>
          ((createNewRepositoryConfiguration Z password).mapErr
            (.wrap "while creating repository configuration: %w" [])).bind fun config =>
          .call .openFile fun (r : Except FsErr Unit) => match r with
            | .error e => .err (.wrap "while creating config file %s: %w" [repositoryConfigFileName] (.fs e))
            | .ok _ => .call (.write (Z.encodeJSON config)) fun (r : Except FsErr Unit) => .call .close fun _ =>
              match r with
              | .error e => .err (.wrap "while encoding JSON configuration: %w" [] (.fs e))
              | .ok _ => .ret ()

def masterKeyOf (Z : ConfigDeps) (password : Name) (content : List UInt8) : Except Err (List UInt8) :=
  match Z.decodeJSON content with
  | .error e => .error (.wrap "while decoding JSON from configuration file %s: %w" [repositoryConfigFileName] e)
  | .ok config => (recoverMasterKey Z password config.keys).mapError (.wrap "while recovering the master key: %w" [])

/-- `Open`, with the master key of the connection. -/
def openRepository (Z : ConfigDeps) (password : Name) : CfgProg (List UInt8) :=
  .call .openRead fun (r : Except FsErr Unit) => match r with
    | .error e => .err (.wrap "while opening configuration file %s: %w" [repositoryConfigFileName] (.fs e))
    | .ok _ => .call .readAll fun (r : Except FsErr (List UInt8)) => .call .close fun _ => match r with
      | .error e => .err (.wrap "while decoding JSON from configuration file %s: %w" [repositoryConfigFileName] (.fs e))
      | .ok content => Prog.orErr id (masterKeyOf Z password content)

/-- A process that makes one call. -/
inductive CfgCall where
  | initializes
  | opens

/-- Its program, with what its caller sees. -/
def CfgCall.prog (Z : ConfigDeps) (password : Name) : CfgCall → CfgProg Unit
  | .initializes => (initializeRepository Z password).attempt.bind fun r => .call (.note (.initialized r.isOk)) fun _ => .ret ()
  | .opens => .call (.note .opening) fun _ => (openRepository Z password).attempt.bind fun r =>
      .call (.note (.opened r.toOption)) fun _ => .ret ()

def masterKeyLen : ℕ := 32

/-- `aesgcm.Open` panics unless the nonce has twelve bytes. -/
def KlioRepositoryKey.panics (Z : ConfigDeps) (c : KlioRepositoryKey) : Bool :=
  match Z.hexDecode c.salt, Z.hexDecode c.nonce, Z.hexDecode c.cipherText with
  | some _, some nonce, some _ => nonce.length ≠ 12
  | _, _, _ => false

/-- The keys that are tried: up to the first that the password opens. -/
def triedKeys (Z : ConfigDeps) (password : Name) : List KlioRepositoryKey → List KlioRepositoryKey
  | [] => []
  | key :: keys => key :: if (key.recoverMasterKey Z password).isOk then [] else triedKeys Z password keys

/-- `Open` of a configuration that was decoded, or nothing for a panic. -/
def openConfig (Z : ConfigDeps) (password : Name) (config : KlioRepositoryConfig) : Option (Except Err (List UInt8)) :=
  if (triedKeys Z password config.keys).any (·.panics Z) then none else some (masterKeyOf Z password (Z.encodeJSON config))

end Klio
