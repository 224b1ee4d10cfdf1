import Klio.Model.Put

/-!
# Queries and retention of the WAL repository

`repository/wals.go` and `repository/retention.go`: looking for a WAL file, finding the latest one
of a cluster, and removing those before the first one required.

`afero.ReadDir` sorts its entries; nothing here depends on their order.
-/

namespace Klio

open Lib

variable {M : Type}

def isWALFileExisting (clusterName walName : Name) : FsProg M Bool :=
  .call (.stat (getWALArchivePath clusterName walName)) fun (r : Except FsErr Unit) => match r with
    | .ok _ => .ret true
    | .error .notExist => .ret false
    | .error e => .err (.fs e)

/-- The loop that keeps the greatest name, starting from the empty one. -/
def latestName (names : List Name) : Name :=
  names.foldl (fun latest name => if latest < name then name else latest) []

def getLatestWALFileForCluster (clusterName : Name) : FsProg M Name :=
  .call (.readDir (joinPath [clusterName])) fun (r : Except FsErr (List (DirEntry Name))) => match r with
    | .error .notExist => .ret []
    | .error e => .err (.wrap "while reading cluster directory: %w" [] (.fs e))
    | .ok readClusterDir =>
      let latestWalDirectoryName := latestName ((readClusterDir.filter fun entry => entry.isDir).map DirEntry.name)
      if latestWalDirectoryName = [] then .ret []
      else .call (.readDir (joinPath [clusterName, latestWalDirectoryName]))
        fun (r : Except FsErr (List (DirEntry Name))) => match r with
          | .error e => .err (.wrap "while reading WAL directory: %w" [] (.fs e))
          | .ok readWalDirectory =>
            .ret (latestName ((readWalDirectory.filter fun entry => !entry.isDir).map DirEntry.name))

/-! ## Retention -/

/-- The segment a file of the archive is, or is a part of. -/
def compareName (D : Deps) (baseName : Name) : Name :=
  if isPartialWALFile D baseName then trimPartialSuffix baseName else baseName

/-- A file that `setFirstRequiredOnDirectory` removes. -/
def isObsolete (D : Deps) (firstWAL : Name) (entry : DirEntry Name) : Bool :=
  !entry.isDir && walFileRE entry.name && isWALSegmentOrPartial D entry.name &&
    decide (compareName D entry.name < firstWAL)

/-- The first step of `setFirstRequiredOnDirectory`. A file that cannot be removed is skipped. -/
def removeObsolete (D : Deps) (directory : Path) (firstWAL : Name) : List (DirEntry Name) → FsProg M Unit
  | [] => .ret ()
  | entry :: entries =>
    if isObsolete D firstWAL entry then
      .call (.remove (pushComponent directory entry.name)) fun _ => removeObsolete D directory firstWAL entries
    else removeObsolete D directory firstWAL entries

def setFirstRequiredOnDirectory (D : Deps) (directory : Path) (firstWAL : Name) : FsProg M Unit :=
  .call (.readDir directory) fun (r : Except FsErr (List (DirEntry Name))) => match r with
    | .error e => .err (.wrap "cannot read WAL directory: %w" [] (.fs e))
    | .ok entries => (removeObsolete D directory firstWAL entries).bind fun _ =>
      .call (.readDir directory) fun (r : Except FsErr (List (DirEntry Name))) => match r with
        | .error e => .err (.wrap "cannot read WAL directory: %w" [] (.fs e))
        | .ok entries =>
          if entries.length = 0 then .call (.remove directory) fun _ => .ret () else .ret ()

/-- The loop of `SetFirstRequiredOnCluster`. A directory with an error is skipped. -/
def setFirstRequiredOnEntries (D : Deps) (clusterDirectory : Path) (firstWAL : Name) :
    List (DirEntry Name) → FsProg M Unit
  | [] => .ret ()
  | entry :: entries =>
    if entry.isDir && byteLen entry.name == walSubdirectoryLength &&
        !decide (firstWAL.take walSubdirectoryLength < entry.name) then
      (setFirstRequiredOnDirectory D (pushComponent clusterDirectory entry.name) firstWAL).attempt.bind fun _ =>
        setFirstRequiredOnEntries D clusterDirectory firstWAL entries
    else setFirstRequiredOnEntries D clusterDirectory firstWAL entries

/-- `SetFirstRequiredOnCluster` after its log entry. -/
def setFirstRequired (D : Deps) (clusterDirectory firstWAL : Name) : FsProg M Unit :=
  .call (.readDir (joinPath [clusterDirectory])) fun (r : Except FsErr (List (DirEntry Name))) => match r with
    | .error e => .err (.wrap "cannot read WAL directory: %w" [] (.fs e))
    | .ok clusterPathEntries =>
      if byteLen firstWAL < walSubdirectoryLength then .err (.panics "slice bounds out of range")
      else setFirstRequiredOnEntries D (joinPath [clusterDirectory]) firstWAL clusterPathEntries

def setFirstRequiredOnCluster (D : Deps) (clusterDirectory firstWAL : Name) : FsProg Msg Unit :=
  .call (.emit (.settingFirstRequiredWAL clusterDirectory firstWAL)) fun _ =>
    setFirstRequired D clusterDirectory firstWAL

end Klio
