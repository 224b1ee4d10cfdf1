import Mathlib

/-!
# WAL names and archive paths

Go strings are lists of characters (valid UTF-8, on which Go's bytewise order is the
lexicographic one), repository paths are lists of components.

* `Deps`: what the repository takes from outside for its name checks.
* `wal/filename.go`: the `.partial` suffix.
* `repository/validate.go`: `walFileRE`, `validatePathComponent`.
* `repository/wals.go`: `getWALArchivePath`.
-/

namespace Klio

/-- A Go string. -/
abbrev Name := List Char

instance : LawfulBEq Name := inferInstance

/-- A cleaned relative path; the empty one is the root of the repository. -/
abbrev Path := List Name

/-- `len` of a string counts bytes. -/
def byteLen (s : Name) : ℕ := (s.map Char.utf8Size).sum

/-- `[\dA-Fa-f]` -/
def isHexDigit (c : Char) : Bool :=
  c.isDigit || (decide ('A' ≤ c) && decide (c ≤ 'F')) || (decide ('a' ≤ c) && decide (c ≤ 'f'))

/-- `[\dA-Fa-f]{n}` on the whole string. -/
def hexRun (n : ℕ) (s : Name) : Bool := s.length == n && s.all isHexDigit

/-- **Outside code the name checks rest on**, with what it is documented to do:
CloudNativePG's `postgres.IsWALFile` accepts the 24 hexadecimal digits of a segment,
and the Unicode tables agree with ASCII. -/
structure Deps where
  isWALFile : Name → Bool
  isLetter : Char → Bool
  isNumber : Char → Bool
  isWALFile_eq : ∀ s, '/' ∉ s → isWALFile s = hexRun 24 s
  isLetter_ascii : ∀ c : Char, c.toNat < 128 → isLetter c = c.isAlpha
  isNumber_ascii : ∀ c : Char, c.toNat < 128 → isNumber c = c.isDigit

/-! ## Suffixes -/

def hasSuffix (s suffix : Name) : Bool := suffix.isSuffixOf s

def trimSuffix (s suffix : Name) : Name :=
  if hasSuffix s suffix then s.take (s.length - suffix.length) else s

/-- `PartialSuffix`: carried by a segment that was not fully received. -/
def partialSuffix : Name := ".partial".toList

def trimPartialSuffix (name : Name) : Name := trimSuffix name partialSuffix

/-- `WithPartialSuffix` leaves a name that has the suffix alone. -/
def withPartialSuffix (name : Name) : Name :=
  if hasSuffix name partialSuffix then name else name ++ partialSuffix

def isPartialWALFile (D : Deps) (name : Name) : Bool :=
  hasSuffix name partialSuffix && D.isWALFile (trimSuffix name partialSuffix)

def isWALSegmentOrPartial (D : Deps) (name : Name) : Bool := D.isWALFile name || isPartialWALFile D name

/-! ## Validation -/

/-- What may follow the 24 digits of a segment name. -/
def walExtension (s : Name) : Bool :=
  s == [] || s == partialSuffix ||
    (s.take 1 == ".".toList && hexRun 8 ((s.drop 1).take 8) && s.drop 9 == ".backup".toList)

/-- `walFileRE`: a timeline, then a segment with an optional extension or `.history`. -/
def walFileRE (name : Name) : Bool :=
  hexRun 8 (name.take 8) &&
    ((hexRun 16 ((name.drop 8).take 16) && walExtension (name.drop 24)) || name.drop 8 == ".history".toList)

/-- The error texts of name checks. -/
inductive NameErr where
  /-- `InvalidRepositoryFileError`: "invalid string: '%s'" -/
  | invalidString (s : Name)
  /-- `IncorrectWALNameError`: "incorrect WAL file name: %s" -/
  | incorrectWALName (name : Name)
  deriving DecidableEq

/-- The characters `ValidatePathComponent` lets through. -/
def validCharacter (D : Deps) (c : Char) : Bool :=
  D.isLetter c || D.isNumber c || c == '_' || c == '-' || c == '.'

def validatePathComponent (D : Deps) (component : Name) : Except NameErr Unit :=
  if component.any fun c => !validCharacter D c then .error (.invalidString component) else .ok ()

def validateWalFileName (name : Name) : Except NameErr Unit :=
  if walFileRE name then .ok () else .error (.incorrectWALName name)

/-! ## Paths -/

/-- One component of `path.Clean`. -/
def pushComponent (acc : Path) (c : Name) : Path :=
  if c = [] ∨ c = ".".toList then acc
  else if c = "..".toList then
    if acc = [] ∨ acc.getLast? = some "..".toList then acc ++ [c] else acc.dropLast
  else acc ++ [c]

/-- `path.Join` of components without slashes. -/
def joinPath (elems : List Name) : Path := elems.foldl pushComponent []

/-- `path.Ext`: from the last dot of the last path element on. -/
def pathExt (s : Name) : Name :=
  let tail := s.reverse.takeWhile fun c => c != '.' && c != '/'
  if (s.reverse.drop tail.length).head? = some '.' then s.drop (s.length - tail.length - 1) else []

def walSubdirectoryLength : ℕ := 16

def expectedWalFileNameLength : ℕ := 24

/-- `getWALArchivePath`: where a file of the archive is stored. -/
def getWALArchivePath (clusterName walName : Name) : Path :=
  if byteLen (trimSuffix walName (pathExt walName)) = expectedWalFileNameLength then
    joinPath [clusterName, walName.take walSubdirectoryLength, walName]
  else joinPath [clusterName, walName]

/-- A function of a path string that only looks at its end, on components. -/
def onBase (f : Name → Name) (p : Path) : Path := p.dropLast ++ [f (p.getLastD ".".toList)]

end Klio
