/-!
A tree of folders and files that hold bytes, seen from one working folder. Paths are resolved part
by part: every part but the last must be a folder that exists. A file is replaced as a whole, by
moving a finished file over it, so a store never holds half of one.
-/
namespace LineRules

inductive FileError where
  | notFound
  | notAFolder
  | isAFolder
  | alreadyExists
  | busy
  | notText
  | other (reason : String)
deriving DecidableEq, Repr

def FileError.message : FileError → String
  | .notFound => "No such file or directory (os error 2)"
  | .notAFolder => "Not a directory (os error 20)"
  | .isAFolder => "Is a directory (os error 21)"
  | .alreadyExists => "File exists (os error 17)"
  | .busy => "Device or resource busy (os error 16)"
  | .notText => "stream did not contain valid UTF-8"
  | .other reason => reason

inductive Entry where
  | folder
  | file (bytes : ByteArray)

structure Store where
  entries : List (List String × Entry) := []

inductive Place where
  | inside (names : List String)
  | around
deriving DecidableEq, Repr

namespace Store

def parts (path : String) : List String :=
  path.splitOn "/"

def partsTrimmed (path : String) : List String :=
  ((parts path).reverse.dropWhile (· = "")).reverse

def entry? (s : Store) (names : List String) : Option Entry :=
  if names.isEmpty then some .folder else s.entries.lookup names

def follow (part : String) : Place → Place
  | .around => .around
  | .inside names =>
    if part = "" ∨ part = "." then .inside names
    else if part = ".." then if names.isEmpty then .around else .inside names.dropLast
    else .inside (names ++ [part])

def lookIn (s : Store) (part : String) (folder : Place) : Option Entry :=
  match folder with
  | .around => if part = "" ∨ part = "." ∨ part = ".." then some .folder else none
  | .inside _ =>
    match follow part folder with
    | .around => some .folder
    | .inside names => s.entry? names

def walk (s : Store) (base : Place) : List String → Except FileError Place
  | [] => .ok base
  | part :: rest =>
    match s.lookIn part base with
    | some .folder => s.walk (follow part base) rest
    | some (.file _) => .error .notAFolder
    | none => .error .notFound

def locate (s : Store) (parts : List String) : Except FileError (Place × String) := do
  if parts = [""] then throw .notFound
  let base := if parts.head? = some "" then .around else .inside []
  let folder ← s.walk base parts.dropLast
  return (folder, parts.getLastD "")

def read (s : Store) (path : String) : Except FileError ByteArray := do
  let (folder, name) ← s.locate (parts path)
  match s.lookIn name folder with
  | some (.file bytes) => return bytes
  | some .folder => throw .isAFolder
  | none => throw .notFound

def readText (s : Store) (path : String) : Except FileError String := do
  match String.fromUTF8? (← s.read path) with
  | some text => return text
  | none => throw .notText

def put (s : Store) (names : List String) (e : Entry) : Store :=
  ⟨(names, e) :: s.entries.filter fun known => known.1 ≠ names⟩

def isName (part : String) : Bool :=
  part ≠ "" ∧ part ≠ "." ∧ part ≠ ".."

def write (s : Store) (path : String) (bytes : ByteArray) : Except FileError Store := do
  let (folder, name) ← s.locate (parts path)
  if !isName name then throw .isAFolder
  match s.lookIn name folder, follow name folder with
  | some .folder, _ => throw .isAFolder
  | _, .inside names => return s.put names (.file bytes)
  | _, .around => throw .notFound

def makeFolder (s : Store) (path : String) : Except FileError Store := do
  if path.isEmpty then throw .notFound
  let (folder, name) ← s.locate (partsTrimmed path)
  match s.lookIn name folder, follow name folder with
  | some _, _ => throw .alreadyExists
  | none, .inside names => return s.put names .folder
  | none, .around => throw .notFound

/-- The folder part of a path: the path without its last name; nothing if that is all there is. -/
def parent (path : String) : String :=
  let parts := parts path
  let isFiller := fun part => part = "" || part = "."
  let shown := (parts.take 1 ++ (parts.drop 1).filter fun part => !isFiller part).dropLast
  if shown = [""] then "/" else "/".intercalate shown

inductive ReplaceError where
  | create (e : FileError)
  | move (e : FileError)
deriving DecidableEq, Repr

def checkFolder (s : Store) (path : String) : Except FileError Unit := do
  let (folder, name) ← s.locate (parts path)
  match s.lookIn name folder with
  | some .folder => return ()
  | some (.file _) => throw .notAFolder
  | none => throw .notFound

def moveOver (s : Store) (path : String) (bytes : ByteArray) : Except FileError Store := do
  if path.isEmpty then throw .notFound
  let (folder, name) ← s.locate (partsTrimmed path)
  if !isName name then throw .busy
  if partsTrimmed path ≠ parts path then throw .notAFolder
  match s.lookIn name folder, follow name folder with
  | some .folder, _ => throw .isAFolder
  | _, .inside names => return s.put names (.file bytes)
  | _, .around => throw .notFound

/-- Replaces a file as a whole: makes the new file in the same folder and moves it into place. -/
def replace (s : Store) (path : String) (bytes : ByteArray) : Except ReplaceError Store := do
  let folder := parent path
  match s.checkFolder (if folder.isEmpty then "." else folder) with
  | .error e => throw (.create e)
  | .ok () =>
    match s.moveOver path bytes with
    | .ok s => return s
    | .error e => throw (.move e)

def list (s : Store) : List String :=
  (s.entries.filterMap fun known =>
    match known.1 with
    | [name] => some name
    | _ => none).mergeSort (· ≤ ·)

end Store

end LineRules
