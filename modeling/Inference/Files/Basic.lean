import Inference.Bytes
import Inference.Dict
import Inference.Files.Path

/-!
Files and directories. Every file and every directory stands in a directory, but for the top
directory, which is also the working directory.
-/

namespace Inference

inductive Node where
  | file (content : Bytes)
  | dir
deriving DecidableEq

inductive FileError where
  | notFound | exists | notDirectory | isDirectory | nameTooLong | invalid
deriving DecidableEq, Repr

-- Each node is under its location: the names that lead to it from the top directory, with slashes
-- between them.
structure Files where
  nodes : Dict Node
deriving DecidableEq

-- Where a path leads. The last name of the location may still be free. A path that ends in a slash
-- asks for a directory.
structure Place where
  location : String
  asDir : Bool
deriving DecidableEq

namespace Files

def empty : Files := ⟨∅⟩

-- The location of the top directory.
def top : String := ""

def node? (fs : Files) (location : String) : Option Node :=
  if location = top then some .dir else fs.nodes.get? location

def put (fs : Files) (location : String) (n : Node) : Files := ⟨fs.nodes.insert location n⟩

def drop (fs : Files) (location : String) : Files := ⟨fs.nodes.erase location⟩

def names (location : String) : List String :=
  if location = top then [] else FilePath.parts location

-- The location of a name in a directory.
def inside (location name : String) : String :=
  if location = top then name else location ++ "/" ++ name

-- Nothing is above the top directory.
def outside (location : String) : String := FilePath.ofParts (names location).dropLast

def longestName : Nat := 255

-- Bytes of a path.
def longestPath : Nat := 4095

-- Follows the parts of a path from a directory.
def walk (fs : Files) (location : String) : List String → Except FileError Place
  | [] => .ok ⟨location, true⟩
  | p :: ps =>
    if FilePath.isIdle p then walk fs location ps
    else if p = ".." then walk fs (outside location) ps
    else if longestName < p.utf8ByteSize then .error .nameTooLong
    else if ps.all (· = "") then .ok ⟨inside location p, !ps.isEmpty⟩
    else
      match fs.node? (inside location p) with
      | some .dir => walk fs (inside location p) ps
      | some (.file _) => .error .notDirectory
      | none => .error .notFound

def locate (fs : Files) (path : String) : Except FileError Place :=
  if path.toList.contains '\x00' then .error .invalid
  else if path.isEmpty then .error .notFound
  else if longestPath < path.utf8ByteSize then .error .nameTooLong
  else fs.walk top (FilePath.parts path)

-- The node at a place, if there is one of the kind that is asked for.
def nodeAt (fs : Files) (p : Place) : Except FileError Node :=
  match fs.node? p.location with
  | none => .error .notFound
  | some (.file b) => if p.asDir then .error .notDirectory else .ok (.file b)
  | some .dir => .ok .dir

def find (fs : Files) (path : String) : Except FileError Node := fs.locate path >>= fs.nodeAt

def read (fs : Files) (path : String) : Except FileError Bytes := do
  match ← fs.find path with
  | .file b => return b
  | .dir => .error .isDirectory

def isDir (fs : Files) (path : String) : Bool :=
  match fs.find path with
  | .ok .dir => true
  | _ => false

-- There is a file that is not empty.
def hasContent (fs : Files) (path : String) : Bool :=
  match fs.find path with
  | .ok (.file b) => !b.isEmpty
  | _ => false

-- A file can be put at a place where there is no directory.
def checkFree (fs : Files) (p : Place) : Except FileError Unit :=
  match fs.node? p.location with
  | some .dir => .error .isDirectory
  | some (.file _) => if p.asDir then .error .notDirectory else .ok ()
  | none => if p.asDir then .error .isDirectory else .ok ()

def write (fs : Files) (path : String) (b : Bytes) : Except FileError Files := do
  let p ← fs.locate path
  fs.checkFree p
  return fs.put p.location (.file b)

-- Directories cannot be removed.
def remove (fs : Files) (path : String) : Except FileError Files := do
  let p ← fs.locate path
  match ← fs.nodeAt p with
  | .file _ => return fs.drop p.location
  | .dir => .error .isDirectory

-- Moves a file, onto another one if there is one.
def rename (fs : Files) (source target : String) : Except FileError Files := do
  let p ← fs.locate source
  let q ← fs.locate target
  match ← fs.nodeAt p with
  | .file b =>
    fs.checkFree q
    return (fs.drop p.location).put q.location (.file b)
  | .dir => .error .isDirectory

def makeDir (fs : Files) (path : String) : Except FileError Files := do
  let p ← fs.locate path
  match fs.node? p.location with
  | some _ => .error .exists
  | none => return fs.put p.location .dir

-- A directory that is there already counts as made.
def orExisting (fs : Files) (path : String) : Except FileError Files → Except FileError Unit × Files
  | .ok fs => (.ok (), fs)
  | .error e => (if fs.isDir path then .ok () else .error e, fs)

-- Makes a directory after the directories above it, which `above` gives from the nearest one on.
def makeAfter : List String → Files → String → Except FileError Unit × Files
  | above, fs, path =>
    match fs.makeDir path, above with
    | .error .notFound, a :: as =>
      match makeAfter as fs a with
      | (.ok _, fs) => fs.orExisting path (fs.makeDir path)
      | (.error e, fs) => (.error e, fs)
    | r, _ => fs.orExisting path r

-- The paths above a path, the nearest one first.
def above (path : String) : List String :=
  let names := (FilePath.parts path).filter (!FilePath.isIdle ·)
  ((List.range names.length).tail.map fun n => FilePath.ofParts (names.take n)).reverse

-- The directories that were made stay, also if the last one cannot be made.
def makeDirs (fs : Files) (path : String) : Except FileError Unit × Files :=
  if path.isEmpty then (.ok (), fs) else makeAfter (above path) fs path

-- The names in a directory.
def children (fs : Files) (path : String) : Except FileError (List String) := do
  let p ← fs.locate path
  match ← fs.nodeAt p with
  | .file _ => .error .notDirectory
  | .dir =>
    return fs.nodes.entries.filterMap fun e =>
      if outside e.1 = p.location then (names e.1).getLast? else none

-- Everything below a directory, by path from there.
def below (fs : Files) (path : String) : Except FileError (List (String × Node)) := do
  let p ← fs.locate path
  match ← fs.nodeAt p with
  | .file _ => .error .notDirectory
  | .dir =>
    let above := names p.location
    return fs.nodes.entries.filterMap fun e =>
      if above <+: names e.1 ∧ above ≠ names e.1 then
        some (FilePath.ofParts ((names e.1).drop above.length), e.2)
      else none

end Files
end Inference
