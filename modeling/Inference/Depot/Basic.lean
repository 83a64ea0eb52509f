import Inference.Artifact
import Inference.Descriptor
import Inference.Routine

/-!
A depot keeps the artifacts of models in a local directory. It can fetch an artifact from a source,
and it keeps the buffers that it read in a cache; both are optional. Each operation is a routine:
between two of its actions the operations of other callers may go on.
-/

namespace Inference

structure Depot where
  localDir : String
  descriptorDir : String
  -- The tries that a download has.
  attempts : Nat
  allowed : Bool
  source : Option Source
  cache : Option Cache
  files : Files
  -- The files that the source was asked for, in order.
  asked : List String
  models : Dict Descriptor

namespace Depot

def path (d : Depot) (file : String) : String := FilePath.join d.localDir file

def partPath (d : Depot) (file : String) : String := d.path (file ++ ".part")

def setAllowed (d : Depot) (allowed : Bool) : Depot := { d with allowed }

def hasFile (d : Depot) (file : String) : Bool := d.files.hasContent (d.path file)

def lookUp (file : String) (d : Depot) : Option Buffers × Depot :=
  match d.cache.map (·.fetch file) with
  | some (b, c) => (b, { d with cache := some c })
  | none => (none, d)

def remember (file : String) (b : Buffers) (d : Depot) : Depot :=
  { d with cache := d.cache.map fun c => (c.add file b).2 }

def forget (file : String) (d : Depot) : Depot :=
  { d with cache := d.cache.map fun c => (c.remove file).2 }

-- Asks the source to write a file to its place for parts.
def fetch (s : Source) (file : String) (d : Depot) : Bool × Depot :=
  let (ok, fs) := d.files.receive (d.partPath file) (s.deliver d.asked.length file d.files)
  (ok, { d with files := fs, asked := d.asked ++ [file] })

def hasPart (file : String) (d : Depot) : Bool := d.files.hasContent (d.partPath file)

-- Whether the operation on the files succeeds; the files stay as they are if it does not.
def onFiles (f : Files → Except FileError Files) (d : Depot) : Except FileError Unit × Depot :=
  match f d.files with
  | .ok fs => (.ok (), { d with files := fs })
  | .error e => (.error e, d)

def discardPart (file : String) (d : Depot) : Depot :=
  (d.onFiles (·.remove (d.partPath file))).2

def placePart (file : String) (d : Depot) : Except FileError Unit × Depot :=
  d.onFiles (·.rename (d.partPath file) (d.path file))

def deleteFile (file : String) (d : Depot) : Except FileError Unit × Depot :=
  d.onFiles (·.remove (d.path file))

-- The buffers of an artifact: from the cache, or else from the file, which is then remembered.
def load (file : String) : Routine Depot (Except RunnerError Buffers) := do
  match ← .atomic (lookUp file) with
  | some b => return .ok b
  | none =>
    match ← .read fun d => readArtifact d.files (d.path file) with
    | .error e => return .error (.part e)
    | .ok b =>
      .change (remember file b)
      return .ok b

-- The verified part replaces the artifact, and what was remembered of the old one is forgotten.
def install (file : String) : Routine Depot (Except RunnerError Unit) := do
  match ← .atomic (placePart file) with
  | .error _ => return .error .io
  | .ok _ =>
    .change (forget file)
    return .ok ()

-- Tries to fetch a file as often as is left of all tries. A part that has no content is no good.
def tryFetch (s : Source) (file : String) (tries : Nat) :
    Nat → Routine Depot (Except RunnerError Unit)
  | 0 => return .error (.download file tries)
  | n + 1 => do
    let delivered ← .atomic (fetch s file)
    let good ← if delivered then .read (hasPart file) else pure false
    if good then install file
    else
      .change (discardPart file)
      tryFetch s file tries n

def download (file : String) : Routine Depot (Except RunnerError Unit) := do
  match ← .read fun d => (d.allowed, d.source, d.attempts) with
  | (false, _, _) => return .error (.downloadsDisabled file)
  | (true, none, _) => return .error (.noFetcher file)
  | (true, some s, n) => tryFetch s file n n

-- A file that is not there counts as removed.
def remove (file : String) : Routine Depot (Except RunnerError Unit) := do
  .change (forget file)
  match ← .atomic (deleteFile file) with
  | .ok _ | .error .notFound => return .ok ()
  | .error _ => return .error .io

end Depot
end Inference
