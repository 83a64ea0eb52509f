import Inference.Depot.Basic
import Inference.Settings

/-!
The descriptors of a depot, which it reads from the files of a directory, and depots that are made
from settings.
-/

namespace Inference

namespace Descriptor

def ofFile? (fs : Files) (path : String) : Option Descriptor :=
  (fs.read path).toOption >>= Bytes.text? >>= parse?

end Descriptor

namespace Depot

-- A depot whose descriptors stand beside the artifacts.
def ofDir (dir : String) (fs : Files) : Depot where
  localDir := dir
  descriptorDir := dir
  attempts := 3
  allowed := true
  source := none
  cache := none
  files := fs
  asked := []
  models := ∅

-- There is one try at least.
def withAttempts (d : Depot) (n : Nat) : Depot := { d with attempts := max n 1 }

def addModel (d : Depot) (m : Descriptor) : Depot := { d with models := d.models.insert m.name m }

-- The descriptors in the files of the descriptor directory that are listed. Other files and files
-- that hold no descriptor are passed over.
def readDescriptors (d : Depot) (listing : List String) : Dict Descriptor :=
  .ofList (listing.filterMap fun name => do
    let path := FilePath.join d.descriptorDir name
    guard (FilePath.extension? path = some "json")
    let m ← Descriptor.ofFile? d.files path
    return (m.name, m))

-- Takes in the descriptors that are listed and tells how many there are.
def addListed (d : Depot) (listing : List String) : Nat × Depot :=
  let found := d.readDescriptors listing
  (found.size, { d with models := d.models.override found })

def listing (d : Depot) : List String := ((d.files.children d.descriptorDir).toOption).getD []

def addDescriptors (d : Depot) : Nat × Depot := d.addListed d.listing

-- The local directory is made if it is not there. A mirror becomes the source.
def ofSettings (s : Settings) (fs : Files) : Except RunnerError Depot := do
  let s ← s.checked.mapError .part
  match fs.makeDirs s.modelDir with
  | (.error _, _) => .error (.invalidPath s.modelDir)
  | (.ok _, fs) =>
    let d := { ofDir s.modelDir fs with
      descriptorDir := s.descriptorDir
      attempts := max s.downloadAttempts 1
      source := s.mirrorDir.map .directory
      allowed := s.allowDownloads }
    return d.addDescriptors.2

-- A directory for what a model needs besides its artifact.
def scratchDir (name : String) (d : Depot) : Except FileError String × Depot :=
  let dir := FilePath.join (FilePath.join d.localDir "cache") name
  let (r, fs) := d.files.makeDirs dir
  (r.map fun _ => dir, { d with files := fs })

end Depot
end Inference
