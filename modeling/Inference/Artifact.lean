import Inference.Cache
import Inference.Error
import Inference.Files.Basic

/-!
The artifact of a model: a file that is read into one buffer under the name of the file. A source
delivers artifacts to the place that it is told.
-/

namespace Inference

-- An empty file is no artifact.
def readArtifact (fs : Files) (path : String) : Except Error Buffers :=
  match fs.read path with
  | .error _ => .error .io
  | .ok [] => .error (.modelLoad ("empty model artifact: " ++ path))
  | .ok b => .ok (.ofList [((FilePath.fileName? path).getD "", b)])

-- What a source does when it is asked for an artifact.
inductive Delivery where
  | refuse
  | nothing
  | write (b : Bytes)
  -- The bytes are written, yet the source reports an error.
  | spoil (b : Bytes)
deriving DecidableEq, Repr

-- What is delivered for a file may hang on the number of earlier requests and on the files.
structure Source where
  deliver : Nat → String → Files → Delivery

namespace Source

-- Copies the files of a directory.
def directory (root : String) : Source where
  deliver _ file fs :=
    match fs.read (FilePath.join root file) with
    | .ok b => .write b
    | .error _ => .refuse

-- A fixed series of deliveries, whatever is asked for.
def series (l : List Delivery) : Source where
  deliver n _ _ := l[n]?.getD .refuse

end Source

-- Writes a delivery to a path and tells whether it counts as a success.
def Files.receive (fs : Files) (path : String) : Delivery → Bool × Files
  | .refuse => (false, fs)
  | .nothing => (true, fs)
  | .write b =>
    match fs.write path b with
    | .ok fs => (true, fs)
    | .error _ => (false, fs)
  | .spoil b => (false, (fs.write path b).toOption.getD fs)

end Inference
