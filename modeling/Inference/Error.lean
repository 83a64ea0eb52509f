import Inference.Backend
import Inference.Device.Id
import Inference.Number.Layout
import Inference.Tensor.Basic

/-!
What can go wrong, by cause, and the text of each cause. Errors of a runner include those of its
parts.
-/

namespace Inference

-- A number in full, without an exponent.
def plainLayout : Layout where
  tie := .up
  full _ := true
  point := false
  nan := "NaN"
  infinity negative := if negative then "-inf" else "inf"

inductive SettingsFault where
  | cacheFraction (x : Single)
  | downloadAttempts
  | sinkPollInterval
deriving DecidableEq

def SettingsFault.text : SettingsFault → String
  | cacheFraction x => "cache_fraction " ++ plainLayout.write x ++ " out of range (0-1]"
  | downloadAttempts => "download_attempts must be at least 1"
  | sinkPollInterval => "sink_poll_interval_ms must be non-zero"

inductive Error where
  | invalidSettings (fault : SettingsFault)
  | unsupportedBackend (name : String)
  | unsupportedDevice (backend : Backend) (device : DeviceId)
  | modelLoad (reason : String)
  | notLoaded
  | inference (reason : String)
  | buffers (reason : String)
  | invalidTensor (fault : TensorFault)
  | threadSpawn (worker : String)
  | io
  | settingsText
  | descriptorText
deriving DecidableEq

-- Errors of files and of texts are not worded.
def Error.text : Error → Option String
  | invalidSettings f => some ("Invalid config: " ++ f.text)
  | unsupportedBackend name => some ("Unsupported backend: " ++ name)
  | unsupportedDevice backend device =>
    some ("Backend " ++ backend.name ++ " does not support device " ++ device.text)
  | modelLoad reason => some ("Failed to load model: " ++ reason)
  | notLoaded => some "Model not loaded"
  | inference reason => some ("Inference error: " ++ reason)
  | buffers reason => some ("Failed to acquire buffers: " ++ reason)
  | invalidTensor f => some ("Invalid tensor: " ++ f.text)
  | threadSpawn worker => some ("Failed to spawn worker thread: " ++ worker)
  | io | settingsText | descriptorText => none

inductive RunnerError where
  | part (e : Error)
  | modelLoad (backend : Backend) (file : String)
  | noInstances
  | notInitialized
  | stopped
  | invalidBackendIndex (index lanes : Nat)
  | bufferAcquisition (failed total : Nat)
  | downloadsDisabled (file : String)
  | noFetcher (file : String)
  | download (file : String) (attempts : Nat)
  | invalidPath (path : String)
  | io
deriving DecidableEq

def RunnerError.text : RunnerError → Option String
  | part e => e.text
  | modelLoad backend file =>
    some ("Unable to create or load model of type " ++ backend.name ++ " from path: " ++ file)
  | noInstances => some "Runner has no backend instances"
  | notInitialized => some "Runner not initialized"
  | stopped => some "Runner stopped"
  | invalidBackendIndex index lanes =>
    some ("Backend index " ++ toString index ++ " out of range (" ++ toString lanes ++ " lanes)")
  | bufferAcquisition failed total =>
    some ("Failed to acquire buffers on " ++ toString failed ++ " of " ++ toString total ++
      " instances")
  | downloadsDisabled file => some ("Downloads disabled, cannot fetch model: " ++ file)
  | noFetcher file => some ("No fetcher configured for model: " ++ file)
  | download file attempts =>
    some ("Failed to download " ++ file ++ " after " ++ toString attempts ++ " attempts")
  | invalidPath path => some ("Invalid path: " ++ path)
  | io => none

-- The text that an engine gives to the errors of its runners.
def RunnerError.engineText (e : RunnerError) : Option String := e.text.map ("Runner: " ++ ·)

end Inference
