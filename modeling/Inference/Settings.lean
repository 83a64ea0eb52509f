import Inference.Error
import Inference.Json.Page
import Inference.Json.Record
import Inference.Toml.Document

/-!
Settings of an engine. Every one of them has a default, so a text gives only those that differ.
-/

namespace Inference

structure Settings where
  modelDir : String := "./models"
  configDir : Option String := none
  mirrorDir : Option String := none
  allowDownloads : Bool := true
  -- The share of the memory that cached models may take.
  cacheFraction : Single := .ofDecimal false 1 (-1)
  downloadAttempts : Nat := 3
  sinkPollIntervalMs : Nat := 100
deriving DecidableEq

namespace Settings

def check (s : Settings) : Except SettingsFault Unit :=
  if !((Binary.ofNat 0).lt s.cacheFraction && s.cacheFraction.le (.ofNat 1)) then
    .error (.cacheFraction s.cacheFraction)
  else if s.downloadAttempts = 0 then .error .downloadAttempts
  else if s.sinkPollIntervalMs = 0 then .error .sinkPollInterval
  else .ok ()

-- Descriptors are looked for beside the models unless a directory is given.
def descriptorDir (s : Settings) : String := s.configDir.getD s.modelDir

def sinkPollNanos (s : Settings) : Nat := s.sinkPollIntervalMs * 1000000

open Toml in
def ofToml? (fields : Fields) : Option Settings := do
  let field {α : Type} (name : String) (read : Toml → Option α) (default : α) : Option α :=
    match Entries.get? name fields with
    | none => some default
    | some v => read v
  let text : Toml → Option String
    | .str s => some s
    | _ => none
  let nat (bits : Nat) : Toml → Option Nat
    | .int n => if 0 ≤ n ∧ n < Nat.pow 2 bits then some n.toNat else none
    | _ => none
  let single : Toml → Option Single
    | .int n => some (.ofInt n)
    | .float x => some x.convert
    | _ => none
  let bool : Toml → Option Bool
    | .bool b => some b
    | _ => none
  let d : Settings := {}
  return {
    modelDir := ← field "model_dir" text d.modelDir
    configDir := ← field "config_dir" (fun v => (text v).map some) d.configDir
    mirrorDir := ← field "mirror_dir" (fun v => (text v).map some) d.mirrorDir
    allowDownloads := ← field "allow_downloads" bool d.allowDownloads
    cacheFraction := ← field "cache_fraction" single d.cacheFraction
    downloadAttempts := ← field "download_attempts" (nat 32) d.downloadAttempts
    sinkPollIntervalMs := ← field "sink_poll_interval_ms" (nat 64) d.sinkPollIntervalMs }

def checked (s : Settings) : Except Error Settings :=
  match s.check with
  | .ok _ => .ok s
  | .error f => .error (.invalidSettings f)

def ofTomlText (text : String) : Except Error Settings :=
  match Toml.parse? text >>= ofToml? with
  | none => .error .settingsText
  | some s => s.checked

def known : List String :=
  ["model_dir", "config_dir", "mirror_dir", "allow_downloads", "cache_fraction",
    "download_attempts", "sink_poll_interval_ms"]

open Json in
-- Settings from JSON are not checked.
def ofDoc? (d : Doc) : Option Settings := do
  let fields ← d.record? known
  let s : Settings := {}
  return {
    modelDir := ← field fields "model_dir" Doc.text? s.modelDir
    configDir := ← field fields "config_dir" (Doc.optional? Doc.text?) s.configDir
    mirrorDir := ← field fields "mirror_dir" (Doc.optional? Doc.text?) s.mirrorDir
    allowDownloads := ← field fields "allow_downloads" Doc.bool? s.allowDownloads
    cacheFraction := ← field fields "cache_fraction" Doc.float? s.cacheFraction
    downloadAttempts := ← field fields "download_attempts" (Doc.nat? 32) s.downloadAttempts
    sinkPollIntervalMs := ← field fields "sink_poll_interval_ms" (Doc.nat? 64)
      s.sinkPollIntervalMs }

def page (s : Settings) : Page :=
  .obj [("model_dir", .str s.modelDir), ("config_dir", .optional .str s.configDir),
    ("mirror_dir", .optional .str s.mirrorDir), ("allow_downloads", .bool s.allowDownloads),
    ("cache_fraction", .single s.cacheFraction), ("download_attempts", .int s.downloadAttempts),
    ("sink_poll_interval_ms", .int s.sinkPollIntervalMs)]

end Settings
end Inference
