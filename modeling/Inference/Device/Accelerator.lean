import Inference.Json.Page
import Inference.Json.Record
import Inference.Text.Character

/-!
Accelerators: what is known of each, and their JSON texts.
-/

namespace Inference

-- The numbers that an accelerator computes with.
inductive DataType where
  | none | fp32 | fp16 | int8
deriving DecidableEq, Repr

namespace DataType

def level : DataType → Nat
  | none => 0
  | fp32 => 1
  | fp16 => 2
  | int8 => 3

def name : DataType → String
  | none => "None"
  | fp32 => "Fp32"
  | fp16 => "Fp16"
  | int8 => "Int8"

def ofName? (s : String) : Option DataType := [none, fp32, fp16, int8].find? (·.name = s)

-- Half precision is a bit of the level.
def supportsFp16 (t : DataType) : Bool := t.level &&& fp16.level ≠ 0

end DataType

-- Sizes of memory are in gigabytes.
structure Accelerator where
  name : String := ""
  serial : String := ""
  totalMemory : Single := default
  optimalMemory : Single := default
  freeMemory : Single := default
  usedMemory : Single := default
  temperature : Single := default
  index : Nat := 0
  cores : Nat := 0
  legacy : Bool := false
  discrete : Bool := false
  visible : Bool := false
  cudaId : Int := 0
  computeLevel : Int := 0
  dataType : DataType := .none
deriving DecidableEq

namespace Accelerator

def ofMemory (index : Nat) (name : String) (totalMemory : Single) : Accelerator :=
  { name, index, totalMemory, visible := true, cudaId := -1 }

def nameHas (a : Accelerator) (word : String) : Bool :=
  Text.occurs word.toList (Text.upper a.name.toList)

def isIntel (a : Accelerator) : Bool := a.nameHas "INTEL"

def isNvidia (a : Accelerator) : Bool := a.nameHas "NVIDIA" || a.nameHas "QUADRO"

def isLlvmpipe (a : Accelerator) : Bool := a.nameHas "LLVMPIPE"

def supportsFp16 (a : Accelerator) : Bool := a.dataType.supportsFp16

def page (a : Accelerator) : Page :=
  .obj [("name", .str a.name), ("serial", .str a.serial), ("total_memory", .single a.totalMemory),
    ("optimal_memory", .single a.optimalMemory), ("free_memory", .single a.freeMemory),
    ("used_memory", .single a.usedMemory), ("temperature", .single a.temperature),
    ("index", .int a.index), ("cores", .int a.cores), ("legacy", .bool a.legacy),
    ("discrete", .bool a.discrete), ("visible", .bool a.visible), ("cuda_id", .int a.cudaId),
    ("compute_level", .int a.computeLevel), ("data_type", .str a.dataType.name)]

def known : List String :=
  ["name", "serial", "total_memory", "optimal_memory", "free_memory", "used_memory", "temperature",
    "index", "cores", "legacy", "discrete", "visible", "cuda_id", "compute_level", "data_type"]

open Json in
-- Every field may be left out.
def ofDoc? (d : Doc) : Option Accelerator := do
  let fields ← d.record? known
  let i32 := Doc.int? (-Nat.pow 2 31) (Nat.pow 2 31 - 1)
  return {
    name := ← field fields "name" Doc.text? ""
    serial := ← field fields "serial" Doc.text? ""
    totalMemory := ← field fields "total_memory" Doc.float? default
    optimalMemory := ← field fields "optimal_memory" Doc.float? default
    freeMemory := ← field fields "free_memory" Doc.float? default
    usedMemory := ← field fields "used_memory" Doc.float? default
    temperature := ← field fields "temperature" Doc.float? default
    index := ← field fields "index" (Doc.nat? 32) 0
    cores := ← field fields "cores" (Doc.nat? 32) 0
    legacy := ← field fields "legacy" Doc.bool? false
    discrete := ← field fields "discrete" Doc.bool? false
    visible := ← field fields "visible" Doc.bool? false
    cudaId := ← field fields "cuda_id" i32 0
    computeLevel := ← field fields "compute_level" i32 0
    dataType := ← field fields "data_type" (fun d => d.name? >>= DataType.ofName?) .none }

end Accelerator
end Inference
