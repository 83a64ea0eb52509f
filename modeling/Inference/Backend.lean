/-!
Inference frameworks, each with a bit of its own, and sets of them as bit masks.
-/

namespace Inference

inductive Backend where
  | none | dnn | tensorFlow | openVino | coreMl | onnx16 | onnx | openVino8 | openVino16 | tensorRt
deriving DecidableEq, Repr

namespace Backend

-- The frameworks that have a bit, lowest bit first.
def all : List Backend :=
  [dnn, tensorFlow, openVino, coreMl, onnx16, onnx, openVino8, openVino16, tensorRt]

def bits : Backend → Nat
  | none => 0
  | dnn => 0x1
  | tensorFlow => 0x2
  | openVino => 0x4
  | coreMl => 0x8
  | onnx16 => 0x10
  | onnx => 0x20
  | openVino8 => 0x40
  | openVino16 => 0x80
  | tensorRt => 0x100

-- The name in model descriptors.
def key : Backend → String
  | none => "none"
  | dnn => "dnn"
  | tensorFlow => "tensorflow"
  | openVino => "openvino"
  | coreMl => "coreml"
  | onnx16 => "onnx16"
  | onnx => "onnx"
  | openVino8 => "openvino8"
  | openVino16 => "openvino16"
  | tensorRt => "tensorrt"

-- The name for readers.
def name : Backend → String
  | none => "None"
  | dnn => "OpenCV DNN"
  | tensorFlow => "TensorFlow"
  | openVino => "OpenVINO"
  | coreMl => "CoreML"
  | onnx16 => "ONNX FP16"
  | onnx => "ONNX"
  | openVino8 => "OpenVINO INT8"
  | openVino16 => "OpenVINO FP16"
  | tensorRt => "TensorRT"

-- A key is recognised whatever the case of its ASCII letters.
def ofKey? (text : String) : Option Backend :=
  let folded := text.map Char.toLower
  (none :: all).find? (·.key = folded)

-- The other frameworks run on the CPU alone.
def usesAccelerators : Backend → Bool
  | none | dnn | tensorFlow => false
  | _ => true

end Backend

structure BackendMask where
  bits : Nat
deriving DecidableEq, Repr

namespace BackendMask

def empty : BackendMask := ⟨0⟩

def has (m : BackendMask) (k : Backend) : Bool := m.bits &&& k.bits ≠ 0

def add (m : BackendMask) (k : Backend) : BackendMask := ⟨m.bits ||| k.bits⟩

def inter (m n : BackendMask) : BackendMask := ⟨m.bits &&& n.bits⟩

def ofList (ks : List Backend) : BackendMask := ks.foldl add empty

def toList (m : BackendMask) : List Backend := Backend.all.filter m.has

def filter (m : BackendMask) (keep : Backend → Bool) : BackendMask := ofList (m.toList.filter keep)

end BackendMask
end Inference
