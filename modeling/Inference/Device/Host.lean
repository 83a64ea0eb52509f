import Inference.Json.Page
import Inference.Json.Record
import Inference.Number.Decimal
import Inference.Text.Character

/-!
The host: operating system, processor and memory. The version of an operating system is kept as one
number, in which 10.9 comes before 10.15.
-/

namespace Inference

inductive OsKind where
  | windows | mac | linux
deriving DecidableEq, Repr

namespace OsKind

def name : OsKind → String
  | windows => "Windows"
  | mac => "Mac"
  | linux => "Linux"

def ofName? (s : String) : Option OsKind := [windows, mac, linux].find? (·.name = s)

end OsKind

-- A release: the major number and two places of the minor number.
structure OsVersion where
  major : Nat
  minor : Nat
deriving DecidableEq

namespace OsVersion

-- A number of 32 bits: digits, after a plus sign or none.
def number? (s : List Char) : Option Nat :=
  let digits := match s with
    | '+' :: r => r
    | _ => s
  if digits ≠ [] ∧ digits.all Char.isDigit then
    let n := digits.foldl (fun n c => n * 10 + (c.toNat - 48)) 0
    if n < Nat.pow 2 32 then some n else none
  else none

def splitDots (s : List Char) : List (List Char) := s.splitOn '.'

-- A missing minor number is 0, and one above 99 counts as 99. What follows it is not looked at.
def parse? (s : List Char) : Option OsVersion :=
  match splitDots (Text.trim s) with
  | [] => none
  | [major] => (number? major).map (⟨·, 0⟩)
  | major :: minor :: _ => do return ⟨← number? major, min (← number? minor) 99⟩

-- With a zero before a single digit.
def twoPlaces (n : Nat) : List Char := (Nat.toDigits 10 n).leftpad 2 '0'

-- The version as a decimal: the minor number takes two places after the point.
def text (v : OsVersion) : List Char := Nat.toDigits 10 v.major ++ '.' :: twoPlaces v.minor

def decimal? (s : List Char) : Option Decimal := do Decimal.ofText? (← parse? s).text

-- What a version is compared by.
def single? (s : List Char) : Option Single := (decimal? s).map (·.nearest)

end OsVersion

-- Sizes of memory are in gigabytes.
structure Host where
  os : OsKind := .linux
  osVersion : Single := default
  cpuName : String := ""
  threads : Nat := 1
  avx : Bool := false
  avx2 : Bool := false
  vnni : Bool := false
  ramTotal : Double := .ofNat 8
  ramFree : Double := .ofNat 8
  machineId : String := ""
deriving DecidableEq

namespace Host

def isWindows (h : Host) : Bool := h.os = .windows

def isMac (h : Host) : Bool := h.os = .mac

def isApple (h : Host) : Bool := Text.occurs "apple".toList (Text.lower h.cpuName.toList)

def page (h : Host) : Page :=
  .obj [("os", .str h.os.name), ("os_version", .single h.osVersion), ("cpu_name", .str h.cpuName),
    ("threads", .int h.threads), ("avx", .bool h.avx), ("avx2", .bool h.avx2),
    ("vnni", .bool h.vnni), ("ram_total", .double h.ramTotal), ("ram_free", .double h.ramFree),
    ("machine_id", .str h.machineId)]

def known : List String :=
  ["os", "os_version", "cpu_name", "threads", "avx", "avx2", "vnni", "ram_total", "ram_free",
    "machine_id"]

open Json in
-- No field may be left out.
def ofDoc? (d : Doc) : Option Host := do
  let fields ← d.record? known
  return {
    os := ← required fields "os" fun d => d.name? >>= OsKind.ofName?
    osVersion := ← required fields "os_version" Doc.float?
    cpuName := ← required fields "cpu_name" Doc.text?
    threads := ← required fields "threads" (Doc.nat? 64)
    avx := ← required fields "avx" Doc.bool?
    avx2 := ← required fields "avx2" Doc.bool?
    vnni := ← required fields "vnni" Doc.bool?
    ramTotal := ← required fields "ram_total" Doc.float?
    ramFree := ← required fields "ram_free" Doc.float?
    machineId := ← required fields "machine_id" Doc.text? }

end Host
end Inference
