/-!
Integers as bytes, lowest byte first.
-/

namespace Inference

abbrev Bytes := List UInt8

namespace Bytes

def ofNat : Nat → Nat → Bytes
  | 0, _ => []
  | width + 1, n => .ofNat n :: ofNat width (n / 256)

def toNat : Bytes → Nat
  | [] => 0
  | b :: bs => b.toNat + 256 * toNat bs

-- The first `width` bytes as an integer, and the bytes after them.
def take? (width : Nat) (bs : Bytes) : Option (Nat × Bytes) :=
  let (head, rest) := bs.splitAt width
  if head.length = width then some (toNat head, rest) else none

def ofText (s : String) : Bytes := s.toUTF8.toList

def text? (bs : Bytes) : Option String := String.fromUTF8? (.mk bs.toArray)

end Bytes
end Inference
