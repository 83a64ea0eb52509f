import Inference.Text.Unseen

/-!
Texts in quotes. Quotes and backslashes are written after a backslash, and a character that would
not be seen by itself is written by a letter or by its number.
-/

namespace Inference.Text.Quoted

def hexDigits (n : Nat) : List Char := Nat.toDigits 16 n

def writeChar (c : Char) : List Char :=
  if c = '"' || c = '\\' then ['\\', c]
  else if c = '\x00' then ['\\', '0']
  else if c = '\t' then ['\\', 't']
  else if c = '\n' then ['\\', 'n']
  else if c = '\r' then ['\\', 'r']
  else if isUnseen c then ['\\', 'u', '\x7b'] ++ hexDigits c.toNat ++ ['\x7d']
  else [c]

def write (s : String) : String := .ofList ('"' :: s.toList.flatMap writeChar ++ ['"'])

def writeList (l : List String) : String := "[" ++ ", ".intercalate (l.map write) ++ "]"

end Inference.Text.Quoted
