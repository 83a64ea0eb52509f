/-!
Characters of texts: which of them are white space, as the Unicode property `White_Space` has it,
and their upper and lower case, as far as a search for an ASCII word can tell. Only letters that
have an ASCII letter in their full case mapping are mapped: any other letter maps to characters
outside ASCII, and such characters are part of no ASCII word whether they are mapped or not.
-/

namespace Inference.Text

def isBlank (c : Char) : Bool :=
  let n := c.toNat
  (9 ≤ n && n ≤ 13) || n = 0x20 || n = 0x85 || n = 0xA0 || n = 0x1680 ||
    (0x2000 ≤ n && n ≤ 0x200A) || n = 0x2028 || n = 0x2029 || n = 0x202F || n = 0x205F ||
    n = 0x3000

-- The text without white space at its ends.
def trim (s : List Char) : List Char :=
  ((s.dropWhile isBlank).reverse.dropWhile isBlank).reverse

-- Letters outside ASCII with an ASCII letter in upper case.
def upperTable : List (Char × List Char) :=
  [('\u00df', ['S', 'S']), ('\u0131', ['I']), ('\u0149', ['\u02bc', 'N']), ('\u017f', ['S']),
   ('\u01f0', ['J', '\u030c']), ('\u1e96', ['H', '\u0331']), ('\u1e97', ['T', '\u0308']),
   ('\u1e98', ['W', '\u030a']), ('\u1e99', ['Y', '\u030a']), ('\u1e9a', ['A', '\u02be']),
   ('\ufb00', ['F', 'F']), ('\ufb01', ['F', 'I']), ('\ufb02', ['F', 'L']),
   ('\ufb03', ['F', 'F', 'I']), ('\ufb04', ['F', 'F', 'L']), ('\ufb05', ['S', 'T']),
   ('\ufb06', ['S', 'T'])]

-- Letters outside ASCII with an ASCII letter in lower case.
def lowerTable : List (Char × List Char) :=
  [('\u0130', ['i', '\u0307']), ('\u212a', ['k'])]

def upper (s : List Char) : List Char :=
  s.flatMap fun c => (upperTable.lookup c).getD [c.toUpper]

def lower (s : List Char) : List Char :=
  s.flatMap fun c => (lowerTable.lookup c).getD [c.toLower]

-- Whether `word` stands somewhere in `text`.
def occurs (word : List Char) : List Char → Bool
  | [] => word = []
  | c :: text => word.isPrefixOf (c :: text) || occurs word text

end Inference.Text
