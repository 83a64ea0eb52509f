/-!
Paths of files: texts whose parts stand between slashes.
-/

namespace Inference.FilePath

-- A part for each slash, and one more. Parts may be empty.
def split : List Char → List (List Char)
  | [] => [[]]
  | c :: cs =>
    if c = '/' then [] :: split cs
    else
      match split cs with
      | p :: ps => (c :: p) :: ps
      | [] => [[c]]

def parts (path : String) : List String := (split path.toList).map .ofList

def ofParts (ps : List String) : String := "/".intercalate ps

def isAbsolute (path : String) : Bool := path.toList.head? = some '/'

-- An absolute path does not hang on the directory.
def join (dir path : String) : String :=
  if isAbsolute path then path
  else if dir.isEmpty || dir.toList.getLast? = some '/' then dir ++ path
  else dir ++ "/" ++ path

-- Empty parts and single dots lead nowhere.
def isIdle (part : String) : Bool := part = "" || part = "."

-- The last part that leads somewhere, unless it leads upwards.
def fileName? (path : String) : Option String :=
  ((parts path).filter (!isIdle ·)).getLast?.filter (· ≠ "..")

-- What stands after the last dot of the name, if something stands before that dot.
def extension? (path : String) : Option String := do
  let name ← fileName? path
  let (after, before) := name.toList.reverse.span (· ≠ '.')
  if before.length ≤ 1 then none else some (.ofList after.reverse)

end Inference.FilePath
