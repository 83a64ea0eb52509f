import Inference.Tensor.Basic

/-!
What a model instance answers: tensors, and the text of an error if it reports one.
-/

namespace Inference

structure Output where
  results : List Tensor
  error : Option String
deriving DecidableEq

namespace Output

def empty : Output := ⟨[], none⟩

def ofResults (results : List Tensor) : Output := ⟨results, none⟩

def push (o : Output) (t : Tensor) : Output := { o with results := o.results ++ [t] }

def setError (o : Output) (text : String) : Output := { o with error := some text }

def hasResults (o : Output) : Bool := !o.results.isEmpty

-- An error without a text is none.
def hasError (o : Output) : Bool := o.error.any (· ≠ "")

end Output
end Inference
