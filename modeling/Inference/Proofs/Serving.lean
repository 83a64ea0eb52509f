import Mathlib.Tactic.Common

/-!
Requests that are served one after the other. Two ways to serve them give the same answers if every
single request gets the same answer from related states, and leaves related states.
-/

namespace Inference.Serving

variable {σ τ ι ω : Type} {f : ι → StateM σ ω} {g : ι → StateM τ ω} {R : σ → τ → Prop}
  {is : List ι} {s : σ} {t : τ}

theorem mapM_cons (f : ι → StateM σ ω) (i : ι) (is : List ι) (s : σ) :
    (i :: is).mapM f s =
      ((f i s).1 :: (is.mapM f (f i s).2).1, (is.mapM f (f i s).2).2) := by
  rw [List.mapM_cons]
  rfl

-- What every request preserves is preserved by a series of them.
theorem related (hR : R s t) (h : ∀ i ∈ is, ∀ s t, R s t → R (f i s).2 (g i t).2) :
    R (is.mapM f s).2 (is.mapM g t).2 := by
  induction is generalizing s t
  case nil => exact hR
  case cons i is hi =>
    rw [List.forall_mem_cons] at h
    simp only [mapM_cons]
    exact hi (h.left s t hR) h.right

theorem answers_eq (hR : R s t) (h : ∀ i ∈ is, ∀ s t, R s t → R (f i s).2 (g i t).2)
    (ha : ∀ i ∈ is, ∀ s t, R s t → (f i s).1 = (g i t).1) :
    (is.mapM f s).1 = (is.mapM g t).1 := by
  induction is generalizing s t
  case nil => rfl
  case cons i is hi =>
    rw [List.forall_mem_cons] at h ha
    simp only [mapM_cons, ha.left s t hR, hi (h.left s t hR) h.right ha.right]

theorem preserves {I : σ → Prop} (hs : I s) (h : ∀ i s, I s → I (f i s).2) :
    I (is.mapM f s).2 :=
  related (g := f) (t := s) (R := fun s _ => I s) hs fun i _ s _ => h i s

end Inference.Serving
