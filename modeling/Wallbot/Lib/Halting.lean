import Mathlib.Init

/-!
# Library — programs that may halt

A value of `Except σ β` is the end of a program that either returns a result or stops for good
in some state: a failed assertion, an uncaught exception.  `Ends I J` is its postcondition, with
`I` for the states it may stop in and `J` for its results; `Ends.bind`
and `Ends.map` compose them.
-/

namespace Halting

variable {σ β γ : Type} {I : σ → Prop} {J : β → Prop} {K : γ → Prop}

/-- The program stops in a state with `I` or returns a result with `J`. -/
def Ends (I : σ → Prop) (J : β → Prop) : Except σ β → Prop
  | .error s => I s
  | .ok b => J b

/-- The rule of composition: a halt of either part is a halt of the whole. -/
theorem Ends.bind {x : Except σ β} {f : β → Except σ γ} (hx : Ends I J x)
    (hf : ∀ b, J b → Ends I K (f b)) : Ends I K (x >>= f) := by
  cases x with
  | error s => exact hx
  | ok b => exact hf b hx

/-- The rule of a pure function of the result. -/
theorem Ends.map {x : Except σ β} {f : β → γ} (hx : Ends I J x) (hf : ∀ b, J b → K (f b)) :
    Ends I K (x.map f) := by
  cases x with
  | error s => exact hx
  | ok b => exact hf b hx

/-- The rule of consequence. -/
theorem Ends.mono {I' : σ → Prop} {J' : β → Prop} {x : Except σ β} (hx : Ends I J x)
    (hI : ∀ s, I s → I' s) (hJ : ∀ b, J b → J' b) : Ends I' J' x := by
  cases x with
  | error s => exact hI s hx
  | ok b => exact hJ b hx

end Halting
