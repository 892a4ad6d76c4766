import Mathlib.Data.Rat.Floor

/-!
# Numbers as the callers pass them

The arguments of the exported functions are JavaScript numbers. The doubles are the
rationals that have a finite representation, the two infinities and `NaN`.
-/

namespace OpenClaw

/-- A JavaScript number. -/
inductive JsNumber where
  | nan
  | negInfinity
  | infinity
  | finite (value : ℚ)
deriving DecidableEq

namespace JsNumber

/-- `Number.isFinite(x)`. -/
def isFinite : JsNumber → Bool
  | finite _ => true
  | _ => false

/-- `x <= c` for a number `c` of the code. -/
def atMost (x : JsNumber) (c : ℚ) : Bool :=
  match x with
  | nan | infinity => false
  | negInfinity => true
  | finite q => q ≤ c

end JsNumber

end OpenClaw
