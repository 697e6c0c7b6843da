import Perigee.BasketVault.Weights

/-!
# The deadband

`rebalance_to` is meant to be refused while every component is inside the deadband, and never looks
at the drift.  It keeps to the deadband just when one of its own checks fails (`Admitted`) or the
prices have moved a component beyond the tolerance (`DriftsBeyond`).
-/

namespace BasketVault

open Soroban

section Contract

variable {Address : Type} {this : Address} {env : Env this} {w w' : World Address}
  {manager : Address} {basket index count : ℕ} {targetWeights : List ℤ} {indices : List ℕ}
  {record : Basket Address} {size held movement : ℤ}

/-- How far a component is from its weight in a basket whose composite price is `unit`. -/
def driftAt (unit : ℤ) (c : Component Address) : ℤ :=
  ((c.price * c.weightBps).tdiv bpsDenominator * bpsDenominator).tdiv unit - c.weightBps

/-- The drift is computed without overflow. -/
def DriftFits (unit : ℤ) (c : Component Address) : Prop :=
  IsI128 (c.price * c.weightBps) ∧ IsI128 ((c.price * c.weightBps).tdiv bpsDenominator) ∧
    IsI128 ((c.price * c.weightBps).tdiv bpsDenominator * bpsDenominator) ∧
    IsI128 (((c.price * c.weightBps).tdiv bpsDenominator * bpsDenominator).tdiv unit) ∧
    IsI128 (driftAt unit c) ∧ IsI128 |driftAt unit c|

instance decidableDriftFits (unit : ℤ) (c : Component Address) : Decidable (DriftFits unit c) :=
  inferInstanceAs (Decidable (_ ∧ _))

variable [DecidableEq Address]

end Contract

end BasketVault
