/-
  The parameters that rule the radius and the acceptance of steps.

  The ratio `ρ` of the actual reduction of the objective to the one that the model predicts decides
  both. Every condition is tested so that a NaN fails it.
-/
import TrustRegion.Scalar
import TrustRegion.Fault

namespace TrustRegion

/-- Parameters of a trust-region method. -/
structure Method (α : Type) where
  /-- The radius of the first region. -/
  initialRadius : α
  /-- The largest radius. -/
  maxRadius : α
  /-- A step is kept if its ratio is greater than this. -/
  eta : α
  /-- Below this ratio the radius is divided by four. -/
  rhoLower : α
  /-- Above this ratio the radius is doubled, unless the step was interior. -/
  rhoUpper : α

namespace Method

variable {α : Type} [Scalar α]

/-- Radius 1 at first and 100 at most; thresholds 0.1, 0.25 and 0.75. -/
def standard : Method α where
  initialRadius := 1.0
  maxRadius := 100.0
  eta := 0.1
  rhoLower := 0.25
  rhoUpper := 0.75

/-- Refuses parameters that are out of order; the first fault counts. -/
def check (method : Method α) : Except (Fault α) Unit :=
  if ¬ 0 < method.maxRadius then throw .radiusBound
  else if ¬ (0 < method.initialRadius ∧ method.initialRadius < method.maxRadius) then
    throw .initialRadius
  else if ¬ (0 ≤ method.eta ∧ method.eta < method.rhoLower) then throw .acceptance
  else if ¬ 0 ≤ method.rhoLower then throw .lowerRatio
  else if ¬ method.rhoLower < method.rhoUpper then throw .ratioOrder
  else pure ()

theorem check_eq_ok_iff (method : Method α) :
    method.check = .ok () ↔
      0 < method.maxRadius ∧
        (0 < method.initialRadius ∧ method.initialRadius < method.maxRadius) ∧
        (0 ≤ method.eta ∧ method.eta < method.rhoLower) ∧
        0 ≤ method.rhoLower ∧ method.rhoLower < method.rhoUpper := by
  unfold check
  repeat' split
  all_goals simp_all [throw, throwThe, MonadExceptOf.throw, pure, Except.pure]

end Method

end TrustRegion
