import Mathlib.Data.Option.Basic
import Mathlib.Tactic

/-!
# Painting in layers

A picture gives every point a colour.  A layer covers some of the points;
painting it changes these and no others.  What lies under a layer that hides it
leaves no trace, so pictures can be told by their uppermost layers.
-/

set_option autoImplicit false

namespace Layers

variable {Point Color : Type*}

/-- The colours of the points that the layer covers. -/
abbrev Layer (Point Color : Type*) := Point → Option Color

def paint (layer : Layer Point Color) (picture : Point → Color) :
    Point → Color :=
  fun point => (layer point).getD (picture point)

def stacked (above below : Layer Point Color) : Layer Point Color :=
  fun point => (above point).or (below point)

def Hides (above below : Layer Point Color) : Prop :=
  ∀ point, above point = none → below point = none

section Rules

variable {above below : Layer Point Color} {picture : Point → Color}

theorem paint_stacked :
    paint (stacked above below) picture = paint above (paint below picture) := by
  funext point
  unfold paint stacked
  cases above point <;> rfl

theorem stacked_hidden (hides : Hides above below) :
    stacked above below = above := by
  funext point
  unfold stacked
  cases covered : above point with
  | none => exact hides point covered
  | some color => rfl

theorem paint_hidden (hides : Hides above below) :
    paint above (paint below picture) = paint above picture := by
  rw [← paint_stacked, stacked_hidden hides]

end Rules

end Layers
