/-
Points of the drawing plane, and the displacements between them. The plane is a canvas: `x` grows
to the right and `y` downward. Arithmetic is by components, so a product of two points scales each
axis by its own factor.
-/
import StencilKit.Scalar

namespace StencilKit

/-- A point, or a displacement. -/
structure Point (α : Type) where
  x : α
  y : α
  deriving BEq, DecidableEq

namespace Point

variable {α : Type} [Scalar α]

instance : Add (Point α) := ⟨fun p q => ⟨p.x + q.x, p.y + q.y⟩⟩
instance : Sub (Point α) := ⟨fun p q => ⟨p.x - q.x, p.y - q.y⟩⟩
instance : Mul (Point α) := ⟨fun p q => ⟨p.x * q.x, p.y * q.y⟩⟩
instance : Div (Point α) := ⟨fun p q => ⟨p.x / q.x, p.y / q.y⟩⟩
instance : Neg (Point α) := ⟨fun p => ⟨-p.x, -p.y⟩⟩
instance : Zero (Point α) := ⟨⟨0, 0⟩⟩
instance : One (Point α) := ⟨⟨1, 1⟩⟩

/-- Both components times one factor. -/
def scaled (p : Point α) (s : α) : Point α := ⟨p.x * s, p.y * s⟩

/-- Both components divided by one number. -/
def shrunk (p : Point α) (s : α) : Point α := ⟨p.x / s, p.y / s⟩

def dot (p q : Point α) : α := p.x * q.x + p.y * q.y

/-- The square of the distance from the origin. -/
def lengthSq (p : Point α) : α := p.dot p

def distance (p q : Point α) : α := Scalar.sqrt (p - q).lengthSq

/-- Whether two points are at most `tolerance` apart. -/
def isNear (tolerance : α) (p q : Point α) : Bool := decide (p.distance q ≤ tolerance)

/-- The corner with the least coordinates of the box that two points span. -/
def lesser (p q : Point α) : Point α := ⟨Scalar.lesser p.x q.x, Scalar.lesser p.y q.y⟩

/-- The corner with the greatest coordinates of the box that two points span. -/
def greater (p q : Point α) : Point α := ⟨Scalar.greater p.x q.x, Scalar.greater p.y q.y⟩

/-- Reading order of points: by `x`, then by `y`. -/
def order (p q : Point α) : Ordering := (Scalar.order p.x q.x).then (Scalar.order p.y q.y)

def isFinite (p : Point α) : Bool := Scalar.isFinite p.x && Scalar.isFinite p.y

/-- The point a fraction `t` of the way from `p` to `q`. -/
def lerp (p q : Point α) (t : α) : Point α := p.scaled (1 - t) + q.scaled t

/-- The point halfway to the next control point. -/
def midway (control next : Point α) : Point α := control.lerp next Scalar.half

/-- The next control point, given that `mid` lies halfway to it. -/
def beyond (control mid : Point α) : Point α := control + (mid - control).shrunk Scalar.half

/-- The distance from a point to the segment between `a` and `b`: to the foot of the perpendicular
when it falls between them, otherwise to the nearer end. -/
def distanceToSegment (p a b : Point α) : α :=
  let along := b - a
  if along.lengthSq == 0 then p.distance a
  else p.distance (a + along.scaled (Scalar.clamp ((p - a).dot along / along.lengthSq) 0 1))

end Point

end StencilKit
