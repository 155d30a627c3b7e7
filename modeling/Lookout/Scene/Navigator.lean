/-
Lookout.Scene.Navigator — steers a camera in space by the requests of a view
of the plane.

A viewport request aims the camera at a point of the ground: a camera that
looks down on it is shifted, so that its line of sight hits the point; a
camera that looks along the ground, or up from above it, is turned into a
bird's-eye view right above the point. A centre request keeps the direction
and backs the camera off until a circle fits the field of view.
-/
import Lookout.Scene.Boundary
import Lookout.Scene.Camera

namespace Lookout

-- Powers of natural numbers are the ones of the core library, whatever else is imported.
attribute [local instance (high)] instPowNat

/-- A camera together with the size of the viewport it began with. -/
structure Navigator (C α : Type) where
  camera : C
  initialWidth : α
  initialHeight : α
  rotation : α

/-- What a view can ask of a navigator. -/
inductive Request (α : Type) where
  /-- Bring a position and the `radius` around it into view. -/
  | centerTo (position : Vec3 α) (radius : α) (applyZoom : Bool)
  | setViewport (zoom x y : α)
  | setViewportFrom (x y z : α)
  | setViewportBoundary (viewport : Boundary α)
  | changeCanvasSizeLeft (change : Int32)
  | setRotation (rotation : α)

namespace Navigator

variable {C α : Type} [Camera C α] [Zero α] [One α] [Add α] [Neg α] [Sub α] [Mul α] [Div α]
  [NatCast α] [LE α] [DecidableLE α] [LT α] [DecidableLT α] [BEq α] [Elementary α]

def ofViewport (camera : C) (viewport : Boundary α) : Navigator C α :=
  ⟨camera, viewport.width, viewport.height, 0⟩

/-! ## Position and zoom -/

def pose (n : Navigator C α) : Pose α := Camera.pose n.camera

def x (n : Navigator C α) : α := n.pose.eye.x

def y (n : Navigator C α) : α := n.pose.eye.y

def z (n : Navigator C α) : α := n.pose.eye.z

/-- The zoom that is reported for every camera position, as zoom levels do not
correspond to distances yet. -/
def placeholderZoom : α := (100 : Nat)

def zoom (_ : Navigator C α) : α := placeholderZoom

def zoomOfHeight (_ : Navigator C α) (_ : α) : α := placeholderZoom

def heightOfZoom (_ : Navigator C α) (_ : α) : α := placeholderZoom

/-! ## Centre requests -/

/-- The unit vector at right angles to a direction along which radii are
measured: the normal within the plane for a direction in the plane, against
the X axis for any other. -/
def sideways (direction : Vec3 α) : Vec3 α :=
  (if direction.dot Vec3.unitZ == 0 then ⟨-direction.y, direction.x, 0⟩ else -Vec3.unitX).normalize

/-- The signed distance from a position at which a circle of some radius around
it touches the edge of the field of view, as its sign and its size. -/
def fittingDistance (direction : Vec3 α) (halfFovy radius : α) : α × α :=
  let side := sideways direction
  let edge := direction.scale (Elementary.cos halfFovy) + side.scale (Elementary.sin halfFovy)
  let acrossRadius := edge.cross (side.scale radius)
  let acrossDirection := edge.cross direction
  (if 0 < acrossRadius.dot acrossDirection then 1 else -1, acrossRadius.norm / acrossDirection.norm)

/-- Backs the camera off along its direction until the circle fits, and makes
this its home position. Where the eye would come to lie on the position, for
lack of a radius or of a field of view, nothing happens. -/
def centerTo (n : Navigator C α) (position : Vec3 α) (radius : α) : Navigator C α :=
  let pose := n.pose
  let direction := pose.direction
  let (sign, distance) := fittingDistance direction (Camera.projection n.camera).halfFovy radius
  if 0 < radius ∧ Elementary.isFinite distance = true ∧ 0 < distance then
    let eye := position + (direction.scale sign).scale distance
    { n with camera := Camera.home (Camera.setHome n.camera ⟨eye, position, pose.up⟩) }
  else n

/-! ## Viewport requests -/

/-- Vectors with less than this part of their length across the vertical count as vertical. -/
def parallelTolerance : α := 1 / ((10 ^ (9 : Nat) : Nat) : α)

/-- The up vector of a camera that looks straight down: the one it has, unless
that is vertical; then the heading of the previous direction, or `Y`. -/
def birdViewUp (up previousDirection : Vec3 α) : Vec3 α :=
  if parallelTolerance * up.norm < (up.cross Vec3.unitZ).norm then up
  else
    let heading : Vec3 α := ⟨previousDirection.x, previousDirection.y, 0⟩
    if parallelTolerance < heading.norm then heading.normalize else Vec3.unitY

/-- The pose that is aimed at the point `(x, y, 0)`. -/
def aimedAt (pose : Pose α) (x y : α) : Pose α :=
  let direction := pose.direction
  if (0 < direction.z ∧ 0 ≤ pose.eye.z) ∨ (direction.z == 0) = true then
    let eye : Vec3 α := ⟨x, y, pose.eye.z⟩
    ⟨eye, eye - Vec3.unitZ, birdViewUp pose.up direction⟩
  else
    let target := pose.eye + direction.scale (-pose.eye.z / direction.z)
    pose.shiftBy ⟨x - target.x, y - target.y, 0⟩

/-- Aims the camera at the point `(x, y, 0)`. -/
def aimAt (n : Navigator C α) (x y : α) : Navigator C α :=
  { n with camera := Camera.setViewMatrix n.camera (aimedAt n.pose x y).viewMatrix }

/-! ## Requests -/

/-- The navigator after a request. Zoom levels, heights and changes of the
canvas have no effect. -/
def perform (n : Navigator C α) : Request α → Navigator C α
  | .centerTo position radius _ => n.centerTo position radius
  | .setViewport _ x y => n.aimAt x y
  | .setViewportFrom x y _ => n.aimAt x y
  | .setViewportBoundary viewport => n.aimAt viewport.centerX viewport.centerY
  | .changeCanvasSizeLeft _ => n
  | .setRotation rotation => { n with rotation := rotation }

/-- The navigator after some requests. -/
def performAll (n : Navigator C α) (requests : List (Request α)) : Navigator C α :=
  requests.foldl perform n

end Navigator

end Lookout
