/-
Lookout.Proofs.Scene.Calls — all that a view does to a camera, it does by a
few calls.

A request that has an effect demands one of two things of the camera: to fit a
circle into the picture, or to aim at a point of the ground. The pose and the
projection of the camera determine the calls that a demand leads to
(`Demand.calls`), and nothing else happens to the camera (`after_eq`). So the
demands of a run determine the calls and the camera (`afterAll_eq`), and
arguments and steps that are no part of a demand leave no trace.

The calls are seen by a recorder around the camera (`Demand.meet_recorder`),
which is any camera at all, also one that tells a pose of its own
(`PoseCamera`).
-/
import Lookout.Proofs.Numeric.Root
import Lookout.Scene.Navigator
import Lookout.Scene.Recorder

namespace Lookout

/-! ## Calls -/

section Calls

variable {C α : Type} [Camera C α]

/-- The camera after some calls. -/
def CameraCall.applyAll (c : C) (calls : List (CameraCall α)) : C := calls.foldl CameraCall.apply c

theorem CameraCall.applyAll_append (c : C) (calls later : List (CameraCall α)) :
    applyAll c (calls ++ later) = applyAll (applyAll c calls) later :=
  List.foldl_append

/-- A recorder passes calls on and notes them. -/
theorem CameraCall.applyAll_recorder (r : Recorder C α) (calls : List (CameraCall α)) :
    applyAll r calls = ⟨applyAll r.camera calls, r.calls ++ calls⟩ := by
  induction calls generalizing r with
  | nil => simp [applyAll]
  | cons call later ih =>
    have hcall : CameraCall.apply r call = r.call call := by cases call <;> rfl
    calc applyAll r (call :: later)
        = applyAll (r.call call) later := by rw [← hcall]; rfl
      _ = ⟨applyAll r.camera (call :: later), r.calls ++ call :: later⟩ := by
        rw [ih]
        simp [Recorder.call, applyAll]

end Calls

/-! ## What a view does -/

/-- What a view can ask about a navigator. -/
inductive Question (α : Type) where
  | rotation
  | x
  | y
  | z
  | zoom
  | zoomOfHeight (z : α)
  | heightOfZoom (zoom : α)
  | initialWidth
  | initialHeight

/-- What a view does with a navigator: it asks for something, or about something. -/
inductive ViewStep (α : Type) where
  | request (r : Request α)
  | question (q : Question α)

/-- What a request demands of a camera. -/
inductive Demand (α : Type) where
  | fit (position : Vec3 α) (radius : α)
  | aim (x y : α)

/-- The rotation that a step sets. -/
def ViewStep.rotation? {α : Type} : ViewStep α → Option α
  | .request (.setRotation rotation) => some rotation
  | _ => none

section Demands

variable {C α : Type} [Camera C α] [Zero α] [One α] [Add α] [Neg α] [Sub α] [Mul α] [Div α]
  [NatCast α] [LE α] [DecidableLE α] [LT α] [DecidableLT α] [BEq α] [Elementary α]

/-- The demand of a request, without the arguments that have no effect. -/
def Request.demand? : Request α → Option (Demand α)
  | .centerTo position radius _ => some (.fit position radius)
  | .setViewport _ x y => some (.aim x y)
  | .setViewportFrom x y _ => some (.aim x y)
  | .setViewportBoundary viewport => some (.aim viewport.centerX viewport.centerY)
  | .changeCanvasSizeLeft _ => none
  | .setRotation _ => none

def ViewStep.demand? : ViewStep α → Option (Demand α)
  | .request r => r.demand?
  | .question _ => none

namespace Camera

/-- The signed distance from which a circle fits the field of view of a camera. -/
def fitting (c : C) (radius : α) : α × α :=
  Navigator.fittingDistance (pose c).direction (projection c).halfFovy radius

/-- There is a circle, and a distance from which it fits. -/
def Fits (c : C) (radius : α) : Prop :=
  0 < radius ∧ Elementary.isFinite (fitting c radius).2 = true ∧ 0 < (fitting c radius).2

instance (c : C) (radius : α) : Decidable (Fits c radius) :=
  inferInstanceAs (Decidable (0 < radius ∧ _ ∧ _))

/-- The pose from which a circle fits, in the direction of view of a camera. -/
def framing (c : C) (position : Vec3 α) (radius : α) : Pose α :=
  ⟨position + ((pose c).direction.scale (fitting c radius).1).scale (fitting c radius).2, position,
    (pose c).up⟩

end Camera

/-- The calls by which a camera meets a demand. -/
def Demand.calls (c : C) : Demand α → List (CameraCall α)
  | .fit position radius =>
    if Camera.Fits c radius then [.setHome (Camera.framing c position radius), .home] else []
  | .aim x y => [.setViewMatrix (Navigator.aimedAt (Camera.pose c) x y).viewMatrix]

/-- The camera that has met a demand. -/
def Demand.meet (c : C) (d : Demand α) : C := CameraCall.applyAll c (d.calls c)

/-- The calls by which a camera meets demands, one after the other. -/
def Demand.allCalls (c : C) : List (Demand α) → List (CameraCall α)
  | [] => []
  | d :: later => d.calls c ++ allCalls (d.meet c) later

theorem Demand.applyAll_allCalls (c : C) (demands : List (Demand α)) :
    CameraCall.applyAll c (allCalls c demands) = demands.foldl meet c := by
  induction demands generalizing c with
  | nil => rfl
  | cons d later ih =>
    rw [allCalls, CameraCall.applyAll_append, List.foldl_cons, ← ih (d.meet c)]
    rfl

/-- A demand cannot tell a recorder from the camera inside. -/
theorem Demand.meet_recorder (r : Recorder C α) (d : Demand α) :
    d.meet r = ⟨d.meet r.camera, r.calls ++ d.calls r.camera⟩ :=
  CameraCall.applyAll_recorder r (d.calls r)

theorem Demand.foldl_meet_recorder (r : Recorder C α) (demands : List (Demand α)) :
    demands.foldl meet r = ⟨demands.foldl meet r.camera, r.calls ++ allCalls r.camera demands⟩ := by
  induction demands generalizing r with
  | nil => simp [allCalls]
  | cons d later ih =>
    rw [List.foldl_cons, ih, meet_recorder, List.foldl_cons, allCalls, List.append_assoc]

namespace Navigator

/-! ## Steps -/

/-- The answer to a question. -/
def answer (n : Navigator C α) : Question α → α
  | .rotation => n.rotation
  | .x => n.x
  | .y => n.y
  | .z => n.z
  | .zoom => n.zoom
  | .zoomOfHeight z => n.zoomOfHeight z
  | .heightOfZoom zoom => n.heightOfZoom zoom
  | .initialWidth => n.initialWidth
  | .initialHeight => n.initialHeight

/-- The navigator after a step, with the answer if the step was a question. -/
def respond (n : Navigator C α) : ViewStep α → Navigator C α × Option α
  | .request r => (n.perform r, none)
  | .question q => (n, some (n.answer q))

/-- The navigator after a step. -/
def after (n : Navigator C α) (step : ViewStep α) : Navigator C α := (n.respond step).1

/-- The navigator after some steps. -/
def afterAll (n : Navigator C α) (steps : List (ViewStep α)) : Navigator C α := steps.foldl after n

theorem centerTo_eq (n : Navigator C α) (position : Vec3 α) (radius : α) :
    n.centerTo position radius =
      { n with camera := Demand.meet n.camera (.fit position radius) } := by
  by_cases h : Camera.Fits n.camera radius
  · have hcalls : Demand.calls n.camera (.fit position radius) =
        [.setHome (Camera.framing n.camera position radius), .home] := if_pos h
    rw [Demand.meet, hcalls]
    exact if_pos h
  · have hcalls : Demand.calls n.camera (.fit position radius) = [] := if_neg h
    rw [Demand.meet, hcalls]
    exact if_neg h

/-- A step meets the demand that it has, and otherwise it may set the rotation. -/
theorem after_eq (n : Navigator C α) (step : ViewStep α) :
    n.after step =
      { n with
        camera := (step.demand?.map (Demand.meet n.camera)).getD n.camera
        rotation := step.rotation?.getD n.rotation } := by
  cases step with
  | question q => rfl
  | request r =>
    cases r with
    | centerTo position radius applyZoom => exact n.centerTo_eq position radius
    | _ => rfl

theorem afterAll_eq (n : Navigator C α) (steps : List (ViewStep α)) :
    n.afterAll steps =
      { n with
        camera := (steps.filterMap ViewStep.demand?).foldl Demand.meet n.camera
        rotation := (steps.filterMap ViewStep.rotation?).getLast?.getD n.rotation } := by
  induction steps generalizing n with
  | nil => rfl
  | cons step later ih =>
    change (n.after step).afterAll later = _
    rw [ih, after_eq, List.filterMap_cons, List.filterMap_cons]
    cases step.demand? <;> cases step.rotation? <;> simp [List.getLast?_cons]

end Navigator

end Demands

/-! ## Call discipline -/

section Discipline

variable {C : Type} [Camera C Binary64]

/-- A fitting distance is not below zero, whatever the camera is. -/
theorem Camera.fits_iff (c : C) (radius : Binary64) :
    Fits c radius ↔ ¬(¬0 < radius ∨ (fitting c radius).2.isFinite = false ∨
      ((fitting c radius).2 == 0) = true) := by
  have hpos (hfinite : (fitting c radius).2.isFinite = true) :
      0 < (fitting c radius).2 ↔ ((fitting c radius).2 == 0) = false :=
    ((Binary64.notBelowZero_sqrt _).div (Binary64.notBelowZero_sqrt _) hfinite).pos_iff hfinite
  simp only [not_or, Decidable.not_not, Bool.not_eq_false, Bool.not_eq_true]
  constructor
  · intro h
    obtain ⟨hradius, hfinite, hdistance⟩ := h
    exact ⟨hradius, hfinite, (hpos hfinite).mp hdistance⟩
  · intro h
    obtain ⟨hradius, hfinite, hdistance⟩ := h
    exact ⟨hradius, hfinite, (hpos hfinite).mpr hdistance⟩

/-- The calls that a step adds to those that have been made. -/
def Navigator.Adds (n : Navigator (Recorder C Binary64) Binary64) (step : ViewStep Binary64)
    (calls : List (CameraCall Binary64)) : Prop :=
  (n.after step).camera.calls = n.camera.calls ++ calls

namespace Navigator

theorem adds (n : Navigator (Recorder C Binary64) Binary64) (step : ViewStep Binary64) :
    n.Adds step ((step.demand?.map (Demand.calls n.camera)).getD []) := by
  rw [Adds, after_eq]
  cases step.demand? with
  | none => simp
  | some d => exact congrArg Recorder.calls (Demand.meet_recorder n.camera d)

/-- **A view moves a camera by a few calls only**, whatever the camera is. A
viewport request makes one call, a centre request two or, exactly where there
is no circle or no distance, none, and everything else makes none. The camera
is what the calls have made of it, and arguments without effect and steps
without a demand leave no trace. -/
theorem afterAll_calls (camera : C) (viewport : Boundary Binary64)
    (steps : List (ViewStep Binary64)) :
    let start : Navigator (Recorder C Binary64) Binary64 :=
      ofViewport (.ofCamera camera) viewport
    let n := start.afterAll steps
    (∀ zoom x y, ∃ m, n.Adds (.request (.setViewport zoom x y)) [.setViewMatrix m]) ∧
      (∀ x y z, ∃ m, n.Adds (.request (.setViewportFrom x y z)) [.setViewMatrix m]) ∧
      (∀ b, ∃ m, n.Adds (.request (.setViewportBoundary b)) [.setViewMatrix m]) ∧
      (∀ position radius applyZoom,
        let sign := (Camera.fitting n.camera radius).1
        let distance := (Camera.fitting n.camera radius).2
        let eye := position + (n.pose.direction.scale sign).scale distance
        if ¬0 < radius ∨ distance.isFinite = false ∨ (distance == 0) = true then
          n.Adds (.request (.centerTo position radius applyZoom)) []
        else n.Adds (.request (.centerTo position radius applyZoom))
          [.setHome ⟨eye, position, n.pose.up⟩, .home]) ∧
      (∀ rotation, n.Adds (.request (.setRotation rotation)) []) ∧
      (∀ change, n.Adds (.request (.changeCanvasSizeLeft change)) []) ∧
      (∀ q, n.Adds (.question q) []) ∧
      n.camera.camera = CameraCall.applyAll camera n.camera.calls ∧
      n.camera.camera =
        ((ofViewport camera viewport : Navigator C Binary64).afterAll steps).camera ∧
      (∀ others, others.filterMap ViewStep.demand? = steps.filterMap ViewStep.demand? →
        (start.afterAll others).camera = n.camera) ∧
      n.initialWidth = viewport.width ∧ n.initialHeight = viewport.height ∧
      n.rotation = (steps.filterMap ViewStep.rotation?).getLast?.getD 0 ∧
      ∀ x, n.zoom = Binary64.ofNat 100 ∧ n.zoomOfHeight x = Binary64.ofNat 100 ∧
        n.heightOfZoom x = Binary64.ofNat 100 := by
  intro start n
  have hn : n = _ := start.afterAll_eq steps
  have hcamera : n.camera = ⟨(steps.filterMap ViewStep.demand?).foldl Demand.meet camera,
      Demand.allCalls camera (steps.filterMap ViewStep.demand?)⟩ := by
    rw [hn]
    exact Demand.foldl_meet_recorder (.ofCamera camera) _
  refine ⟨fun _ _ _ => ⟨_, n.adds _⟩, fun _ _ _ => ⟨_, n.adds _⟩, fun _ => ⟨_, n.adds _⟩, ?_,
    fun _ => n.adds _, fun _ => n.adds _, fun _ => n.adds _, ?_, ?_, ?_,
    congrArg initialWidth hn, congrArg initialHeight hn, congrArg rotation hn,
    fun _ => ⟨rfl, rfl, rfl⟩⟩
  · intro position radius applyZoom sign distance eye
    have hadds : n.Adds (.request (.centerTo position radius applyZoom))
        (if Camera.Fits n.camera radius then
          [.setHome (Camera.framing n.camera position radius), .home] else []) := n.adds _
    have hfits := Camera.fits_iff n.camera radius
    split
    · next hturned =>
      rwa [if_neg fun h => hfits.mp h hturned] at hadds
    · next hturned =>
      rwa [if_pos (hfits.mpr hturned)] at hadds
  · rw [hcamera, Demand.applyAll_allCalls]
  · rw [hcamera, afterAll_eq]
    rfl
  · intro others hothers
    rw [hn, afterAll_eq, hothers]

end Navigator

/-! ## A camera with a pose of its own -/

/-- A camera that keeps its pose and tells it as it is, whatever its view matrix
has made of the look-at point and the up vector. -/
structure PoseCamera where
  pose : Pose Binary64
  home : Pose Binary64
  projection : Projection Binary64

instance : Camera PoseCamera Binary64 where
  viewMatrix c := c.pose.viewMatrix
  pose c := c.pose
  setViewMatrix c m := { c with pose := .ofViewMatrix m }
  setHome c pose := { c with home := pose }
  home c := { c with pose := c.home }
  projection c := c.projection
  resize c canvas := { c with projection := c.projection.resize canvas }

namespace Navigator

open Binary64 (nan)

/-- Without a direction there is no distance from which a circle fits. -/
theorem fittingDistance_nan (halfFovy radius : Binary64) :
    (fittingDistance ⟨nan false, nan false, nan false⟩ halfFovy radius).2 = nan false := by
  have hroot : (Elementary.sqrt (nan false) : Binary64) = nan false := by decide +kernel
  have hcross (u : Vec3 Binary64) :
      (Vec3.cross ⟨nan false, nan false, nan false⟩ u).norm = nan false := hroot
  have hedge (u : Vec3 Binary64) (k : Binary64) :
      Vec3.scale ⟨nan false, nan false, nan false⟩ k + u =
        ⟨nan false, nan false, nan false⟩ := rfl
  rw [fittingDistance, hedge, hcross, hcross]
  rfl

/-- Centre requests without a radius, and with one at a camera that does not know
where it is, are dropped; another one with a radius depends on the distance. A
rotation, a question, a change of the canvas and other arguments without effect
leave no trace. -/
theorem afterAll_calls_of_pose_camera :
    let one : Binary64 := 1
    let projection : Projection Binary64 := ⟨Binary64.ofNat 60, one, one, Binary64.ofNat 9⟩
    let pose : Pose Binary64 := ⟨⟨0, 0, Binary64.ofNat 4⟩, ⟨0, 0, 0⟩, ⟨0, Binary64.ofNat 2, 0⟩⟩
    let nowhere : Pose Binary64 := ⟨⟨nan false, nan false, nan false⟩, ⟨0, 0, 0⟩, ⟨0, one, 0⟩⟩
    let viewport : Boundary Binary64 := ⟨0, 0, one, one⟩
    let position : Vec3 Binary64 := ⟨one, 0, 0⟩
    let placed : PoseCamera := ⟨pose, pose, projection⟩
    let lost : PoseCamera := ⟨nowhere, pose, projection⟩
    let start (camera : PoseCamera) : Navigator (Recorder PoseCamera Binary64) Binary64 :=
      ofViewport (.ofCamera camera) viewport
    let steps : List (ViewStep Binary64) :=
      [.request (.centerTo position 0 true), .request (.centerTo position one true),
        .request (.setViewport one 0 one), .question .x, .request (.setRotation one)]
    let others : List (ViewStep Binary64) :=
      [.request (.changeCanvasSizeLeft 5), .request (.centerTo position 0 false),
        .question .zoom, .request (.centerTo position one false), .request (.setViewport 0 0 one)]
    let sign := (Camera.fitting placed one).1
    let distance := (Camera.fitting placed one).2
    let eye := position + (pose.direction.scale sign).scale distance
    (start placed).Adds (.request (.centerTo position 0 true)) [] ∧
      (start lost).Adds (.request (.centerTo position one true)) [] ∧
      (if distance.isFinite = false ∨ (distance == 0) = true then
        (start placed).Adds (.request (.centerTo position one true)) []
      else (start placed).Adds (.request (.centerTo position one true))
        [.setHome ⟨eye, position, pose.up⟩, .home]) ∧
      others.filterMap ViewStep.demand? = steps.filterMap ViewStep.demand? ∧
      ((start placed).afterAll others).camera = ((start placed).afterAll steps).camera := by
  have hone : (0 : Binary64) < 1 := by decide +kernel
  intro one projection pose nowhere viewport position placed lost start steps others sign distance
    eye
  have hpositive : 0 < one := hone
  have hdirection : nowhere.direction = ⟨nan false, nan false, nan false⟩ := by decide +kernel
  clear_value one
  have hunbounded : (Camera.fitting lost one).2.isFinite = false := by
    change (fittingDistance nowhere.direction _ one).2.isFinite = false
    rw [hdirection, fittingDistance_nan]
    rfl
  have hdemands : others.filterMap ViewStep.demand? = steps.filterMap ViewStep.demand? := rfl
  obtain ⟨-, -, -, hplaced, -⟩ := afterAll_calls placed viewport []
  obtain ⟨-, -, -, hlost, -⟩ := afterAll_calls lost viewport []
  obtain ⟨-, -, -, -, -, -, -, -, -, hsame, -⟩ := afterAll_calls placed viewport steps
  refine ⟨?_, ?_, ?_, hdemands, hsame others hdemands⟩
  · have hnone : ¬(0 : Binary64) < 0 := by decide
    have h := hplaced position 0 true
    rwa [if_pos (.inl hnone)] at h
  · have h := hlost position one true
    rwa [if_pos (.inr (.inl hunbounded))] at h
  · have h := hplaced position one true
    simp only [hpositive, not_true_eq_false, false_or] at h
    exact h

end Navigator

end Discipline

end Lookout
