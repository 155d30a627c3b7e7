/-
Lookout.Proofs.Scene.Aspect — the aspect of a projection over runs of canvases,
and what it means for the projection matrix.

* `Binary64.RelativelyEqual` — equality up to 2^-52, in absolute terms or
                     relative to the larger number, read off the values;
                     `nearlyEqual_iff`: the program's comparison decides it.
* `Canvas.ratio`   — width over height, exactly. An open canvas, one with both
                     sides, has its correct rounding as aspect
                     (`isRounding_aspect`), and that is an aspect from 2^-32 to
                     2^32 (`InAspectRange`).
* `AspectAfter`    — the aspect that a run of canvases leaves: that of the last
                     open one, or the one at the start.

An aspect in that range is finite and positive, and not relatively equal to
zero. So from the first open canvas on a projection has a matrix unless its
planes coincide.
-/
import Lookout.Scene.Projection
import Lookout.Proofs.Numeric.CorrectRounding

namespace Lookout

namespace Binary64

/-! ## Relative equality -/

/-- Equal, or finite and at most 2^-52 apart, or at most 2^-52 of the larger one
apart. The difference and the relative bound are machine numbers, each rounded once. -/
def RelativelyEqual (a b : Binary64) : Prop :=
  (a == b) = true ∨ a.isFinite = true ∧ b.isFinite = true ∧ ∃ difference bound : Binary64,
    IsRounding (a.value - b.value) difference ∧
    IsRounding (max |a.value| |b.value| * (1 / 2 ^ 52)) bound ∧
    (|difference.value| ≤ 1 / 2 ^ 52 ∨ |difference.value| ≤ bound.value)

section RelativeEquality

variable {a b x : Binary64}

theorem RelativelyEqual.symm (h : RelativelyEqual a b) : RelativelyEqual b a := by
  rcases h with heq | ⟨ha, hb, difference, bound, hdifference, hbound, hnear⟩
  · exact .inl (by rwa [beq_comm])
  · refine .inr ⟨hb, ha, neg difference, bound, ?_, by rwa [max_comm], ?_⟩
    · rw [← neg_sub]
      exact hdifference.neg
    · rwa [value_neg, abs_neg]

theorem value_absolute (hx : x.isNaN = false) : (Projection.absolute x).value = |x.value| := by
  have hzero : x < 0 ↔ x.value < 0 := by
    rw [lt_iff_value hx (by decide), value_zero]
  unfold Projection.absolute
  split
  · next h => exact (value_neg x).trans (abs_of_neg (hzero.mp h)).symm
  · next h => exact (abs_of_nonneg (not_lt.mp fun hneg => h (hzero.mpr hneg))).symm

theorem isFinite_absolute (x : Binary64) : (Projection.absolute x).isFinite = x.isFinite := by
  unfold Projection.absolute
  split <;> rfl

theorem isNaN_absolute (x : Binary64) : (Projection.absolute x).isNaN = x.isNaN := by
  unfold Projection.absolute
  split <;> rfl

theorem tolerance_eq : (Projection.tolerance : Binary64) = ⟨false, 971 * 2 ^ 52, by decide⟩ := by
  decide +kernel

theorem isFinite_tolerance : (Projection.tolerance : Binary64).isFinite = true := by
  rw [tolerance_eq]
  decide

theorem value_tolerance : (Projection.tolerance : Binary64).value = 1 / 2 ^ 52 := by
  rw [tolerance_eq]
  norm_num [value, codeValue]

/-- The larger one of two absolute values, as the program picks it, times the tolerance. -/
theorem isRounding_bound (ha : a.isFinite = true) (hb : b.isFinite = true) :
    IsRounding (max |a.value| |b.value| * (1 / 2 ^ 52))
      ((if Projection.absolute a < Projection.absolute b then Projection.absolute b
        else Projection.absolute a) * Projection.tolerance) := by
  have hvalue_a := value_absolute (isNaN_of_isFinite ha)
  have hvalue_b := value_absolute (isNaN_of_isFinite hb)
  rw [← isFinite_absolute] at ha hb
  have hless := lt_iff_value (isNaN_of_isFinite ha) (isNaN_of_isFinite hb)
  rw [← hvalue_a, ← hvalue_b, ← value_tolerance]
  split
  · next h =>
    rw [max_eq_right (hless.mp h).le]
    exact isRounding_mul hb isFinite_tolerance
  · next h =>
    rw [max_eq_left (not_lt.mp fun hlt => h (hless.mpr hlt))]
    exact isRounding_mul ha isFinite_tolerance

/-- The program's comparison decides relative equality. -/
theorem nearlyEqual_iff (a b : Binary64) :
    Projection.nearlyEqual a b = true ↔ RelativelyEqual a b := by
  unfold Projection.nearlyEqual RelativelyEqual
  change (if (a == b) = true then true
    else if (!a.isFinite || !b.isFinite) = true then false else _) = true ↔ _
  by_cases heq : (a == b) = true
  · simp [heq]
  by_cases hfinite : a.isFinite = true ∧ b.isFinite = true
  · obtain ⟨ha, hb⟩ := hfinite
    have hdifference := isRounding_sub ha hb
    have hbound := isRounding_bound ha hb
    have htolerance := isNaN_of_isFinite isFinite_tolerance
    have hdistance : (Projection.absolute (a - b)).isNaN = false := by
      rw [isNaN_absolute]
      exact hdifference.isNaN
    rw [if_neg heq, if_neg (by simp [ha, hb])]
    dsimp only
    rw [Bool.or_eq_true, decide_eq_true_iff, decide_eq_true_iff, le_iff_value hdistance htolerance,
      le_iff_value hdistance hbound.isNaN, value_absolute hdifference.isNaN, value_tolerance]
    constructor
    · intro hnear
      exact .inr ⟨ha, hb, _, _, hdifference, hbound, hnear⟩
    · rintro (h | ⟨-, -, difference, bound, hdifference', hbound', hnear⟩)
      · exact absurd h heq
      · -- The exact values determine both numbers, up to the sign of a zero.
        rwa [hdifference.value_eq hdifference', hbound.value_eq hbound']
  · rw [if_neg heq, if_pos (by grind)]
    simp only [Bool.false_eq_true, heq, false_or, false_iff]
    rintro ⟨ha, hb, -⟩
    exact hfinite ⟨ha, hb⟩

/-- Nothing finite that is not tiny is relatively equal to zero: all of it is the
difference, and the relative bound is at most half of that after rounding. -/
theorem not_relativelyEqual_zero (ha : a.isFinite = true) (hlarge : 1 / 2 ^ 52 < |a.value|) :
    ¬RelativelyEqual a 0 := by
  rintro (heq | ⟨-, -, difference, bound, hdifference, hbound, hnear⟩)
  · obtain ⟨-, -, hrank⟩ := beq_iff.mp heq
    have hvalue : a.value = (0 : Binary64).value :=
      le_antisymm (value_le_iff.mpr hrank.le) (value_le_iff.mpr hrank.ge)
    rw [hvalue, value_zero, abs_zero] at hlarge
    norm_num at hlarge
  · rw [value_zero, sub_zero] at hdifference
    rw [value_zero, abs_zero, max_eq_left (abs_nonneg _)] at hbound
    have hexact := hdifference.value_eq (isRounding_value (isNaN_of_isFinite ha))
    have hsmall : bound.value ≤ 2 * (|a.value| * (1 / 2 ^ 52)) :=
      hbound.value_le_two_mul (by positivity)
    rw [hexact] at hnear
    rcases hnear with h | h <;> linarith

end RelativeEquality

/-! ## The range of aspects -/

/-- The aspects that a canvas can have: a side has fewer than 2^32 pixels. -/
structure InAspectRange (a : Binary64) : Prop where
  low : 1 / 2 ^ 32 ≤ a.value
  high : a.value ≤ 2 ^ 32

namespace InAspectRange

variable {a : Binary64}

theorem value_pos (h : a.InAspectRange) : 0 < a.value :=
  (by norm_num : (0 : ℚ) < 1 / 2 ^ 32).trans_le h.low

theorem isFinite (h : a.InAspectRange) : a.isFinite = true := by
  have hcode : codeValue a.magnitude < codeValue infinityMagnitude := by
    rw [← abs_value, abs_of_pos h.value_pos, codeValue_infinityMagnitude]
    calc a.value ≤ 2 ^ (32 : ℤ) := h.high
      _ ≤ 2 ^ (1023 : ℤ) := zpow_le_zpow_right₀ one_le_two (by norm_num)
      _ < 2 * 2 ^ (1023 : ℤ) := lt_mul_left (zpow_pos two_pos _) one_lt_two
  exact decide_eq_true (codeValue_strictMono.lt_iff_lt.mp hcode)

theorem isZero (h : a.InAspectRange) : a.isZero = false := by
  refine decide_eq_false fun hzero => ?_
  have hpos := abs_pos_of_pos h.value_pos
  rw [abs_value, hzero, codeValue_zero] at hpos
  exact lt_irrefl _ hpos

theorem pos (h : a.InAspectRange) : 0 < a := by
  rw [lt_iff_value (by decide) (isNaN_of_isFinite h.isFinite), value_zero]
  exact h.value_pos

theorem not_relativelyEqual_zero (h : a.InAspectRange) : ¬RelativelyEqual a 0 := by
  apply Binary64.not_relativelyEqual_zero h.isFinite
  rw [abs_of_pos h.value_pos]
  exact (by norm_num : (1 : ℚ) / 2 ^ 52 < 1 / 2 ^ 32).trans_le h.low

end InAspectRange

/-- The ends of the range are numbers, so rounding does not leave it. -/
theorem inAspectRange_of_isRounding {v : ℚ} {a : Binary64} (ha : IsRounding v a)
    (hlow : 1 / 2 ^ 32 ≤ v) (hhigh : v ≤ 2 ^ 32) : a.InAspectRange where
  low := by
    have hend : (⟨false, 991 * 2 ^ 52, by decide⟩ : Binary64).value = 1 / 2 ^ 32 := by
      norm_num [value, codeValue]
    rw [← hend] at hlow ⊢
    exact (isRounding_value (by decide)).mono hlow ha
  high := by
    have hend : (⟨false, 1055 * 2 ^ 52, by decide⟩ : Binary64).value = 2 ^ 32 := by
      norm_num [value, codeValue]
    rw [← hend] at hhigh ⊢
    exact ha.mono hhigh (isRounding_value (by decide))

theorem inAspectRange_ofNat {n : Nat} (hpos : 0 < n) (hn : n ≤ 2 ^ 32) :
    (ofNat n).InAspectRange := by
  have hlow : (1 : ℚ) ≤ n := by exact_mod_cast hpos
  exact inAspectRange_of_isRounding (isRounding_ofNat n)
    ((by norm_num : (1 : ℚ) / 2 ^ 32 ≤ 1).trans hlow) (by exact_mod_cast hn)

end Binary64

/-! ## Canvases -/

open Binary64

namespace Canvas

/-- A canvas with both sides; the others are collapsed. -/
def IsOpen (c : Canvas) : Prop := c.width ≠ 0 ∧ c.height ≠ 0

instance (c : Canvas) : Decidable c.IsOpen := inferInstanceAs (Decidable (_ ∧ _))

/-- Width over height, exactly. -/
def ratio (c : Canvas) : ℚ := c.width.toNat / c.height.toNat

variable {c : Canvas}

theorem aspect?_of_not_isOpen (h : ¬c.IsOpen) : (c.aspect? : Option Binary64) = none := by
  unfold IsOpen at h
  exact if_pos (by tauto)

theorem side_pos {side : UInt32} (h : side ≠ 0) : 0 < side.toNat := by
  rw [Nat.pos_iff_ne_zero, ne_eq, ← UInt32.toNat_zero, UInt32.toNat_inj]
  exact h

/-- The aspect of an open canvas is its correctly rounded ratio. -/
theorem exists_aspect (h : c.IsOpen) :
    ∃ a : Binary64, c.aspect? = some a ∧ IsRounding c.ratio a := by
  have hwidth := c.width.toNat_lt
  have hheight := c.height.toNat_lt
  have hx := inAspectRange_ofNat (side_pos h.1) hwidth.le
  have hy := inAspectRange_ofNat (side_pos h.2) hheight.le
  refine ⟨ofNat c.width.toNat / ofNat c.height.toNat, if_neg (by unfold IsOpen at h; tauto), ?_⟩
  have hround := isRounding_div hx.isFinite hy.isFinite hy.isZero
  rwa [value_ofNat (by omega), value_ofNat (by omega)] at hround

theorem ratio_bounds (h : c.IsOpen) : 1 / 2 ^ 32 ≤ c.ratio ∧ c.ratio ≤ 2 ^ 32 := by
  have hwidth : (1 : ℚ) ≤ c.width.toNat := by exact_mod_cast side_pos h.1
  have hheight : (1 : ℚ) ≤ c.height.toNat := by exact_mod_cast side_pos h.2
  have hwidth' : (c.width.toNat : ℚ) ≤ 2 ^ 32 := by exact_mod_cast c.width.toNat_lt.le
  have hheight' : (c.height.toNat : ℚ) ≤ 2 ^ 32 := by exact_mod_cast c.height.toNat_lt.le
  constructor
  · exact div_le_div₀ (by linarith) hwidth (by linarith) hheight'
  · exact (div_le_self (by linarith) hheight).trans hwidth'

end Canvas

/-! ## Runs -/

/-- The aspect `aspect` is what a run of canvases leaves of the aspect `start`. -/
inductive AspectAfter (start : Binary64) (canvases : List Canvas) (aspect : Binary64) : Prop where
  /-- All canvases were collapsed. -/
  | unchanged (collapsed : ∀ c ∈ canvases, ¬c.IsOpen) (eq : aspect = start)
  /-- `c` was the last open one. -/
  | last (before : List Canvas) (c : Canvas) (after : List Canvas)
      (split : canvases = before ++ c :: after) (isOpen : c.IsOpen)
      (collapsed : ∀ d ∈ after, ¬d.IsOpen) (rounded : IsRounding c.ratio aspect)

/-- From the first open canvas on the aspect is in the range, whatever it was before. -/
theorem AspectAfter.inAspectRange {start aspect : Binary64} {canvases : List Canvas}
    (h : AspectAfter start canvases aspect)
    (hrange : start.InAspectRange ∨ ∃ c ∈ canvases, c.IsOpen) : aspect.InAspectRange := by
  cases h with
  | unchanged collapsed eq =>
    rcases hrange with hstart | ⟨c, hc, hopen⟩
    · rwa [eq]
    · exact absurd hopen (collapsed c hc)
  | last before c after split isOpen collapsed rounded =>
    obtain ⟨hlow, hhigh⟩ := Canvas.ratio_bounds isOpen
    exact inAspectRange_of_isRounding rounded hlow hhigh

namespace Projection

/-- Takes the aspects of some canvases, one after the other. -/
def resizeAll (p : Projection Binary64) (canvases : List Canvas) : Projection Binary64 :=
  canvases.foldl resize p

variable {p : Projection Binary64}

theorem resize_of_not_isOpen {c : Canvas} (h : ¬c.IsOpen) : p.resize c = p := by
  rw [resize, Canvas.aspect?_of_not_isOpen h]
  rfl

theorem isRounding_resize {c : Canvas} (h : c.IsOpen) :
    IsRounding c.ratio (p.resize c).aspect := by
  obtain ⟨a, ha, hround⟩ := Canvas.exists_aspect h
  rw [resize, ha]
  exact hround

/-- One more canvas is the last open one, or leaves the last open one as it is. -/
theorem aspectAfter_resize {start : Binary64} {canvases : List Canvas}
    (h : AspectAfter start canvases p.aspect) (c : Canvas) :
    AspectAfter start (canvases ++ [c]) (p.resize c).aspect := by
  by_cases hopen : c.IsOpen
  · exact .last canvases c [] rfl hopen (by simp) (isRounding_resize hopen)
  · rw [resize_of_not_isOpen hopen]
    cases h with
    | unchanged collapsed eq => exact .unchanged (by simpa [or_imp, forall_and, hopen]) eq
    | last before d after split isOpen collapsed rounded =>
      exact .last before d (after ++ [c]) (by simp [split]) isOpen
        (by simpa [or_imp, forall_and, hopen]) rounded

/-- What a run of canvases leaves of a projection: the aspect of the last open
canvas, and all else as it was. -/
structure LeftBy (start : Projection Binary64) (canvases : List Canvas)
    (p : Projection Binary64) : Prop where
  fovyDegrees : p.fovyDegrees = start.fovyDegrees
  near : p.near = start.near
  far : p.far = start.far
  aspect : AspectAfter start.aspect canvases p.aspect

theorem LeftBy.resize {start : Projection Binary64} {canvases : List Canvas}
    (h : LeftBy start canvases p) (c : Canvas) : LeftBy start (canvases ++ [c]) (p.resize c) :=
  ⟨h.fovyDegrees, h.near, h.far, aspectAfter_resize h.aspect c⟩

theorem leftBy_resizeAll (start : Projection Binary64) (canvases : List Canvas) :
    LeftBy start canvases (start.resizeAll canvases) := by
  induction canvases using List.reverseRecOn with
  | nil => exact ⟨rfl, rfl, rfl, .unchanged (by simp) rfl⟩
  | append_singleton canvases c ih =>
    rw [resizeAll, List.foldl_append]
    exact ih.resize c

/-- The canvas that a projection is made for is a step like the others, from a square. -/
theorem ofCanvas_resizeAll (first : Canvas) (canvases : List Canvas)
    (fovyDegrees near far : Binary64) :
    (ofCanvas first fovyDegrees near far).resizeAll canvases =
      resizeAll ⟨fovyDegrees, 1, near, far⟩ (first :: canvases) := rfl

/-! ## The matrix -/

/-- A projection whose aspect is in order: it passes its check, and only planes
that are relatively equal keep the projection from having a matrix. -/
structure HasUsableAspect (p : Projection Binary64) : Prop where
  isFinite : p.aspect.isFinite = true
  pos : 0 < p.aspect
  passes_check : ¬RelativelyEqual p.aspect 0
  matrix_eq_error_iff :
    ∀ e, p.matrix = .error e ↔ RelativelyEqual p.near p.far ∧ e = .superimposedPlanes

theorem matrix_eq_error_iff (h : ¬RelativelyEqual p.aspect 0) (e : ProjectionError) :
    p.matrix = .error e ↔ RelativelyEqual p.near p.far ∧ e = .superimposedPlanes := by
  have hplanes : nearlyEqual p.far p.near = true ↔ RelativelyEqual p.near p.far :=
    (nearlyEqual_iff _ _).trans ⟨RelativelyEqual.symm, RelativelyEqual.symm⟩
  rw [← nearlyEqual_iff] at h
  rw [← hplanes, matrix, if_neg h]
  split
  · next heq => simp [heq, eq_comm]
  · next hne => simp [hne]

theorem hasUsableAspect_of_inAspectRange (h : p.aspect.InAspectRange) : p.HasUsableAspect where
  isFinite := h.isFinite
  pos := h.pos
  passes_check := h.not_relativelyEqual_zero
  matrix_eq_error_iff := matrix_eq_error_iff h.not_relativelyEqual_zero

/-- **The aspect of a projection.** Over every run of canvases the aspect is the
correctly rounded ratio of the last open canvas, or the one at the start, and
nothing else changes. A projection that was made for a canvas, collapsed or not,
or that has seen an open one, has a usable aspect from then on. -/
theorem resizeAll_aspect_and_matrix (fovyDegrees near far : Binary64) (canvases : List Canvas) :
    (∀ aspect,
      let start : Projection Binary64 := ⟨fovyDegrees, aspect, near, far⟩
      LeftBy start canvases (start.resizeAll canvases) ∧
        ((∃ c ∈ canvases, c.IsOpen) → (start.resizeAll canvases).HasUsableAspect)) ∧
    ∀ first,
      let p := (ofCanvas first fovyDegrees near far).resizeAll canvases
      LeftBy ⟨fovyDegrees, 1, near, far⟩ (first :: canvases) p ∧ p.HasUsableAspect := by
  constructor
  · intro aspect start
    have hrun := leftBy_resizeAll start canvases
    exact ⟨hrun, fun hopen =>
      hasUsableAspect_of_inAspectRange (hrun.aspect.inAspectRange (.inr hopen))⟩
  · intro first p
    have hp : p = resizeAll ⟨fovyDegrees, 1, near, far⟩ (first :: canvases) :=
      ofCanvas_resizeAll first canvases fovyDegrees near far
    have hrun := leftBy_resizeAll ⟨fovyDegrees, 1, near, far⟩ (first :: canvases)
    rw [← hp] at hrun
    have hone : (1 : Binary64).InAspectRange := inAspectRange_ofNat one_pos (by norm_num)
    exact ⟨hrun, hasUsableAspect_of_inAspectRange (hrun.aspect.inAspectRange (.inl hone))⟩

/-- An aspect of zero fails its check, and one open canvas among collapsed ones mends it. -/
theorem resizeAll_aspect_and_matrix_from_zero :
    let start : Projection Binary64 := ⟨ofNat 60, 0, 1, ofNat 1000⟩
    let canvases : List Canvas := [⟨800, 0⟩, ⟨640, 480⟩, ⟨640, 0⟩, ⟨0, 480⟩]
    (∃ c ∈ canvases, c.IsOpen) ∧ RelativelyEqual start.aspect 0 ∧
      LeftBy start canvases (start.resizeAll canvases) ∧
      (start.resizeAll canvases).HasUsableAspect := by
  intro start canvases
  have hopen : ∃ c ∈ canvases, c.IsOpen := ⟨⟨640, 480⟩, by decide, by decide⟩
  have hzero : RelativelyEqual start.aspect 0 := .inl (by decide)
  obtain ⟨hrun, husable⟩ :=
    (resizeAll_aspect_and_matrix (ofNat 60) 1 (ofNat 1000) canvases).1 0
  exact ⟨hopen, hzero, hrun, husable hopen⟩

end Projection

end Lookout
