/-
Lookout.Report — what the command line prints about a configuration.

Every curve has a block: its name and sample table, then its value at four
probes. Visual angles come first, then error probabilities, each in ascending
order of the names. Nothing is printed unless the whole configuration could be
loaded.
-/
import Lookout.Configuration.Basic
import Lookout.Numeric.Decimal.Fixed

namespace Lookout

namespace Report

/-- How the curves of a domain are shown. -/
structure Layout where
  heading : String
  probes : List Nat
  keyUnit : String
  valueUnit : String
  places : Nat

def layout : Domain → Layout
  | .visualAngle => ⟨"visual angle", [0, 30, 50, 100], " km/h", " deg", 2⟩
  | .errorProbability => ⟨"error probability", [0, 50, 100, 250], " m", "", 3⟩

/-- A text at the right end of a field that is `width` characters wide. -/
def alignRight (width : Nat) (text : List Char) : List Char :=
  List.replicate (width - text.length) ' ' ++ text

/-- The line with the value of a curve at one probe. -/
def probeLine {domain : Domain} (curve : DomainCurve domain) (probe : Nat) : List Char :=
  let l := layout domain
  [' ', ' '] ++ alignRight 6 (Binary64.ofNat probe).shortestText ++ l.keyUnit.toList ++
    " -> ".toList ++ (curve.evaluate (Binary64.ofNat probe)).fixedText l.places ++
    l.valueUnit.toList ++ ['\n']

/-- The block of one curve. -/
def block {domain : Domain} (name : List Char) (curve : DomainCurve domain) : List Char :=
  let l := layout domain
  l.heading.toList ++ " '".toList ++ name ++ "': ".toList ++ curve.text ++ ['\n'] ++
    l.probes.flatMap (probeLine curve)

/-- The blocks of a registry, name by name. A name without a curve has none. -/
def blocks {domain : Domain} (r : CurveRegistry domain) : List Char :=
  r.names.flatMap fun name =>
    match r.get name with
    | .ok curve => block name curve
    | .error _ => []

/-- The report on a configuration. -/
def text (c : Configuration) : List Char := blocks c.visualAngles ++ blocks c.errorProbabilities

end Report

/-- What a run of the command line leaves behind. -/
structure Outcome where
  exitCode : UInt32
  output : List Char
deriving DecidableEq

namespace Outcome

/-- A run that fails prints nothing. -/
def failure : Outcome := ⟨1, []⟩

/-- The outcome of a run on the arguments, the first of which is the path of a
configuration file. -/
def ofArguments (files : String → Configuration.Source) : List String → Outcome
  | [] => failure
  | path :: _ =>
    match Configuration.empty.load (files path) with
    | .ok c => ⟨0, Report.text c⟩
    | .error _ => failure

end Outcome

end Lookout
