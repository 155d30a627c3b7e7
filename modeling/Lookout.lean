import Lookout.Main
import Lookout.Scene.Recorder
import Lookout.Scene.Session
import Lookout.Proofs.Numeric.Decimal
import Lookout.Proofs.Curve.TableGrammar
import Lookout.Proofs.Configuration.Loads
import Lookout.Proofs.Curve.RoundTrip
import Lookout.Proofs.Curve.Values
import Lookout.Proofs.Scene.Session
import Lookout.Proofs.Scene.RoundTrip
import Lookout.Proofs.Registry.Readers
import Lookout.Proofs.Registry.Runs
import Lookout.Proofs.Scene.Home
import Lookout.Proofs.Report
import Lookout.Proofs.Scene.LineOfSight
import Lookout.Proofs.Scene.Framing
import Lookout.Proofs.Curve.Interpolation
import Lookout.Proofs.Curve.Locality
import Lookout.Proofs.Curve.LeftSlope
import Lookout.Proofs.Curve.Reordering
import Lookout.Proofs.Numeric.Operations
import Lookout.Proofs.Curve.Range
import Lookout.Proofs.Curve.Faults
import Lookout.Proofs.Curve.Concatenation
import Lookout.Proofs.Curve.Replacement
import Lookout.Proofs.Curve.Bisection
import Lookout.Proofs.Registry.Faults
import Lookout.Proofs.Configuration.Faults
import Lookout.Proofs.Scene.BirdView
import Lookout.Proofs.Scene.Aspect
