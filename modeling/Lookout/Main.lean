/-
Lookout.Main — the command line: `lookout <config.json>` prints a report on
the curves of a configuration file.
-/
import Lookout.Report

namespace Lookout

/-- What can be read at a path. -/
def readSource (path : String) : IO Configuration.Source := do
  try
    return .file (← IO.FS.readBinFile path)
  catch _ =>
    return .missing

end Lookout

open Lookout in
def main (arguments : List String) : IO UInt32 := do
  match arguments with
  | [] =>
    IO.eprintln "usage: lookout <config.json>"
    return (Outcome.ofArguments (fun _ => .missing) []).exitCode
  | path :: rest =>
    let source ← readSource path
    match Configuration.empty.load source with
    | .ok _ => pure ()
    | .error e => IO.eprintln s!"failed to load {path}: {e.message}"
    let outcome := Outcome.ofArguments (fun _ => source) (path :: rest)
    IO.print (String.ofList outcome.output)
    return outcome.exitCode
