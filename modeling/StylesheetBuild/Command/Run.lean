/-
One use of the command line, from its arguments to its exit status.
-/
import StylesheetBuild.Command.Build

namespace StylesheetBuild.Command

/-- What one use of the command line leaves behind. -/
structure Result where
  exit : Nat
  -- the text on the standard output
  output : Text
  -- the text on the standard error output
  status : Text
  events : List Pipeline.Event
  host : Host

def versionLine : Text := "assetline 0.1.0\n".toList

/-- The line that tells how the command line is used. -/
def usageLine : Text :=
  ("Usage: assetline build [--config PATH] [--development] [--application-root PATH] " ++
    "[--out-dir PATH] [--verbose] FILES...\n").toList

/-- The variable that names a configuration file. -/
def configVariable : Text := "ASSETLINE_CONFIG".toList

/-- Runs the command line with the given arguments, where builds finish in the given order. -/
def run (host : Host) (compiler : Pipeline.Compiler) (order : Nat → List Nat)
    (arguments : List Argument) : Result :=
  match parse ((host.lookup configVariable).map Utf8.encode) arguments with
  | .error error => ⟨2, [], error.message ++ ['\n'] ++ usageLine, [], host⟩
  | .ok .version => ⟨0, versionLine, [], [], host⟩
  | .ok .help => ⟨0, usageLine, [], [], host⟩
  | .ok (.build request) =>
    let (console, result) := execute host compiler request order
    match result with
    | .ok () => ⟨0, console.output, console.status, console.events, console.host⟩
    | .error error =>
      let said := console.sayIn .red ("Error: ".toList ++ error.message)
      ⟨1, said.output, said.status, said.events, said.host⟩

end StylesheetBuild.Command
