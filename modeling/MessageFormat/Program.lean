import MessageFormat.Command.Run
import MessageFormat.CommandLine

/-!
# The program

A run of the command line program as a function of its arguments and of what paths lead to.
The configuration is read before the command is run, and the filter for events is checked in
between.  Events themselves are not part of the outcome.
-/

namespace MessageFormat

/-- How a run ends. -/
structure Outcome where
  code : Nat
  output : String := ""
  errors : String := ""
deriving DecidableEq, Repr

namespace Program

/-- The outcome of a run that wrote a text. -/
def success (output : String) : Outcome := ⟨0, output, ""⟩

/-- The outcome of a run that failed, after the given lines were written as errors. -/
def failure (lines : List String) (message : String) : Outcome :=
  ⟨1, "", String.join ((lines ++ ["error: " ++ message]).map (· ++ "\n"))⟩

/-- The outcome of a command, given its text if it has one. -/
def ofResult : Except Command.Fault (Option String) → Outcome
  | .ok none => success ""
  | .ok (some text) => success (text ++ "\n")
  | .error fault => failure [] fault.text

/-- Runs a command. -/
def runCommand (find : String → Lookup) (c : Configuration) : Command → Outcome
  | .parse request => ofResult (some <$> (request.run c).1)
  | .kind request => ofResult (some <$> request.run)
  | .displayName request => ofResult (request.run c).1
  | .validate request =>
    match (request.run c (find request.source)).1 with
    | .error fault => failure [] fault.text
    | .ok [] => success ""
    | .ok diagnostics =>
      failure (diagnostics.map Diagnostic.describe)
        (Command.Fault.diagnostics diagnostics.length).text

/-- Runs the program. -/
def run (find : String → Lookup) (arguments : List String) : Outcome :=
  match CommandLine.parse arguments with
  | .error fault => failure [] fault.message
  | .ok (command, path) =>
    let configured := do
      let c ← (Configuration.load path (find path)).1
      c.checkLogLevel
      return c
    match configured with
    | .error fault => failure [] fault.message
    | .ok c => runCommand find c command

end Program

end MessageFormat
