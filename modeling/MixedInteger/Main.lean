import MixedInteger.CommandLine.Run

/-!
# The program

Reads the files that the command line names, carries the command out and hands
its result over.  Everything that decides anything is in `CommandLine`.
-/

namespace MixedInteger.Program

open CommandLine

/-- The desk of an invocation: the one file it reads, or its input. -/
def openDesk (source : String) : IO Desk := do
  if source == "-" then
    let input ← (← IO.getStdin).readToEnd
    pure ⟨[], input⟩
  else
    try
      let content ← IO.FS.readFile source
      pure ⟨[(String.ofList (plainName source), content)], ""⟩
    catch _ => pure ⟨[], ""⟩

/-- Prints a result, or writes it to the file that was asked for. -/
def deliver (output : Option String) (text : String) : IO UInt32 := do
  match output with
  | none =>
    IO.println text
    pure 0
  | some target =>
    try
      IO.FS.writeFile target (text ++ "\n")
      pure 0
    catch error =>
      IO.eprintln s!"{(Context.creatingFile (Text.showQuoted target)).message}: {error}"
      pure 1

def run (arguments : List String) : IO UInt32 := do
  match CommandLine.read arguments with
  | .error refusal =>
    IO.eprintln s!"{programName}: {refusal.name}"
    pure (if refusal == .displayHelp then 0 else 2)
  | .ok invocation =>
    let desk ← openDesk invocation.input
    match invocation.result Effort.unhurried desk with
    | .ok text => deliver invocation.choices.output text
    | .error fault =>
      IO.eprintln fault.message
      pure 1

end MixedInteger.Program

def main (arguments : List String) : IO UInt32 :=
  MixedInteger.Program.run arguments
