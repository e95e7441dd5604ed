import ScriptTree.CommandLine

/-!
The program: reads the file that the arguments name, and writes out what is answered.
-/

namespace ScriptTree

/-- The text of a file, unless it cannot be read or is not UTF-8. -/
def readText? (path : String) : IO (Option String) :=
  try
    return some (← IO.FS.readFile path)
  catch _ =>
    return none

def deliver (answer : Answer) (reports : List String) : IO UInt32 := do
  for line in answer.output do
    IO.println line
  for line in reports ++ answer.notice.toList do
    IO.eprintln line
  return answer.exitCode

def runProgram (arguments : List String) : IO UInt32 := do
  match Request.ofArguments? arguments with
  | none => deliver Answer.usage []
  | some request =>
    let content ← readText? request.path
    let answer := request.answer content
    deliver answer (request.reportLines content answer)

end ScriptTree

def main (arguments : List String) : IO UInt32 :=
  ScriptTree.runProgram arguments
