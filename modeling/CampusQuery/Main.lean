import CampusQuery.Command.Run

/-!
# The program

Reads the files that the arguments name and standard input, and prints the outcome.
-/

namespace CampusQuery

/-- Names the first of several, and does not say what is wrong with a text that is not JSON. -/
def Wording.plain : Wording where
  pick names := names.headD ""
  pick_mem {names} _ := by cases names <;> simp_all
  complaint _ := ""

/-- The text of a file of the system. -/
def readFile (name : String) : IO (Except FileError String) := do
  try
    let bytes ← IO.FS.readBinFile name
    match String.fromUTF8? bytes with
    | some text => return .ok text
    | none => return .error .notText
  catch
    | .noFileOrDirectory .. => return .error .notFound
    | error => return .error (.other (toString error))

/-- The files that a command reads. -/
def dataFiles : Option Command → List String
  | some (.query _ data _) | some (.datasets data) => data
  | _ => []

end CampusQuery

open CampusQuery

def main (arguments : List String) : IO UInt32 := do
  let command := Command.ofArguments? arguments
  let files ← (dataFiles command).mapM fun name => return (name, ← readFile name)
  let input ← match command with
    | some (.query none ..) => (← IO.getStdin).readToEnd
    | _ => pure ""
  let outcome := Outcome.ofArguments .plain
    (fun name => (files.lookup name).getD (.error .notFound)) input arguments
  IO.print outcome.output
  IO.eprint outcome.errors
  return outcome.exitCode.toUInt32
