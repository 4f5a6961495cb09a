import EntityGraph.CommandLine.Run

/-!
# The command line

Reads the environment, the current directory's files and the arguments, and reports the outcome
of the call.
-/
namespace EntityGraph

def settingVariables : List String :=
  ["ODATA_SPARQL_SCHEMA", "ODATA_SPARQL_ENDPOINT", "ODATA_SPARQL_DATA", "ODATA_SPARQL_TIMEOUT_SECS"]

def readText (path : String) : IO (Except String String) := do
  try
    let text ← IO.FS.readFile path
    return .ok text
  catch
    | .noFileOrDirectory _ code _ => return .error s!"No such file or directory (os error {code})"
    | e => return .error (toString e)

def readablePaths (arguments : List String) (environment : List (String × String)) : List String :=
  [".env", "schema.yaml"] ++ environment.map (·.2) ++ arguments
    ++ arguments.filterMap fun argument => (CommandLine.split argument.toList).2

def report : CommandLine.Outcome → IO UInt32
  | .printed text => do
    IO.print text
    return 0
  | .failed message => do
    IO.eprintln ("Error: " ++ message)
    return 1
  | .misused => do
    IO.eprintln "error: invalid arguments, try '--help'"
    return 2
  | .ask _ _ _ _ => do
    IO.eprintln "Error: no triple store is connected"
    return 1

end EntityGraph

open EntityGraph in
def main (arguments : List String) : IO UInt32 := do
  let environment ← settingVariables.filterMapM fun name => do
    return (← IO.getEnv name).map fun value => (name, value)
  let file ← readText ".env"
  let known := Environment.extend environment file.toOption
  let files ← (readablePaths arguments known).mapM fun path => do return (path, ← readText path)
  report (CommandLine.run arguments environment fun path =>
    (files.lookup path).getD (.error "No such file or directory (os error 2)"))
