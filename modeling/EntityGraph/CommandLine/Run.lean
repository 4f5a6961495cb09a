import EntityGraph.CommandLine.Options
import EntityGraph.Filter.Reader
import EntityGraph.Read.Compile
import EntityGraph.Schema.Definition
import EntityGraph.Settings.Environment

/-!
# What a call of the program does

Up to the point where a store is opened, a call depends only on its arguments, on environment
variables and on the files it reads: it prints a text, fails with a message, or comes to a
request that a store has to answer.
-/
namespace EntityGraph.CommandLine

inductive Outcome where
  | printed (text : String)
  | failed (message : String)
  /-- The arguments are not usable. -/
  | misused
  /-- The compiled request has to be answered by a store; `turtle` is the text of the data file. -/
  | ask (request : ReadRequest) (query : CompiledQuery) (target : StoreTarget) (turtle : Option String)

/-- An identifier is a number if its text is a finite numeral, else a string. -/
def idLiteral (text : String) : Filter :=
  match Binary64.read? text.toList with
  | some value => if value.isFinite then .number value else .string text
  | none => .string text

def Options.request (options : Options) : Except String ReadRequest := do
  let filter ←
    match options.filter with
    | none => pure none
    | some text =>
      match Filter.parse? text with
      | some filter => pure (some filter)
      | none => .error "--filter is not a valid filter expression"
  return {
    entitySet := options.entitySet
    expand := .ofPaths options.expand
    filter
    byId := options.id.map idLiteral }

/-- Open what the settings say; `readFile` gives the text of a file or the reason why it cannot
be read. -/
def openTarget (settings : Settings) (readFile : String → Except String String) :
    Except String (StoreTarget × Option String) :=
  match settings.target with
  | .error e => .error e.fullMessage
  | .ok (.endpoint url) => .ok (.endpoint url, none)
  | .ok (.data path) =>
    match readFile path with
    | .error reason => .error ("failed to read " ++ path ++ ": " ++ reason)
    | .ok turtle => .ok (.data path, some turtle)

def readSchema (path : String) (readFile : String → Except String String) :
    Except SchemaError Schema :=
  match readFile path with
  | .error reason => .error (.unreadable reason)
  | .ok text => (SchemaDefinition.ofYaml text).bind SchemaDefinition.toSchema

def runOptions (options : Options) (environment : List (String × String))
    (readFile : String → Except String String) : Except String Outcome := do
  let settings ← (Settings.ofEnvironment environment).mapError SettingsError.fullMessage
  let settings ← ((settings.override options.overrides).check).mapError SettingsError.fullMessage
  let schema ← (readSchema settings.schemaPath readFile).mapError SchemaError.message
  let reader : Reader := { schema }
  let request ← options.request
  let compiled := (reader.compile request).mapError ReadError.message
  if options.isSparqlOnly then return .printed ((← compiled).sparql ++ "\n")
  let (target, turtle) ← openTarget settings readFile
  return .ask request (← compiled) target turtle

def helpText : String :=
  "odata-sparql - read OData-style entity sets from a SPARQL triple store\n\n"
    ++ "Usage: odata-sparql [OPTIONS] --entity-set <ENTITY_SET>\n\n"
    ++ "Options:\n"
    ++ "      --schema <SCHEMA>              YAML entity schema\n"
    ++ "      --entity-set <ENTITY_SET>      Entity set to read\n"
    ++ "      --expand <EXPAND>              "
    ++ "Navigation path to expand, e.g. `Children/Content` (repeatable)\n"
    ++ "      --filter <FILTER>              Filter expression as JSON\n"
    ++ "      --id <ID>                      Read a single entity by id\n"
    ++ "      --endpoint <ENDPOINT>          SPARQL query endpoint\n"
    ++ "      --data <DATA>                  Turtle file loaded into an in-memory store\n"
    ++ "      --timeout-secs <TIMEOUT_SECS>  Store request timeout in seconds\n"
    ++ "      --sparql-only                  Print the generated SPARQL instead of running it\n"
    ++ "  -h, --help                         Print help\n"
    ++ "  -V, --version                      Print version\n"

def versionText : String := "odata-sparql 0.1.0\n"

/-- The outcome of a call. Variables of the environment file count where they are not set. -/
def run (arguments : List String) (environment : List (String × String))
    (readFile : String → Except String String) : Outcome :=
  match parse arguments with
  | .misused => .misused
  | .help => .printed helpText
  | .version => .printed versionText
  | .read options =>
    let environment := Environment.extend environment (readFile ".env").toOption
    match runOptions options environment readFile with
    | .ok outcome => outcome
    | .error message => .failed message

end EntityGraph.CommandLine
