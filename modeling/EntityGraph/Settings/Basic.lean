import EntityGraph.Document.Yaml
import EntityGraph.Settings.Url

/-!
# Settings

Where the schema is, which store is asked and how long to wait for it. Settings come from
environment variables, from a YAML document or from the command line, and are accepted when the
path of the schema is not empty, an endpoint is an absolute URL and the timeout is between one
second and ten minutes.
-/
namespace EntityGraph

inductive SettingsFault where
  | endpointUrl
  | timeoutRange
  | schemaPathEmpty
  deriving DecidableEq, Repr

namespace SettingsFault

def field : SettingsFault → String
  | endpointUrl => "endpoint_url"
  | timeoutRange => "request_timeout_secs"
  | schemaPathEmpty => "schema_path"

def code : SettingsFault → String
  | endpointUrl => "url"
  | timeoutRange => "range"
  | schemaPathEmpty => "length"

def message : SettingsFault → String
  | endpointUrl => "SPARQL endpoint must be a valid URL"
  | timeoutRange => "Request timeout must be between 1 and 600 seconds"
  | schemaPathEmpty => "Schema path cannot be empty"

end SettingsFault

/-- Why a text is no number below `2 ^ 64`. -/
inductive NumeralFault where
  | empty
  | invalidDigit
  | tooLarge
  deriving DecidableEq, Repr

def NumeralFault.message : NumeralFault → String
  | empty => "cannot parse integer from empty string"
  | invalidDigit => "invalid digit found in string"
  | tooLarge => "number too large to fit in target type"

def readCountFrom (value : Nat) : List Char → Except NumeralFault Nat
  | [] => .ok value
  | c :: rest =>
    if !c.isDigit then .error .invalidDigit
    else
      let next := 10 * value + (c.toNat - '0'.toNat)
      if 2 ^ 64 ≤ next then .error .tooLarge else readCountFrom next rest

/-- A number below `2 ^ 64` in decimal digits, with or without a plus sign. -/
def readCount (text : String) : Except NumeralFault Nat :=
  match text.toList with
  | [] => .error .empty
  | '+' :: digits => if digits = [] then .error .invalidDigit else readCountFrom 0 digits
  | digits => readCountFrom 0 digits

inductive SettingsError where
  | badNumeral (field value : String) (fault : NumeralFault)
  | unreadableFile
  | malformedDocument
  | invalid (faults : List SettingsFault)
  | missingStore
  deriving DecidableEq, Repr

def SettingsError.message : SettingsError → String
  | badNumeral field value fault => s!"Parse error for {field}: {value} - " ++ fault.message
  | unreadableFile => "Parse error for yaml_file"
  | malformedDocument => "Parse error for yaml_content"
  | invalid _ => "Validation error"
  | missingStore => "No triple store configured: set an endpoint URL or a Turtle data file"

def SettingsError.fullMessage (e : SettingsError) : String :=
  match e with
  | badNumeral _ _ fault => e.message ++ ": " ++ fault.message
  | e => e.message

structure Settings where
  schemaPath : String := "schema.yaml"
  endpoint : Option String := none
  dataPath : Option String := none
  timeoutSecs : Nat := 30
  deriving DecidableEq, Repr

/-- Settings that are given on the command line. -/
structure Overrides where
  schemaPath : Option String := none
  endpoint : Option String := none
  dataPath : Option String := none
  timeoutSecs : Option Nat := none
  deriving DecidableEq, Repr

inductive StoreTarget where
  | endpoint (url : String)
  | data (path : String)
  deriving DecidableEq, Repr

namespace Settings

def faults (settings : Settings) : List SettingsFault :=
  (if settings.endpoint.any fun url => !Url.isAbsolute url then [.endpointUrl] else [])
    ++ (if 1 ≤ settings.timeoutSecs ∧ settings.timeoutSecs ≤ 600 then [] else [.timeoutRange])
    ++ (if settings.schemaPath.isEmpty then [.schemaPathEmpty] else [])

def check (settings : Settings) : Except SettingsError Settings :=
  match settings.faults with
  | [] => .ok settings
  | faults => .error (.invalid faults)

def ofOverrides (given : Overrides) : Except SettingsError Settings :=
  check {
    schemaPath := given.schemaPath.getD "schema.yaml"
    endpoint := given.endpoint
    dataPath := given.dataPath
    timeoutSecs := given.timeoutSecs.getD 30 }

/-- Settings with overrides. A store that is given replaces the configured one altogether. -/
def override (settings : Settings) (given : Overrides) : Settings :=
  let isStoreGiven := given.endpoint.isSome || given.dataPath.isSome
  { schemaPath := given.schemaPath.getD settings.schemaPath
    endpoint := if isStoreGiven then given.endpoint else settings.endpoint
    dataPath := if isStoreGiven then given.dataPath else settings.dataPath
    timeoutSecs := given.timeoutSecs.getD settings.timeoutSecs }

def timeoutVariable : String := "ODATA_SPARQL_TIMEOUT_SECS"

def ofEnvironment (environment : List (String × String)) : Except SettingsError Settings :=
  let timeout := (environment.lookup timeoutVariable).getD "30"
  match readCount timeout with
  | .error fault => .error (.badNumeral timeoutVariable timeout fault)
  | .ok timeoutSecs =>
    check {
      schemaPath := (environment.lookup "ODATA_SPARQL_SCHEMA").getD "schema.yaml"
      endpoint := environment.lookup "ODATA_SPARQL_ENDPOINT"
      dataPath := environment.lookup "ODATA_SPARQL_DATA"
      timeoutSecs }

def ofDocument? (d : Document) : Option Settings := do
  let fields ← d.fields? ["schema_path", "endpoint_url", "data_path", "request_timeout_secs"]
  return {
    schemaPath := ← fields.required 0 "schema_path" Document.text?
    endpoint := ← fields.defaulted 1 "endpoint_url" none Document.optionalText?
    dataPath := ← fields.defaulted 2 "data_path" none Document.optionalText?
    timeoutSecs := ← fields.required 3 "request_timeout_secs" Document.count? }

def ofYaml (text : String) : Except SettingsError Settings :=
  match (Yaml.parse? text).bind ofDocument? with
  | some settings => check settings
  | none => .error .malformedDocument

/-- The store to ask; an endpoint comes before data. -/
def target (settings : Settings) : Except SettingsError StoreTarget :=
  match settings.endpoint, settings.dataPath with
  | some url, _ => .ok (.endpoint url)
  | none, some path => .ok (.data path)
  | none, none => .error .missingStore

end Settings
end EntityGraph
