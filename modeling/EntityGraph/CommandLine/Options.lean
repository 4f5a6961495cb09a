import EntityGraph.Settings.Basic

/-!
# Command-line options

Options are given as `--name value` or `--name=value`. Only `--expand` may be repeated. A value
that stands by itself does not start with a hyphen, unless it is one. The first argument that is
at fault, or that asks for help or for the version, ends the reading; letters after the one that
asks are not looked at.
-/
namespace EntityGraph.CommandLine

structure Options where
  schema : Option String := none
  entitySet : String := ""
  expand : List String := []
  filter : Option String := none
  id : Option String := none
  endpoint : Option String := none
  data : Option String := none
  timeoutSecs : Option Nat := none
  isSparqlOnly : Bool := false
  deriving DecidableEq, Repr

inductive Invocation where
  | read (options : Options)
  | help
  | version
  | misused
  deriving DecidableEq, Repr

inductive Given where
  | value (name text : String)
  | sparqlOnly
  deriving DecidableEq, Repr

def valueNames : List String :=
  ["schema", "entity-set", "expand", "filter", "id", "endpoint", "data", "timeout-secs"]

def isRepeatable (given : Given) : Bool :=
  match given with
  | .value "expand" _ => true
  | _ => false

def Given.name : Given → String
  | value name _ => name
  | sparqlOnly => "sparql-only"

/-- Whether the option may follow those given before it. -/
def isAllowed (before : List Given) (given : Given) : Bool :=
  (isRepeatable given || !(before.any fun other => other.name == given.name)) &&
    match given with
    | .value "timeout-secs" text => (readCount text).toOption.isSome
    | _ => true

def isValue (argument : String) : Bool :=
  match argument.toList with
  | '-' :: _ :: _ => false
  | _ => true

/-- The name and the value of an argument `--name=value`. -/
def split (argument : List Char) : String × Option String :=
  let name := String.ofList (argument.takeWhile (· ≠ '='))
  match argument.dropWhile (· ≠ '=') with
  | [] => (name, none)
  | _ :: value => (name, some (String.ofList value))

def readArguments (before : List Given) : List String → Except Invocation (List Given)
  | [] => .ok before
  | argument :: rest =>
    match argument.toList with
    | ['-', '-'] => if rest.isEmpty then .ok before else .error .misused
    | '-' :: '-' :: long =>
      match split long with
      | ("help", none) => .error .help
      | ("version", none) => .error .version
      | ("sparql-only", none) =>
        if isAllowed before .sparqlOnly then readArguments (before ++ [.sparqlOnly]) rest
        else .error .misused
      | (name, some value) =>
        if valueNames.contains name && isAllowed before (.value name value) then
          readArguments (before ++ [.value name value]) rest
        else .error .misused
      | (name, none) =>
        match rest with
        | [] => .error .misused
        | value :: rest =>
          if valueNames.contains name && isValue value && isAllowed before (.value name value) then
            readArguments (before ++ [.value name value]) rest
          else .error .misused
    | '-' :: 'h' :: _ => .error .help
    | '-' :: 'V' :: _ => .error .version
    | _ => .error .misused

def valueOf? (given : List Given) (name : String) : Option String :=
  given.findSome? fun
    | .value other text => if other = name then some text else none
    | .sparqlOnly => none

def ofGiven (given : List Given) : Invocation :=
  match valueOf? given "entity-set" with
  | none => .misused
  | some entitySet =>
    if (valueOf? given "endpoint").isSome && (valueOf? given "data").isSome then .misused
    else .read {
      schema := valueOf? given "schema"
      entitySet
      expand := given.filterMap fun
        | .value "expand" text => some text
        | _ => none
      filter := valueOf? given "filter"
      id := valueOf? given "id"
      endpoint := valueOf? given "endpoint"
      data := valueOf? given "data"
      timeoutSecs := (valueOf? given "timeout-secs").bind fun text => (readCount text).toOption
      isSparqlOnly := given.contains .sparqlOnly }

def parse (arguments : List String) : Invocation :=
  match readArguments [] arguments with
  | .ok given => ofGiven given
  | .error invocation => invocation

def Options.overrides (options : Options) : Overrides :=
  ⟨options.schema, options.endpoint, options.data, options.timeoutSecs⟩

end EntityGraph.CommandLine
