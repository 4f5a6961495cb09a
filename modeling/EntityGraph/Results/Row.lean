import EntityGraph.Document.Basic
import EntityGraph.Json.Parser

/-!
# Rows of a query result

A row binds some of the variables of a query, named without their question mark, to terms. A
store answers with a JSON document that holds the rows.
-/
namespace EntityGraph

/-- A bound term: its text, and what else the store says about it. -/
structure Binding where
  value : String
  kind : Option String := none
  datatype : Option String := none
  language : Option String := none
  deriving DecidableEq, Repr

/-- The bindings of a row; no variable is bound twice. -/
abbrev Row := List (String × Binding)

namespace Row

/-- Bind a variable, replacing an earlier binding of it. -/
def bind (name : String) (binding : Binding) : Row → Row
  | [] => [(name, binding)]
  | (other, kept) :: rest =>
    if other = name then (name, binding) :: rest else (other, kept) :: bind name binding rest

def ofBindings (bindings : List (String × Binding)) : Row :=
  bindings.foldl (fun row (name, binding) => row.bind name binding) []

def ofPairs (pairs : List (String × String)) : Row :=
  ofBindings (pairs.map fun (name, value) => (name, { value, kind := some "literal" }))

def bound? (row : Row) (var : String) : Option String :=
  (row.lookup (String.ofList (var.toList.dropWhile (· = '?')))).map (·.value)

end Row

def Binding.ofDocument? (d : Document) : Option Binding := do
  let fields ← d.fields? ["value", "type", "datatype", "xml:lang"]
  return {
    value := ← fields.required 0 "value" Document.text?
    kind := ← fields.defaulted 1 "type" none Document.optionalText?
    datatype := ← fields.defaulted 2 "datatype" none Document.optionalText?
    language := ← fields.defaulted 3 "xml:lang" none Document.optionalText? }

def Row.ofDocument? (d : Document) : Option Row := do
  let members ← d.record?
  let bindings ← members.mapM fun (name, value) => (Binding.ofDocument? value).map (name, ·)
  return Row.ofBindings bindings

namespace Results

def ofDocument? (d : Document) : Option (List Row) := do
  let results ← (← d.fields? ["results"]).get? 0 "results"
  let bindings ← (← results.fields? ["bindings"]).get? 0 "bindings"
  (← bindings.list?).mapM Row.ofDocument?

/-- The rows of a store's answer. -/
def parse? (text : String) : Option (List Row) :=
  (Json.parse? text).bind fun json => ofDocument? (Document.ofJson json)

end Results
end EntityGraph
