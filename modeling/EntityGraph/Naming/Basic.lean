/-!
# The variables of a query

A query names entities and values by numbered variables. An entity is identified by the
number of its own variable. The naming records which variable stands for each value of an
entity and which entity each of its navigation properties leads to; an entry, once made, is
never changed. A variable that stands for a value need not be one that the naming made up: a
value may be linked to a variable that is already in use elsewhere.
-/
namespace EntityGraph

def variableName (number : Nat) : String :=
  "?x" ++ String.ofList (Nat.toDigits 10 number)

/-- An entity named by the query. -/
structure Place where
  number : Nat
  deriving DecidableEq, Repr, Inhabited

def Place.var (place : Place) : String := variableName place.number

abbrev ScopeKey := Nat

/-- A scope: the entity that its chain of scopes belongs to, the number of the chain, and the
keys that lead to the scope, innermost first. -/
structure Scope where
  root : Place
  chain : Nat
  keys : List ScopeKey
  deriving DecidableEq, Repr

/-- What a lambda variable stands for. -/
structure Namespace where
  place : Place
  entityType : String
  deriving DecidableEq, Repr

structure Naming where
  /-- The number of the next variable, and so the number of variables made up so far. -/
  next : Nat := 0
  values : List ((Place × String) × String) := []
  related : List ((Place × String) × Place) := []
  chains : Nat := 0
  namespaces : List ((Scope × String) × Namespace) := []
  deriving DecidableEq, Repr

namespace Naming

def fresh (names : Naming) : String × Naming :=
  (variableName names.next, { names with next := names.next + 1 })

def newPlace (names : Naming) : Place × Naming :=
  (⟨names.next⟩, { names with next := names.next + 1 })

def value? (names : Naming) (place : Place) (property : String) : Option String :=
  names.values.lookup (place, property)

def related? (names : Naming) (place : Place) (property : String) : Option Place :=
  names.related.lookup (place, property)

/-- The variable of a value, made up if the value has none yet. -/
def value (names : Naming) (place : Place) (property : String) : String × Naming :=
  match names.value? place property with
  | some var => (var, names)
  | none =>
    let (var, names) := names.fresh
    (var, { names with values := names.values ++ [((place, property), var)] })

/-- The variable of a value, which is `var` if the value has none yet. -/
def link (names : Naming) (place : Place) (property var : String) : String × Naming :=
  match names.value? place property with
  | some kept => (kept, names)
  | none => (var, { names with values := names.values ++ [((place, property), var)] })

/-- The entity that a navigation property leads to, named if it has no name yet. -/
def relatedPlace (names : Naming) (place : Place) (property : String) : Place × Naming :=
  match names.related? place property with
  | some target => (target, names)
  | none =>
    let (target, names) := names.newPlace
    (target, { names with related := names.related ++ [((place, property), target)] })

def valuesOf (names : Naming) (place : Place) : List (String × String) :=
  names.values.filterMap fun ((owner, property), var) =>
    if owner = place then some (property, var) else none

end Naming
end EntityGraph
