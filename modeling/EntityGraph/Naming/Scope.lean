import EntityGraph.Naming.Basic

/-!
# Scopes of lambda variables

Scopes form chains that start at an entity. A scope entered with a key is the same scope every
time; scopes entered with different keys are different. A lambda variable is resolved to its
definition in the nearest scope on the way outwards.
-/
namespace EntityGraph

inductive ScopeError where
  | notBound (name : String)
  | alreadyBound (name : String)
  deriving DecidableEq, Repr

def ScopeError.message : ScopeError → String
  | notBound name => s!"Lambda variable `{name}` is not bound in this scope or any enclosing scope"
  | alreadyBound name => s!"Lambda variable `{name}` is already bound in this scope"

namespace Scope

def enter (scope : Scope) (key : ScopeKey) : Scope :=
  { scope with keys := key :: scope.keys }

def parent? (scope : Scope) : Option Scope :=
  match scope.keys with
  | [] => none
  | _ :: outer => some { scope with keys := outer }

end Scope

namespace Naming

def rootScope (names : Naming) (root : Place) : Scope × Naming :=
  (⟨root, names.chains, []⟩, { names with chains := names.chains + 1 })

/-- The definition of `name` in `scope` itself. -/
def defined? (names : Naming) (scope : Scope) (name : String) : Option Namespace :=
  names.namespaces.lookup (scope, name)

/-- Bind a lambda variable to an entity of its own. -/
def define (names : Naming) (scope : Scope) (name entityType : String) :
    Except ScopeError (Place × Naming) :=
  match names.defined? scope name with
  | some _ => .error (.alreadyBound name)
  | none =>
    let (place, names) := names.newPlace
    .ok (place, { names with
      namespaces := names.namespaces ++ [((scope, name), ⟨place, entityType⟩)] })

/-- The nearest definition, going outwards over the keys. -/
def resolveFrom (names : Naming) (root : Place) (chain : Nat) (name : String) :
    List ScopeKey → Option Namespace
  | [] => names.defined? ⟨root, chain, []⟩ name
  | key :: outer =>
    match names.defined? ⟨root, chain, key :: outer⟩ name with
    | some found => some found
    | none => names.resolveFrom root chain name outer

def resolve (names : Naming) (scope : Scope) (name : String) : Except ScopeError Namespace :=
  match names.resolveFrom scope.root scope.chain name scope.keys with
  | some found => .ok found
  | none => .error (.notBound name)

end Naming
end EntityGraph
