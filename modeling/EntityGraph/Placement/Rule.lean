import EntityGraph.Branch.Basic
import EntityGraph.Naming.Scope
import EntityGraph.Pattern.Basic

/-!
# Placement rules

A rule says for some branches where in the pattern of an entity they are placed: it gives the
steps that lead there, the position of what hangs below the branch, and the names that had to
be made up on the way. Which of several rules places a branch is decided by their order.
-/
namespace EntityGraph

/-- One step down a pattern. -/
inductive Step where
  | slot
  | alternative
  | edge (e : Edge)
  | conjunct (root : String)
  deriving DecidableEq, Repr

/-- The pattern that consists of one step, with `body` where it leads. -/
def Step.wrap : Step → Body → Body
  | slot, body => .alternative true body .nil
  | alternative, body => .alternative false body .nil
  | edge e, body => .edge e body .nil
  | conjunct root, body => .conjunct root body .nil

/-- The root of the pattern that a step leads to. -/
def Step.root (root : String) : Step → String
  | slot => root
  | alternative => root
  | edge e => e.target
  | conjunct own => own

abbrev Route := List Step

def Route.wrap (route : Route) (body : Body) : Body :=
  route.foldr Step.wrap body

def Route.root (route : Route) (root : String) : String :=
  route.foldl Step.root root

/-- Where a branch is asked for: at an entity, with the lambda variables of a scope. -/
structure Position where
  place : Place
  scope : Scope
  deriving DecidableEq, Repr

structure Placement where
  route : Route
  position : Position
  names : Naming

inductive PlacementError where
  | noRule (branch : Branch)
  | scope (error : ScopeError)
  deriving DecidableEq, Repr

def PlacementError.message : PlacementError → String
  | noRule branch => "No branch factory applies to " ++ branch.describe
  | scope error => error.message

structure Rule where
  name : String
  applies : Branch → Bool
  place : Branch → Position → Naming → Except PlacementError Placement

def Rule.choose (rules : List Rule) (branch : Branch) : Except PlacementError Rule :=
  match rules.find? fun rule => rule.applies branch with
  | some rule => .ok rule
  | none => .error (.noRule branch)

/-- The names of rules in their order, as a list of texts. -/
def Rule.describe (rules : List Rule) : String :=
  "[" ++ ", ".intercalate (rules.map fun rule => "\"" ++ rule.name ++ "\"") ++ "]"

end EntityGraph
