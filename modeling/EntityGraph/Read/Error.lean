import EntityGraph.Expand.Compile
import EntityGraph.Filter.Error
import EntityGraph.Results.Decode

/-!
# Why a read fails

A read fails because of the request, because of a fault of the compiler, because of the store, or
because the data contradict themselves.
-/
namespace EntityGraph

inductive StoreError where
  | request (reason : String)
  | status (code : Nat) (body : String)
  | malformedResponse
  | query (reason : String)
  | load (reason : String)
  deriving DecidableEq, Repr

def StoreError.message : StoreError → String
  | request reason => s!"Store request failed: {reason}"
  | status code body => s!"Store returned HTTP {code}: {body}"
  | malformedResponse => "Malformed store response"
  | query reason => s!"Store rejected the query: {reason}"
  | load reason => s!"Failed to load data into the store: {reason}"

inductive ReadError where
  | schema (error : SchemaError)
  | placement (error : PlacementError)
  | expand (error : ExpandError)
  | filter (error : FilterError)
  | decode (error : DecodeError)
  | store (error : StoreError)
  deriving DecidableEq, Repr

inductive ErrorCategory where
  | badRequest
  | compilerBug
  | store
  | inconsistentData
  deriving DecidableEq, Repr

namespace ReadError

def message : ReadError → String
  | schema error => error.message
  | placement error => error.message
  | expand error => error.message
  | filter error => error.message
  | decode error => error.message
  | store error => error.message

def category : ReadError → ErrorCategory
  | schema _ => .badRequest
  | placement _ => .compilerBug
  | expand (.schema _) => .badRequest
  | expand (.placement _) => .compilerBug
  | filter (.schema _) => .badRequest
  | filter (.notFinite _) => .badRequest
  | filter (.idNotLiteral _) => .badRequest
  | filter (.scope _) => .compilerBug
  | filter (.placement _) => .compilerBug
  | decode (.inconsistent _ _ _ _ _) => .inconsistentData
  | decode (.missingVariable _ _) => .compilerBug
  | decode (.schema _) => .badRequest
  | store _ => .store

end ReadError
end EntityGraph
