/-!
# What can be wrong with a schema or with a name looked up in it

Errors are causes; their wording is in the `message` functions.
-/
namespace EntityGraph

inductive TypeFault where
  | noProperties
  | inverseWithPredicate (property : String)
  | repeatedProperty (property : String)
  | primitiveName
  | declaredTwice
  | missingId
  | unusableId
  | notPrefixedName (name : String)
  | undeclaredPrefix (declared name : String)
  | inverseOfElementary (property : String)
  | inverseNotBack (property : String)
  | foreignKeyNotElementary (property : String)
  | foreignKeyTarget (property : String)
  | relatedWithoutId (related : String)
  deriving DecidableEq, Repr

def TypeFault.message (type : String) : TypeFault → String
  | noProperties => "no properties declared"
  | inverseWithPredicate property =>
    s!"`{property}` is read through its inverse and cannot declare a predicate"
  | repeatedProperty property => s!"duplicate property `{property}`"
  | primitiveName => "name collides with a primitive type"
  | declaredTwice => "declared twice"
  | missingId => "missing `Id` property"
  | unusableId => "`Id` must be a mandatory elementary property"
  | notPrefixedName name => s!"`{name}` is not a prefixed name"
  | undeclaredPrefix declared name => s!"prefix `{declared}` of `{name}` is not declared"
  | inverseOfElementary property => s!"elementary property `{property}` cannot be inverse"
  | inverseNotBack property =>
    s!"inverse of `{property}` must be a direct property pointing back to `{type}`"
  | foreignKeyNotElementary property => s!"foreign key `{property}` must be elementary"
  | foreignKeyTarget property =>
    s!"foreign key `{property}` must copy the id of a single-valued navigation property"
  | relatedWithoutId related => s!"target of `{related}` exposes no `Id`"

inductive SchemaFault where
  | noTypes
  | undeclaredDefault (declared : String)
  | unusableNamespace (declared : String)
  | primitiveSet (set : String)
  | directProperty (property : String)
  | inType (type : String) (fault : TypeFault)
  deriving DecidableEq, Repr

def SchemaFault.message : SchemaFault → String
  | noTypes => "Schema must contain at least one entity type"
  | undeclaredDefault declared => s!"default prefix `{declared}` is not declared"
  | unusableNamespace declared => s!"prefix `{declared}` has an invalid namespace IRI"
  | primitiveSet set => s!"entity set `{set}` exposes a primitive type"
  | directProperty property => s!"property `{property}` has a direct representation"
  | inType type fault => s!"entity type `{type}`: " ++ fault.message type

/-- Why a path of names leads nowhere. -/
inductive PathFault where
  | noProperty
  | noCollection
  | notNavigation (name : String)
  | throughCollection (name : String)
  | notValue (name : String)
  | notCollection (name : String)
  | notExpandable
  deriving DecidableEq, Repr

def PathFault.message : PathFault → String
  | noProperty => "path names no property"
  | noCollection => "`any` needs a collection property"
  | notNavigation name => s!"`{name}` is not a navigation property"
  | throughCollection name => s!"collection `{name}` can only be navigated with `any`"
  | notValue name => s!"`{name}` is a navigation property, not a value"
  | notCollection name => s!"`any` requires a collection, `{name}` is single-valued"
  | notExpandable => "only navigation properties can be expanded"

inductive SchemaError where
  | unknownType (type : String)
  | unknownSet (set : String)
  | unknownProperty (type property : String)
  /-- An expanded name that is no property of the type it is expanded at. -/
  | unknownExpansion (type property : String)
  | invalidPath (path : List String) (fault : PathFault)
  | unreadable (reason : String)
  | malformed
  | invalid (fault : SchemaFault)
  deriving DecidableEq, Repr

def SchemaError.message : SchemaError → String
  | unknownType type => s!"No entity type found for `{type}`"
  | unknownSet set => s!"No entity set found for `{set}`"
  | unknownProperty type property => s!"Entity type `{type}` has no property `{property}`"
  | unknownExpansion type property =>
    s!"Entity type `{type}` has no property `{property}\n  Context: while resolving $expand`"
  | invalidPath path fault =>
    "Invalid property path `" ++ "/".intercalate path ++ "`: " ++ fault.message
  | unreadable reason => s!"Failed to read schema file: {reason}"
  | malformed => "Failed to parse schema"
  | invalid fault => "Invalid schema: " ++ fault.message

end EntityGraph
