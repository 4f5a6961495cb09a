import EntityGraph.Proofs.Filter.Run
import EntityGraph.Proofs.Sparql.Tokens
import EntityGraph.Read.Compile

/-!
# The strings of filters

What the strings of a filter say has no influence on how it is compiled: compiling the filter with
nothing in its strings ends in the same way, in the same session, and gives the same condition with
nothing in its strings. So two requests that differ in strings only are both compiled or both refused,
with the same pattern and with conditions that differ in strings only.
-/
namespace EntityGraph

namespace Filter

/-- The string literals of a filter, from left to right. -/
def strings : Filter → List String
  | string value => [value]
  | number _ => []
  | boolean _ => []
  | null => []
  | and left right => left.strings ++ right.strings
  | or left right => left.strings ++ right.strings
  | eq left right => left.strings ++ right.strings
  | parentheses inner => inner.strings
  | property _ => []
  | any _ _ predicate => predicate.strings

/-- The filter with nothing in its string literals. -/
def emptied : Filter → Filter
  | string _ => string ""
  | number value => number value
  | boolean value => boolean value
  | null => null
  | and left right => and left.emptied right.emptied
  | or left right => or left.emptied right.emptied
  | eq left right => eq left.emptied right.emptied
  | parentheses inner => parentheses inner.emptied
  | property path => property path
  | any path lambda predicate => any path lambda predicate.emptied

@[simp] theorem isLiteral_emptied (f : Filter) : f.emptied.isLiteral = f.isLiteral := by
  cases f <;> rfl

end Filter

/-- The request with nothing in the string literals of its filter and its identifier. -/
def ReadRequest.emptied (request : ReadRequest) : ReadRequest :=
  { request with filter := request.filter.map Filter.emptied, byId := request.byId.map Filter.emptied }

theorem ReadRequest.effectiveFilter_emptied (request : ReadRequest) :
    request.emptied.effectiveFilter = request.effectiveFilter.map Filter.emptied := by
  unfold ReadRequest.emptied ReadRequest.effectiveFilter
  cases request.byId <;> cases request.filter <;> rfl

def CompiledFilter.emptied (compiled : CompiledFilter) : CompiledFilter :=
  { compiled with clause := compiled.clause.emptied }

theorem Sparql.Clause.emptied_nullSafeEqual (left right : Sparql.Clause) (mayBeUnbound : Bool) :
    (nullSafeEqual left right mayBeUnbound).emptied =
    nullSafeEqual left.emptied right.emptied mayBeUnbound := by
  cases mayBeUnbound with
  | false => rfl
  | true => cases left <;> cases right <;> rfl

theorem Sparql.Clause.strings_nullSafeEqual (left right : Sparql.Clause) (mayBeUnbound : Bool) :
    (nullSafeEqual left right mayBeUnbound).strings = left.strings ++ right.strings := by
  cases mayBeUnbound with
  | false => rfl
  | true => cases left <;> cases right <;> rfl

namespace Filter

theorem readValue_emptied (context : FilterContext) (path : List String) (cursor : Cursor) (p : Property) :
    CompiledFilter.emptied <$> readValue context path cursor p = readValue context path cursor p := by
  unfold readValue
  split
  · rfl
  · simp [CompiledFilter.emptied, Sparql.Clause.emptied]

theorem compileProperty_emptied (context : FilterContext) (scope : FilterScope) (position : Position)
    (path : List String) : CompiledFilter.emptied <$> compileProperty context scope position path =
      compileProperty context scope position path := by
  simp only [compileProperty, map_bind]
  refine bind_congr fun reached => bind_congr fun p => bind_congr fun key? => ?_
  cases key? with
  | none => exact readValue_emptied context path reached.1 p
  | some key => simp only [map_bind, readValue_emptied]

theorem compile_emptied (context : FilterContext) (f : Filter) (scope : FilterScope) (position : Position) :
    f.emptied.compile context scope position =
      CompiledFilter.emptied <$> f.compile context scope position := by
  induction f generalizing scope position with
  | string value => simp [emptied, compile, CompiledFilter.emptied, Sparql.Clause.emptied]
  | number value =>
      simp only [emptied, compile]
      cases numberText value with
      | ok text => simp [CompiledFilter.emptied, Sparql.Clause.emptied]
      | error e => rfl
  | boolean value => simp [emptied, compile, CompiledFilter.emptied, Sparql.Clause.emptied]
  | null => simp [emptied, compile, CompiledFilter.emptied, Sparql.Clause.emptied]
  | and left right ihl ihr =>
      simp [emptied, compile, ihl, ihr, CompiledFilter.emptied, Sparql.Clause.emptied]
  | or left right ihl ihr =>
      simp [emptied, compile, ihl, ihr, CompiledFilter.emptied, Sparql.Clause.emptied]
  | eq left right ihl ihr =>
      simp [emptied, compile, ihl, ihr, CompiledFilter.emptied, Sparql.Clause.emptied_nullSafeEqual]
  | parentheses inner ih => exact ih scope position
  | property path => exact (compileProperty_emptied context scope position path).symm
  | any path name predicate ih =>
      simp [emptied, compile, ih, CompiledFilter.emptied, Sparql.Clause.emptied]

end Filter
end EntityGraph
