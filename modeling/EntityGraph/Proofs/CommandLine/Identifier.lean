import EntityGraph.CommandLine.Run
import EntityGraph.Proofs.Filter.Numbers
import EntityGraph.Proofs.Read.ById

/-!
# Identifiers on the command line

An identifier that is the text of a 64-bit integer becomes the double nearest to the integer, and the query
compares the variable of the identifier with the shortest integer that is rounded to this double. Up to `2 ^
53` that is the integer itself. Beyond, two integers can be rounded to the same double, and the query asks for
only one of them.
-/
namespace EntityGraph

theorem CompiledQuery.ComparesId.unique {query : CompiledQuery} {numeral numeral' : String}
    (h : query.ComparesId numeral) (h' : query.ComparesId numeral') : numeral = numeral' := by
  obtain ⟨v, condition, -, hv, hcondition, hstarts, -⟩ := h
  obtain ⟨v', condition', -, hv', hcondition', hstarts', -⟩ := h'
  obtain rfl := Option.some.inj (hv.symm.trans hv')
  obtain rfl := Option.some.inj (hcondition.symm.trans hcondition')
  obtain rfl | ⟨other, rfl⟩ := hstarts
  · obtain heq | ⟨other, heq⟩ := hstarts'
    · simpa using heq
    · simp at heq
  · obtain heq | ⟨other', heq⟩ := hstarts'
    · simp at heq
    · simp only [Sparql.Clause.and.injEq, Sparql.Clause.equal.injEq, Sparql.Clause.number.injEq] at heq
      exact heq.1.2

theorem Reader.compile_number {reader : Reader} (hs : reader.schema.Accepted)
    (hrules : reader.rules = Rule.builtin)
    (hkey : Function.Injective reader.key) {request : ReadRequest} {query : CompiledQuery}
    (h : reader.compile request = .ok query) {value : Binary64} (hfinite : value.isFinite = true) :
    ∃ query, reader.compile { request with byId := some (.number value) } = .ok query := by
  obtain ⟨⟨T, hset, -, hexpand, hfilter⟩, -⟩ | ⟨-, e, herror, -⟩ := compile_cases hs hrules hkey request
  · have hformed : ReadRequest.WellFormed reader.schema { request with byId := some (.number value) } := by
      refine ⟨T, hset, fun id hid => ?_, hexpand, hfilter⟩
      obtain rfl := Option.some.inj hid
      exact ⟨rfl, fun other hother => by simpa [← Filter.number.inj hother] using hfinite⟩
    obtain ⟨-, query, -, -, hok, -⟩ | ⟨hnot, -⟩ :=
      compile_cases hs hrules hkey { request with byId := some (.number value) }
    · exact ⟨query, hok⟩
    · exact absurd hformed hnot
  · simp [h] at herror

namespace CommandLine

theorem idLiteral_number {text : String} {value : Binary64} (h : Binary64.read? text.toList = some value)
    (hfinite : value.isFinite = true) : idLiteral text = .number value := by
  simp [idLiteral, h, hfinite]

theorem Options.request_id {options : Options} {request : ReadRequest}
    (h : { options with id := none }.request = .ok request) (text : String) :
    { options with id := some text }.request = .ok { request with byId := some (idLiteral text) } := by
  unfold Options.request at h ⊢
  cases hfilter : options.filter with
  | none =>
      simp only [hfilter] at h ⊢
      obtain rfl := Except.ok.inj h
      rfl
  | some filter =>
      simp only [hfilter] at h ⊢
      cases hparse : Filter.parse? filter with
      | none => simp [hparse, bind, Except.bind] at h
      | some f =>
          simp only [hparse] at h ⊢
          obtain rfl := Except.ok.inj h
          rfl

variable {reader : Reader} (hs : reader.schema.Accepted) (hrules : reader.rules = Rule.builtin)
  (hkey : Function.Injective reader.key) {options : Options} {request : ReadRequest} {query : CompiledQuery}

include hs hrules hkey

theorem Options.compile_number (hrequest : { options with id := none }.request = .ok request)
    (hquery : reader.compile request = .ok query) {text written : String} {value : Binary64}
    (hread : Binary64.read? text.toList = some value) (hfinite : value.isFinite = true)
    (hwritten : Filter.numberText value = .ok written) :
    ∃ request query, { options with id := some text }.request = .ok request ∧
      reader.compile request = .ok query ∧ query.ComparesId written := by
  obtain ⟨query, hquery⟩ := Reader.compile_number hs hrules hkey hquery hfinite
  refine ⟨_, query, request_id hrequest text, idLiteral_number hread hfinite ▸ hquery, ?_⟩
  exact Reader.compile_byId hs hrules hkey rfl hwritten hquery

/-- Whatever else a call asks for, with the text of a 64-bit integer as the identifier it compares the
identifier with the text of an integer that is read as the same number: of the same integer, if that is up
to `2 ^ 53`. -/
theorem Options.compile_id (hrequest : { options with id := none }.request = .ok request)
    (hquery : reader.compile request = .ok query) (n : Int64) :
    ∃ request query, { options with id := some (toString n) }.request = .ok request ∧
      reader.compile request = .ok query ∧ ∃ m : Int, query.ComparesId (toString m) ∧
        Binary64.read? (toString m).toList = Binary64.read? (toString n).toList ∧
        (n.toInt.natAbs ≤ Nat.pow 2 53 → m = n.toInt) := by
  have hn : n.toInt.natAbs < Nat.pow 2 64 := by
    have hlow := n.le_toInt
    have hhigh := n.toInt_lt
    have h64 : Nat.pow 2 64 = 18446744073709551616 := by decide
    omega
  obtain ⟨value, m, hread, hfinite, hwritten, hsame, hexact⟩ := Filter.numberText_read hn
  obtain ⟨request, query, hrequest, hquery, hcompares⟩ :=
    compile_number hs hrules hkey hrequest hquery hread hfinite hwritten
  exact ⟨request, query, hrequest, hquery, m, hcompares, hsame.trans hread.symm, hexact⟩

omit hs hrules hkey

/-- The thing with the identifier `2 ^ 53`, read with its parts. -/
theorem Options.compile_id_sample :
    Sample.schema.Accepted ∧ Function.Injective ({ schema := Sample.schema } : Reader).key ∧
    ∃ plain request query, Reader.compile { schema := Sample.schema }
      ⟨"Things", .ofPaths ["Parts"], none, none⟩ =
        .ok plain ∧
      ({ entitySet := "Things", expand := ["Parts"], id := some "9007199254740992" } : Options).request =
        .ok request ∧
      Reader.compile { schema := Sample.schema } request = .ok query ∧
        query.ComparesId "9007199254740992" := by
  obtain ⟨plain, hplain⟩ : ∃ query, Reader.compile { schema := Sample.schema }
      ⟨"Things", .ofPaths ["Parts"], none, none⟩ = .ok query := ⟨_, rfl⟩
  obtain ⟨request, query, hrequest, hquery, m, hcompares, -, hexact⟩ :=
    @Options.compile_id { schema := Sample.schema } Sample.accepted rfl Function.injective_id
      { entitySet := "Things", expand := ["Parts"] }
        ⟨"Things", .ofPaths ["Parts"], none, none⟩ plain rfl hplain
      9007199254740992
  obtain rfl := hexact (by decide)
  exact ⟨Sample.accepted, Function.injective_id, plain, request, query, hplain, hrequest, hquery, hcompares⟩

theorem Options.compares_other {text written : String} {value : Binary64}
    (hread : Binary64.read? text.toList = some value) (hfinite : value.isFinite = true)
    (hwritten : Filter.numberText value = .ok written) (hne : written ≠ text) :
    ∃ request query, ({ entitySet := "Things", id := some text } : Options).request = .ok request ∧
      Reader.compile { schema := Sample.schema } request = .ok query ∧ query.ComparesId written ∧
      ¬ query.ComparesId text := by
  obtain ⟨plain, hplain⟩ : ∃ query, Reader.compile { schema := Sample.schema } ⟨"Things", .nil, none, none⟩ =
      .ok query := ⟨_, rfl⟩
  obtain ⟨request, query, hrequest, hquery, hcompares⟩ :=
    @Options.compile_number { schema := Sample.schema } Sample.accepted rfl Function.injective_id
      { entitySet := "Things" } ⟨"Things", .nil, none, none⟩ plain rfl hplain text _ _ hread hfinite hwritten
  exact ⟨request, query, hrequest, hquery, hcompares, fun h => hne (hcompares.unique h)⟩

/-- The query for `2 ^ 60`, which is a double, asks for the integer with the shortest digits that are rounded
to it, and the query for `2 ^ 53 + 1` asks for `2 ^ 53`. -/
theorem Options.compile_id_inexact :
    (toString (1152921504606846976 : Int64) = "1152921504606846976" ∧
      ∃ request query, ({ entitySet := "Things", id := some "1152921504606846976" } : Options).request =
          .ok request ∧
        Reader.compile { schema := Sample.schema } request = .ok query ∧
        query.ComparesId "1152921504606847000" ∧ ¬ query.ComparesId "1152921504606846976") ∧
    (toString (9007199254740993 : Int64) = "9007199254740993" ∧
      ∃ request query, ({ entitySet := "Things", id := some "9007199254740993" } :
        Options).request = .ok request ∧ Reader.compile { schema := Sample.schema } request = .ok query ∧
        query.ComparesId "9007199254740992" ∧ ¬ query.ComparesId "9007199254740993") := by
  have hread : Binary64.read? "1152921504606846976".toList = some (.finite false (Nat.pow 2 52) 1082) := by
    decide +kernel
  have hwritten : Filter.numberText (.finite false (Nat.pow 2 52) 1082) = .ok "1152921504606847000" := by
    decide +kernel
  have hread' : Binary64.read? "9007199254740993".toList = some (.finite false (Nat.pow 2 52) 1075) := by
    decide +kernel
  exact ⟨⟨rfl, Options.compares_other hread rfl hwritten (by decide)⟩,
    ⟨rfl, Options.compares_other hread' rfl (Filter.numberText_top false) (by decide)⟩⟩

end CommandLine
end EntityGraph
