import FilterQuery.Proofs.Emission
import FilterQuery.Proofs.Hints.Reading
import FilterQuery.Proofs.Json.Rational
import FilterQuery.Proofs.Json.Reading
import FilterQuery.Proofs.Relational.Meaning
import FilterQuery.Search.Query

/-!
# Hints order and page both queries

A sort list and an order are read back as lists of keys. What a request gets from a hint document
and what a statement gets from it are the same keys, those that the sort of the document asks for in
its order, and the same counts. A hint that is missing is no field of the request, and the statement
keeps the clause of its template.
-/

namespace FilterQuery

open Json (Value)

namespace Direction

/-- Ascending order is asked for by three texts and by the number 1, however it is written. -/
def AsksAscending (token : Value) : Prop :=
  token ∈ [.string "asc", .string "ASC", .string "1"] ∨ ∃ n, token = .number n ∧ n.toRat = 1

theorem isAscendingToken_iff_asksAscending {token : Value} :
    isAscendingToken token ↔ AsksAscending token := by
  cases token with
  | string s => simp [isAscendingToken, AsksAscending]
  | number n => simp [isAscendingToken, AsksAscending, Json.Number.isOne_iff]
  | _ => simp [isAscendingToken, AsksAscending]

instance : DecidablePred AsksAscending := fun _ => decidable_of_iff _ isAscendingToken_iff_asksAscending

theorem ofToken_eq (token : Value) :
    ofToken token = if AsksAscending token then .ascending else .descending := by
  rw [ofToken]
  simp only [isAscendingToken_iff_asksAscending]

def ofAbbreviation? : Value → Option Direction
  | .string "asc" => some .ascending
  | .string "desc" => some .descending
  | _ => none

theorem ofAbbreviation?_abbreviation (direction : Direction) :
    ofAbbreviation? (.string direction.abbreviation) = some direction := by
  cases direction <;> rfl

end Direction

/-! ## The keys of a document -/

/-- The keys that a value asks for as a sort: a text is a field in ascending order, an object has a
field and a token in each entry. -/
def SortKey.listOfValue? : Value → Option (List SortKey)
  | .string field => some [⟨field, .ascending⟩]
  | .object entries => some <| entries.map fun (field, token) =>
      ⟨field, if Direction.AsksAscending token then .ascending else .descending⟩
  | _ => none

theorem SortHint.map_toKeys_ofValue? (value : Value) :
    (SortHint.ofValue? value).map SortHint.toKeys = SortKey.listOfValue? value := by
  cases value with
  | object entries => simp [SortHint.ofValue?, SortKey.listOfValue?, toKeys, Direction.ofToken_eq]
  | _ => rfl

def Document.sortKeys? (document : Document) : Option (List SortKey) :=
  (document.hint? .sort).bind SortKey.listOfValue?

/-! ## The keys of a request -/

def Json.Value.field? (name : String) : Value → Option Value
  | .object fields => fields.lookup name
  | _ => none

namespace Search

/-- A field alone is in ascending order, an object gives the order of its single field. -/
def sortKey? : Value → Option SortKey
  | .string field => some ⟨field, .ascending⟩
  | .object [(field, settings)] => do
    let direction ← Direction.ofAbbreviation? (← settings.field? "order")
    return ⟨field, direction⟩
  | _ => none

def sortKeys? : Value → Option (List SortKey)
  | .array items => items.mapM sortKey?
  | _ => none

theorem sortKey?_ordered (key : SortKey) :
    sortKey? (SortClause.ordered key.field key.direction).toValue = some key := by
  have hdirection := Direction.ofAbbreviation?_abbreviation key.direction
  rw [SortClause.toValue, sortKey?, Json.Value.field?, List.lookup_cons_self, Option.bind_eq_bind,
    Option.bind_some, hdirection]
  rfl

/-- A sort list is read as the keys it was made for. -/
theorem sortKeys?_sortClauses (sort : SortHint) :
    sortKeys? (.array ((sortClauses sort).map SortClause.toValue)) = some sort.toKeys := by
  cases sort with
  | byField field => rfl
  | byKeys keys =>
    rw [sortKeys?, sortClauses, List.map_map]
    exact Json.mapM_map_eq_some fun key _ => sortKey?_ordered key

namespace Query

variable {α : Type} (clauseToValue : α → Value) (q : Query α)

theorem field?_sort_toValue : (q.toValue clauseToValue).field? "sort" =
    q.sort.map fun clauses => .array (clauses.map SortClause.toValue) := by
  obtain ⟨boolQuery, sort, size, start⟩ := q
  cases sort <;> cases size <;> cases start <;> rfl

theorem field?_size_toValue :
    (q.toValue clauseToValue).field? "size" = q.size.map Count.toValue := by
  obtain ⟨boolQuery, sort, size, start⟩ := q
  cases sort <;> cases size <;> cases start <;> rfl

theorem field?_from_toValue :
    (q.toValue clauseToValue).field? "from" = q.start.map Count.toValue := by
  obtain ⟨boolQuery, sort, size, start⟩ := q
  cases sort <;> cases size <;> cases start <;> rfl

end Query

end Search

/-! ## The keys of a statement -/

namespace Relational

open Sql (Select SortExpr)

def direction : Sql.Order → Direction
  | .asc => .ascending
  | .desc => .descending

def sortKey? (key : SortExpr) : Option SortKey :=
  (field? key.expr).map fun field => ⟨field, direction key.order⟩

theorem sortKey?_sortExpr (key : SortKey) : sortKey? (sortExpr key) = some key := by
  obtain ⟨field, asked⟩ := key
  have hfield : field? (.path field) = some field := congrArg some (Sql.Ident.path_ofPath field)
  rw [sortKey?, sortExpr, hfield]
  cases asked <;> rfl

/-- The keys of a query are those of its sort. -/
theorem map_sortKey?_sortExprs (sort : Option SortHint) :
    (sortExprs sort).map sortKey? = ((sort.map SortHint.toKeys).getD []).map some := by
  cases sort with
  | none => rfl
  | some sort =>
    rw [sortExprs, List.map_map]
    exact congrArg (List.map · sort.toKeys) (funext sortKey?_sortExpr)

end Relational

/-! ## Both queries -/

/-- A hint of paging is the value of a field and of a clause. If there is none, there is no field,
and the clause is the template's own. -/
def PagedBy (hint field : Option Value) (own clause : Option Count) : Prop :=
  match hint with
  | some value => ∃ n : Count, value.Denotes n.toNat ∧ field = some n.toValue ∧ clause = some n
  | none => field = none ∧ clause = own

theorem Document.pagedBy {document : Document} {key : HintKey} (h : document.ValidCount key)
    (own : Option Count) :
    PagedBy (document.hint? key) (((document.hint? key).bind Count.ofValue?).map Count.toValue) own
      ((document.hint? key).bind Count.ofValue? <|> own) := by
  cases hvalue : document.hint? key with
  | none => exact ⟨rfl, rfl⟩
  | some value =>
    have hfaulty := mt Document.not_validCount_iff.mpr (not_not_intro h)
    obtain ⟨n, hn⟩ := Option.ne_none_iff_exists'.mp fun hnone => hfaulty ⟨value, hvalue, hnone⟩
    rw [Option.bind_some, hn]
    exact ⟨n, Count.ofValue?_eq_some_iff.mp hn, rfl, rfl⟩

/-- A request and a statement that follow the hints of a document: the keys of the sort are all keys
that the request has, and the statement has them behind those of its template. -/
structure Document.Followed (document : Document) (template : Sql.Select) (request : Value)
    (statement : Sql.Select) : Prop where
  sort : (request.field? "sort").map Search.sortKeys? = document.sortKeys?.map some
  order : ∃ keys, statement.orderBy = template.orderBy ++ keys ∧
    keys.map Relational.sortKey? = (document.sortKeys?.getD []).map some
  limit : PagedBy (document.hint? .limit) (request.field? "size") template.limit statement.limit
  skip : PagedBy (document.hint? .skip) (request.field? "from") template.offset statement.offset

theorem Hints.map_toKeys_sort {document : Document} (hnames : (document.map Prod.fst).Nodup)
    {hints : Hints} (h : (ofDocument document).outcome = .ok hints) :
    hints.sort.map SortHint.toKeys = document.sortKeys? := by
  rw [eq_of_outcome_ofDocument hnames h, Document.sortKeys?, Option.map_bind]
  exact congrArg (Option.bind _) (funext SortHint.map_toKeys_ofValue?)

/-- Whatever the filter, the configuration and the template are, both queries follow the hints of an
accepted document. -/
theorem Hints.followed_of_accepted {document : Document} (hnames : (document.map Prod.fst).Nodup)
    {hints : Hints} (haccepted : (ofDocument document).outcome = .ok hints) (filter : Filter)
    (config : Config) (template : Sql.Select) :
    ∃ query statement,
      (Search.compile config ⟨filter, hints⟩).outcome = .ok query ∧
      (Relational.compile template config ⟨filter, hints⟩).outcome = .ok statement ∧
      document.Followed template (query.toValue Search.Clause.toValue) statement := by
  have hsort := map_toKeys_sort hnames haccepted
  have hhints := eq_of_outcome_ofDocument hnames haccepted
  obtain ⟨hlimit, hskip⟩ := (exists_outcome_ofDocument_iff hnames).mp ⟨hints, haccepted⟩
  -- neither order nor paging of the two queries depends on the filter
  refine ⟨_, _, rfl, rfl, ?_, ?_, ?_, ?_⟩
  · rw [Search.Query.field?_sort_toValue, ← hsort, Search.query, Option.map_map, Option.map_map,
      Option.map_map]
    exact congrArg (Option.map · hints.sort) (funext Search.sortKeys?_sortClauses)
  · rw [Relational.Query.apply_eq, ← hsort]
    exact ⟨_, rfl, Relational.map_sortKey?_sortExprs hints.sort⟩
  · rw [Search.Query.field?_size_toValue, Relational.Query.apply_eq, hhints]
    exact Document.pagedBy hlimit template.limit
  · rw [Search.Query.field?_from_toValue, Relational.Query.apply_eq, hhints]
    exact Document.pagedBy hskip template.offset

/-- The sort comes last, and one of its tokens asks for no direction; the limit is a text. -/
def Document.mixedHints : Document :=
  [("$page", .ofNat 2), ("$limit", .string " +7 "), ("$sort", .object
    [("b.c", .ofNat 1), ("a", .string "up"), ("b", .string "ASC")])]

/-- A statement that has an order, a limit and an offset of its own. -/
def Relational.pagedTemplate : Sql.Select :=
  { Sql.Select.empty with orderBy := [⟨.path "id", .desc⟩], limit := some 3, offset := some 4 }

theorem Hints.followed_of_accepted_mixed :
    (Document.mixedHints.map Prod.fst).Nodup ∧
      Document.mixedHints.sortKeys? =
        some [⟨"b.c", .ascending⟩, ⟨"a", .descending⟩, ⟨"b", .ascending⟩] ∧
      ∃ hints, (ofDocument Document.mixedHints).outcome = .ok hints ∧
        ∃ query statement,
          (Search.compile .default ⟨⟨[]⟩, hints⟩).outcome = .ok query ∧
          (Relational.compile Relational.pagedTemplate .default ⟨⟨[]⟩, hints⟩).outcome =
            .ok statement ∧
          Document.mixedHints.Followed Relational.pagedTemplate
            (query.toValue Search.Clause.toValue) statement := by
  have hnames : (Document.mixedHints.map Prod.fst).Nodup := by decide
  have haccepted : (ofDocument Document.mixedHints).outcome = .ok
      ⟨some (.byKeys [⟨"b.c", .ascending⟩, ⟨"a", .descending⟩, ⟨"b", .ascending⟩]), some 7,
        none⟩ := by rfl
  have hkeys := map_toKeys_sort hnames haccepted
  exact ⟨hnames, hkeys.symm, _, haccepted,
    followed_of_accepted hnames haccepted ⟨[]⟩ .default Relational.pagedTemplate⟩

end FilterQuery
