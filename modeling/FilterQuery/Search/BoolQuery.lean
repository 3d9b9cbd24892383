import FilterQuery.Search.Clause

/-!
# Bool queries

A bool query holds four lists of clauses. What matches is what matches all clauses in `must` and
`filter`, none in `mustNot`, and at least one in `should` as soon as there is one. The clauses may
be of any type; lists that are empty are not written.
-/

namespace FilterQuery.Search

open Json (Value)

inductive Occur where
  | must
  | filter
  | should
  | mustNot
deriving DecidableEq

structure BoolQuery (α : Type) where
  must : List α
  filter : List α
  should : List α
  mustNot : List α
  minimumShouldMatch : Option Nat
deriving BEq

namespace BoolQuery

variable {α : Type}

def empty : BoolQuery α :=
  ⟨[], [], [], [], none⟩

def push (q : BoolQuery α) (occur : Occur) (clause : α) : BoolQuery α :=
  match occur with
  | .must => { q with must := q.must ++ [clause] }
  | .filter => { q with filter := q.filter ++ [clause] }
  | .should => { q with should := q.should ++ [clause], minimumShouldMatch := some 1 }
  | .mustNot => { q with mustNot := q.mustNot ++ [clause] }

def pushAll (q : BoolQuery α) (occur : Occur) (clauses : List α) : BoolQuery α :=
  clauses.foldl (fun q clause => q.push occur clause) q

def length (q : BoolQuery α) : Nat :=
  q.must.length + q.filter.length + q.should.length + q.mustNot.length

def isEmpty (q : BoolQuery α) : Bool :=
  q.length == 0

/-- A list of clauses as a field, left out when empty. -/
def listField (toValue : α → Value) (name : String) : List α → List (String × Value)
  | [] => []
  | clauses => [(name, .array (clauses.map toValue))]

def toValue (toValue : α → Value) (q : BoolQuery α) : Value :=
  .object <|
    listField toValue "must" q.must ++ listField toValue "filter" q.filter ++
      listField toValue "should" q.should ++ listField toValue "must_not" q.mustNot ++
      (q.minimumShouldMatch.map fun n => ("minimum_should_match", Value.ofNat n)).toList

end BoolQuery

end FilterQuery.Search
