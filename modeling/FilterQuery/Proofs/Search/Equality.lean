import Mathlib.Data.List.Nodup
import FilterQuery.Proofs.Filter.Equality
import FilterQuery.Search.Query

/-!
# Search queries of equal filters

Equal filters have equal clauses, and what is written for the clauses is equal JSON. As the clauses
are pushed to the same lists, the queries are equal list by list. A query is compared in both forms:
with its clauses as such, and with the JSON that they are written as.
-/

namespace FilterQuery.Search

open Json (Value)
open Json.Value (object_beq_single array_beq)

/-! ## Clauses -/

theorem RangeEnd.name_injective : Function.Injective RangeEnd.name := by
  intro key other h
  rwa [← beq_iff_eq, RangeEnd.name_beq, beq_iff_eq] at h

namespace Clause

theorem beqClauses_eq (clauses others : List Clause) :
    beqClauses clauses others = (clauses == others) := by
  induction clauses generalizing others with
  | nil => cases others <;> rfl
  | cons clause clauses ih =>
    cases others with
    | nil => rfl
    | cons other others => rw [beqClauses, ih, List.cons_beq_cons]; rfl

theorem term_beq (field field' : String) (v w : Value) :
    (term field v == term field' w) = (field == field' && v == w) := rfl

theorem terms_beq (field field' : String) (vs ws : List Value) :
    (terms field vs == terms field' ws) = (field == field' && vs == ws) := rfl

theorem wildcard_beq (field field' pattern pattern' : String) :
    (wildcard field pattern == wildcard field' pattern') =
      (field == field' && pattern == pattern') := rfl

theorem present_beq (field field' : String) :
    (present field == present field') = (field == field') := rfl

theorem range_beq (field field' : String) (ends ends' : List (RangeEnd × Value)) :
    (range field ends == range field' ends') = (field == field' && ends == ends') := rfl

theorem groupClause_beq_groupClause (kind : GroupKind) (clauses others : List Clause) :
    (groupClause kind clauses == groupClause kind others) = (clauses == others) := by
  rw [← beqClauses_eq]
  cases kind <;> rfl

theorem toValue_range (field : String) (ends : List (RangeEnd × Value)) :
    (range field ends).toValue =
      .object [("range", .object [(field, .object (ends.map (Prod.map RangeEnd.name id)))])] := rfl

/-- Clauses that are equal, and written as equal JSON. -/
structure Alike (clause other : Clause) : Prop where
  equal : (clause == other) = true
  written : (clause.toValue == other.toValue) = true

namespace Alike

variable (field : String) {v w : Value}

theorem term (h : (v == w) = true) : (Clause.term field v).Alike (.term field w) where
  equal := by rw [term_beq, beq_self_eq_true, h, Bool.true_and]
  written := by simp [toValue, object_beq_single, h]

theorem terms {vs ws : List Value} (h : (vs == ws) = true) :
    (Clause.terms field vs).Alike (.terms field ws) where
  equal := by rw [terms_beq, beq_self_eq_true, h, Bool.true_and]
  written := by simp [toValue, object_beq_single, array_beq, h]

theorem wildcard (pattern : String) :
    (Clause.wildcard field pattern).Alike (.wildcard field pattern) where
  equal := by rw [wildcard_beq, beq_self_eq_true, beq_self_eq_true, Bool.true_and]
  written := by simp [toValue, object_beq_single, Value.string_beq]

theorem present : (Clause.present field).Alike (.present field) where
  equal := by rw [present_beq, beq_self_eq_true]
  written := by simp [toValue, object_beq_single, Value.string_beq]

theorem range {ends ends' : List (RangeEnd × Value)} (hkeys : (ends'.map Prod.fst).Nodup)
    (h : (ends == ends') = true) : (Clause.range field ends).Alike (.range field ends') where
  equal := by rw [range_beq, beq_self_eq_true, h, Bool.true_and]
  written := by
    have hnames : ((ends'.map (Prod.map RangeEnd.name id)).map Prod.fst).Nodup := by
      rw [List.map_map]
      simpa [Function.comp_def] using List.Nodup.map RangeEnd.name_injective hkeys
    have hfields : (Value.object (ends.map (Prod.map RangeEnd.name id)) ==
        Value.object (ends'.map (Prod.map RangeEnd.name id))) = true := by
      refine Value.object_beq_of_alikeFields hnames (forall₂_map_of_beq h fun key _ other hend => ?_)
      obtain ⟨hkey, hbound⟩ := Bool.and_eq_true_iff.mp hend
      exact ⟨congrArg RangeEnd.name (eq_of_beq hkey), hbound⟩
    rw [toValue_range, toValue_range, object_beq_single, object_beq_single, hfields]
    simp

theorem end_beq (key : RangeEnd) (v w : Value) : ((key, v) == (key, w)) = (v == w) := by
  rw [show ((key, v) == (key, w)) = (key == key && v == w) from rfl, beq_self_eq_true,
    Bool.true_and]

theorem range_single (key : RangeEnd) (h : (v == w) = true) :
    (Clause.range field [(key, v)]).Alike (.range field [(key, w)]) :=
  range field (List.pairwise_singleton _ key) (by simp [end_beq, h])

theorem range_between (bounds : Bounds) {v' w' : Value} (h : (v == w) = true)
    (h' : (v' == w') = true) : (Clause.range field (betweenEnds bounds v v')).Alike
      (.range field (betweenEnds bounds w w')) := by
  cases bounds <;>
    exact range field (by simp [betweenEnds]) (by simp [betweenEnds, end_beq, h, h'])

theorem equality (h : (v == w) = true) :
    (Search.equality field v).Alike (Search.equality field w) := by
  have hscalar {v : Value} (hv : v.kind ≠ .array) : Search.equality field v = .term field v := by
    cases v <;> first | rfl | exact absurd rfl hv
  rcases Value.arrays_or_not_of_beq h with ⟨vs, ws, rfl, rfl, hitems⟩ | ⟨hv, hw⟩
  · exact terms field hitems
  · rw [hscalar hv, hscalar hw]
    exact term field h

theorem not {clause other : Clause} (h : clause.Alike other) :
    (Clause.not clause).Alike (.not other) where
  equal := h.equal
  written := by simp [toValue, object_beq_single, array_beq, h.written]

theorem group (kind : GroupKind) {clauses others : List Clause}
    (h : List.Forall₂ Alike clauses others) :
    (groupClause kind clauses).Alike (groupClause kind others) where
  equal := by
    rw [groupClause_beq_groupClause, beq_iff_forall₂]
    exact h.imp fun _ _ halike => halike.equal
  written := by
    have hwritten := map_beq_of_forall₂ h fun _ _ halike => halike.written
    rw [groupClause_beq, hwritten]
    simp

end Alike

end Clause

section Routing

variable (bounds : Bounds)

/-- Equal operations on a field go to the same list. -/
theorem leaf_alike (field : String) {op op' : Op} (h : op.Alike op') :
    (leaf bounds ⟨field, op⟩).1 = (leaf bounds ⟨field, op'⟩).1 ∧
      (leaf bounds ⟨field, op⟩).2.Alike (leaf bounds ⟨field, op'⟩).2 := by
  cases h with
  | eq h => exact ⟨rfl, .equality field h⟩
  | notEq h => exact ⟨rfl, .equality field h⟩
  | oneOf h => exact ⟨rfl, .terms field h⟩
  | noneOf h => exact ⟨rfl, .terms field h⟩
  | like pattern => exact ⟨rfl, .wildcard field _⟩
  | gt h => exact ⟨rfl, .range_single field .gt h⟩
  | gte h => exact ⟨rfl, .range_single field .gte h⟩
  | lt h => exact ⟨rfl, .range_single field .lt h⟩
  | lte h => exact ⟨rfl, .range_single field .lte h⟩
  | between hlower hupper => exact ⟨rfl, .range_between field bounds hlower hupper⟩
  | isNull => exact ⟨rfl, .present field⟩
  | isNotNull => exact ⟨rfl, .present field⟩

theorem conditionClause_alike (field : String) {op op' : Op} (h : op.Alike op') :
    (conditionClause bounds ⟨field, op⟩).Alike (conditionClause bounds ⟨field, op'⟩) := by
  obtain ⟨hoccur, hclause⟩ := leaf_alike bounds field h
  unfold conditionClause
  generalize leaf bounds ⟨field, op⟩ = pushed at hoccur hclause
  generalize leaf bounds ⟨field, op'⟩ = other at hoccur hclause
  obtain ⟨occur, clause⟩ := pushed
  obtain ⟨occur', clause'⟩ := other
  obtain rfl : occur = occur' := hoccur
  cases occur with
  | mustNot => exact hclause.not
  | _ => exact hclause

theorem nested_alike {a b : Node} (h : (a == b) = true) :
    (nested bounds a).Alike (nested bounds b) := by
  refine Node.beq_induction (fun field op op' hop => ?_) (fun kind items items' _ hpairs => ?_) h
  · exact conditionClause_alike bounds field hop
  · rw [nested, nested, nestedItems_eq_map, nestedItems_eq_map]
    refine Clause.Alike.group kind ?_
    rwa [List.forall₂_map_left_iff, List.forall₂_map_right_iff]

theorem nestedItems_alike {items items' : List Node} (h : (items == items') = true) :
    List.Forall₂ Clause.Alike (nestedItems bounds items) (nestedItems bounds items') := by
  rw [nestedItems_eq_map, nestedItems_eq_map]
  exact forall₂_map_of_beq h fun _ _ _ => nested_alike bounds

end Routing

/-! ## Fields that may be absent -/

section Optional

variable {γ : Type} (name : String)

theorem names_optional (toValue : γ → Value) (x : Option γ) :
    ((x.map fun x => (name, toValue x)).toList.map Prod.fst).Sublist [name] := by
  cases x with
  | none => exact List.nil_sublist _
  | some x => exact List.Sublist.refl _

theorem optional_alike {toValue : γ → Value} (h : ∀ x, (toValue x == toValue x) = true)
    (x : Option γ) : List.Forall₂ Value.AlikeFields (x.map fun x => (name, toValue x)).toList
      (x.map fun x => (name, toValue x)).toList := by
  cases x with
  | none => exact .nil
  | some x => exact .cons ⟨rfl, h x⟩ .nil

end Optional

/-! ## Bool queries -/

namespace BoolQuery

variable {α β : Type}

/-- The query with other clauses in the same places. -/
def map (f : α → β) (q : BoolQuery α) : BoolQuery β :=
  ⟨q.must.map f, q.filter.map f, q.should.map f, q.mustNot.map f, q.minimumShouldMatch⟩

theorem names_listField (f : α → Value) (name : String) (clauses : List α) :
    ((listField f name clauses).map Prod.fst).Sublist [name] := by
  cases clauses with
  | nil => exact List.nil_sublist _
  | cons clause clauses => exact List.Sublist.refl _

/-- The lists that are written have different names. -/
theorem nodup_names_toValue (f : α → Value) (q : BoolQuery α) :
    ((listField f "must" q.must ++ listField f "filter" q.filter ++
      listField f "should" q.should ++ listField f "must_not" q.mustNot ++
      (q.minimumShouldMatch.map fun n =>
        ("minimum_should_match", Value.ofNat n)).toList).map Prod.fst).Nodup := by
  have hminimum := names_optional "minimum_should_match" Value.ofNat q.minimumShouldMatch
  have hnames : ["must", "filter", "should", "must_not", "minimum_should_match"].Nodup := by decide
  refine List.Nodup.sublist ?_ hnames
  simp only [List.map_append]
  exact ((((names_listField f "must" q.must).append (names_listField f "filter" q.filter)).append
    (names_listField f "should" q.should)).append
    (names_listField f "must_not" q.mustNot)).append hminimum

theorem beq_def [BEq α] (q q' : BoolQuery α) :
    (q == q') = (q.must == q'.must && (q.filter == q'.filter && (q.should == q'.should &&
      (q.mustNot == q'.mustNot && q.minimumShouldMatch == q'.minimumShouldMatch)))) := rfl

/-- The clauses of two queries are related list by list. -/
structure Alike (R : α → β → Prop) (q : BoolQuery α) (q' : BoolQuery β) : Prop where
  must : List.Forall₂ R q.must q'.must
  filter : List.Forall₂ R q.filter q'.filter
  should : List.Forall₂ R q.should q'.should
  mustNot : List.Forall₂ R q.mustNot q'.mustNot
  minimum : q.minimumShouldMatch = q'.minimumShouldMatch

namespace Alike

variable {R : α → β → Prop} {q : BoolQuery α} {q' : BoolQuery β}

theorem empty : (BoolQuery.empty : BoolQuery α).Alike R (BoolQuery.empty : BoolQuery β) :=
  ⟨.nil, .nil, .nil, .nil, rfl⟩

theorem push (h : q.Alike R q') (occur : Occur) {clause : α} {other : β} (hclause : R clause other) :
    (q.push occur clause).Alike R (q'.push occur other) := by
  have hlast : List.Forall₂ R [clause] [other] := .cons hclause .nil
  cases occur with
  | must => exact { h with must := List.rel_append h.must hlast }
  | filter => exact { h with filter := List.rel_append h.filter hlast }
  | should => exact { h with should := List.rel_append h.should hlast, minimum := rfl }
  | mustNot => exact { h with mustNot := List.rel_append h.mustNot hlast }

theorem pushAll (h : q.Alike R q') (occur : Occur) {clauses : List α} {others : List β}
    (hclauses : List.Forall₂ R clauses others) :
    (q.pushAll occur clauses).Alike R (q'.pushAll occur others) := by
  induction hclauses generalizing q q' with
  | nil => exact h
  | cons hclause _ ih => exact ih (h.push occur hclause)

theorem map_beq {γ : Type} [BEq γ] {f : α → γ} {g : β → γ} (h : q.Alike R q')
    (hR : ∀ clause other, R clause other → (f clause == g other) = true) :
    (q.map f == q'.map g) = true := by
  have hmust := map_beq_of_forall₂ h.must hR
  have hfilter := map_beq_of_forall₂ h.filter hR
  have hshould := map_beq_of_forall₂ h.should hR
  have hmustNot := map_beq_of_forall₂ h.mustNot hR
  simp [beq_def, map, hmust, hfilter, hshould, hmustNot, h.minimum]

theorem beq [BEq α] {R : α → α → Prop} {q q' : BoolQuery α} (h : q.Alike R q')
    (hR : ∀ clause other, R clause other → (clause == other) = true) : (q == q') = true := by
  have hmap := h.map_beq (f := id) (g := id) hR
  simpa [map] using hmap

section Written

variable {f : α → Value} {g : β → Value}

/-- A list is written by both queries or by neither. -/
theorem listField {clauses : List α} {others : List β} (h : List.Forall₂ R clauses others)
    (hR : ∀ clause other, R clause other → (f clause == g other) = true) (name : String) :
    List.Forall₂ Value.AlikeFields (BoolQuery.listField f name clauses)
      (BoolQuery.listField g name others) := by
  have hvalues := map_beq_of_forall₂ h hR
  rw [← array_beq] at hvalues
  cases h with
  | nil => exact .nil
  | cons _ _ => exact .cons ⟨rfl, hvalues⟩ .nil

theorem toValue_beq (h : q.Alike R q')
    (hR : ∀ clause other, R clause other → (f clause == g other) = true) :
    (q.toValue f == q'.toValue g) = true := by
  refine Value.object_beq_of_alikeFields (nodup_names_toValue g q') ?_
  have hlists := List.rel_append (List.rel_append (List.rel_append
    (listField h.must hR "must") (listField h.filter hR "filter"))
    (listField h.should hR "should")) (listField h.mustNot hR "must_not")
  refine List.rel_append hlists ?_
  rw [h.minimum]
  exact optional_alike "minimum_should_match" (fun n : Nat => Value.number_beq_self (.int n)) _

end Written

end Alike

end BoolQuery

section Routing

variable (bounds : Bounds)

theorem pushNode_alike {q q' : BoolQuery Clause} (h : q.Alike Clause.Alike q') {a b : Node}
    (hnode : (a == b) = true) :
    (pushNode bounds q a).Alike Clause.Alike (pushNode bounds q' b) := by
  refine Node.beq_induction (fun field op op' hop => ?_) (fun kind items items' hitems _ => ?_) hnode
  · obtain ⟨hoccur, hclause⟩ := leaf_alike bounds field hop
    rw [pushNode, pushNode, hoccur]
    exact h.push _ hclause
  · have hclauses := nestedItems_alike bounds hitems
    cases kind with
    | and => exact h.pushAll .must hclauses
    | or =>
      have hshould : q.should = [] ↔ q'.should = [] := by
        rw [← List.length_eq_zero_iff, h.should.length_eq, List.length_eq_zero_iff]
      rw [pushNode, pushNode]
      by_cases hempty : q.should = []
      · rw [if_pos hempty, if_pos (hshould.mp hempty)]
        exact h.pushAll .should hclauses
      · rw [if_neg hempty, if_neg (mt hshould.mpr hempty)]
        exact h.push .must (.group .or hclauses)

theorem foldl_pushNode_alike {nodes nodes' : List Node} (h : (nodes == nodes') = true)
    {q q' : BoolQuery Clause} (hq : q.Alike Clause.Alike q') :
    (nodes.foldl (pushNode bounds) q).Alike Clause.Alike (nodes'.foldl (pushNode bounds) q') := by
  rw [beq_iff_forall₂] at h
  induction h generalizing q q' with
  | nil => exact hq
  | cons hnode _ ih => exact ih (pushNode_alike bounds hq hnode)

theorem boolQuery_alike {filter filter' : Filter} (h : (filter == filter') = true) :
    (boolQuery bounds filter).Alike Clause.Alike (boolQuery bounds filter') :=
  foldl_pushNode_alike bounds h .empty

end Routing

/-! ## Whole queries -/

theorem SortClause.toValue_beq_self (clause : SortClause) :
    (clause.toValue == clause.toValue) = true := by
  cases clause with
  | field name => exact beq_self_eq_true name
  | ordered name direction => simp [toValue, object_beq_single, Value.string_beq]

theorem SortClause.toValues_beq_self (clauses : List SortClause) :
    (Value.array (clauses.map toValue) == Value.array (clauses.map toValue)) = true := by
  rw [array_beq]
  refine list_beq_self fun v hv => ?_
  obtain ⟨clause, -, rfl⟩ := List.mem_map.mp hv
  exact clause.toValue_beq_self

namespace Query

variable {α β : Type}

/-- The query with other clauses in the same places. -/
def map (f : α → β) (query : Query α) : Query β :=
  ⟨query.boolQuery.map f, query.sort, query.size, query.start⟩

theorem beq_def [BEq α] (query other : Query α) :
    (query == other) = (query.boolQuery == other.boolQuery && (query.sort == other.sort &&
      (query.size == other.size && query.start == other.start))) := rfl

theorem nodup_names_toValue (body : Value) (sort : Option (List SortClause))
    (size start : Option Count) :
    ((("body", body) ::
      (sort.map fun clauses => ("sort", Value.array (clauses.map SortClause.toValue))).toList ++
      (size.map fun n => ("size", n.toValue)).toList ++
      (start.map fun n => ("from", n.toValue)).toList).map Prod.fst).Nodup := by
  have hnames : ["body", "sort", "size", "from"].Nodup := by decide
  refine List.Nodup.sublist ?_ hnames
  simp only [List.cons_append, List.map_cons, List.map_append]
  exact (((names_optional "sort" _ sort).append (names_optional "size" _ size)).append
    (names_optional "from" _ start)).cons_cons "body"

/-- What is written for two queries is equal if it is for their bool queries and the rest is the
same. -/
theorem toValue_beq {f : α → Value} {g : β → Value} {q : BoolQuery α} {q' : BoolQuery β}
    (h : (q.toValue f == q'.toValue g) = true) (sort : Option (List SortClause))
    (size start : Option Count) :
    ((⟨q, sort, size, start⟩ : Query α).toValue f ==
      (⟨q', sort, size, start⟩ : Query β).toValue g) = true := by
  refine Value.object_beq_of_alikeFields (nodup_names_toValue _ sort size start) ?_
  have hcount (n : Count) : (n.toValue == n.toValue) = true := Value.number_beq_self _
  have hpaging := List.rel_append (List.rel_append
    (optional_alike "sort" SortClause.toValues_beq_self sort) (optional_alike "size" hcount size))
    (optional_alike "from" hcount start)
  exact .cons ⟨rfl, by simp [object_beq_single, h]⟩ hpaging

end Query

/-- Compiled with equal hints, equal filters give queries that are equal in both forms and written as
equal JSON. -/
theorem query_beq (config : Config) {filter filter' : Filter} (h : (filter == filter') = true)
    (hints : Hints) :
    (query config ⟨filter, hints⟩ == query config ⟨filter', hints⟩) = true ∧
      ((query config ⟨filter, hints⟩).map Clause.toValue ==
        (query config ⟨filter', hints⟩).map Clause.toValue) = true ∧
      ((query config ⟨filter, hints⟩).toValue Clause.toValue ==
        (query config ⟨filter', hints⟩).toValue Clause.toValue) = true := by
  have halike := boolQuery_alike config.searchBounds h
  have hequal := halike.beq fun _ _ hclause => hclause.equal
  have hwritten := halike.map_beq fun _ _ hclause => hclause.written
  refine ⟨?_, ?_, Query.toValue_beq (halike.toValue_beq fun _ _ hclause => hclause.written) _ _ _⟩
  · simp [query, Query.beq_def, hequal]
  · simp [query, Query.beq_def, Query.map, hwritten]

end FilterQuery.Search
