import FilterQuery.Proofs.Search.BoolQuery
import FilterQuery.Search.Routing

/-!
# Bool queries mean their filters

Routing keeps the meaning of a filter whose groups have items at every depth. A condition goes to a
list that asks for it or, negated, to the list that rules it out; a nested node becomes one clause
of the same truth. Adding a node to a guarded query adds its truth to what the query asks for, and
so the query of a filter, as it is written, is read as the conjunction of the nodes.
-/

namespace FilterQuery.Search

open Json (Value)

variable (bounds : Bounds) (σ : Test → Bool)

theorem wildcardPattern_eq_map (pattern : String) :
    wildcardPattern pattern = pattern.map fun c => if c = '%' then '*' else c := by
  rw [wildcardPattern, ← String.toList_map, String.ofList_toList]

theorem holds_equality (field : String) (operand : Value) :
    (equality field operand).holds σ = σ (.ofEquality field operand) := by
  cases operand <;> rfl

/-- A condition is negated by the list it goes to and not by its clause. -/
theorem holds_leaf (c : Condition) :
    (if (leaf bounds c).1 = .mustNot then !(leaf bounds c).2.holds σ
      else (leaf bounds c).2.holds σ) = c.holds (fun test => σ test.starred) bounds := by
  obtain ⟨field, op⟩ := c
  cases op with
  | eq operand => simp [leaf, Condition.holds, holds_equality]
  | notEq operand => simp [leaf, Condition.holds, holds_equality]
  | oneOf operands => rfl
  | noneOf operands => rfl
  | like pattern =>
    simp [leaf, Condition.holds, Clause.holds, Test.starred, wildcardPattern_eq_map]
  | gt bound => simp [leaf, Condition.holds, Clause.holds, RangeEnd.test, Test.starred]
  | gte bound => simp [leaf, Condition.holds, Clause.holds, RangeEnd.test, Test.starred]
  | lt bound => simp [leaf, Condition.holds, Clause.holds, RangeEnd.test, Test.starred]
  | lte bound => simp [leaf, Condition.holds, Clause.holds, RangeEnd.test, Test.starred]
  | between lower upper =>
    cases bounds <;>
      simp [leaf, betweenEnds, Condition.holds, Clause.holds, RangeEnd.test, Test.starred]
  | isNull => rfl
  | isNotNull => rfl

theorem leaf_ne_should (c : Condition) : (leaf bounds c).1 ≠ .should := by
  obtain ⟨field, op⟩ := c
  cases op <;> simp [leaf]

theorem holds_conditionClause (c : Condition) :
    (conditionClause bounds c).holds σ = c.holds (fun test => σ test.starred) bounds := by
  rw [← holds_leaf, conditionClause]
  obtain ⟨occur, clause⟩ := leaf bounds c
  cases occur <;> simp [Clause.holds]

theorem holds_groupClause (kind : GroupKind) (clauses : List Clause) :
    (groupClause kind clauses).holds σ =
      match kind with
      | .and => clauses.all (Clause.holds σ)
      | .or => clauses.any (Clause.holds σ) := by
  cases kind <;> simp [groupClause, Clause.holds, Clause.truths_eq_map]

theorem holds_nested {node : Node} (h : node.Populated) :
    (nested bounds node).holds σ = node.holds (fun test => σ test.starred) bounds := by
  induction h with
  | condition c => exact holds_conditionClause bounds σ c
  | @group kind items hne heach ih =>
    have htruths : (items.map (nested bounds)).map (Clause.holds σ) =
        items.map (Node.holds (fun test => σ test.starred) bounds) := by
      rw [List.map_map]
      exact List.map_congr_left ih
    rw [nested, nestedItems_eq_map, holds_groupClause,
      (Node.Populated.group kind hne heach).holds_group]
    cases kind with
    | and => simpa [List.all_map] using congrArg (List.all · id) htruths
    | or => simpa [List.any_map] using congrArg (List.any · id) htruths

/-- Adding a node at the top asks for what the node asks for as a clause of its own. -/
theorem holds_pushNode (q : BoolQuery Clause) {node : Node} (h : node.Populated) :
    (pushNode bounds q node).holds (Clause.holds σ) =
      (q.holds (Clause.holds σ) && (nested bounds node).holds σ) := by
  cases h with
  | condition c =>
    rw [pushNode, BoolQuery.holds_push _ q (leaf_ne_should bounds c), nested, holds_conditionClause,
      holds_leaf]
  | @group kind items hne _ =>
    have hclauses : nestedItems bounds items ≠ [] := by
      rw [nestedItems_eq_map]
      exact fun hnil => hne (List.map_eq_nil_iff.mp hnil)
    rw [nested, holds_groupClause]
    cases kind with
    | and => rw [pushNode, BoolQuery.holds_pushAll_must]
    | or =>
      rw [pushNode]
      split
      · next hshould => rw [BoolQuery.holds_pushAll_should _ hshould hclauses]
      · rw [BoolQuery.holds_push _ q (by decide), if_neg (by decide), holds_groupClause]

theorem guarded_pushNode {q : BoolQuery Clause} (h : q.Guarded) (node : Node) :
    (pushNode bounds q node).Guarded := by
  cases node with
  | condition c => exact h.push _ _
  | group kind items =>
    cases kind with
    | and => exact h.pushAll _ _
    | or =>
      rw [pushNode]
      split
      · exact h.pushAll _ _
      · exact h.push _ _

/-- What holds along the top of a filter: the query stays guarded, and it asks for what it asked for
at first and for every node so far. -/
theorem foldl_pushNode (nodes : List Node) (h : ∀ node ∈ nodes, node.Populated)
    {q : BoolQuery Clause} (hq : q.Guarded) :
    (nodes.foldl (pushNode bounds) q).Guarded ∧
      (nodes.foldl (pushNode bounds) q).holds (Clause.holds σ) =
        (q.holds (Clause.holds σ) &&
          nodes.all (Node.holds (fun test => σ test.starred) bounds)) := by
  induction nodes generalizing q with
  | nil => exact ⟨hq, (Bool.and_true _).symm⟩
  | cons node nodes ih =>
    have hnode := h node List.mem_cons_self
    have hnodes := fun other hother => h other (List.mem_cons_of_mem node hother)
    obtain ⟨hguarded, hholds⟩ := ih hnodes (guarded_pushNode bounds hq node)
    refine ⟨hguarded, hholds.trans ?_⟩
    rw [holds_pushNode bounds σ q hnode, holds_nested bounds σ hnode, Bool.and_assoc, List.all_cons]

/-- The query of a filter, read from its JSON, matches where all nodes of the filter hold; patterns
are tested as they are written in it. -/
theorem boolHolds_boolQuery (config : Config) {filter : Filter} (h : filter.Populated) :
    boolHolds σ ((boolQuery config.searchBounds filter).toValue Clause.toValue) =
      filter.holds (fun test => σ test.starred) config.searchBounds := by
  obtain ⟨hguarded, hholds⟩ :=
    foldl_pushNode config.searchBounds σ filter.nodes h BoolQuery.guarded_empty
  rw [boolQuery, hguarded.boolHolds_toValue, hholds, BoolQuery.holds_empty, Bool.true_and,
    Filter.holds]

/-- Two `or` groups around an `and` group, the first with a negation inside. -/
def mixedFilter : Filter :=
  ⟨[.condition ⟨"kind", .notEq (.string "draft")⟩,
    .group .or [.condition ⟨"id", .eq (.ofNat 1)⟩,
      .group .and [.condition ⟨"name", .like "jo%"⟩, .condition ⟨"id", .noneOf [.ofNat 2]⟩]],
    .group .and [.condition ⟨"age", .between (.ofNat 1) (.ofNat 9)⟩],
    .group .or [.condition ⟨"mail", .isNull⟩, .condition ⟨"mail", .isNotNull⟩]]⟩

def mixedTruth : Test → Bool
  | .like _ pattern => pattern = "jo*"
  | .present field => field = "mail"
  | .gt _ _ => true
  | .lt _ _ => true
  | _ => false

theorem boolHolds_boolQuery_mixed :
    mixedFilter.Populated ∧
      boolHolds mixedTruth
        ((boolQuery Config.default.searchBounds mixedFilter).toValue Clause.toValue) = true := by
  have hpopulated : mixedFilter.Populated := by
    intro node hnode
    simp only [mixedFilter, List.mem_cons, List.not_mem_nil, or_false] at hnode
    rcases hnode with rfl | rfl | rfl | rfl <;>
      simp [Node.populated_group_iff, Node.Populated.condition]
  have hholds : mixedFilter.holds (fun test => mixedTruth test.starred)
      Config.default.searchBounds = true := by decide +kernel
  exact ⟨hpopulated, (boolHolds_boolQuery mixedTruth Config.default hpopulated).trans hholds⟩

end FilterQuery.Search
