import FilterQuery.Proofs.Relational.Meaning
import FilterQuery.Proofs.Sql.Reading

/-!
# Rendered conditions are read as the compiled ones

Filters whose groups have items at every depth are compiled to conditions, and conditions that are
added to such conditions are such conditions again. So the text of a statement that was compiled
step by step from such filters says what its conditions are, bound or inline and in every dialect,
and what is read has the truth of the filters.
-/

namespace FilterQuery

open Json (Value)

theorem Sql.Ident.parts_ofPath_ne_nil (path : String) : (ofPath path).parts ≠ [] := by
  have hsegments : path.toList.splitOn '.' ≠ [] := List.splitOn_ne_nil '.' path.toList
  unfold ofPath
  simp only
  split
  · exact List.cons_ne_nil path []
  · exact fun h => hsegments (List.map_eq_nil_iff.mp h)

namespace Relational

open Sql (Expr Group Select Token)

theorem isCondition_conditionPredicate (bounds : Bounds) (c : Condition) :
    (conditionPredicate bounds c).IsCondition := by
  obtain ⟨field, op⟩ := c
  have hnamed := Sql.Ident.parts_ofPath_ne_nil field
  cases op with
  | eq operand =>
    cases operand with
    | array operands => exact .inList hnamed operands false
    | _ => exact .compare hnamed .eq _
  | notEq operand =>
    cases operand with
    | array operands => exact .inList hnamed operands true
    | _ => exact .compare hnamed .ne _
  | oneOf operands => exact .inList hnamed operands false
  | noneOf operands => exact .inList hnamed operands true
  | like pattern => exact .like hnamed (.string pattern)
  | gt bound => exact .compare hnamed .gt bound
  | gte bound => exact .compare hnamed .ge bound
  | lt bound => exact .compare hnamed .lt bound
  | lte bound => exact .compare hnamed .le bound
  | between lower upper =>
    cases bounds with
    | inclusive => exact .between hnamed lower upper
    | exclusive =>
      refine .nested .and (List.cons_ne_nil _ _) fun predicate hpredicate => ?_
      rcases List.mem_pair.mp hpredicate with rfl | rfl
      · exact .compare hnamed .gt lower
      · exact .compare hnamed .lt upper
  | isNull => exact .isNull hnamed false
  | isNotNull => exact .isNull hnamed true

theorem nodePredicates_eq_map (bounds : Bounds) (nodes : List Node) :
    nodePredicates bounds nodes = nodes.map (nodePredicate bounds) := by
  induction nodes with
  | nil => rfl
  | cons node nodes ih => rw [nodePredicates, ih, List.map_cons]

theorem isCondition_nodePredicate (bounds : Bounds) {node : Node} (h : node.Populated) :
    (nodePredicate bounds node).IsCondition := by
  induction h with
  | condition c => exact isCondition_conditionPredicate bounds c
  | group kind hne each ih =>
    rw [nodePredicate, nodePredicates_eq_map]
    refine .nested _ (fun h => hne (List.map_eq_nil_iff.mp h)) fun predicate hpredicate => ?_
    obtain ⟨item, hitem, rfl⟩ := List.mem_map.mp hpredicate
    exact ih item hitem

theorem isCondition_of_mem_predicates (bounds : Bounds) {filter : Filter} (h : filter.Populated) :
    ∀ predicate ∈ (predicates bounds filter).predicates, predicate.IsCondition := by
  intro predicate hpredicate
  rw [predicates, nodePredicates_eq_map] at hpredicate
  obtain ⟨node, hnode, rfl⟩ := List.mem_map.mp hpredicate
  exact isCondition_nodePredicate bounds (h node hnode)

/-- Conditions that come from filters: none, an `OR` group of compiled nodes, or conditions that a
compiled filter was added to. The bounds of ranges may differ from filter to filter. -/
inductive CompiledConditions : Group → Prop where
  | empty (combinator : Sql.Combinator) : CompiledConditions (.empty combinator)
  | disjunction {predicates : List Expr}
      (each : ∀ predicate ∈ predicates, ∃ bounds node, node.Populated ∧
        predicate = nodePredicate bounds node) : CompiledConditions ⟨.or, predicates⟩
  | filtered {conditions : Group} (compiled : CompiledConditions conditions) (bounds : Bounds)
      {filter : Filter} (populated : filter.Populated) :
      CompiledConditions (Select.merge conditions (predicates bounds filter))

/-- Merging keeps conditions, also where an `OR` group becomes one of them. -/
theorem isCondition_of_mem_merge {conditions group : Group}
    (hconditions : ∀ predicate ∈ conditions.predicates, predicate.IsCondition)
    (hgroup : ∀ predicate ∈ group.predicates, predicate.IsCondition) :
    ∀ predicate ∈ (Select.merge conditions group).predicates, predicate.IsCondition := by
  unfold Select.merge
  split
  · exact hconditions
  · split
    · exact hgroup
    · next hne =>
      split
      · exact List.forall_mem_append.mpr ⟨hconditions, hgroup⟩
      · have hwrapped := Group.isCondition_toExpr (Bool.eq_false_iff.mpr hne) hconditions
        refine List.forall_mem_append.mpr ⟨?_, hgroup⟩
        exact List.forall_mem_singleton.mpr hwrapped

theorem CompiledConditions.isCondition {conditions : Group} (h : CompiledConditions conditions) :
    ∀ predicate ∈ conditions.predicates, predicate.IsCondition := by
  induction h with
  | empty combinator => exact fun _ hpredicate => absurd hpredicate List.not_mem_nil
  | disjunction each =>
    intro predicate hpredicate
    obtain ⟨bounds, node, hnode, rfl⟩ := each predicate hpredicate
    exact isCondition_nodePredicate bounds hnode
  | filtered compiled bounds populated ih =>
    exact isCondition_of_mem_merge ih (isCondition_of_mem_predicates bounds populated)

theorem Query.conditions_apply (q : Query) (s : Select) :
    (q.apply s).conditions = Select.merge s.conditions q.conditions := by
  rw [apply_eq]

/-- A statement compiled onto conditions that come from filters asks for these and for the filter.
Its text has no `WHERE` if there are no conditions, and otherwise the text behind it is read as the
conditions, up to the combinator of groups of one, and has their truth. -/
theorem readWhere?_compile {template : Select} (htemplate : CompiledConditions template.conditions)
    (config : Config) {request : Request} (hfilter : request.filter.Populated) :
    ∃ s, (compile template config request).outcome = .ok s ∧
      (∀ ρ, s.conditions.holds ρ = (template.conditions.holds ρ &&
        request.filter.holds (fieldTruth ρ) config.relationalBounds)) ∧
      (s.conditions.isEmpty = true → ∀ d,
        ((Sql.bound d (s.pieces d)).items? d).map Sql.afterWhere = some none ∧
        (Sql.inlineItems? d (Sql.inline d (s.pieces d))).map Sql.afterWhere = some none) ∧
      (s.conditions.isEmpty = false →
        ∃ tree : Sql.Predicate Value, tree.expr = s.conditions.settled.toExpr ∧
          (∀ ρ, tree.expr.verdict ρ = some (s.conditions.holds ρ)) ∧ ∀ d,
          ((Sql.bound d (s.pieces d)).items? d).bind (Sql.readWhere? fun _ => none) = some tree ∧
          (Sql.inlineItems? d (Sql.inline d (s.pieces d))).bind (Sql.readWhere? Token.literal?) =
            some (tree.map Token.literal)) := by
  have hconditions : ∀ predicate ∈ ((query config request).apply template).conditions.predicates,
      predicate.IsCondition := by
    rw [Query.conditions_apply]
    exact (htemplate.filtered config.relationalBounds hfilter).isCondition
  refine ⟨(query config request).apply template, rfl, holds_apply_query template config request, ?_⟩
  generalize (query config request).apply template = s at hconditions
  refine ⟨fun hempty d => ?_, fun hne => ?_⟩
  · rw [s.items?_bound, s.inlineItems?_inline, Option.map_some, Option.map_some,
      Select.afterWhere_items .bound d hempty,
      Select.afterWhere_items .inline d hempty]
    exact ⟨rfl, rfl⟩
  · obtain ⟨tree, hexpr, hread⟩ := Select.readWhere?_items hne hconditions
    refine ⟨tree, hexpr, fun ρ => ?_, fun d => ?_⟩
    · rw [hexpr, Group.verdict_settled ρ hne hconditions]
    · have hbound := hread .bound d
      rw [Sql.Predicate.map_bound_read] at hbound
      rw [s.items?_bound, s.inlineItems?_inline, Option.bind_some, Option.bind_some]
      exact ⟨hbound, hread .inline d⟩

/-- A range without its bounds or a test for absence. -/
def disjunctionTemplate : Select :=
  { Select.ofTable ⟨none, "t"⟩ with
    conditions := ⟨.or, [nodePredicate .exclusive (.condition ⟨"a", .between .null (.bool true)⟩),
      nodePredicate .inclusive (.condition ⟨"b", .isNull⟩)]⟩ }

def rangeRequest : Request :=
  ⟨⟨[.group .or [.condition ⟨"c", .between (.ofNat 1) (.ofNat 2)⟩, .condition ⟨"d", .oneOf []⟩]]⟩,
    .empty⟩

theorem readWhere?_compile_disjunction :
    CompiledConditions disjunctionTemplate.conditions ∧ rangeRequest.filter.Populated ∧
      ∃ s, (compile disjunctionTemplate .default rangeRequest).outcome = .ok s ∧
        s.conditions.count = 2 ∧
        ∃ tree : Sql.Predicate Value, tree.expr = s.conditions.settled.toExpr ∧
          (∀ ρ, tree.expr.verdict ρ = some (disjunctionTemplate.conditions.holds ρ &&
            rangeRequest.filter.holds (fieldTruth ρ) .inclusive)) ∧ ∀ d,
          ((Sql.bound d (s.pieces d)).items? d).bind (Sql.readWhere? fun _ => none) = some tree ∧
          (Sql.inlineItems? d (Sql.inline d (s.pieces d))).bind (Sql.readWhere? Token.literal?) =
            some (tree.map Token.literal) := by
  have htemplate : CompiledConditions disjunctionTemplate.conditions := by
    refine .disjunction fun predicate hpredicate => ?_
    rcases List.mem_pair.mp hpredicate with rfl | rfl
    · exact ⟨_, _, .condition _, rfl⟩
    · exact ⟨_, _, .condition _, rfl⟩
  have hfilter : rangeRequest.filter.Populated := by
    simp [Filter.Populated, rangeRequest, Node.populated_group_iff, Node.Populated.condition]
  obtain ⟨s, hs, hmeaning, -, hread⟩ := readWhere?_compile htemplate .default hfilter
  cases hs
  obtain ⟨tree, hexpr, hverdict, htext⟩ := hread rfl
  refine ⟨htemplate, hfilter, _, rfl, rfl, tree, hexpr, fun ρ => ?_, htext⟩
  rw [hverdict, hmeaning]
  rfl

end Relational

end FilterQuery
