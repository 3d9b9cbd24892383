import FilterQuery.Proofs.Relational.Reading

/-!
# Queries applied one after another

A query that is applied to a statement meets the conditions that those before it have left. The
predicates of a filter are a conjunction, and for conjunctions it makes no difference in how many
steps they come: the first one with predicates decides what becomes of the statement's own
conditions, and whatever follows is appended. So a run of compiled queries does what one query does
that has the predicates and sort keys of all of them in order, and the last limit and offset that
any of them gives.
-/

namespace FilterQuery

open Sql (Expr Group Select)

namespace Sql

theorem Group.extend_extend (g h k : Group) : (g.extend h).extend k = g.extend (h.extend k) := by
  rw [extend, extend, extend, extend, List.append_assoc]

theorem Group.not_isEmpty_extend {g : Group} (h : ¬ g.isEmpty) (other : Group) :
    ¬ (g.extend other).isEmpty := by
  intro hextended
  have hnil : g.predicates ++ other.predicates = [] := List.isEmpty_iff.mp hextended
  exact h (List.isEmpty_iff.mpr (List.append_eq_nil_iff.mp hnil).1)

namespace Select

/-- Conditions as an `AND` group that more predicates can be appended to. -/
def conjoined (conditions : Group) : Group :=
  match conditions.combinator with
  | .and => conditions
  | .or => (Group.empty .and).nest conditions

theorem combinator_conjoined (conditions : Group) : (conjoined conditions).combinator = .and := by
  rw [conjoined]
  split
  · assumption
  · rfl

theorem not_isEmpty_conjoined {conditions : Group} (h : ¬ conditions.isEmpty) :
    ¬ (conjoined conditions).isEmpty := by
  rw [conjoined]
  split
  · exact h
  · exact Bool.false_ne_true

theorem merge_of_isEmpty (conditions : Group) {group : Group} (h : group.isEmpty) :
    merge conditions group = conditions := by
  rw [merge, if_pos h]

theorem merge_into_isEmpty {conditions group : Group} (h : conditions.isEmpty)
    (hgroup : ¬ group.isEmpty) : merge conditions group = group := by
  rw [merge, if_neg hgroup, if_pos h]

theorem merge_of_not_isEmpty {conditions group : Group} (h : ¬ conditions.isEmpty)
    (hgroup : ¬ group.isEmpty) : merge conditions group = (conjoined conditions).extend group := by
  rw [merge, if_neg hgroup, if_neg h, conjoined]
  cases conditions.combinator <;> rfl

/-- An `AND` group with predicates is only ever extended. -/
theorem merge_of_and {conditions : Group} (group : Group) (h : ¬ conditions.isEmpty)
    (hand : conditions.combinator = .and) : merge conditions group = conditions.extend group := by
  by_cases hgroup : group.isEmpty
  · have hnil : group.predicates = [] := List.isEmpty_iff.mp hgroup
    rw [merge_of_isEmpty conditions hgroup, Group.extend, hnil, List.append_nil]
  · rw [merge_of_not_isEmpty h hgroup, conjoined, hand]

/-- Two conjunctions can be merged one by one or as one. -/
theorem merge_merge (conditions : Group) {first second : Group} (hfirst : first.combinator = .and)
    (hsecond : second.combinator = .and) :
    merge (merge conditions first) second = merge conditions (first.extend second) := by
  by_cases hempty : first.isEmpty
  · -- nothing is left of the first group, its combinator included
    have hnil : first.predicates = [] := List.isEmpty_iff.mp hempty
    have hextend : first.extend second = second := by
      obtain ⟨combinator, predicates⟩ := second
      rw [Group.extend, hnil, hfirst, ← hsecond, List.nil_append]
    rw [merge_of_isEmpty conditions hempty, hextend]
  · have hboth := Group.not_isEmpty_extend hempty second
    by_cases hconditions : conditions.isEmpty
    · -- the first group takes the place of the conditions
      rw [merge_into_isEmpty hconditions hempty, merge_into_isEmpty hconditions hboth,
        merge_of_and second hempty hfirst]
    · have hkept := Group.not_isEmpty_extend (not_isEmpty_conjoined hconditions) first
      rw [merge_of_not_isEmpty hconditions hempty, merge_of_not_isEmpty hconditions hboth,
        merge_of_and second hkept (combinator_conjoined conditions), Group.extend_extend]

end Select

end Sql

namespace Relational

namespace Query

/-- The query that asks for what `q` asks for and then for what `r` asks for. -/
def append (q r : Query) : Query :=
  ⟨q.conditions.extend r.conditions, q.orderBy ++ r.orderBy, r.limit <|> q.limit,
    r.offset <|> q.offset⟩

theorem append_apply {q r : Query} (hq : q.conditions.combinator = .and)
    (hr : r.conditions.combinator = .and) (s : Select) :
    (q.append r).apply s = r.apply (q.apply s) := by
  simp only [apply_eq, append, Select.merge_merge s.conditions hq hr, List.append_assoc,
    Option.orElse_eq_orElse, Option.orElse_eq_or, Option.or_assoc]

/-- All predicates and sort keys in order, with the last limit and the last offset. -/
def joined (queries : List Query) : Query :=
  ⟨⟨.and, queries.flatMap fun q => q.conditions.predicates⟩, queries.flatMap Query.orderBy,
    (queries.filterMap Query.limit).getLast?, (queries.filterMap Query.offset).getLast?⟩

theorem getLast?_filterMap_cons {α β : Type} (f : α → Option β) (a : α) (as : List α) :
    ((a :: as).filterMap f).getLast? = ((as.filterMap f).getLast? <|> f a) := by
  cases h : f a with
  | none => simp [h]
  | some b =>
    rw [List.filterMap_cons, h, List.getLast?_cons]
    cases (as.filterMap f).getLast? <;> rfl

theorem joined_cons {q : Query} (h : q.conditions.combinator = .and) (queries : List Query) :
    joined (q :: queries) = q.append (joined queries) := by
  rw [joined, append, getLast?_filterMap_cons, getLast?_filterMap_cons, Group.extend, h]
  rfl

/-- A run of conjunctive queries does what the joined query does. -/
theorem foldl_apply {queries : List Query} (h : ∀ q ∈ queries, q.conditions.combinator = .and)
    (s : Select) : queries.foldl (fun s q => q.apply s) s = (joined queries).apply s := by
  induction queries generalizing s with
  | nil =>
    have hnone : Select.merge s.conditions ⟨.and, []⟩ = s.conditions :=
      Select.merge_of_isEmpty s.conditions rfl
    rw [apply_eq, joined]
    simp [hnone]
  | cons q queries ih =>
    have hq := h q List.mem_cons_self
    have hqueries := ih (fun r hr => h r (List.mem_cons_of_mem q hr)) (q.apply s)
    rw [List.foldl_cons, hqueries, joined_cons hq, append_apply hq rfl]

end Query

/-- Nodes of a filter without hints. -/
def part (config : Config) (nodes : List Node) : Query :=
  query config ⟨⟨nodes⟩, .empty⟩

theorem predicates_append (bounds : Bounds) (first second : List Node) :
    (predicates bounds ⟨first⟩).extend (predicates bounds ⟨second⟩) =
      predicates bounds ⟨first ++ second⟩ := by
  simp only [predicates, Group.extend, nodePredicates_eq_map, List.map_append]

theorem part_append_query (config : Config) (hints : Hints) (first second : List Node) :
    (part config first).append (query config ⟨⟨second⟩, hints⟩) =
      query config ⟨⟨first ++ second⟩, hints⟩ := by
  rw [Query.append, part, query, query, query, predicates_append]
  cases hints.limit <;> cases hints.skip <;> rfl

theorem query_append_part (config : Config) (hints : Hints) (first second : List Node) :
    (query config ⟨⟨first⟩, hints⟩).append (part config second) =
      query config ⟨⟨first ++ second⟩, hints⟩ := by
  have hkeys : sortExprs hints.sort ++ sortExprs Hints.empty.sort = sortExprs hints.sort :=
    List.append_nil _
  rw [Query.append, part, query, query, query, predicates_append, hkeys]
  rfl

theorem joined_map_part (config : Config) (parts : List (List Node)) :
    Query.joined (parts.map (part config)) = part config parts.flatten := by
  induction parts with
  | nil => rfl
  | cons nodes parts ih =>
    rw [List.map_cons, Query.joined_cons rfl, ih, List.flatten_cons]
    exact part_append_query config .empty nodes parts.flatten

/-- The parts of a filter, one of them with the hints, make up the query of the whole. -/
theorem joined_parts (config : Config) (hints : Hints) (before after : List (List Node))
    (nodes : List Node) :
    Query.joined (before.map (part config) ++
        query config ⟨⟨nodes⟩, hints⟩ :: after.map (part config)) =
      query config ⟨⟨before.flatten ++ nodes ++ after.flatten⟩, hints⟩ := by
  induction before with
  | nil => rw [List.map_nil, List.nil_append, Query.joined_cons rfl, joined_map_part,
      query_append_part, List.flatten_nil, List.nil_append]
  | cons first before ih =>
    rw [List.map_cons, List.cons_append, Query.joined_cons rfl, ih, part_append_query,
      List.flatten_cons, List.append_assoc, List.append_assoc, List.append_assoc]

/-- Compiled queries that are applied one after another do what one query does with all their
predicates and sort keys and the last limit and offset. So it makes no difference in how many parts
a filter is applied, and which of them carries the hints. -/
theorem apply_sequence_eq_apply_joined (s : Select) :
    (∀ requests : List (Config × Request),
      let queries := requests.map fun r => query r.1 r.2
      queries.foldl (fun s q => q.apply s) s = Query.apply {
        conditions := ⟨.and, queries.flatMap fun q => q.conditions.predicates⟩
        orderBy := queries.flatMap Query.orderBy
        limit := (queries.filterMap Query.limit).getLast?
        offset := (queries.filterMap Query.offset).getLast? } s) ∧
    ∀ (config : Config) (hints : Hints) (before after : List (List Node)) (nodes : List Node),
      (before.map (part config) ++ query config ⟨⟨nodes⟩, hints⟩ :: after.map (part config)).foldl
          (fun s q => q.apply s) s =
        (query config ⟨⟨before.flatten ++ nodes ++ after.flatten⟩, hints⟩).apply s := by
  constructor
  · intro requests
    refine Query.foldl_apply (fun q hq => ?_) s
    obtain ⟨request, -, rfl⟩ := List.mem_map.mp hq
    rfl
  · intro config hints before after nodes
    rw [← joined_parts]
    refine Query.foldl_apply (fun q hq => ?_) s
    rcases List.mem_append.mp hq with hq | hq
    · obtain ⟨first, -, rfl⟩ := List.mem_map.mp hq
      rfl
    · rcases List.mem_cons.mp hq with rfl | hq
      · rfl
      · obtain ⟨last, -, rfl⟩ := List.mem_map.mp hq
        rfl

end Relational

end FilterQuery
