import FilterQuery.Proofs.Filter.Conditions
import FilterQuery.Proofs.Relational.Reading
import FilterQuery.Proofs.Search.Routing

/-!
# What the backends tell apart

Both backends emit a filter in a form of its own, where some operations are written as others:
equality with an array as membership, and for one of them a pattern with another wildcard, for the
other one a range without its bounds as two comparisons. From that form on they tell all nodes
apart. What they emit for two nodes is equal exactly if the forms of the nodes are, where objects in
operands are equal whatever the order of their fields.
-/

namespace FilterQuery

open Json (Value)

/-! ## Equality of values and of nodes -/

/-- Two maps that tell the items of lists apart in the same way tell the lists apart in it. -/
theorem beq_map_congr {α β γ : Type} [BEq β] [BEq γ] {f : α → β} {g : α → γ} {xs : List α}
    (h : ∀ x ∈ xs, ∀ y, (f x == f y) = (g x == g y)) (ys : List α) :
    (xs.map f == ys.map f) = (xs.map g == ys.map g) := by
  induction xs generalizing ys with
  | nil => cases ys <;> rfl
  | cons x xs ih =>
    obtain ⟨hx, hxs⟩ := List.forall_mem_cons.mp h
    cases ys with
    | nil => rfl
    | cons y ys =>
      simp only [List.map_cons, List.cons_beq_cons, hx, ih hxs]

namespace Json.Value

theorem beqItems_eq (xs ys : List Value) : beqItems xs ys = (xs == ys) := by
  induction xs generalizing ys with
  | nil => cases ys <;> rfl
  | cons x xs ih =>
    cases ys with
    | nil => rfl
    | cons y ys => rw [beqItems, ih, List.cons_beq_cons]; rfl

theorem array_beq (xs ys : List Value) : (Value.array xs == Value.array ys) = (xs == ys) :=
  beqItems_eq xs ys

theorem string_beq (s t : String) : (Value.string s == Value.string t) = (s == t) := rfl

theorem object_beq (xs ys : Fields) :
    (Value.object xs == Value.object ys) = (xs.length == ys.length && beqFields xs ys) := rfl

theorem beqFields_cons (name : String) (v : Value) (xs ys : Fields) :
    beqFields ((name, v) :: xs) ys =
      (((ys.lookup name).elim false fun w => v == w) && beqFields xs ys) := by
  rw [beqFields]
  cases ys.lookup name <;> rfl

theorem object_beq_single (name name' : String) (v w : Value) :
    (Value.object [(name, v)] == Value.object [(name', w)]) = (name == name' && v == w) := by
  rw [object_beq, beqFields_cons, List.lookup_cons]
  cases name == name' <;> simp [beqFields]

theorem object_beq_pair {first second : String} (h : first ≠ second) (v v' w w' : Value) :
    (Value.object [(first, v), (second, v')] == Value.object [(first, w), (second, w')]) =
      (v == w && v' == w') := by
  simp only [object_beq, beqFields_cons, List.lookup_cons, beq_self_eq_true,
    beq_false_of_ne h.symm, Option.elim_some]
  simp [beqFields]

theorem object_beq_of_length_ne {xs ys : Fields} (h : xs.length ≠ ys.length) :
    (Value.object xs == Value.object ys) = false := by
  rw [object_beq, beq_false_of_ne h, Bool.false_and]

end Json.Value

theorem Op.beq_def (op op' : Op) : (op == op') = Op.beq op op' := rfl

namespace Node

theorem beqItems_eq (xs ys : List Node) : beqItems xs ys = (xs == ys) := by
  induction xs generalizing ys with
  | nil => cases ys <;> rfl
  | cons x xs ih =>
    cases ys with
    | nil => rfl
    | cons y ys => rw [beqItems, ih, List.cons_beq_cons]; rfl

theorem group_beq (kind kind' : GroupKind) (xs ys : List Node) :
    (Node.group kind xs == Node.group kind' ys) = (kind == kind' && xs == ys) := by
  rw [← beqItems_eq]
  rfl

end Node

/-! ## Forms -/

/-- Equality with an array, written as membership in it. -/
def Op.asMembership : Op → Op
  | .eq (.array operands) => .oneOf operands
  | .notEq (.array operands) => .noneOf operands
  | op => op

/-- A pattern with `*` for any sequence of characters. -/
def Op.starred : Op → Op
  | .like pattern => .like (pattern.map fun c => if c = '%' then '*' else c)
  | op => op

namespace Search

/-- The form that search clauses write a node in. -/
def form (node : Node) : Node :=
  node.replace fun c => .condition ⟨c.field, c.op.asMembership.starred⟩

/-- The clause of a condition that is in its form. -/
def formClause (bounds : Bounds) (field : String) : Op → Clause
  | .eq operand => .term field operand
  | .notEq operand => .not (.term field operand)
  | .oneOf operands => .terms field operands
  | .noneOf operands => .not (.terms field operands)
  | .like pattern => .wildcard field pattern
  | .gt bound => .range field [(.gt, bound)]
  | .gte bound => .range field [(.gte, bound)]
  | .lt bound => .range field [(.lt, bound)]
  | .lte bound => .range field [(.lte, bound)]
  | .between lower upper => .range field (betweenEnds bounds lower upper)
  | .isNull => .not (.present field)
  | .isNotNull => .present field

theorem conditionClause_eq (bounds : Bounds) (c : Condition) :
    conditionClause bounds c = formClause bounds c.field c.op.asMembership.starred := by
  obtain ⟨field, op⟩ := c
  cases op with
  | eq operand => cases operand <;> rfl
  | notEq operand => cases operand <;> rfl
  | like pattern =>
    simp only [conditionClause, leaf, wildcardPattern_eq_map]
    rfl
  | _ => rfl

theorem form_group (kind : GroupKind) (items : List Node) :
    form (.group kind items) = .group kind (items.map form) :=
  Node.replace_group _ kind items

section Equality

open Json.Value (object_beq_single object_beq_pair object_beq_of_length_ne array_beq string_beq)

theorem RangeEnd.name_beq (key other : RangeEnd) : (key.name == other.name) = (key == other) := by
  cases key <;> cases other <;> rfl

theorem length_betweenEnds (bounds : Bounds) (lower upper : Value) :
    (betweenEnds bounds lower upper).length = 2 := by
  cases bounds <;> rfl

theorem betweenEnds_beq (bounds : Bounds) (lower upper lower' upper' : Value) :
    (Value.object ((betweenEnds bounds lower upper).map fun (key, bound) => (key.name, bound)) ==
      Value.object ((betweenEnds bounds lower' upper').map fun (key, bound) => (key.name, bound))) =
      (lower == lower' && upper == upper') := by
  cases bounds <;> exact object_beq_pair (by decide) lower upper lower' upper'

/-- Two operations differ in the name of the clause, or in the names of the bounds or their number;
the same operation in the field or in an operand. -/
theorem formClause_beq (bounds : Bounds) (field field' : String) (op op' : Op) :
    ((formClause bounds field op).toValue == (formClause bounds field' op').toValue) =
      (field == field' && op == op') := by
  cases op <;> cases op' <;>
    simp [formClause, Clause.toValue, object_beq_single, betweenEnds_beq, length_betweenEnds,
      array_beq, string_beq, object_beq_of_length_ne, Op.beq_def, Op.beq, RangeEnd.name_beq]

/-- A negated condition and a group are both bool queries, but with other lists. -/
theorem formClause_beq_groupClause (bounds : Bounds) (field : String) (op : Op) (kind : GroupKind)
    (clauses : List Clause) :
    ((formClause bounds field op).toValue == (groupClause kind clauses).toValue) = false := by
  cases op <;> cases kind <;>
    simp [formClause, groupClause, Clause.toValue, object_beq_single, object_beq_of_length_ne]

theorem groupClause_beq_formClause (bounds : Bounds) (field : String) (op : Op) (kind : GroupKind)
    (clauses : List Clause) :
    ((groupClause kind clauses).toValue == (formClause bounds field op).toValue) = false := by
  cases op <;> cases kind <;>
    simp [formClause, groupClause, Clause.toValue, object_beq_single, object_beq_of_length_ne]

theorem groupClause_beq (kind kind' : GroupKind) (clauses clauses' : List Clause) :
    ((groupClause kind clauses).toValue == (groupClause kind' clauses').toValue) =
      (kind == kind' && clauses.map Clause.toValue == clauses'.map Clause.toValue) := by
  have hminimum : (Value.ofNat 1 == Value.ofNat 1) = true := rfl
  cases kind <;> cases kind' <;>
    simp [groupClause, Clause.toValue, Clause.toValues_eq_map, object_beq_single,
      object_beq_pair, object_beq_of_length_ne, array_beq, hminimum]

/-- Search clauses tell nodes apart as their forms do. -/
theorem nested_beq (bounds : Bounds) (a b : Node) :
    ((nested bounds a).toValue == (nested bounds b).toValue) = (form a == form b) := by
  induction a generalizing b with
  | condition c =>
    rw [nested, conditionClause_eq]
    cases b with
    | condition d =>
      rw [nested, conditionClause_eq, formClause_beq]
      rfl
    | group kind items =>
      rw [nested, formClause_beq_groupClause, form_group]
      rfl
  | group kind items ih =>
    rw [nested, form_group]
    cases b with
    | condition d =>
      rw [nested, conditionClause_eq, groupClause_beq_formClause]
      rfl
    | group kind' items' =>
      rw [nested, form_group, groupClause_beq, Node.group_beq, nestedItems_eq_map,
        nestedItems_eq_map, List.map_map, List.map_map]
      exact congrArg (kind == kind' && ·) (beq_map_congr ih items')

end Equality

end Search

/-! ## Columns -/

namespace Sql

/-- The parts of a path, with points between them, are the path. -/
theorem Ident.intercalate_parts_ofPath (path : String) :
    ['.'].intercalate ((ofPath path).parts.map String.toList) = path.toList := by
  unfold ofPath
  simp only
  split
  · simp [single]
  · simp [List.map_map, Function.comp_def, List.intercalate_splitOn]

theorem Ident.ofPath_injective : Function.Injective ofPath := by
  intro path other h
  have hpath := intercalate_parts_ofPath path
  rw [h, intercalate_parts_ofPath other] at hpath
  exact String.toList_inj.mp hpath.symm

namespace Expr

theorem beqList_eq (xs ys : List Expr) : beqList xs ys = (xs == ys) := by
  induction xs generalizing ys with
  | nil => cases ys <;> rfl
  | cons x xs ih =>
    cases ys with
    | nil => rfl
    | cons y ys => rw [beqList, ih, List.cons_beq_cons]; rfl

theorem path_beq (p q : String) : (path p == path q) = (p == q) := by
  have hcolumn : (path p == path q) = (Ident.ofPath p == Ident.ofPath q) := rfl
  rw [hcolumn, Bool.eq_iff_iff, beq_iff_eq, beq_iff_eq, Ident.ofPath_injective.eq_iff]

theorem map_value_beq (vs ws : List Value) :
    (vs.map Expr.value == ws.map Expr.value) = (vs == ws) := by
  have hvalue (v : Value) (_ : v ∈ vs) (w : Value) :
      (Expr.value v == Expr.value w) = (id v == id w) := rfl
  rw [beq_map_congr hvalue, List.map_id, List.map_id]

theorem value_beq (v w : Value) : (value v == value w) = (v == w) := rfl

theorem like_beq (s s' p p' : Expr) : (like s p == like s' p') = (s == s' && p == p') := rfl

theorem between_beq (s s' l l' h h' : Expr) :
    (between s l h == between s' l' h') = (s == s' && l == l' && h == h') := rfl

theorem isNull_beq (s s' : Expr) (negated negated' : Bool) :
    (isNull s negated == isNull s' negated') = (s == s' && negated == negated') := rfl

theorem compare_beq (l r l' r' : Expr) (c c' : Comparison) :
    (compare l c r == compare l' c' r') = (l == l' && c == c' && r == r') := rfl

theorem inList_beq (s s' : Expr) (items items' : List Expr) (negated negated' : Bool) :
    (inList s items negated == inList s' items' negated') =
      (s == s' && items == items' && negated == negated') := by
  rw [← beqList_eq]
  rfl

theorem nested_beq (c c' : Combinator) (ps ps' : List Expr) :
    (nested c ps == nested c' ps') = (c == c' && ps == ps') := by
  rw [← beqList_eq]
  rfl

end Expr

end Sql

namespace Relational

open Sql (Expr)

/-- A range without its bounds is written as a group of two comparisons. -/
def conditionForm (bounds : Bounds) (c : Condition) : Node :=
  match c.op with
  | .between lower upper =>
    match bounds with
    | .exclusive => .group .and [.condition ⟨c.field, .gt lower⟩, .condition ⟨c.field, .lt upper⟩]
    | .inclusive => .condition c
  | op => .condition ⟨c.field, op.asMembership⟩

/-- The form that predicates write a node in. -/
def form (bounds : Bounds) (node : Node) : Node :=
  node.replace (conditionForm bounds)

theorem form_group (bounds : Bounds) (kind : GroupKind) (items : List Node) :
    form bounds (.group kind items) = .group kind (items.map (form bounds)) :=
  Node.replace_group _ kind items

/-- The predicate of a condition that is in its form. -/
def formPredicate (field : String) : Op → Expr
  | .eq operand => comparison field .eq operand
  | .notEq operand => comparison field .ne operand
  | .oneOf operands => membership field operands false
  | .noneOf operands => membership field operands true
  | .like pattern => .like (.path field) (.value (.string pattern))
  | .gt bound => comparison field .gt bound
  | .gte bound => comparison field .ge bound
  | .lt bound => comparison field .lt bound
  | .lte bound => comparison field .le bound
  | .between lower upper => .between (.path field) (.value lower) (.value upper)
  | .isNull => .isNull (.path field) false
  | .isNotNull => .isNull (.path field) true

mutual

def formExpr : Node → Expr
  | .condition c => formPredicate c.field c.op
  | .group kind items => .nested (combinator kind) (formExprs items)

def formExprs : List Node → List Expr
  | [] => []
  | node :: nodes => formExpr node :: formExprs nodes

end

theorem formExprs_eq_map (nodes : List Node) : formExprs nodes = nodes.map formExpr := by
  induction nodes with
  | nil => rfl
  | cons node nodes ih => rw [formExprs, ih, List.map_cons]

theorem conditionPredicate_eq (bounds : Bounds) (c : Condition) :
    conditionPredicate bounds c = formExpr (conditionForm bounds c) := by
  obtain ⟨field, op⟩ := c
  cases op with
  | eq operand => cases operand <;> rfl
  | notEq operand => cases operand <;> rfl
  | between lower upper => cases bounds <;> rfl
  | _ => rfl

theorem nodePredicate_eq (bounds : Bounds) (node : Node) :
    nodePredicate bounds node = formExpr (form bounds node) := by
  induction node with
  | condition c => exact conditionPredicate_eq bounds c
  | group kind items ih =>
    rw [nodePredicate, nodePredicates_eq_map, form_group, formExpr, formExprs_eq_map, List.map_map]
    exact congrArg (Expr.nested (combinator kind)) (List.map_congr_left ih)

theorem formPredicate_beq (field field' : String) (op op' : Op) :
    (formPredicate field op == formPredicate field' op') = (field == field' && op == op') := by
  -- Predicates of different shapes are unequal by computation, whatever the columns are.
  cases op <;> cases op' <;> first
    | exact (Bool.and_false _).symm
    | simp [formPredicate, comparison, membership, Expr.compare_beq, Expr.inList_beq,
        Expr.path_beq, Expr.like_beq, Expr.between_beq, Expr.isNull_beq, Expr.value_beq,
        Expr.map_value_beq, Op.beq_def, Op.beq, Json.Value.string_beq, Bool.and_assoc]

theorem combinator_beq (kind kind' : GroupKind) :
    (combinator kind == combinator kind') = (kind == kind') := by
  cases kind <;> cases kind' <;> rfl

/-- Nodes in their forms are told apart by their expressions. -/
theorem formExpr_beq (a b : Node) : (formExpr a == formExpr b) = (a == b) := by
  induction a generalizing b with
  | condition c =>
    cases b with
    | condition d => exact formPredicate_beq c.field d.field c.op d.op
    | group kind items =>
      obtain ⟨field, op⟩ := c
      cases op <;> rfl
  | group kind items ih =>
    cases b with
    | condition d =>
      obtain ⟨field, op⟩ := d
      cases op <;> rfl
    | group kind' items' =>
      have hitems := beq_map_congr (g := id) ih items'
      rw [List.map_id, List.map_id] at hitems
      rw [formExpr, formExpr, Expr.nested_beq, combinator_beq, formExprs_eq_map, formExprs_eq_map,
        hitems, Node.group_beq]

end Relational

/-- What a backend emits for two nodes is equal exactly if their forms are. -/
theorem nested_beq_and_nodePredicate_beq (config : Config) (a b : Node) :
    ((Search.nested config.searchBounds a).toValue ==
        (Search.nested config.searchBounds b).toValue) = (Search.form a == Search.form b) ∧
      (Relational.nodePredicate config.relationalBounds a ==
        Relational.nodePredicate config.relationalBounds b) =
      (Relational.form config.relationalBounds a == Relational.form config.relationalBounds b) := by
  refine ⟨Search.nested_beq config.searchBounds a b, ?_⟩
  rw [Relational.nodePredicate_eq, Relational.nodePredicate_eq, Relational.formExpr_beq]

end FilterQuery
