import FilterQuery.Proofs.Json.Equality

/-!
# Equal filters

Equal operations are of one kind and have equal operands, and equal nodes have the same conditions
and groups at the same places. What holds of two equal nodes is shown along both at once.
-/

namespace FilterQuery

open Json (Value)

/-- Operations of one kind whose operands are equal. -/
inductive Op.Alike : Op → Op → Prop where
  | eq {v w : Value} (h : (v == w) = true) : Alike (.eq v) (.eq w)
  | notEq {v w : Value} (h : (v == w) = true) : Alike (.notEq v) (.notEq w)
  | oneOf {vs ws : List Value} (h : (vs == ws) = true) : Alike (.oneOf vs) (.oneOf ws)
  | noneOf {vs ws : List Value} (h : (vs == ws) = true) : Alike (.noneOf vs) (.noneOf ws)
  | like (pattern : String) : Alike (.like pattern) (.like pattern)
  | gt {v w : Value} (h : (v == w) = true) : Alike (.gt v) (.gt w)
  | gte {v w : Value} (h : (v == w) = true) : Alike (.gte v) (.gte w)
  | lt {v w : Value} (h : (v == w) = true) : Alike (.lt v) (.lt w)
  | lte {v w : Value} (h : (v == w) = true) : Alike (.lte v) (.lte w)
  | between {v v' w w' : Value} (hlower : (v == w) = true) (hupper : (v' == w') = true) :
    Alike (.between v v') (.between w w')
  | isNull : Alike .isNull .isNull
  | isNotNull : Alike .isNotNull .isNotNull

namespace Op

variable {op op' : Op}

theorem alike_of_beq (h : (op == op') = true) : op.Alike op' := by
  rw [beq_def] at h
  cases op <;> cases op' <;> try cases h
  case like p q =>
    rw [eq_of_beq (show (p == q) = true from h)]
    exact .like q
  case between =>
    obtain ⟨hlower, hupper⟩ := Bool.and_eq_true_iff.mp h
    exact .between hlower hupper
  all_goals constructor
  all_goals exact h

theorem Alike.beq (h : op.Alike op') : (op == op') = true := by
  rw [beq_def]
  cases h with
  | like pattern => exact beq_self_eq_true pattern
  | between hlower hupper => exact Bool.and_eq_true_iff.mpr ⟨hlower, hupper⟩
  | isNull => rfl
  | isNotNull => rfl
  | _ h => exact h

theorem asMembership_eq {v : Value} (h : v.kind ≠ .array) :
    asMembership (.eq v) = .eq v ∧ asMembership (.notEq v) = .notEq v := by
  cases v <;> first | exact ⟨rfl, rfl⟩ | exact absurd rfl h

theorem Alike.asMembership (h : op.Alike op') : op.asMembership.Alike op'.asMembership := by
  cases h with
  | eq h =>
    rcases Value.arrays_or_not_of_beq h with ⟨vs, ws, rfl, rfl, hitems⟩ | ⟨hv, hw⟩
    · exact .oneOf hitems
    · rw [(asMembership_eq hv).1, (asMembership_eq hw).1]
      exact .eq h
  | notEq h =>
    rcases Value.arrays_or_not_of_beq h with ⟨vs, ws, rfl, rfl, hitems⟩ | ⟨hv, hw⟩
    · exact .noneOf hitems
    · rw [(asMembership_eq hv).2, (asMembership_eq hw).2]
      exact .notEq h
  | oneOf h => exact .oneOf h
  | noneOf h => exact .noneOf h
  | like pattern => exact .like pattern
  | gt h => exact .gt h
  | gte h => exact .gte h
  | lt h => exact .lt h
  | lte h => exact .lte h
  | between hlower hupper => exact .between hlower hupper
  | isNull => exact .isNull
  | isNotNull => exact .isNotNull

end Op

namespace Node

theorem condition_beq (c d : Condition) :
    (Node.condition c == Node.condition d) = (c.field == d.field && c.op == d.op) := rfl

/-- Induction on two equal nodes: what equal operations on one field have, and two groups if their
items have it pairwise. -/
@[elab_as_elim]
theorem beq_induction {P : Node → Node → Prop}
    (condition : ∀ field op op', op.Alike op' → P (.condition ⟨field, op⟩) (.condition ⟨field, op'⟩))
    (group : ∀ kind items items', (items == items') = true → List.Forall₂ P items items' →
      P (.group kind items) (.group kind items'))
    {a b : Node} (h : (a == b) = true) : P a b := by
  induction a generalizing b with
  | condition c =>
    cases b with
    | condition d =>
      obtain ⟨field, op⟩ := c
      obtain ⟨field', op'⟩ := d
      rw [condition_beq, Bool.and_eq_true, beq_iff_eq] at h
      obtain ⟨rfl, hop⟩ := h
      exact condition field op op' (Op.alike_of_beq hop)
    | group kind items => cases h
  | group kind items ih =>
    cases b with
    | condition d => cases h
    | group kind' items' =>
      rw [group_beq, Bool.and_eq_true, beq_iff_eq] at h
      obtain ⟨rfl, hitems⟩ := h
      have hpairs := forall₂_map_of_beq (f := id) (g := id) hitems fun item hitem _ => ih item hitem
      rw [List.map_id, List.map_id] at hpairs
      exact group kind items items' hitems hpairs

end Node

end FilterQuery
