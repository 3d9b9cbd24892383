import FilterQuery.Proofs.Filter.Conditions
import FilterQuery.Proofs.Filter.Faults
import FilterQuery.Proofs.Filter.Image

/-!
# What comparisons compare with

The conditions of a filter are those that the visited entries of its document give by themselves, in
the order of the document. A comparison with one bound has a scalar there. A range has the two bounds
that its field asks for, whatever their kinds: where an array or an object is one of them, the
document is read although neither bound could be compared with alone.
-/

namespace FilterQuery

open Json (Value)
open Operator (ofToken?)

/-- Neither an array nor an object. -/
def Json.Value.IsScalar (v : Value) : Prop :=
  v.kind ≠ .array ∧ v.kind ≠ .object

theorem Json.Value.kind_object_ne_array {fields : Json.Fields} :
    (Value.object fields).kind ≠ .array := by
  intro h
  cases h

/-- What an operation compares its field with by order. -/
def Op.bounds : Op → List Value
  | .gt bound => [bound]
  | .gte bound => [bound]
  | .lt bound => [bound]
  | .lte bound => [bound]
  | .between lower upper => [lower, upper]
  | _ => []

/-- Where the operation compares by order, it compares with scalars. -/
def Op.ComparesScalars (op : Op) : Prop :=
  ∀ bound ∈ op.bounds, bound.IsScalar

/-- The condition that an entry gives by itself. -/
def Position.condition? : Position → Option Condition
  | .entry name value =>
    match (Node.ofEntry name value).outcome with
    | .ok (some (.condition c)) => some c
    | _ => none
  | .element _ _ => none

def Document.Accepted (document : Document) : Prop :=
  ∃ filter, (Filter.ofDocument document).outcome = .ok filter

theorem Op.scalar_or_between {field : String} {op : Op} (h : op.Fits field) :
    op.ComparesScalars ∨ ∃ lower upper, op = .between lower upper := by
  cases op with
  | gt bound => exact .inl (List.forall_mem_singleton.mpr h)
  | gte bound => exact .inl (List.forall_mem_singleton.mpr h)
  | lt bound => exact .inl (List.forall_mem_singleton.mpr h)
  | lte bound => exact .inl (List.forall_mem_singleton.mpr h)
  | between lower upper => exact .inr ⟨lower, upper, rfl⟩
  | _ => exact .inl (List.forall_mem_nil _)

theorem Op.comparesScalars_between_iff {lower upper : Value} :
    (Op.between lower upper).ComparesScalars ↔ lower.IsScalar ∧ upper.IsScalar := by
  simp [ComparesScalars, bounds]

namespace Position

theorem condition?_entry_eq_some_iff {name : String} {value : Value} {c : Condition} :
    (entry name value).condition? = some c ↔
      (Node.ofEntry name value).outcome = .ok (some (.condition c)) := by
  rw [condition?]
  split
  · next h => simp [h]
  · next h =>
    refine iff_of_false nofun fun hc => h c hc

end Position

namespace Node

/-! ## The conditions of a filter -/

theorem ofField_gives_condition {field : String} {value : Value} {node : Node}
    (h : (ofField field value).outcome = .ok (some node)) : ∃ c, node = .condition c := by
  rcases ofField_eq_ok h with ⟨-, rfl⟩ | ⟨-, -, -, -, op, -, -, -, rfl⟩
  · exact ⟨_, rfl⟩
  · exact ⟨_, rfl⟩

theorem ofPresence_gives_condition {operator : Operator} {op : Op} {value : Value} {node : Node}
    (h : (ofPresence operator op value).outcome = .ok (some node)) : ∃ c, node = .condition c := by
  obtain ⟨field, -, rfl⟩ := ofPresence_eq_ok.mp h
  exact ⟨_, rfl⟩

/-- An entry that is visited alone gives its own condition or none. -/
theorem conditions_of_visited_alone {name : String} {value : Value} {found : Option Node}
    (hvisited : visitedEntry name value = [.entry name value])
    (hgives : ∀ node, (ofEntry name value).outcome = .ok (some node) → ∃ c, node = .condition c)
    (h : (ofEntry name value).outcome = .ok found) :
    found.toList.flatMap conditions =
      (visitedEntry name value).filterMap Position.condition? := by
  cases found with
  | none => simp [hvisited, Position.condition?, h]
  | some node =>
    obtain ⟨c, rfl⟩ := hgives node h
    simp [hvisited, Position.condition?, h, conditions]

theorem conditions_ofEntry_and_ofElements :
    (∀ name value found, (ofEntry name value).outcome = .ok found →
      found.toList.flatMap conditions =
        (visitedEntry name value).filterMap Position.condition?) ∧
    ∀ kind elements nodes, (ofElements kind elements).outcome = .ok nodes →
      nodes.flatMap conditions = (visitedElements kind elements).filterMap Position.condition? := by
  apply ofEntry_induction
  case null =>
    intro name value hname found h
    refine conditions_of_visited_alone (visitedEntry_presence hname (.inl rfl) value) ?_ h
    rw [ofEntry_null hname]
    exact fun node => ofPresence_gives_condition
  case notNull =>
    intro name value hname found h
    refine conditions_of_visited_alone (visitedEntry_presence hname (.inr rfl) value) ?_ h
    rw [ofEntry_notNull hname]
    exact fun node => ofPresence_gives_condition
  case field =>
    intro name value hfield found h
    refine conditions_of_visited_alone (visitedEntry_of_not_group hfield.not_group) ?_ h
    rw [ofEntry_field hfield]
    exact fun node => ofField_gives_condition
  case group =>
    intro kind name elements hname ih found h
    have hnone : (Position.entry name (.array elements)).condition? = none := by
      rw [Option.eq_none_iff_forall_ne_some]
      intro c hc
      rw [Position.condition?_entry_eq_some_iff, ofEntry_group hname] at hc
      obtain ⟨items, -, hgroup⟩ := Traced.outcome_bind_eq_ok.mp hc
      cases (ofItems_eq_ok.mp hgroup).2
    rw [ofEntry_group hname] at h
    obtain ⟨items, hitems, hfound⟩ := Traced.outcome_bind_eq_ok.mp h
    rw [visitedEntry_group hname, List.filterMap_cons_none hnone, ← ih items hitems]
    cases items with
    | nil =>
      cases hfound
      rfl
    | cons item items =>
      cases hfound
      simp [conditions_group]
  case nil =>
    intro kind nodes h
    rw [ofElements] at h
    cases h
    rw [visitedElements]
    rfl
  case empty =>
    intro kind elements ih nodes h
    rw [ofElements] at h
    rw [visitedElements_empty, List.filterMap_cons_none rfl]
    exact ih nodes h
  case first =>
    intro kind name value rest elements hentry ih nodes h
    rw [ofElements] at h
    obtain ⟨found, hfound, h⟩ := Traced.outcome_bind_eq_ok.mp h
    obtain ⟨others, hothers, h⟩ := Traced.outcome_bind_eq_ok.mp h
    cases h
    rw [visitedElements, List.filterMap_cons_none rfl, List.filterMap_append, List.flatMap_append,
      hentry found hfound, ih others hothers]
  case other =>
    intro kind element elements hkind nodes h
    cases element with
    | object fields => exact absurd rfl hkind
    | _ => cases h

theorem conditions_ofEntries {document : Document} {nodes : List Node}
    (h : (ofEntries document).outcome = .ok nodes) :
    nodes.flatMap conditions = (visited document).filterMap Position.condition? := by
  induction document generalizing nodes with
  | nil =>
    cases h
    rfl
  | cons entry entries ih =>
    obtain ⟨found, hfound, h⟩ := Traced.outcome_bind_eq_ok.mp h
    obtain ⟨others, hothers, h⟩ := Traced.outcome_bind_eq_ok.mp h
    cases h
    have hentry := conditions_ofEntry_and_ofElements.1 entry.1 entry.2 found hfound
    rw [List.flatMap_append, hentry, ih hothers, visited, visited, List.flatMap_cons,
      List.filterMap_append]

end Node

/-- The conditions of a filter are those of the visited entries, in the order of the document. -/
theorem Filter.conditions_ofDocument {document : Document} {filter : Filter}
    (h : (ofDocument document).outcome = .ok filter) :
    filter.conditions = (visited document).filterMap Position.condition? := by
  obtain ⟨nodes, hnodes, h⟩ := Traced.outcome_bind_eq_ok.mp h
  cases h
  exact Node.conditions_ofEntries hnodes

theorem Filter.mem_conditions_iff {document : Document} {filter : Filter}
    (h : (ofDocument document).outcome = .ok filter) {c : Condition} :
    c ∈ filter.conditions ↔ ∃ name value, .entry name value ∈ visited document ∧
      (Node.ofEntry name value).outcome = .ok (some (.condition c)) := by
  rw [conditions_ofDocument h, List.mem_filterMap]
  constructor
  · rintro ⟨p, hp, hc⟩
    cases p with
    | entry name value => exact ⟨name, value, hp, Position.condition?_entry_eq_some_iff.mp hc⟩
    | element kind value => cases hc
  · rintro ⟨name, value, hp, hc⟩
    exact ⟨_, hp, Position.condition?_entry_eq_some_iff.mpr hc⟩

/-! ## Ranges -/

namespace Node

/-- A condition with an operation that an operator asks for comes from a map with that operator. -/
theorem exists_operatorMap {name : String} {value : Value} {c : Condition}
    (h : (ofEntry name value).outcome = .ok (some (.condition c))) {operator : Operator}
    {operand : Value} (hasked : c.op.asked? = some (operator, operand)) :
    ∃ token rest, value = .object ((token, operand) :: rest) ∧ ofToken? token = some operator := by
  by_cases hnull : ofToken? name = some .null
  · rw [ofEntry_null hnull] at h
    obtain ⟨field, -, hc⟩ := ofPresence_eq_ok.mp h
    cases hc
    cases hasked
  by_cases hnotNull : ofToken? name = some .notNull
  · rw [ofEntry_notNull hnotNull] at h
    obtain ⟨field, -, hc⟩ := ofPresence_eq_ok.mp h
    cases hc
    cases hasked
  by_cases hgroup : ∃ kind : GroupKind, ofToken? name = some kind.operator ∧ value.kind = .array
  · obtain ⟨kind, hkind, harray⟩ := hgroup
    obtain ⟨elements, rfl⟩ := Value.kind_eq_array_iff.mp harray
    rw [ofEntry_group hkind] at h
    obtain ⟨items, -, hc⟩ := Traced.outcome_bind_eq_ok.mp h
    cases (ofItems_eq_ok.mp hc).2
  · have hfield : IsField name value :=
      ⟨hnull, hnotNull, fun kind hkind harray => hgroup ⟨kind, hkind, harray⟩⟩
    rw [ofEntry_field hfield] at h
    rcases ofField_eq_ok h with ⟨-, hc⟩ | ⟨token, found, rest, op, _, rfl, htoken, hop, hc⟩
    · cases hc
      cases hasked
    · cases hc
      have hfound := (Op.asked?_of_ofOperand hop).1
      rw [hasked] at hfound
      cases hfound
      exact ⟨token, rest, rfl, htoken⟩

theorem fits_of_ofEntry {name : String} {value : Value} {c : Condition}
    (h : (ofEntry name value).outcome = .ok (some (.condition c))) : c.op.Fits c.field := by
  cases (wellFormed_ofEntry_and_ofElements.1 name value _ h).1 with
  | condition hc => exact hc.fits

/-- A map of operators that is not bad belongs to a field. -/
theorem isField_of_fault?_eq_none {name : String} {entries : Document}
    (h : (Position.entry name (.object entries)).fault? = none) : IsField name (.object entries) where
  not_null hnull := by
    rw [Position.fault?, hnull] at h
    cases h
  not_notNull hnotNull := by
    rw [Position.fault?, hnotNull] at h
    cases h
  not_group _ _ := Value.kind_object_ne_array

theorem ofField_between (field : String) (lower upper : Value) (rest : Document) :
    ofField field (.object ((Operator.between.token, .array [lower, upper]) :: rest)) =
      pure (some (.condition ⟨field, .between lower upper⟩)) := by
  rw [ofField, ofOperatorMap, Operator.ofToken?_token]
  rfl

end Node

theorem Document.accepted_iff {document : Document} :
    document.Accepted ↔ ∀ p ∈ visited document, p.fault? = none := by
  rw [Accepted, ← Traced.error?_eq_none_iff, Filter.error?_ofDocument, List.findSome?_eq_none_iff]

/-- A document that asks one operation of one field. -/
def asking (field : String) (op : Operator) (operand : Value) : Document :=
  [(field, .object [(op.token, operand)])]

theorem accepted_asking_iff {field : String} {op : Operator} {operand : Value} :
    (asking field op operand).Accepted ↔ field ∉ presenceNames ∧ op.fault? operand = none := by
  have hvisited : visited (asking field op operand) =
      [.entry field (.object [(op.token, operand)])] := by
    rw [visited, asking, List.flatMap_singleton]
    exact Node.visitedEntry_of_not_group fun _ _ => Value.kind_object_ne_array
  rw [Document.accepted_iff, hvisited, List.forall_mem_singleton]
  constructor
  · intro h
    have hfield := Node.isField_of_fault?_eq_none h
    rw [Node.fault?_entry_of_ne hfield.not_null hfield.not_notNull] at h
    refine ⟨hfield.not_mem_presenceNames, ?_⟩
    simpa [Position.fieldFault?, Operator.ofToken?_token] using h
  · rintro ⟨hname, hop⟩
    have hfield : Node.IsField field (.object [(op.token, operand)]) :=
      Node.isField_of_not_mem hname fun _ => Value.kind_object_ne_array
    rw [Node.fault?_entry_of_ne hfield.not_null hfield.not_notNull]
    simp [Position.fieldFault?, Operator.ofToken?_token, hop]

theorem Operator.fault?_greater_iff {bound : Value} :
    Operator.greater.fault? bound = none ↔ bound.IsScalar := by
  simp [Operator.fault?, Json.Value.IsScalar]

theorem Operator.fault?_less_iff {bound : Value} :
    Operator.less.fault? bound = none ↔ bound.IsScalar := by
  simp [Operator.fault?, Json.Value.IsScalar]

/-- A range among the conditions is what a visited field asks for first. -/
theorem Filter.between_mem_conditions_iff {document : Document} {filter : Filter}
    (h : (ofDocument document).outcome = .ok filter) {lower upper : Value} :
    (∃ c ∈ filter.conditions, c.op = .between lower upper) ↔
      ∃ field rest, .entry field (.object ((Operator.between.token, .array [lower, upper]) :: rest)) ∈
        visited document := by
  constructor
  · rintro ⟨c, hc, hop⟩
    obtain ⟨name, value, hp, hentry⟩ := (mem_conditions_iff h).mp hc
    have hasked : c.op.asked? = some (.between, .array [lower, upper]) := by rw [hop]; rfl
    obtain ⟨token, rest, rfl, htoken⟩ := Node.exists_operatorMap hentry hasked
    have hname : token = Operator.between.token := by
      simpa using Operator.ofToken?_eq_some_iff.mp htoken
    exact ⟨name, rest, hname ▸ hp⟩
  · rintro ⟨field, rest, hp⟩
    have hfault := Document.accepted_iff.mp ⟨filter, h⟩ _ hp
    have hentry := Node.ofField_between field lower upper rest
    rw [← Node.ofEntry_field (Node.isField_of_fault?_eq_none hfault)] at hentry
    exact ⟨_, (mem_conditions_iff h).mpr ⟨field, _, hp, congrArg Traced.outcome hentry⟩, rfl⟩

/-- Comparisons with one bound have scalars, and all comparisons of a filter do exactly if the ranges
that its document asks for have. A range is accepted whatever its bounds are, the two comparisons
that it stands for exactly if the bounds are scalars besides. -/
theorem Filter.scalar_bounds_iff (document : Document) (field : String) (lower upper : Value) :
    (∀ filter, (ofDocument document).outcome = .ok filter →
      (∀ c ∈ filter.conditions, c.op.ComparesScalars ∨
        ∃ low high, c.op = .between low high) ∧
      ((∀ c ∈ filter.conditions, c.op.ComparesScalars) ↔
        ∀ name low high rest, .entry name
          (.object ((Operator.between.token, .array [low, high]) :: rest)) ∈ visited document →
            low.IsScalar ∧ high.IsScalar)) ∧
      ((asking field .between (.array [lower, upper])).Accepted ↔ field ∉ presenceNames) ∧
      ((asking field .greater lower).Accepted ∧ (asking field .less upper).Accepted ↔
        (asking field .between (.array [lower, upper])).Accepted ∧
          lower.IsScalar ∧ upper.IsScalar) := by
  refine ⟨fun filter h => ?_, ?_⟩
  · have hshape : ∀ c ∈ filter.conditions, c.op.ComparesScalars ∨
        ∃ low high, c.op = .between low high := by
      intro c hc
      obtain ⟨name, value, -, hentry⟩ := (mem_conditions_iff h).mp hc
      exact Op.scalar_or_between (Node.fits_of_ofEntry hentry)
    refine ⟨hshape, fun hall name low high rest hp => ?_, fun hranges c hc => ?_⟩
    · obtain ⟨c, hc, hop⟩ := (between_mem_conditions_iff h).mpr ⟨name, rest, hp⟩
      have hbounds := hall c hc
      rw [hop] at hbounds
      exact Op.comparesScalars_between_iff.mp hbounds
    · rcases hshape c hc with hscalar | ⟨low, high, hop⟩
      · exact hscalar
      · obtain ⟨name, rest, hp⟩ := (between_mem_conditions_iff h).mp ⟨c, hc, hop⟩
        rw [hop]
        exact Op.comparesScalars_between_iff.mpr (hranges name low high rest hp)
  · have hrange : Operator.between.fault? (.array [lower, upper]) = none := rfl
    simp only [accepted_asking_iff, Operator.fault?_greater_iff, Operator.fault?_less_iff, hrange,
      and_true, true_and]
    exact and_and_left.symm

/-- A comparison and, in a group, a range. -/
theorem Filter.scalar_bounds_iff_nestedRange :
    let document : Document :=
      [("a", .object [("$gt", .number (.int 1))]),
        ("$or", .array [.object [("b", .object [("$bt", .array [.string "x", .null])])]])]
    ∃ filter, (ofDocument document).outcome = .ok filter ∧
      (∀ c ∈ filter.conditions, c.op.ComparesScalars ∨
        ∃ low high, c.op = .between low high) ∧
      ((∀ c ∈ filter.conditions, c.op.ComparesScalars) ↔
        ∀ name low high rest, .entry name
          (.object ((Operator.between.token, .array [low, high]) :: rest)) ∈ visited document →
            low.IsScalar ∧ high.IsScalar) := by
  intro document
  refine ⟨⟨[.condition ⟨"a", .gt (.number (.int 1))⟩,
    .group .or [.condition ⟨"b", .between (.string "x") .null⟩]]⟩, rfl, ?_⟩
  exact (scalar_bounds_iff document "b" (.string "x") .null).1 _ rfl

/-- A range between an array and an object is read, although each of the comparisons that it stands
for is refused with such a bound. -/
theorem Filter.range_of_nonscalars :
    (ofDocument (asking "f" .between (.array [.array [], .object []]))).outcome =
        .ok ⟨[.condition ⟨"f", .between (.array []) (.object [])⟩]⟩ ∧
      (ofDocument (asking "f" .greater (.array []))).outcome =
        .error (.operand .greater "f" (.notScalar .array)) ∧
      (ofDocument (asking "f" .less (.object []))).outcome =
        .error (.operand .less "f" (.notScalar .object)) ∧
      ¬ (Op.between (.array []) (.object [])).ComparesScalars := by
  refine ⟨rfl, rfl, rfl, fun h => ?_⟩
  exact (Op.comparesScalars_between_iff.mp h).1.1 rfl

end FilterQuery
