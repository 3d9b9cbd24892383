import FilterQuery.Filter.Parser

/-!
# What entries give

An entry of a filter document is a presence test, a group or a field. The lemmas here say when each
part of the reader answers with a node, and with which. `ofEntry_induction` follows the reader
through a document: along the elements of a group and into the first entry of each of them.
-/

namespace FilterQuery

open Json (Value)

namespace Operator

theorem ofToken?_eq_null_iff {name : String} : ofToken? name = some .null ↔ name = "$null" := by
  rw [ofToken?_eq_some_iff]
  simp [token]

theorem ofToken?_eq_notNull_iff {name : String} :
    ofToken? name = some .notNull ↔ name = "$notnull" ∨ name = "$nnull" := by
  rw [ofToken?_eq_some_iff]
  simp [token, notNullAlias]

theorem ofToken?_eq_operator_iff {name : String} {kind : GroupKind} :
    ofToken? name = some kind.operator ↔ name = kind.operator.token := by
  rw [ofToken?_eq_some_iff]
  cases kind <;> simp [GroupKind.operator]

end Operator

open Operator (ofToken?)

namespace Op

/-- The operator and the operand that ask for an operation inside a field. -/
def asked? : Op → Option (Operator × Value)
  | .notEq operand => some (.not, operand)
  | .oneOf operands => some (.oneOf, .array operands)
  | .noneOf operands => some (.noneOf, .array operands)
  | .like pattern => some (.like, .string pattern)
  | .gt bound => some (.greater, bound)
  | .gte bound => some (.greaterEqual, bound)
  | .lt bound => some (.less, bound)
  | .lte bound => some (.lessEqual, bound)
  | .between lower upper => some (.between, .array [lower, upper])
  | .eq _ => none
  | .isNull => none
  | .isNotNull => none

/-- Whether the operands of an operation are of the kinds it can have on a field. -/
def Fits (field : String) : Op → Prop
  | .eq operand =>
    operand.kind ≠ .object ∧ (field = "$and" ∨ field = "$or" → operand.kind ≠ .array)
  | .notEq operand => operand.kind ≠ .object
  | .gt bound => bound.kind ≠ .array ∧ bound.kind ≠ .object
  | .gte bound => bound.kind ≠ .array ∧ bound.kind ≠ .object
  | .lt bound => bound.kind ≠ .array ∧ bound.kind ≠ .object
  | .lte bound => bound.kind ≠ .array ∧ bound.kind ≠ .object
  | _ => True

theorem ofScalar_eq_ok {operator : Operator} {field : String} {make : Value → Op} {bound : Value}
    {op : Op} : (ofScalar operator field make bound).outcome = .ok (some op) ↔
      op = make bound ∧ bound.kind ≠ .array ∧ bound.kind ≠ .object := by
  cases bound <;> simp [ofScalar, Value.kind, eq_comm]

/-- An operation that is answered is the one that was asked for, and its operands fit. -/
theorem asked?_of_ofOperand {field : String} {operator : Operator} {operand : Value} {op : Op}
    (h : (ofOperand field operator operand).outcome = .ok (some op)) :
    op.asked? = some (operator, operand) ∧ op.Fits field := by
  cases operator with
  | not =>
    cases operand <;> simp [ofOperand] at h <;> subst h <;> simp [asked?, Fits, Value.kind]
  | oneOf =>
    cases operand <;> simp [ofOperand] at h
    subst h
    exact ⟨rfl, trivial⟩
  | noneOf =>
    cases operand <;> simp [ofOperand] at h
    subst h
    exact ⟨rfl, trivial⟩
  | like =>
    cases operand <;> simp [ofOperand] at h
    subst h
    exact ⟨rfl, trivial⟩
  | greater =>
    obtain ⟨rfl, hkind⟩ := ofScalar_eq_ok.mp h
    exact ⟨rfl, hkind⟩
  | greaterEqual =>
    obtain ⟨rfl, hkind⟩ := ofScalar_eq_ok.mp h
    exact ⟨rfl, hkind⟩
  | less =>
    obtain ⟨rfl, hkind⟩ := ofScalar_eq_ok.mp h
    exact ⟨rfl, hkind⟩
  | lessEqual =>
    obtain ⟨rfl, hkind⟩ := ofScalar_eq_ok.mp h
    exact ⟨rfl, hkind⟩
  | between =>
    cases operand <;> simp [ofOperand] at h
    next bounds =>
      rcases bounds with _ | ⟨lower, _ | ⟨upper, _ | ⟨third, bounds⟩⟩⟩ <;> simp at h
      subst h
      exact ⟨rfl, trivial⟩
  | or => cases h
  | and => cases h
  | null => cases h
  | notNull => cases h

theorem ofScalar_of_kind {operator : Operator} {field : String} {make : Value → Op} {bound : Value}
    (h : bound.kind ≠ .array ∧ bound.kind ≠ .object) :
    ofScalar operator field make bound = pure (some (make bound)) := by
  cases bound with
  | array items => exact absurd rfl h.1
  | object fields => exact absurd rfl h.2
  | null => rfl
  | bool b => rfl
  | number n => rfl
  | string s => rfl

/-- What is asked for with operands that fit is answered, and nothing is reported. -/
theorem ofOperand_of_asked? {field : String} {operator : Operator} {operand : Value} {op : Op}
    (hasked : op.asked? = some (operator, operand)) (hfits : op.Fits field) :
    ofOperand field operator operand = pure (some op) := by
  cases op with
  | eq operand => cases hasked
  | notEq operand =>
    cases hasked
    cases operand with
    | object fields => exact absurd rfl hfits
    | null => rfl
    | bool b => rfl
    | number n => rfl
    | string s => rfl
    | array items => rfl
  | oneOf operands => cases hasked; rfl
  | noneOf operands => cases hasked; rfl
  | like pattern => cases hasked; rfl
  | gt bound => cases hasked; exact ofScalar_of_kind hfits
  | gte bound => cases hasked; exact ofScalar_of_kind hfits
  | lt bound => cases hasked; exact ofScalar_of_kind hfits
  | lte bound => cases hasked; exact ofScalar_of_kind hfits
  | between lower upper => cases hasked; rfl
  | isNull => cases hasked
  | isNotNull => cases hasked

end Op

namespace Node

theorem ofPresence_eq_ok {operator : Operator} {op : Op} {value : Value} {node : Node} :
    (ofPresence operator op value).outcome = .ok (some node) ↔
      ∃ field, value = .string field ∧ node = .condition ⟨field, op⟩ := by
  cases value <;> simp [ofPresence, eq_comm]

theorem ofItems_of_ne_nil {kind : GroupKind} {items : List Node} (h : items ≠ []) :
    ofItems kind items = pure (some (.group kind items)) := by
  obtain ⟨item, items, rfl⟩ := List.exists_cons_of_ne_nil h
  rfl

theorem ofItems_eq_ok {kind : GroupKind} {items : List Node} {node : Node} :
    (ofItems kind items).outcome = .ok (some node) ↔ items ≠ [] ∧ node = .group kind items := by
  by_cases hitems : items = []
  · subst hitems
    constructor
    · intro h
      cases h
    · exact fun h => absurd rfl h.1
  · rw [ofItems_of_ne_nil hitems]
    simp [hitems, eq_comm]

theorem ofField_of_kind {field : String} {value : Value} (h : value.kind ≠ .object) :
    ofField field value = pure (some (.condition ⟨field, .eq value⟩)) := by
  cases value with
  | object fields => exact absurd rfl h
  | null => rfl
  | bool b => rfl
  | number n => rfl
  | string s => rfl
  | array items => rfl

/-- A field gives an equality, or the operation that the first entry of its map asks for. -/
theorem ofField_eq_ok {field : String} {value : Value} {node : Node}
    (h : (ofField field value).outcome = .ok (some node)) :
    (value.kind ≠ .object ∧ node = .condition ⟨field, .eq value⟩) ∨
      ∃ token operand rest operator op, value = .object ((token, operand) :: rest) ∧
        ofToken? token = some operator ∧
        (Op.ofOperand field operator operand).outcome = .ok (some op) ∧
        node = .condition ⟨field, op⟩ := by
  by_cases hkind : value.kind = .object
  · obtain ⟨fields, rfl⟩ := Value.kind_eq_object_iff.mp hkind
    rcases fields with _ | ⟨⟨token, operand⟩, rest⟩
    · cases h
    · rw [ofField, ofOperatorMap] at h
      cases htoken : ofToken? token with
      | none =>
        rw [htoken] at h
        cases h
      | some operator =>
        rw [htoken] at h
        obtain ⟨found, hfound, hnode⟩ := Traced.outcome_bind_eq_ok.mp h
        cases found with
        | none => cases hnode
        | some op =>
          cases hnode
          exact .inr ⟨token, operand, rest, operator, op, rfl, htoken, hfound, rfl⟩
  · rw [ofField_of_kind hkind] at h
    cases h
    exact .inl ⟨hkind, rfl⟩

/-- Neither a presence test nor a group: the entry is about the field that it is named after. -/
structure IsField (name : String) (value : Value) : Prop where
  not_null : ofToken? name ≠ some .null
  not_notNull : ofToken? name ≠ some .notNull
  not_group : ∀ kind : GroupKind, ofToken? name = some kind.operator → value.kind ≠ .array

theorem IsField.of_ne {name : String} {value : Value} (hnull : ofToken? name ≠ some .null)
    (hnotNull : ofToken? name ≠ some .notNull)
    (hand : ∀ elements, ofToken? name = some .and → value ≠ .array elements)
    (hor : ∀ elements, ofToken? name = some .or → value ≠ .array elements) :
    IsField name value := by
  refine ⟨hnull, hnotNull, fun kind hkind harray => ?_⟩
  obtain ⟨elements, rfl⟩ := Value.kind_eq_array_iff.mp harray
  cases kind with
  | and => exact hand elements hkind rfl
  | or => exact hor elements hkind rfl

theorem ofEntry_null {name : String} (h : ofToken? name = some .null) (value : Value) :
    ofEntry name value = ofPresence .null .isNull value :=
  ofEntry.eq_1 name value h

theorem ofEntry_notNull {name : String} (h : ofToken? name = some .notNull) (value : Value) :
    ofEntry name value = ofPresence .notNull .isNotNull value :=
  ofEntry.eq_2 name value h

theorem ofEntry_group {name : String} {kind : GroupKind} (h : ofToken? name = some kind.operator)
    (elements : List Value) :
    ofEntry name (.array elements) = ofElements kind elements >>= ofItems kind := by
  cases kind with
  | and => exact ofEntry.eq_3 name elements h
  | or => exact ofEntry.eq_4 name elements h

theorem ofEntry_field {name : String} {value : Value} (h : IsField name value) :
    ofEntry name value = ofField name value := by
  unfold ofEntry
  split
  · next hnull => exact absurd hnull h.not_null
  · next hnotNull => exact absurd hnotNull h.not_notNull
  · next hand => exact absurd rfl (h.not_group .and hand)
  · next hor => exact absurd rfl (h.not_group .or hor)
  · rfl

/-- Induction along the reader: `P` is about entries and `Q` about the elements of a group. -/
theorem ofEntry_induction {P : String → Value → Prop} {Q : GroupKind → List Value → Prop}
    (null : ∀ name value, ofToken? name = some .null → P name value)
    (notNull : ∀ name value, ofToken? name = some .notNull → P name value)
    (group : ∀ kind name elements, ofToken? name = some (GroupKind.operator kind) →
      Q kind elements → P name (.array elements))
    (field : ∀ name value, IsField name value → P name value)
    (nil : ∀ kind, Q kind [])
    (empty : ∀ kind elements, Q kind elements → Q kind (.object [] :: elements))
    (first : ∀ kind name value rest elements, P name value → Q kind elements →
      Q kind (.object ((name, value) :: rest) :: elements))
    (other : ∀ kind (element : Value) elements, element.kind ≠ .object →
      Q kind (element :: elements)) :
    (∀ name value, P name value) ∧ ∀ kind elements, Q kind elements := by
  apply ofEntry.mutual_induct P Q null notNull
  · exact fun name elements hand => group .and name elements hand
  · exact fun name elements hor => group .or name elements hor
  · exact fun name value hnull hnotNull hand hor => field name value (.of_ne hnull hnotNull hand hor)
  · exact nil
  · exact empty
  · exact first
  · intro kind element elements hempty hfirst
    refine other kind element elements fun hobject => ?_
    obtain ⟨fields, rfl⟩ := Value.kind_eq_object_iff.mp hobject
    cases fields with
    | nil => exact hempty rfl
    | cons pair rest => exact hfirst pair.1 pair.2 rest rfl

end Node

end FilterQuery
