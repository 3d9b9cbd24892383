import FilterQuery.Proofs.Filter.Entries

/-!
# Which documents are refused

The reader visits every entry of a document, every element of a group that it reads, and the first
entry of each such element. `visited` lists these positions in the order of the document. Some of
them are bad: an element that is no object, a presence test that names no field, an operand that
the operator of its field cannot use. A document is refused exactly if it has a bad position, and the
error is that of the first one, whatever is skipped or dropped before it or after it.
-/

namespace FilterQuery

open Json (Value)
open Operator (ofToken?)

namespace Traced

variable {α β : Type}

def error? (x : Traced α) : Option Error :=
  match x.outcome with
  | .error e => some e
  | .ok _ => none

theorem error?_eq_some_iff {x : Traced α} {e : Error} :
    x.error? = some e ↔ x.outcome = .error e := by
  unfold error?
  cases x.outcome <;> simp

theorem error?_eq_none_iff {x : Traced α} : x.error? = none ↔ ∃ a, x.outcome = .ok a := by
  unfold error?
  cases x.outcome <;> simp

@[simp] theorem error?_pure (a : α) : (Pure.pure a : Traced α).error? = none := rfl

@[simp] theorem error?_emit_bind (event : Event) (f : Unit → Traced β) :
    (emit event >>= f).error? = (f ()).error? := rfl

/-- Where the second part fails regardless of what the first one answers, the first error counts. -/
theorem error?_bind {x : Traced α} {f : α → Traced β} {later : Option Error}
    (h : ∀ a, (f a).error? = later) : (x >>= f).error? = x.error?.or later := by
  obtain ⟨events, outcome⟩ := x
  cases outcome with
  | error e => rfl
  | ok a => exact h a

/-- What is put in front of a list fails first. -/
theorem error?_collect (x : Traced (Option α)) (y : Traced (List α)) :
    (do let first ← x; let others ← y; return first.toList ++ others).error? =
      x.error?.or y.error? := by
  apply error?_bind
  intro first
  rw [error?_bind fun others => error?_pure (first.toList ++ others), Option.or_none]

end Traced

/-- What is wrong with an operand that a field is asked about. -/
def Operator.fault? (op : Operator) (operand : Value) : Option OperandFault :=
  match op with
  | .not => if operand.kind = .object then some .notValue else none
  | .oneOf | .noneOf => if operand.kind = .array then none else some (.notArray operand.kind)
  | .like => if operand.kind = .string then none else some (.notPattern operand.kind)
  | .greater | .greaterEqual | .less | .lessEqual =>
    if operand.kind = .array ∨ operand.kind = .object then some (.notScalar operand.kind) else none
  | .between =>
    match operand with
    | .array bounds => if bounds.length = 2 then none else some (.notBounds bounds.length)
    | _ => some (.notArray operand.kind)
  | .or | .and | .null | .notNull => none

inductive Position where
  | entry (name : String) (value : Value)
  | element (kind : GroupKind) (value : Value)

namespace Position

/-- An entry that tests for presence must name a field. -/
def presenceFault? (op : Operator) (value : Value) : Option Error :=
  if value.kind = .string then none
  else some (.operand op op.token (.notFieldName value.kind))

/-- The first operator in the map of a field must be able to use its operand. -/
def fieldFault? (field : String) : Value → Option Error
  | .object ((token, operand) :: _) =>
    (ofToken? token).bind fun op => (op.fault? operand).map (.operand op field)
  | _ => none

def fault? : Position → Option Error
  | .entry name value =>
    match ofToken? name with
    | some .null => presenceFault? .null value
    | some .notNull => presenceFault? .notNull value
    | _ => fieldFault? name value
  | .element kind value =>
    if value.kind = .object then none
    else some (.operand kind.operator kind.operator.token (.notElement value.kind))

def Bad (p : Position) : Prop :=
  p.fault?.isSome

instance (p : Position) : Decidable p.Bad :=
  inferInstanceAs (Decidable (p.fault?.isSome = true))

end Position

mutual

def visitedEntry (name : String) (value : Value) : List Position :=
  .entry name value ::
    match ofToken? name, value with
    | some .and, .array elements => visitedElements .and elements
    | some .or, .array elements => visitedElements .or elements
    | _, _ => []

def visitedElements (kind : GroupKind) : List Value → List Position
  | [] => []
  | .object ((name, value) :: rest) :: elements =>
    .element kind (.object ((name, value) :: rest)) ::
      (visitedEntry name value ++ visitedElements kind elements)
  | element :: elements => .element kind element :: visitedElements kind elements

end

def visited (document : Document) : List Position :=
  document.flatMap fun entry => visitedEntry entry.1 entry.2

theorem Op.error?_ofScalar (operator : Operator) (field : String) (make : Value → Op)
    (bound : Value) :
    (ofScalar operator field make bound).error? =
      (if bound.kind = .array ∨ bound.kind = .object then some (.notScalar bound.kind)
        else none).map (.operand operator field) := by
  cases bound <;> rfl

theorem Op.error?_ofOperand (field : String) (operator : Operator) (operand : Value) :
    (ofOperand field operator operand).error? =
      (operator.fault? operand).map (.operand operator field) := by
  cases operator with
  | not => cases operand <;> rfl
  | oneOf => cases operand <;> rfl
  | noneOf => cases operand <;> rfl
  | like => cases operand <;> rfl
  | greater => exact error?_ofScalar .greater field .gt operand
  | greaterEqual => exact error?_ofScalar .greaterEqual field .gte operand
  | less => exact error?_ofScalar .less field .lt operand
  | lessEqual => exact error?_ofScalar .lessEqual field .lte operand
  | between =>
    cases operand with
    | array bounds => rcases bounds with _ | ⟨lower, _ | ⟨upper, _ | ⟨third, bounds⟩⟩⟩ <;> rfl
    | _ => rfl
  | or => rfl
  | and => rfl
  | null => rfl
  | notNull => rfl

namespace Node

theorem error?_ofPresence (operator : Operator) (op : Op) (value : Value) :
    (ofPresence operator op value).error? = Position.presenceFault? operator value := by
  cases value <;> rfl

theorem error?_ofItems (kind : GroupKind) (items : List Node) :
    (ofItems kind items).error? = none := by
  cases items <;> rfl

theorem error?_ofField (field : String) (value : Value) :
    (ofField field value).error? = Position.fieldFault? field value := by
  cases value with
  | object fields =>
    rcases fields with _ | ⟨⟨token, operand⟩, rest⟩
    · rfl
    · rw [ofField, ofOperatorMap, Position.fieldFault?]
      cases ofToken? token with
      | none => rfl
      | some operator =>
        have hoperand := Traced.error?_bind (x := Op.ofOperand field operator operand)
          (f := fun found => pure (found.map fun op => Node.condition ⟨field, op⟩)) fun _ => rfl
        simpa [Op.error?_ofOperand] using hoperand
  | _ => rfl

theorem visitedEntry_group {name : String} {kind : GroupKind}
    (h : ofToken? name = some kind.operator) (elements : List Value) :
    visitedEntry name (.array elements) =
      .entry name (.array elements) :: visitedElements kind elements := by
  cases kind with
  | and => exact visitedEntry.eq_1 name elements h
  | or => exact visitedEntry.eq_2 name elements h

theorem visitedEntry_of_not_group {name : String} {value : Value}
    (h : ∀ kind : GroupKind, ofToken? name = some kind.operator → value.kind ≠ .array) :
    visitedEntry name value = [.entry name value] := by
  rw [visitedEntry]
  · rintro elements hand rfl
    exact h .and hand rfl
  · rintro elements hor rfl
    exact h .or hor rfl

theorem visitedElements_other {kind : GroupKind} {element : Value} (h : element.kind ≠ .object)
    (elements : List Value) :
    visitedElements kind (element :: elements) =
      .element kind element :: visitedElements kind elements := by
  rw [visitedElements]
  rintro name value rest rfl
  exact h rfl

theorem visitedElements_empty (kind : GroupKind) (elements : List Value) :
    visitedElements kind (.object [] :: elements) =
      .element kind (.object []) :: visitedElements kind elements := by
  rw [visitedElements]
  nofun

theorem visitedEntry_presence {name : String} {operator : Operator}
    (hname : ofToken? name = some operator) (hoperator : operator = .null ∨ operator = .notNull)
    (value : Value) : visitedEntry name value = [.entry name value] := by
  apply visitedEntry_of_not_group
  intro kind hkind
  rw [hname] at hkind
  rcases hoperator with rfl | rfl <;> cases kind <;> cases hkind

theorem findSome?_visitedEntry_presence {name : String} {operator : Operator} {value : Value}
    (hname : ofToken? name = some operator) (hoperator : operator = .null ∨ operator = .notNull) :
    (visitedEntry name value).findSome? Position.fault? =
      Position.presenceFault? operator value := by
  have hvisited := visitedEntry_presence hname hoperator value
  rcases hoperator with rfl | rfl <;> simp [hvisited, Position.fault?, hname]

theorem fault?_entry_of_ne {name : String} {value : Value} (hnull : ofToken? name ≠ some .null)
    (hnotNull : ofToken? name ≠ some .notNull) :
    (Position.entry name value).fault? = Position.fieldFault? name value := by
  rw [Position.fault?]
  split
  · next h => exact absurd h hnull
  · next h => exact absurd h hnotNull
  · rfl

theorem fault?_group {name : String} {kind : GroupKind} (h : ofToken? name = some kind.operator)
    (elements : List Value) : (Position.entry name (.array elements)).fault? = none := by
  apply fault?_entry_of_ne
  · rw [h]
    cases kind <;> nofun
  · rw [h]
    cases kind <;> nofun

theorem error?_ofEntry_and_ofElements :
    (∀ name value, (ofEntry name value).error? =
      (visitedEntry name value).findSome? Position.fault?) ∧
    ∀ kind elements, (ofElements kind elements).error? =
      (visitedElements kind elements).findSome? Position.fault? := by
  apply ofEntry_induction
  case null =>
    intro name value hname
    rw [ofEntry_null hname, error?_ofPresence, findSome?_visitedEntry_presence hname (.inl rfl)]
  case notNull =>
    intro name value hname
    rw [ofEntry_notNull hname, error?_ofPresence, findSome?_visitedEntry_presence hname (.inr rfl)]
  case group =>
    intro kind name elements hname helements
    rw [ofEntry_group hname, Traced.error?_bind fun items => error?_ofItems kind items,
      Option.or_none, helements, visitedEntry_group hname, List.findSome?_cons,
      fault?_group hname]
  case field =>
    intro name value hfield
    rw [ofEntry_field hfield, error?_ofField, visitedEntry_of_not_group hfield.not_group,
      List.findSome?_singleton, fault?_entry_of_ne hfield.not_null hfield.not_notNull]
  case nil =>
    intro kind
    rw [ofElements, visitedElements]
    rfl
  case empty =>
    intro kind elements ih
    rw [ofElements, Traced.error?_emit_bind, ih, visitedElements_empty, List.findSome?_cons]
    rfl
  case first =>
    intro kind name value rest elements hentry ih
    rw [ofElements, Traced.error?_collect, hentry, ih, visitedElements, List.findSome?_cons,
      List.findSome?_append]
    rfl
  case other =>
    intro kind element elements hkind
    rw [visitedElements_other hkind]
    cases element with
    | object fields => exact absurd rfl hkind
    | _ => rfl

theorem error?_ofEntries (document : Document) :
    (ofEntries document).error? = (visited document).findSome? Position.fault? := by
  induction document with
  | nil => rfl
  | cons entry entries ih =>
    have hentry := error?_ofEntry_and_ofElements.1 entry.1 entry.2
    rw [ofEntries, Traced.error?_collect, hentry, ih, visited, visited, List.flatMap_cons,
      List.findSome?_append]

end Node

theorem Filter.error?_ofDocument (document : Document) :
    (ofDocument document).error? = (visited document).findSome? Position.fault? := by
  rw [ofDocument, Traced.error?_bind fun nodes => Traced.error?_pure (Filter.mk nodes),
    Option.or_none, Node.error?_ofEntries]

/-- What the reader leaves out: it gives no node, and no error either. -/
inductive Position.Skipped : Position → Prop where
  | emptyMap {field : String} (isField : Node.IsField field (.object [])) :
      Skipped (.entry field (.object []))
  | unknownOperator {field token : String} {operand : Value} {rest : Document}
      (isField : Node.IsField field (.object ((token, operand) :: rest)))
      (unknown : ofToken? token = none) :
      Skipped (.entry field (.object ((token, operand) :: rest)))
  | misplacedOperator {field token : String} {operand : Value} {rest : Document} {op : Operator}
      (isField : Node.IsField field (.object ((token, operand) :: rest)))
      (known : ofToken? token = some op) (misplaced : op ∈ [.and, .or, .null, .notNull]) :
      Skipped (.entry field (.object ((token, operand) :: rest)))
  | emptyElement (kind : GroupKind) : Skipped (.element kind (.object []))
  | emptyGroup {name : String} {kind : GroupKind} (isGroup : ofToken? name = some kind.operator) :
      Skipped (.entry name (.array []))

theorem Position.not_bad_iff {p : Position} : ¬ p.Bad ↔ p.fault? = none :=
  Option.not_isSome_iff_eq_none

theorem Position.Skipped.not_bad {p : Position} (h : p.Skipped) : ¬ p.Bad := by
  rw [not_bad_iff]
  cases h with
  | emptyMap isField =>
    rw [Node.fault?_entry_of_ne isField.not_null isField.not_notNull]
    rfl
  | unknownOperator isField unknown =>
    rw [Node.fault?_entry_of_ne isField.not_null isField.not_notNull, fieldFault?, unknown]
    rfl
  | misplacedOperator isField known misplaced =>
    rw [Node.fault?_entry_of_ne isField.not_null isField.not_notNull, fieldFault?, known]
    simp only [List.mem_cons, List.not_mem_nil, or_false] at misplaced
    rcases misplaced with rfl | rfl | rfl | rfl <;> rfl
  | emptyElement kind => rfl
  | emptyGroup isGroup => exact Node.fault?_group isGroup []

/-- A document is refused exactly if a visited position is bad, with the error of the first one. -/
theorem Filter.ofDocument_refused (document : Document) :
    ((∃ e, (ofDocument document).outcome = .error e) ↔ ∃ p ∈ visited document, p.Bad) ∧
    (∀ e, (ofDocument document).outcome = .error e ↔ ∃ before p after,
      visited document = before ++ p :: after ∧ (∀ q ∈ before, ¬ q.Bad) ∧ p.fault? = some e) ∧
    ∀ p : Position, p.Skipped → ¬ p.Bad := by
  have hrefused (e : Error) : (ofDocument document).outcome = .error e ↔
      (visited document).findSome? Position.fault? = some e := by
    rw [← Traced.error?_eq_some_iff, error?_ofDocument]
  simp only [hrefused]
  refine ⟨?_, fun e => ?_, fun p => Position.Skipped.not_bad⟩
  · rw [← Option.isSome_iff_exists, List.findSome?_isSome_iff]
    rfl
  · rw [List.findSome?_eq_some_iff]
    simp only [Position.not_bad_iff]
    constructor
    · rintro ⟨before, p, after, hsplit, hfault, hbefore⟩
      exact ⟨before, p, after, hsplit, hbefore, hfault⟩
    · rintro ⟨before, p, after, hsplit, hbefore, hfault⟩
      exact ⟨before, p, after, hsplit, hfault, hbefore⟩

/-- A range with one bound among elements that are skipped, and other faults behind it. -/
def oneBoundDocument : Document :=
  [("$null", .string "a"),
    ("$or", .array [.object [], .object [("b", .object [("$abc", .null)])],
      .object [("$and", .array [])], .object [("c", .object [("$bt", .array [.null])])], .null]),
    ("d", .object [("$in", .null)])]

theorem Filter.ofDocument_refused_oneBound :
    (Position.element .or (.object [])).Skipped ∧ ¬ (Position.element .or (.object [])).Bad ∧
      (∃ p ∈ visited oneBoundDocument, p.Bad) ∧
      (ofDocument oneBoundDocument).outcome = .error (.operand .between "c" (.notBounds 1)) := by
  obtain ⟨hrefused, hfirst, hskipped⟩ := ofDocument_refused oneBoundDocument
  have hempty : (Position.element .or (.object [])).Skipped := .emptyElement .or
  have herror : (ofDocument oneBoundDocument).outcome =
      .error (.operand .between "c" (.notBounds 1)) := by
    exact (hfirst _).mpr ⟨(visited oneBoundDocument).take 8, _, _, rfl, by decide, rfl⟩
  exact ⟨hempty, hskipped _ hempty, hrefused.mp ⟨_, herror⟩, herror⟩

end FilterQuery
