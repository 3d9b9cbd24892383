import Mathlib.Data.List.Forall2
import FilterQuery.Proofs.Filter.Entries
import FilterQuery.Proofs.Meaning

/-!
# The image of the reader

A node is well-formed if its groups have items and its conditions could have been written down: an
operand is of a kind that its operator takes, and a field is not named like a presence test or, with
an array, like a group. The reader gives well-formed nodes only. In the other direction
`Node.entry` writes a well-formed node down as an entry, and reading the entry gives the node back.
-/

namespace FilterQuery

open Json (Value Fields)
open Operator (ofToken?)

/-- The names of the entries that test for presence. -/
def presenceNames : List String :=
  [Operator.null.token, Operator.notNull.token, Operator.notNullAlias]

def Op.operands : Op → List Value
  | .eq operand => [operand]
  | .notEq operand => [operand]
  | .oneOf operands => operands
  | .noneOf operands => operands
  | .like _ => []
  | .gt bound => [bound]
  | .gte bound => [bound]
  | .lt bound => [bound]
  | .lte bound => [bound]
  | .between lower upper => [lower, upper]
  | .isNull => []
  | .isNotNull => []

/-- The operands fit, and only a test for presence is about a field with one of its names. -/
structure Condition.WellFormed (c : Condition) : Prop where
  fits : c.op.Fits c.field
  free : c.op = .isNull ∨ c.op = .isNotNull ∨ c.field ∉ presenceNames

def Condition.Distinct (c : Condition) : Prop :=
  ∀ operand ∈ c.op.operands, operand.Distinct

namespace Node

/-- Groups have items, and the conditions at every depth satisfy `P`. -/
inductive Every (P : Condition → Prop) : Node → Prop where
  | condition {c : Condition} (holds : P c) : Every P (.condition c)
  | group (kind : GroupKind) {items : List Node} (nonempty : items ≠ [])
      (each : ∀ item ∈ items, Every P item) : Every P (.group kind items)

def WellFormed : Node → Prop :=
  Every Condition.WellFormed

/-- No operand at any depth holds an object that repeats a name. -/
def Distinct : Node → Prop :=
  Every Condition.Distinct

end Node

namespace Op

theorem distinct_operands_iff {op : Op} {operator : Operator} {operand : Value}
    (h : op.asked? = some (operator, operand)) :
    (∀ v ∈ op.operands, v.Distinct) ↔ operand.Distinct := by
  cases op with
  | eq operand => cases h
  | isNull => cases h
  | isNotNull => cases h
  | notEq operand => cases h; exact List.forall_mem_singleton
  | gt bound => cases h; exact List.forall_mem_singleton
  | gte bound => cases h; exact List.forall_mem_singleton
  | lt bound => cases h; exact List.forall_mem_singleton
  | lte bound => cases h; exact List.forall_mem_singleton
  | oneOf operands => cases h; exact Value.distinct_array_iff.symm
  | noneOf operands => cases h; exact Value.distinct_array_iff.symm
  | between lower upper => cases h; exact Value.distinct_array_iff.symm
  | like pattern =>
    cases h
    exact iff_of_true (List.forall_mem_nil _) (.string pattern)

/-- An operation is an equality, a test for presence or one that an operator asks for. -/
theorem eq_or_presence_or_asked (op : Op) :
    (∃ operand, op = .eq operand) ∨ op = .isNull ∨ op = .isNotNull ∨
      ∃ operator operand, op.asked? = some (operator, operand) := by
  cases op <;> simp [asked?]

end Op

namespace Node

theorem IsField.not_mem_presenceNames {name : String} {value : Value} (h : IsField name value) :
    name ∉ presenceNames := by
  intro hmem
  rcases List.mem_cons.mp hmem with hnull | hmem
  · exact h.not_null (Operator.ofToken?_eq_null_iff.mpr hnull)
  · refine h.not_notNull (Operator.ofToken?_eq_notNull_iff.mpr ?_)
    rcases List.mem_cons.mp hmem with hnotNull | hmem
    · exact .inl hnotNull
    · exact .inr (List.mem_singleton.mp hmem)

theorem isField_of_not_mem {name : String} {value : Value} (h : name ∉ presenceNames)
    (hvalue : name = "$and" ∨ name = "$or" → value.kind ≠ .array) : IsField name value where
  not_null hnull := by
    rw [Operator.ofToken?_eq_null_iff] at hnull
    exact h (hnull ▸ List.mem_cons_self)
  not_notNull hnotNull := by
    apply h
    rcases Operator.ofToken?_eq_notNull_iff.mp hnotNull with rfl | rfl
    · exact List.mem_cons_of_mem _ List.mem_cons_self
    · exact List.mem_cons_of_mem _ (List.mem_cons_of_mem _ List.mem_cons_self)
  not_group kind hkind := by
    apply hvalue
    rw [Operator.ofToken?_eq_operator_iff.mp hkind]
    cases kind with
    | and => exact .inl rfl
    | or => exact .inr rfl

theorem wellFormed_ofField {field : String} {value : Value} {node : Node}
    (hfield : IsField field value) (h : (ofField field value).outcome = .ok (some node)) :
    node.WellFormed ∧ (value.Distinct → node.Distinct) := by
  have hfree := hfield.not_mem_presenceNames
  rcases ofField_eq_ok h with
    ⟨hkind, rfl⟩ | ⟨token, operand, rest, operator, op, rfl, -, hop, rfl⟩
  · have hfits : (Op.eq value).Fits field := by
      refine ⟨hkind, fun hname => ?_⟩
      rcases hname with rfl | rfl
      · exact hfield.not_group .and rfl
      · exact hfield.not_group .or rfl
    refine ⟨.condition ⟨hfits, .inr (.inr hfree)⟩, fun hdistinct => ?_⟩
    exact .condition (List.forall_mem_singleton.mpr hdistinct)
  · obtain ⟨hasked, hfits⟩ := Op.asked?_of_ofOperand hop
    refine ⟨.condition ⟨hfits, .inr (.inr hfree)⟩, fun hdistinct => .condition ?_⟩
    have hoperand : operand.Distinct := hdistinct.of_object (token, operand) List.mem_cons_self
    exact (Op.distinct_operands_iff hasked).mpr hoperand

/-- The reader gives well-formed nodes only, and repeats no name that the text did not repeat. -/
theorem wellFormed_ofEntry_and_ofElements :
    (∀ name value node, (ofEntry name value).outcome = .ok (some node) →
      node.WellFormed ∧ (value.Distinct → node.Distinct)) ∧
    ∀ kind elements nodes, (ofElements kind elements).outcome = .ok nodes →
      ∀ node ∈ nodes, node.WellFormed ∧ ((∀ v ∈ elements, v.Distinct) → node.Distinct) := by
  apply ofEntry_induction
  case null =>
    intro name value hname node h
    rw [ofEntry_null hname, ofPresence_eq_ok] at h
    obtain ⟨field, -, rfl⟩ := h
    exact ⟨.condition ⟨trivial, .inl rfl⟩, fun _ => .condition (List.forall_mem_nil _)⟩
  case notNull =>
    intro name value hname node h
    rw [ofEntry_notNull hname, ofPresence_eq_ok] at h
    obtain ⟨field, -, rfl⟩ := h
    exact ⟨.condition ⟨trivial, .inr (.inl rfl)⟩, fun _ => .condition (List.forall_mem_nil _)⟩
  case group =>
    intro kind name elements hname helements node h
    rw [ofEntry_group hname] at h
    obtain ⟨items, hitems, hnode⟩ := Traced.outcome_bind_eq_ok.mp h
    obtain ⟨hne, rfl⟩ := ofItems_eq_ok.mp hnode
    have heach := helements items hitems
    refine ⟨.group kind hne fun item hitem => (heach item hitem).1, fun hdistinct => ?_⟩
    have hvalues := Value.distinct_array_iff.mp hdistinct
    exact .group kind hne fun item hitem => (heach item hitem).2 hvalues
  case field =>
    intro name value hfield node h
    rw [ofEntry_field hfield] at h
    exact wellFormed_ofField hfield h
  case nil =>
    intro kind nodes h
    rw [ofElements] at h
    cases h
    exact List.forall_mem_nil _
  case empty =>
    intro kind elements ih nodes h node hmem
    rw [ofElements] at h
    have hnode := ih nodes h node hmem
    exact ⟨hnode.1, fun hdistinct => hnode.2 (List.forall_mem_cons.mp hdistinct).2⟩
  case first =>
    intro kind name value rest elements hentry ih nodes h node hmem
    rw [ofElements] at h
    obtain ⟨found, hfound, h⟩ := Traced.outcome_bind_eq_ok.mp h
    obtain ⟨others, hothers, h⟩ := Traced.outcome_bind_eq_ok.mp h
    cases h
    rcases List.mem_append.mp hmem with hmem | hmem
    · rw [Option.mem_toList] at hmem
      have hnode := hentry node (hmem ▸ hfound)
      refine ⟨hnode.1, fun hdistinct => hnode.2 ?_⟩
      have hobject := (List.forall_mem_cons.mp hdistinct).1
      exact hobject.of_object (name, value) List.mem_cons_self
    · have hnode := ih others hothers node hmem
      exact ⟨hnode.1, fun hdistinct => hnode.2 (List.forall_mem_cons.mp hdistinct).2⟩
  case other =>
    intro kind element elements hkind nodes h
    cases element with
    | object fields => exact absurd rfl hkind
    | null => cases h
    | bool b => cases h
    | number n => cases h
    | string s => cases h
    | array items => cases h

theorem exists_entry_of_mem_ofEntries {entries : Document} {nodes : List Node}
    (h : (ofEntries entries).outcome = .ok nodes) :
    ∀ node ∈ nodes, ∃ entry ∈ entries, (ofEntry entry.1 entry.2).outcome = .ok (some node) := by
  induction entries generalizing nodes with
  | nil =>
    cases h
    exact List.forall_mem_nil _
  | cons entry entries ih =>
    obtain ⟨found, hfound, h⟩ := Traced.outcome_bind_eq_ok.mp h
    obtain ⟨others, hothers, h⟩ := Traced.outcome_bind_eq_ok.mp h
    cases h
    intro node hmem
    rcases List.mem_append.mp hmem with hmem | hmem
    · rw [Option.mem_toList] at hmem
      exact ⟨entry, List.mem_cons_self, hmem ▸ hfound⟩
    · obtain ⟨other, hother, hnode⟩ := ih hothers node hmem
      exact ⟨other, List.mem_cons_of_mem entry hother, hnode⟩

theorem Every.populated {P : Condition → Prop} {node : Node} (h : node.Every P) :
    node.Populated := by
  induction h with
  | condition _ => exact .condition _
  | group kind hne _ ih => exact .group kind hne ih

end Node

/-- Whatever the document, the groups of the filter that is read have items. -/
theorem Filter.populated_ofDocument {document : Document} {filter : Filter}
    (h : (ofDocument document).outcome = .ok filter) : filter.Populated := by
  obtain ⟨nodes, hnodes, h⟩ := Traced.outcome_bind_eq_ok.mp h
  cases h
  intro node hmem
  obtain ⟨entry, -, hentry⟩ := Node.exists_entry_of_mem_ofEntries hnodes node hmem
  exact (Node.wellFormed_ofEntry_and_ofElements.1 entry.1 entry.2 node hentry).1.populated

def Condition.entry (c : Condition) : String × Value :=
  match c.op with
  | .isNull => (Operator.null.token, .string c.field)
  | .isNotNull => (Operator.notNull.token, .string c.field)
  | .eq operand => (c.field, operand)
  | op => (c.field, .object (op.asked?.toList.map fun asked => (asked.1.token, asked.2)))

theorem Condition.entry_of_asked? {c : Condition} {operator : Operator} {operand : Value}
    (h : c.op.asked? = some (operator, operand)) :
    c.entry = (c.field, .object [(operator.token, operand)]) := by
  obtain ⟨field, op⟩ := c
  cases op <;> cases h <;> rfl

namespace Node

mutual

def entry : Node → String × Value
  | .condition c => c.entry
  | .group kind items => (kind.operator.token, .array (elements items))

/-- The elements of a group, one object for each node. -/
def elements : List Node → List Value
  | [] => []
  | node :: nodes => .object [entry node] :: elements nodes

end

theorem ofEntry_entry_condition {c : Condition} (h : c.WellFormed) :
    ofEntry c.entry.1 c.entry.2 = pure (some (.condition c)) := by
  obtain ⟨field, op⟩ := c
  obtain ⟨hfits, hfree⟩ := h
  rcases op.eq_or_presence_or_asked with ⟨operand, rfl⟩ | rfl | rfl | ⟨operator, operand, hasked⟩
  · have hnames : field ∉ presenceNames := by simpa using hfree
    have hfield : IsField field operand := isField_of_not_mem hnames hfits.2
    exact (ofEntry_field hfield).trans (ofField_of_kind hfits.1)
  · exact ofEntry_null (Operator.ofToken?_token .null) (.string field)
  · exact ofEntry_notNull (Operator.ofToken?_token .notNull) (.string field)
  · have hnames : field ∉ presenceNames := by
      rcases hfree with rfl | rfl | hnames
      · cases hasked
      · cases hasked
      · exact hnames
    have hfield : IsField field (.object [(operator.token, operand)]) :=
      isField_of_not_mem hnames fun _ => nofun
    have htoken := Operator.ofToken?_token operator
    have hoperand := Op.ofOperand_of_asked? hasked hfits
    rw [Condition.entry_of_asked? hasked, ofEntry_field hfield]
    simp [ofField, ofOperatorMap, htoken, hoperand]

theorem ofElements_elements {kind : GroupKind} {items : List Node}
    (h : ∀ item ∈ items, ofEntry item.entry.1 item.entry.2 = pure (some item)) :
    ofElements kind (elements items) = pure items := by
  induction items with
  | nil => rw [elements, ofElements]
  | cons item items ih =>
    obtain ⟨hitem, hitems⟩ := List.forall_mem_cons.mp h
    have hrest := ih hitems
    rw [elements, ofElements, hitem, hrest]
    rfl

theorem ofEntry_entry {node : Node} (h : node.WellFormed) :
    ofEntry node.entry.1 node.entry.2 = pure (some node) := by
  induction h with
  | condition hc => exact ofEntry_entry_condition hc
  | @group kind items hne _ ih =>
    have hname := Operator.ofToken?_token kind.operator
    have helements : ofElements kind (elements items) = pure items := ofElements_elements ih
    rw [entry, ofEntry_group hname, helements, pure_bind, ofItems_of_ne_nil hne]

theorem distinct_elements {items : List Node} (h : ∀ item ∈ items, item.entry.2.Distinct) :
    ∀ v ∈ elements items, v.Distinct := by
  induction items with
  | nil => exact List.forall_mem_nil _
  | cons item items ih =>
    obtain ⟨hitem, hitems⟩ := List.forall_mem_cons.mp h
    exact List.forall_mem_cons.mpr ⟨Value.distinct_singleton hitem, ih hitems⟩

theorem distinct_entry_condition {c : Condition} (h : c.Distinct) : c.entry.2.Distinct := by
  obtain ⟨field, op⟩ := c
  rcases op.eq_or_presence_or_asked with ⟨operand, rfl⟩ | rfl | rfl | ⟨operator, operand, hasked⟩
  · exact List.forall_mem_singleton.mp h
  · exact .string field
  · exact .string field
  · rw [Condition.entry_of_asked? hasked]
    exact Value.distinct_singleton ((Op.distinct_operands_iff hasked).mp h)

theorem distinct_entry {node : Node} (h : node.Distinct) : node.entry.2.Distinct := by
  induction h with
  | condition hc => exact distinct_entry_condition hc
  | group kind _ _ ih => exact .array (distinct_elements ih)

theorem ofEntries_of_forall₂ {entries : Fields} {nodes : List Node}
    (h : List.Forall₂ (fun entry node => (ofEntry entry.1 entry.2).outcome = .ok (some node))
      entries nodes) : (ofEntries entries).outcome = .ok nodes := by
  induction h with
  | nil => rfl
  | cons hentry _ ih => simp [ofEntries, hentry, ih, Except.bind, Except.map]

end Node

/-- Exactly the well-formed nodes can be read, and entries of different names are read in order. -/
theorem Node.ofEntry_image :
    (∀ name value node, (ofEntry name value).outcome = .ok (some node) →
      node.WellFormed ∧ (value.Distinct → node.Distinct)) ∧
    (∀ node : Node, node.WellFormed → ∃ name value,
      (ofEntry name value).outcome = .ok (some node) ∧ (node.Distinct → value.Distinct)) ∧
    ∀ (entries : Fields) (nodes : List Node), (entries.map Prod.fst).Nodup →
      List.Forall₂ (fun entry node => (ofEntry entry.1 entry.2).outcome = .ok (some node))
        entries nodes →
      (Filter.ofDocument (Fields.ofPairs entries)).outcome = .ok ⟨nodes⟩ := by
  refine ⟨wellFormed_ofEntry_and_ofElements.1, fun node h => ?_, fun entries nodes hnames h => ?_⟩
  · have hentry := congrArg Traced.outcome (ofEntry_entry h)
    exact ⟨node.entry.1, node.entry.2, hentry, distinct_entry⟩
  · have hnodes := ofEntries_of_forall₂ h
    rw [Fields.ofPairs_eq hnames]
    simp [Filter.ofDocument, hnodes, Except.map]

theorem Node.ofEntry_image_named_alike :
    (Node.group .or [.condition ⟨"$null", .isNull⟩]).WellFormed ∧
    (∃ name value, (ofEntry name value).outcome =
      .ok (some (.condition ⟨"$and", .oneOf [.bool true]⟩))) ∧
    (Filter.ofDocument (Fields.ofPairs
      [("$and", .object [("$in", .array [.bool true])]),
        ("$or", .array [.object [("$null", .string "$null")]])])).outcome =
      .ok ⟨[.condition ⟨"$and", .oneOf [.bool true]⟩,
        .group .or [.condition ⟨"$null", .isNull⟩]]⟩ := by
  obtain ⟨hsound, hcomplete, hdocument⟩ := ofEntry_image
  have hfield : (Condition.mk "$and" (.oneOf [.bool true])).WellFormed :=
    ⟨trivial, .inr (.inr (by decide))⟩
  have hgroup : (ofEntry "$or" (.array [.object [("$null", .string "$null")]])).outcome =
      .ok (some (.group .or [.condition ⟨"$null", .isNull⟩])) := by rfl
  have hmap : (ofEntry "$and" (.object [("$in", .array [.bool true])])).outcome =
      .ok (some (.condition ⟨"$and", .oneOf [.bool true]⟩)) := by rfl
  refine ⟨(hsound _ _ _ hgroup).1, ?_, ?_⟩
  · obtain ⟨name, value, h, -⟩ := hcomplete _ (.condition hfield)
    exact ⟨name, value, h⟩
  · exact hdocument _ _ (by decide) (.cons hmap (.cons hgroup .nil))

end FilterQuery
