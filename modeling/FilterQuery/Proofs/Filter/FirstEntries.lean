import FilterQuery.Proofs.Filter.Faults

/-!
# Only first entries count

Of an element of a group, and of the map of operators that a field has, the reader looks at the first
entry. `prune` leaves out all others, at the positions that are visited and nowhere else: an object
inside an operand is data and stays as it is. The pruned document is read as the document itself, with
the same log. So documents with one pruned form are read alike, whatever stands behind the first
entries.
-/

namespace FilterQuery

open Json (Value)
open Operator (ofToken?)

/-- An object without the entries behind its first one. -/
def Json.Value.firstEntry : Value → Value
  | .object (entry :: _) => .object [entry]
  | value => value

mutual

/-- The value of an entry, where what is visited in it has its first entries only. -/
def pruneEntry (name : String) (value : Value) : Value :=
  match ofToken? name, value with
  | some .null, value => value
  | some .notNull, value => value
  | some .and, .array elements => .array (pruneElements elements)
  | some .or, .array elements => .array (pruneElements elements)
  | _, value => value.firstEntry

def pruneElements : List Value → List Value
  | [] => []
  | .object ((name, value) :: _) :: elements =>
    .object [(name, pruneEntry name value)] :: pruneElements elements
  | element :: elements => element :: pruneElements elements

end

/-- All entries of a document, each of them pruned. -/
def prune (document : Document) : Document :=
  document.map fun entry => (entry.1, pruneEntry entry.1 entry.2)

/-- Where an element of a group or a map of operators is visited, it has one entry at most. -/
def Position.Single : Position → Prop
  | .entry name value =>
    Node.IsField name value → ∀ entries, value = .object entries → entries.length ≤ 1
  | .element _ value => ∀ entries, value = .object entries → entries.length ≤ 1

theorem Json.Value.kind_firstEntry (value : Value) : value.firstEntry.kind = value.kind := by
  cases value with
  | object entries => cases entries <;> rfl
  | _ => rfl

theorem Json.Value.length_firstEntry {value : Value} {entries : Document}
    (h : value.firstEntry = .object entries) : entries.length ≤ 1 := by
  cases value with
  | object all =>
    cases all with
    | nil =>
      cases h
      exact Nat.zero_le 1
    | cons first rest =>
      cases h
      exact Nat.le_refl 1
  | _ => cases h

namespace Node

theorem pruneEntry_null {name : String} (h : ofToken? name = some .null) (value : Value) :
    pruneEntry name value = value :=
  pruneEntry.eq_1 name value h

theorem pruneEntry_notNull {name : String} (h : ofToken? name = some .notNull) (value : Value) :
    pruneEntry name value = value :=
  pruneEntry.eq_2 name value h

theorem pruneEntry_group {name : String} {kind : GroupKind} (h : ofToken? name = some kind.operator)
    (elements : List Value) :
    pruneEntry name (.array elements) = .array (pruneElements elements) := by
  cases kind with
  | and => exact pruneEntry.eq_3 name elements h
  | or => exact pruneEntry.eq_4 name elements h

theorem pruneEntry_field {name : String} {value : Value} (h : IsField name value) :
    pruneEntry name value = value.firstEntry := by
  unfold pruneEntry
  split
  · next hnull => exact absurd hnull h.not_null
  · next hnotNull => exact absurd hnotNull h.not_notNull
  · next hand => exact absurd rfl (h.not_group .and hand)
  · next hor => exact absurd rfl (h.not_group .or hor)
  · rfl

theorem pruneElements_empty (elements : List Value) :
    pruneElements (.object [] :: elements) = .object [] :: pruneElements elements := by
  rw [pruneElements]
  nofun

theorem pruneElements_other {element : Value} (h : element.kind ≠ .object)
    (elements : List Value) :
    pruneElements (element :: elements) = element :: pruneElements elements := by
  rw [pruneElements]
  rintro name value rest rfl
  exact h rfl

theorem IsField.firstEntry {name : String} {value : Value} (h : IsField name value) :
    IsField name value.firstEntry where
  not_null := h.not_null
  not_notNull := h.not_notNull
  not_group kind hkind := by
    rw [value.kind_firstEntry]
    exact h.not_group kind hkind

theorem ofField_firstEntry (field : String) (value : Value) :
    ofField field value.firstEntry = ofField field value := by
  cases value with
  | object entries => cases entries <;> rfl
  | _ => rfl

/-! ## Reading what is pruned -/

theorem ofEntry_prune_and_ofElements_prune :
    (∀ name value, ofEntry name (pruneEntry name value) = ofEntry name value) ∧
    ∀ kind elements, ofElements kind (pruneElements elements) = ofElements kind elements := by
  apply ofEntry_induction
  case null =>
    intro name value hname
    rw [pruneEntry_null hname]
  case notNull =>
    intro name value hname
    rw [pruneEntry_notNull hname]
  case group =>
    intro kind name elements hname ih
    rw [pruneEntry_group hname, ofEntry_group hname, ofEntry_group hname, ih]
  case field =>
    intro name value hfield
    rw [pruneEntry_field hfield, ofEntry_field hfield.firstEntry, ofEntry_field hfield,
      ofField_firstEntry]
  case nil =>
    intro kind
    rw [pruneElements]
  case empty =>
    intro kind elements ih
    rw [pruneElements_empty, ofElements, ofElements, ih]
  case first =>
    intro kind name value rest elements hentry ih
    rw [pruneElements, ofElements, ofElements, hentry, ih]
  case other =>
    intro kind element elements hkind
    rw [pruneElements_other hkind]
    cases element with
    | object fields => exact absurd rfl hkind
    | _ => rfl

theorem ofEntries_prune (document : Document) :
    ofEntries (prune document) = ofEntries document := by
  induction document with
  | nil => rfl
  | cons entry entries ih =>
    have hentry := ofEntry_prune_and_ofElements_prune.1 entry.1 entry.2
    rw [prune] at ih ⊢
    rw [List.map_cons, ofEntries, ofEntries, hentry, ih]

/-! ## What is left -/

theorem single_visitedEntry_group {name : String} (kind : GroupKind)
    (h : ofToken? name = some kind.operator) {elements : List Value}
    (hall : ∀ kind, ∀ p ∈ visitedElements kind (pruneElements elements), p.Single) :
    ∀ p ∈ visitedEntry name (pruneEntry name (.array elements)), p.Single := by
  rw [pruneEntry_group h, visitedEntry_group h]
  exact List.forall_mem_cons.mpr ⟨fun hfield => absurd rfl (hfield.not_group kind h), hall kind⟩

/-- What is pruned holds one entry at most wherever the reader would look at the first. -/
theorem single_visited_prune :
    (∀ name value, ∀ p ∈ visitedEntry name (pruneEntry name value), p.Single) ∧
    ∀ elements kind, ∀ p ∈ visitedElements kind (pruneElements elements), p.Single := by
  -- the induction along `prune` goes on behind an element that ends the reading
  apply pruneEntry.mutual_induct
  · intro name value hname
    rw [visitedEntry_presence hname (.inl rfl), List.forall_mem_singleton]
    exact fun hfield => absurd hname hfield.not_null
  · intro name value hname
    rw [visitedEntry_presence hname (.inr rfl), List.forall_mem_singleton]
    exact fun hfield => absurd hname hfield.not_notNull
  · exact fun name elements hname ih => single_visitedEntry_group .and hname ih
  · exact fun name elements hname ih => single_visitedEntry_group .or hname ih
  · intro name value hnull hnotNull hand hor
    have hfield : IsField name value := .of_ne hnull hnotNull hand hor
    rw [pruneEntry_field hfield, visitedEntry_of_not_group hfield.firstEntry.not_group,
      List.forall_mem_singleton]
    exact fun _ entries hentries => Json.Value.length_firstEntry hentries
  · intro kind
    rw [pruneElements, visitedElements]
    exact List.forall_mem_nil _
  · intro name value rest elements hentry ih kind
    rw [pruneElements, visitedElements]
    refine List.forall_mem_cons.mpr ⟨fun entries hentries => ?_, ?_⟩
    · cases hentries
      exact Nat.le_refl 1
    · exact List.forall_mem_append.mpr ⟨hentry, ih kind⟩
  · intro element elements hnot ih kind
    have hshort : ∀ entries, element = .object entries → entries.length ≤ 1 := by
      rintro (_ | ⟨⟨name, value⟩, rest⟩) rfl
      · exact Nat.zero_le 1
      · exact absurd rfl (hnot name value rest)
    rw [pruneElements, visitedElements]
    · exact List.forall_mem_cons.mpr ⟨hshort, ih kind⟩
    · exact hnot
    · exact hnot

end Node

theorem Filter.ofDocument_pruned (document : Document) :
    ofDocument (prune document) = ofDocument document := by
  rw [ofDocument, ofDocument, Node.ofEntries_prune]

/-- The pruned document has the entries of the document, and wherever one is read first there is no
other. It is read as the document, and so is every document with that pruned form. -/
theorem Filter.ofDocument_prune (document : Document) :
    ofDocument (prune document) = ofDocument document ∧
      (prune document).map Prod.fst = document.map Prod.fst ∧
      (∀ p ∈ visited (prune document), p.Single) ∧
      ∀ other, prune other = prune document → ofDocument other = ofDocument document := by
  refine ⟨ofDocument_pruned document, ?_, ?_, fun other hother => ?_⟩
  · rw [prune, List.map_map]
    rfl
  · intro p hp
    rw [visited, prune, List.flatMap_map] at hp
    obtain ⟨entry, -, hp⟩ := List.mem_flatMap.mp hp
    exact Node.single_visited_prune.1 entry.1 entry.2 p hp
  · rw [← ofDocument_pruned other, hother, ofDocument_pruned document]

/-- Entries behind the first ones, in an element and in a map of operators; the objects in the operand
of `$in` have two entries each. -/
def crowdedDocument : Document :=
  [("$or", .array [.object [("a", .object [("$gt", .ofNat 1), ("$lt", .ofNat 9)]),
      ("b", .ofNat 2)]]),
    ("c", .object [("$in", .array [.object [("x", .null), ("y", .null)]])])]

/-- The same first entries, with faults behind them. -/
def faultyBehind : Document :=
  [("$or", .array [.object [("a", .object [("$gt", .ofNat 1)]), ("$null", .ofNat 2)]]),
    ("c", .object [("$in", .array [.object [("x", .null), ("y", .null)]]), ("$like", .null)])]

theorem Filter.ofDocument_prune_faultyBehind :
    prune faultyBehind = prune crowdedDocument ∧
      ofDocument faultyBehind = ofDocument crowdedDocument ∧
      (Position.element .or (.object [("a", .object [("$gt", .ofNat 1)])])).Single ∧
      (ofDocument faultyBehind).outcome = .ok ⟨[.group .or [.condition ⟨"a", .gt (.ofNat 1)⟩],
        .condition ⟨"c", .oneOf [.object [("x", .null), ("y", .null)]]⟩]⟩ := by
  obtain ⟨-, -, hsingle, hother⟩ := ofDocument_prune crowdedDocument
  have hprune : prune faultyBehind = prune crowdedDocument := rfl
  have hvisited : Position.element .or (.object [("a", .object [("$gt", .ofNat 1)])]) ∈
      visited (prune crowdedDocument) := .tail _ (.head _)
  exact ⟨hprune, hother faultyBehind hprune, hsingle _ hvisited, rfl⟩

end FilterQuery
