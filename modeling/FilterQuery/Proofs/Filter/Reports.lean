import FilterQuery.Proofs.Filter.Faults

/-!
# What the filter reader reports

A position that the reader visits gives a node or gives nothing, and for each that gives nothing the
reader reports one event for debugging. A group counts for itself: when nothing is left in it, it is
reported after its elements. So the log of a document that is read has as many events as there are
positions without a node, and it is empty exactly if every position contributes.
-/

namespace FilterQuery

open Json (Value)
open Operator (ofToken?)

namespace Traced

variable {α β : Type}

theorem exists_of_bind_ok {x : Traced α} {f : α → Traced β} {b : β}
    (h : (x >>= f).outcome = .ok b) :
    ∃ a, x.outcome = .ok a ∧ (f a).outcome = .ok b ∧
      (x >>= f).events = x.events ++ (f a).events := by
  obtain ⟨events, outcome⟩ := x
  cases outcome with
  | error e => cases h
  | ok a => exact ⟨a, rfl, h, rfl⟩

theorem exists_of_collect_ok {x : Traced (Option α)} {y : Traced (List α)} {as : List α}
    (h : (do let first ← x; let others ← y; return first.toList ++ others).outcome = .ok as) :
    (∃ first, x.outcome = .ok first) ∧ (∃ others, y.outcome = .ok others) ∧
      (do let first ← x; let others ← y; return first.toList ++ others).events =
        x.events ++ y.events := by
  obtain ⟨first, hfirst, hrest, hevents⟩ := exists_of_bind_ok h
  obtain ⟨others, hothers, -, hrestEvents⟩ := exists_of_bind_ok hrest
  refine ⟨⟨first, hfirst⟩, ⟨others, hothers⟩, ?_⟩
  rw [hevents, hrestEvents]
  exact congrArg (x.events ++ ·) (List.append_nil y.events)

/-- An answer of nothing comes with one event for debugging, any other answer with none. -/
inductive Explains : List Event → Option α → Prop where
  | some (a : α) : Explains [] (some a)
  | none {e : Event} (debug : e.level = .debug) : Explains [e] none

theorem Explains.map {events : List Event} {answer : Option α} (h : Explains events answer)
    (f : α → β) : Explains events (answer.map f) := by
  cases h with
  | some a => exact .some (f a)
  | none debug => exact .none debug

/-- Whatever is answered, the events explain it. -/
def Explained (x : Traced (Option α)) : Prop :=
  ∀ answer, x.outcome = .ok answer → Explains x.events answer

theorem explained_some (a : α) : (Pure.pure (some a) : Traced (Option α)).Explained := by
  intro answer h
  cases h
  exact .some a

theorem explained_fail (e : Error) : (fail e : Traced (Option α)).Explained := nofun

theorem explained_none {e : Event} (h : e.level = .debug) :
    (do emit e; return none : Traced (Option α)).Explained := by
  intro answer hanswer
  cases hanswer
  exact .none h

theorem Explained.map {x : Traced (Option α)} (h : x.Explained) (f : α → β) :
    (do let found ← x; return found.map f : Traced (Option β)).Explained := by
  intro answer hanswer
  obtain ⟨found, hfound, hmapped, hevents⟩ := exists_of_bind_ok hanswer
  cases hmapped
  rw [hevents]
  simpa [Pure.pure, pure] using (h found hfound).map f

end Traced

open Traced (explained_some explained_fail explained_none)

theorem Op.explained_ofScalar (operator : Operator) (field : String) (make : Value → Op)
    (bound : Value) : (ofScalar operator field make bound).Explained := by
  cases bound with
  | array items => exact explained_fail _
  | object fields => exact explained_fail _
  | null => exact explained_some _
  | bool b => exact explained_some _
  | number n => exact explained_some _
  | string s => exact explained_some _

theorem Op.explained_ofOperand (field : String) (operator : Operator) (operand : Value) :
    (ofOperand field operator operand).Explained := by
  cases operator with
  | not =>
    cases operand with
    | object fields => exact explained_fail _
    | _ => exact explained_some _
  | oneOf =>
    cases operand with
    | array operands => exact explained_some _
    | _ => exact explained_fail _
  | noneOf =>
    cases operand with
    | array operands => exact explained_some _
    | _ => exact explained_fail _
  | like =>
    cases operand with
    | string pattern => exact explained_some _
    | _ => exact explained_fail _
  | greater => exact explained_ofScalar .greater field .gt operand
  | greaterEqual => exact explained_ofScalar .greaterEqual field .gte operand
  | less => exact explained_ofScalar .less field .lt operand
  | lessEqual => exact explained_ofScalar .lessEqual field .lte operand
  | between =>
    cases operand with
    | array bounds =>
      rcases bounds with _ | ⟨lower, _ | ⟨upper, _ | ⟨third, bounds⟩⟩⟩
      · exact explained_fail _
      · exact explained_fail _
      · exact explained_some _
      · exact explained_fail _
    | _ => exact explained_fail _
  | or => exact explained_none rfl
  | and => exact explained_none rfl
  | null => exact explained_none rfl
  | notNull => exact explained_none rfl

namespace Node

theorem explained_ofField (field : String) (value : Value) : (ofField field value).Explained := by
  cases value with
  | object fields =>
    rcases fields with _ | ⟨⟨token, operand⟩, rest⟩
    · exact explained_none rfl
    · rw [ofField, ofOperatorMap]
      cases ofToken? token with
      | none => exact explained_none rfl
      | some operator => exact (Op.explained_ofOperand field operator operand).map _
  | _ => exact explained_some _

theorem explained_ofPresence (operator : Operator) (op : Op) (value : Value) :
    (ofPresence operator op value).Explained := by
  cases value with
  | string field => exact explained_some _
  | _ => exact explained_fail _

theorem explained_ofItems (kind : GroupKind) (items : List Node) :
    (ofItems kind items).Explained := by
  cases items with
  | nil => exact explained_none rfl
  | cons item items => exact explained_some _

end Node

namespace Position

/-- The position gives nothing, and no error either. -/
def isSilent : Position → Bool
  | .entry name value =>
    match (Node.ofEntry name value).outcome with
    | .ok none => true
    | _ => false
  | .element _ (.object []) => true
  | .element _ _ => false

/-- An entry contributes its node, an element its first entry. -/
def Contributes : Position → Prop
  | .entry name value => ∃ node, (Node.ofEntry name value).outcome = .ok (some node)
  | .element _ value => ∃ first rest, value = .object (first :: rest)

theorem isSilent_entry {name : String} {value : Value} {answer : Option Node}
    (h : (Node.ofEntry name value).outcome = .ok answer) :
    (entry name value).isSilent = answer.isNone := by
  rw [isSilent, h]
  cases answer <;> rfl

/-- What contributes is not silent. -/
theorem Contributes.not_silent {p : Position} (h : p.Contributes) : p.isSilent = false := by
  cases p with
  | entry name value =>
    obtain ⟨node, hnode⟩ := h
    exact isSilent_entry hnode
  | element kind value =>
    obtain ⟨first, rest, rfl⟩ := h
    rfl

end Position

/-- The events account for the positions: for each silent position there is one, for debugging, and
every other position contributes. -/
structure Accounted (events : List Event) (positions : List Position) : Prop where
  debug : ∀ e ∈ events, e.level = .debug
  length_eq : events.length = positions.countP Position.isSilent
  contributes : ∀ p ∈ positions, p.isSilent = false → p.Contributes

namespace Accounted

variable {events events' : List Event} {positions positions' : List Position}

theorem nil : Accounted [] [] where
  debug := nofun
  length_eq := rfl
  contributes := nofun

theorem append (h : Accounted events positions) (h' : Accounted events' positions') :
    Accounted (events ++ events') (positions ++ positions') where
  debug e he := (List.mem_append.mp he).elim (h.debug e) (h'.debug e)
  length_eq := by rw [List.length_append, List.countP_append, h.length_eq, h'.length_eq]
  contributes p hp := (List.mem_append.mp hp).elim (h.contributes p) (h'.contributes p)

/-- An event may come after those of the positions that follow its own. -/
theorem perm (h : Accounted events positions) (hevents : events'.Perm events) :
    Accounted events' positions where
  debug e he := h.debug e (hevents.mem_iff.mp he)
  length_eq := hevents.length_eq.trans h.length_eq
  contributes := h.contributes

theorem of_contributes {p : Position} (h : p.Contributes) : Accounted [] [p] where
  debug := nofun
  length_eq := by simp [h.not_silent]
  contributes := by
    intro q hq _
    rw [List.mem_singleton.mp hq]
    exact h

theorem of_silent {p : Position} (h : p.isSilent) {e : Event} (he : e.level = .debug) :
    Accounted [e] [p] where
  debug := by
    intro other hother
    rw [List.mem_singleton.mp hother]
    exact he
  length_eq := by simp [h]
  contributes := by
    intro q hq hsilent
    rw [List.mem_singleton.mp hq, h] at hsilent
    cases hsilent

theorem entry {name : String} {value : Value} {answer : Option Node}
    (h : (Node.ofEntry name value).outcome = .ok answer)
    (hexplains : Traced.Explains events answer) :
    Accounted events [.entry name value] := by
  cases hexplains with
  | some node => exact of_contributes ⟨node, h⟩
  | none debug => exact of_silent (Position.isSilent_entry h) debug

/-- The log is empty exactly if nothing was silent. -/
theorem events_eq_nil_iff (h : Accounted events positions) :
    events = [] ↔ ∀ p ∈ positions, p.Contributes := by
  rw [← List.length_eq_zero_iff, h.length_eq, List.countP_eq_zero]
  constructor
  · intro hsilent p hp
    exact h.contributes p hp (Bool.eq_false_iff.mpr (hsilent p hp))
  · intro hcontributes p hp hsilent
    rw [(hcontributes p hp).not_silent] at hsilent
    cases hsilent

end Accounted

namespace Node

/-- An entry that is no group is a single position, which its own events explain. -/
theorem accounted_of_explained {name : String} {value : Value} {answer : Option Node}
    (hvisited : visitedEntry name value = [.entry name value])
    (hexplained : (ofEntry name value).Explained)
    (h : (ofEntry name value).outcome = .ok answer) :
    Accounted (ofEntry name value).events (visitedEntry name value) := by
  rw [hvisited]
  exact .entry h (hexplained answer h)

theorem accounted_ofEntry_and_ofElements :
    (∀ name value answer, (ofEntry name value).outcome = .ok answer →
      Accounted (ofEntry name value).events (visitedEntry name value)) ∧
    ∀ kind elements nodes, (ofElements kind elements).outcome = .ok nodes →
      Accounted (ofElements kind elements).events (visitedElements kind elements) := by
  apply ofEntry_induction
  case null =>
    intro name value hname answer
    apply accounted_of_explained (visitedEntry_presence hname (.inl rfl) value)
    rw [ofEntry_null hname]
    exact explained_ofPresence .null .isNull value
  case notNull =>
    intro name value hname answer
    apply accounted_of_explained (visitedEntry_presence hname (.inr rfl) value)
    rw [ofEntry_notNull hname]
    exact explained_ofPresence .notNull .isNotNull value
  case field =>
    intro name value hfield answer
    apply accounted_of_explained (visitedEntry_of_not_group hfield.not_group)
    rw [ofEntry_field hfield]
    exact explained_ofField name value
  case group =>
    intro kind name elements hname ih answer h
    have hbind := h
    rw [ofEntry_group hname] at hbind ⊢
    obtain ⟨items, hitems, hanswer, hevents⟩ := Traced.exists_of_bind_ok hbind
    have hgroup := Accounted.entry h (explained_ofItems kind items answer hanswer)
    rw [hevents, visitedEntry_group hname]
    -- the group is visited before its elements, and reported after them
    exact (hgroup.append (ih items hitems)).perm List.perm_append_comm
  case nil =>
    intro kind nodes _
    rw [ofElements, visitedElements]
    exact .nil
  case empty =>
    intro kind elements ih nodes h
    rw [ofElements] at h ⊢
    obtain ⟨-, -, hrest, hevents⟩ := Traced.exists_of_bind_ok h
    rw [hevents, visitedElements_empty]
    have hempty : Accounted [.emptyElement kind] [.element kind (.object [])] :=
      .of_silent rfl rfl
    exact hempty.append (ih nodes hrest)
  case first =>
    intro kind name value rest elements hentry ih nodes h
    rw [ofElements] at h ⊢
    obtain ⟨⟨answer, hanswer⟩, ⟨others, hothers⟩, hevents⟩ := Traced.exists_of_collect_ok h
    rw [hevents, visitedElements]
    have helement : Accounted [] [.element kind (.object ((name, value) :: rest))] :=
      .of_contributes ⟨(name, value), rest, rfl⟩
    exact helement.append ((hentry answer hanswer).append (ih others hothers))
  case other =>
    intro kind element elements hkind nodes h
    cases element with
    | object fields => exact absurd rfl hkind
    | _ => cases h

theorem accounted_ofEntries {document : Document} {nodes : List Node}
    (h : (ofEntries document).outcome = .ok nodes) :
    Accounted (ofEntries document).events (visited document) := by
  induction document generalizing nodes with
  | nil => exact .nil
  | cons entry entries ih =>
    rw [ofEntries] at h ⊢
    obtain ⟨⟨answer, hanswer⟩, ⟨others, hothers⟩, hevents⟩ := Traced.exists_of_collect_ok h
    rw [hevents, visited, List.flatMap_cons]
    exact (accounted_ofEntry_and_ofElements.1 entry.1 entry.2 answer hanswer).append (ih hothers)

end Node

theorem Filter.accounted_ofDocument {document : Document} {filter : Filter}
    (h : (ofDocument document).outcome = .ok filter) :
    Accounted (ofDocument document).events (visited document) := by
  rw [ofDocument] at h ⊢
  obtain ⟨nodes, hnodes, hfilter, hevents⟩ := Traced.exists_of_bind_ok h
  rw [hevents]
  simpa [Pure.pure, Traced.pure] using Node.accounted_ofEntries hnodes

end FilterQuery
