import FilterQuery.Hints.Parser
import FilterQuery.Proofs.Filter.Reports
import FilterQuery.Proofs.Lookup
import Mathlib.Data.List.Perm.Basic

/-!
# What the readers report

The hint reader warns of every key that it does not know and of a sort that is neither a field nor
an object of keys. Within such an object it reports, for debugging, every direction that is an alias
of neither order, since it takes that one for descending. Nothing else is reported of hints that are
read; together with what the filter reader reports this says what a log holds.
-/

namespace FilterQuery

open Json (Kind Value)

namespace Direction

/-- The tokens that ask for a direction. -/
def aliases : Direction → List Value
  | .ascending =>
    [.string "asc", .string "ASC", .string "1", .number (.int 1),
      .number (.float (Binary64.one false))]
  | .descending =>
    [.string "desc", .string "DESC", .string "-1", .number (.int (-1)),
      .number (.float (Binary64.one true))]

theorem isAscendingToken_iff {token : Value} :
    isAscendingToken token ↔ token ∈ aliases .ascending := by
  cases token with
  | number n => cases n <;> simp [isAscendingToken, Json.Number.isOne, aliases]
  | string s => simp [isAscendingToken, aliases]
  | _ => simp [isAscendingToken, aliases]

theorem isDescendingToken_iff {token : Value} :
    isDescendingToken token ↔ token ∈ aliases .descending := by
  cases token with
  | number n => cases n <;> simp [isDescendingToken, Json.Number.isOne, aliases]
  | string s => simp [isDescendingToken, aliases]
  | _ => simp [isDescendingToken, aliases]

/-- An alias of neither direction. -/
def Unrecognized (token : Value) : Prop :=
  ∀ direction, token ∉ aliases direction

theorem unrecognized_iff {token : Value} :
    Unrecognized token ↔ ofToken token = .descending ∧ ¬ isDescendingToken token := by
  rw [ofToken, isDescendingToken_iff]
  constructor
  · intro h
    have hascending := h .ascending
    rw [← isAscendingToken_iff] at hascending
    rw [if_neg hascending]
    exact ⟨rfl, h .descending⟩
  · rintro ⟨hdirection, hdescending⟩ direction
    cases direction with
    | ascending =>
      rw [← isAscendingToken_iff]
      intro hascending
      rw [if_pos hascending] at hdirection
      cases hdirection
    | descending => exact hdescending

instance : DecidablePred Unrecognized := fun _ => decidable_of_iff _ unrecognized_iff.symm

end Direction

/-- The keys of a sort hint whose direction is not recognized. -/
def SortHint.unrecognized : Value → List (String × Value)
  | .object entries => entries.filter fun entry => Direction.Unrecognized entry.2
  | _ => []

/-- The kind of a value that is neither a field nor an object of keys. -/
def SortHint.unusable (value : Value) : List Kind :=
  [value.kind].filter fun kind => kind ≠ .string ∧ kind ≠ .object

namespace Document

def unknownHints (document : Document) : List String :=
  (document.map Prod.fst).filter fun name => name ∉ HintKey.all.map HintKey.token

/-- The value of the sort hint, if there is one. -/
def sorts (document : Document) : List Value :=
  (document.lookup HintKey.sort.token).toList

end Document

/-- No direction is refused. -/
theorem SortKey.ofEntry_eq (field : String) (token : Value) :
    ofEntry field token =
      ⟨if Direction.Unrecognized token then [.unknownDirection token field] else [],
        .ok ⟨field, Direction.ofToken token⟩⟩ := by
  simp only [Direction.unrecognized_iff, ofEntry]
  split <;> rfl

theorem SortKey.ofEntries_eq (entries : List (String × Value)) :
    ofEntries entries =
      ⟨(entries.filter fun entry => Direction.Unrecognized entry.2).map fun entry =>
          .unknownDirection entry.2 entry.1,
        .ok (entries.map fun entry => ⟨entry.1, Direction.ofToken entry.2⟩)⟩ := by
  induction entries with
  | nil => rfl
  | cons entry entries ih =>
    obtain ⟨field, token⟩ := entry
    rw [ofEntries, ofEntry_eq, ih, List.filter_cons]
    by_cases h : Direction.Unrecognized token <;> simp [h, bind, Traced.bind, pure, Traced.pure]

theorem SortHint.events_ofValue (value : Value) :
    (ofValue value).events = (unusable value).map .unusableSort ++
      (unrecognized value).map fun entry => .unknownDirection entry.2 entry.1 := by
  cases value with
  | object entries =>
    rw [ofValue, SortKey.ofEntries_eq]
    exact List.append_nil _
  | _ => rfl

namespace Hints

/-- An unknown key is reported, and of the known ones only the sort. -/
def entryEvents (name : String) (value : Value) : List Event :=
  (if name ∈ HintKey.all.map HintKey.token then [] else [.unknownHint name]) ++
    if name = HintKey.sort.token then (SortHint.ofValue value).events else []

theorem events_count (key : HintKey) (value : Value) : (count key value).events = [] := by
  rw [count]
  split <;> rfl

theorem events_readEntry {hints hints' : Hints} {name : String} {value : Value}
    (h : (readEntry hints name value).outcome = .ok hints') :
    (readEntry hints name value).events = entryEvents name value := by
  rw [readEntry] at h ⊢
  cases hkey : HintKey.ofToken? name with
  | none =>
    have hunknown := HintKey.ofToken?_eq_none_iff.mp hkey
    have hsort : name ≠ HintKey.sort.token := fun hname => hunknown (hname ▸ by decide)
    rw [entryEvents, if_neg hunknown, if_neg hsort]
    rfl
  | some key =>
    obtain rfl := HintKey.ofToken?_eq_some_iff.mp hkey
    rw [hkey] at h
    cases key with
    | sort =>
      obtain ⟨sort, -, -, hevents⟩ := Traced.exists_of_bind_ok h
      exact hevents.trans (List.append_nil _)
    | limit =>
      obtain ⟨n, -, -, hevents⟩ := Traced.exists_of_bind_ok h
      exact hevents.trans (by rw [events_count]; rfl)
    | skip =>
      obtain ⟨n, -, -, hevents⟩ := Traced.exists_of_bind_ok h
      exact hevents.trans (by rw [events_count]; rfl)

theorem events_readEntries {hints hints' : Hints} {document : Document}
    (h : (readEntries hints document).outcome = .ok hints') :
    (readEntries hints document).events =
      document.flatMap fun entry => entryEvents entry.1 entry.2 := by
  induction document generalizing hints with
  | nil => rfl
  | cons entry entries ih =>
    rw [readEntries] at h ⊢
    obtain ⟨next, hfirst, hrest, hevents⟩ := Traced.exists_of_bind_ok h
    rw [hevents, events_readEntry hfirst, ih hrest, List.flatMap_cons]

theorem flatMap_unknownHint (document : Document) :
    (document.flatMap fun entry =>
        if entry.1 ∈ HintKey.all.map HintKey.token then [] else [Event.unknownHint entry.1]) =
      document.unknownHints.map .unknownHint := by
  induction document with
  | nil => rfl
  | cons entry entries ih =>
    rw [List.flatMap_cons, ih, Document.unknownHints, Document.unknownHints, List.map_cons,
      List.filter_cons]
    by_cases h : entry.1 ∈ HintKey.all.map HintKey.token <;> simp [h]

/-- The log of hints that are read, up to the order of its events. -/
theorem events_ofDocument {document : Document} {hints : Hints}
    (hnames : (document.map Prod.fst).Nodup) (h : (ofDocument document).outcome = .ok hints) :
    (ofDocument document).events.Perm (document.unknownHints.map .unknownHint ++
      (document.sorts.flatMap SortHint.unusable).map .unusableSort ++
      (document.sorts.flatMap SortHint.unrecognized).map fun entry =>
        .unknownDirection entry.2 entry.1) := by
  have hsort : (document.sorts.flatMap fun value => (SortHint.ofValue value).events) =
      (document.sorts.flatMap SortHint.unusable).map .unusableSort ++
        (document.sorts.flatMap SortHint.unrecognized).map fun entry =>
          .unknownDirection entry.2 entry.1 := by
    rw [Document.sorts]
    cases document.lookup HintKey.sort.token with
    | none => rfl
    | some value => simp [SortHint.events_ofValue]
  -- unknown keys may stand before and after the sort
  have hlog := List.flatMap_append_perm document
    (fun entry => if entry.1 ∈ HintKey.all.map HintKey.token then [] else [Event.unknownHint entry.1])
    (fun entry => if entry.1 = HintKey.sort.token then (SortHint.ofValue entry.2).events else [])
  rw [flatMap_unknownHint, flatMap_eq_lookup hnames HintKey.sort.token
    fun value => (SortHint.ofValue value).events, ← Document.sorts, hsort, ← List.append_assoc]
    at hlog
  rw [ofDocument, events_readEntries h]
  exact hlog.symm

end Hints

/-- Nothing is dropped silently, and nothing is reported twice. A filter that is read has one event
for every position without a node. Hints that are read have one warning for every unknown key and
one for an unusable sort, and apart from these one event for every direction that is a guess. -/
theorem events_of_accepted (document : Document) :
    (∀ filter, (Filter.ofDocument document).outcome = .ok filter →
      (∀ e ∈ (Filter.ofDocument document).events, e.level = .debug) ∧
      (Filter.ofDocument document).events.length = (visited document).countP Position.isSilent ∧
      ((Filter.ofDocument document).events = [] ↔ ∀ p ∈ visited document, p.Contributes)) ∧
    ∀ hints, (document.map Prod.fst).Nodup → (Hints.ofDocument document).outcome = .ok hints →
      ((Hints.ofDocument document).events.filter (·.level = .warn)).Perm
        (document.unknownHints.map .unknownHint ++
          (document.sorts.flatMap SortHint.unusable).map .unusableSort) ∧
      ((Hints.ofDocument document).events.filter (·.level = .debug)).Perm
        ((document.sorts.flatMap SortHint.unrecognized).map fun entry =>
          .unknownDirection entry.2 entry.1) := by
  constructor
  · intro filter h
    have haccounted := Filter.accounted_ofDocument h
    exact ⟨haccounted.debug, haccounted.length_eq, haccounted.events_eq_nil_iff⟩
  · intro hints hnames h
    have hlog := Hints.events_ofDocument hnames h
    constructor
    · simpa [List.filter_map, Event.level, Function.comp_def] using hlog.filter (·.level = .warn)
    · simpa [List.filter_map, Event.level, Function.comp_def] using hlog.filter (·.level = .debug)

/-- Two fields and an empty element are skipped in one group, and the other group is left empty. -/
def skippingDocument : Document :=
  [("$or", .array [.object [], .object [("a", .object [("$abc", .null)])], .object [("b", .null)],
      .object [("c", .object [])]]),
    ("$and", .array [.object [("d", .object [("$or", .null)])]])]

def guessingDocument : Document :=
  [("$order", .null), ("$sort", .object [("a", .string "up"), ("b", .string "asc"), ("c", .null)])]

theorem events_of_accepted_skipping :
    (Filter.ofDocument skippingDocument).events.length = 5 ∧
      ((Hints.ofDocument guessingDocument).events.filter (·.level = .warn)).Perm
        [.unknownHint "$order"] ∧
      ((Hints.ofDocument guessingDocument).events.filter (·.level = .debug)).Perm
        [.unknownDirection (.string "up") "a", .unknownDirection .null "c"] := by
  obtain ⟨-, hlength, -⟩ := (events_of_accepted skippingDocument).1 _ rfl
  obtain ⟨hwarn, hdebug⟩ := (events_of_accepted guessingDocument).2 _ (by decide) rfl
  exact ⟨hlength.trans (by decide), hwarn, hdebug⟩

end FilterQuery
