import FilterQuery.Proofs.Hints.Counts
import FilterQuery.Proofs.Reports

/-!
# Hints are read key by key

Reading goes through the entries and sets a hint for each of the three keys. It stops at the first
limit or skip that is no count, and nothing else stops it. As the keys of a document are different,
each hint depends on the value of its own key, wherever that stands and whatever stands beside it.
-/

namespace FilterQuery

open Json (Numeral Value)

/-- The sort that a value asks for. -/
def SortHint.ofValue? : Value → Option SortHint
  | .string field => some (.byField field)
  | .object entries => some (.byKeys (entries.map fun entry => ⟨entry.1, Direction.ofToken entry.2⟩))
  | _ => none

/-- No value is refused as a sort. -/
theorem SortHint.outcome_ofValue (value : Value) : (ofValue value).outcome = .ok (ofValue? value) := by
  cases value with
  | object entries =>
    rw [ofValue, SortKey.ofEntries_eq]
    rfl
  | _ => rfl

namespace Hints

theorem outcome_count (key : HintKey) (value : Value) : (count key value).outcome =
    match Count.ofValue? value with
    | some n => .ok n
    | none => .error (.hint key value) := by
  rw [count]
  cases Count.ofValue? value <;> rfl

/-- The hints with the value of an entry in the place of its key. -/
def set (hints : Hints) (name : String) (value : Value) : Hints :=
  match HintKey.ofToken? name with
  | some .sort => { hints with sort := SortHint.ofValue? value }
  | some .limit => { hints with limit := Count.ofValue? value }
  | some .skip => { hints with skip := Count.ofValue? value }
  | none => hints

/-- What is wrong with an entry: only a limit or a skip can be, if it is no count. -/
def fault? (name : String) (value : Value) : Option Error :=
  match HintKey.ofToken? name, Count.ofValue? value with
  | some .limit, none => some (.hint .limit value)
  | some .skip, none => some (.hint .skip value)
  | _, _ => none

theorem outcome_readEntry (hints : Hints) (name : String) (value : Value) :
    (readEntry hints name value).outcome =
      match fault? name value with
      | some e => .error e
      | none => .ok (hints.set name value) := by
  rw [readEntry, fault?, set]
  cases HintKey.ofToken? name with
  | none => rfl
  | some key =>
    cases key with
    | sort =>
      rw [Traced.outcome_bind, SortHint.outcome_ofValue]
      rfl
    | limit =>
      rw [Traced.outcome_bind, outcome_count]
      cases Count.ofValue? value <;> rfl
    | skip =>
      rw [Traced.outcome_bind, outcome_count]
      cases Count.ofValue? value <;> rfl

/-- The first faulty entry ends reading; without one every entry has its effect. -/
theorem outcome_readEntries (hints : Hints) (document : Document) :
    (readEntries hints document).outcome =
      match document.findSome? fun entry => fault? entry.1 entry.2 with
      | some e => .error e
      | none => .ok (document.foldl (fun hints entry => hints.set entry.1 entry.2) hints) := by
  induction document generalizing hints with
  | nil => rfl
  | cons entry entries ih =>
    obtain ⟨name, value⟩ := entry
    rw [readEntries, Traced.outcome_bind, outcome_readEntry, List.findSome?_cons, List.foldl_cons]
    cases fault? name value with
    | some e => rfl
    | none => exact ih (hints.set name value)

end Hints

namespace Document

def hint? (document : Document) (key : HintKey) : Option Value :=
  document.lookup key.token

/-- The entries of the three keys. -/
def knownHints (document : Document) : Document :=
  document.filter fun entry => (HintKey.ofToken? entry.1).isSome

/-- The hint is missing, or its value is a number that fits a count. -/
def ValidCount (document : Document) (key : HintKey) : Prop :=
  ∀ value, document.hint? key = some value → ∃ n < UInt64.size, value.Denotes n

theorem not_validCount_iff {document : Document} {key : HintKey} :
    ¬ document.ValidCount key ↔
      ∃ value, document.hint? key = some value ∧ Count.ofValue? value = none := by
  simp only [ValidCount, Count.ofValue?_eq_none_iff, not_forall, not_exists, exists_prop, not_and]

theorem faulty_unique {document : Document}
    (hone : document.ValidCount .limit ↔ ¬ document.ValidCount .skip) {key key' : HintKey}
    (hkey : key ≠ .sort) (hkey' : key' ≠ .sort) (h : ¬ document.ValidCount key)
    (h' : ¬ document.ValidCount key') : key = key' := by
  cases key with
  | sort => exact absurd rfl hkey
  | limit =>
    cases key' with
    | sort => exact absurd rfl hkey'
    | limit => rfl
    | skip => exact absurd (hone.mpr h') h
  | skip =>
    cases key' with
    | sort => exact absurd rfl hkey'
    | limit => exact absurd (hone.mpr h) h'
    | skip => rfl

theorem hint?_of_perm {document other : Document} (hnames : (document.map Prod.fst).Nodup)
    (h : document.knownHints.Perm other.knownHints) (key : HintKey) :
    document.hint? key = other.hint? key := by
  have hknown : (HintKey.ofToken? key.token).isSome := by rw [HintKey.ofToken?_token]; rfl
  have hdistinct : (document.knownHints.map Prod.fst).Nodup :=
    hnames.sublist (List.filter_sublist.map Prod.fst)
  have hlookup (document : Document) : document.knownHints.lookup key.token = document.hint? key :=
    lookup_filter (fun name => (HintKey.ofToken? name).isSome) hknown document
  rw [← hlookup document, ← hlookup other]
  exact lookup_eq_of_perm hdistinct h key.token

end Document

namespace Hints

theorem sort_set (hints : Hints) (name : String) (value : Value) :
    (hints.set name value).sort =
      if name = HintKey.sort.token then SortHint.ofValue? value else hints.sort := by
  simp only [set, ← HintKey.ofToken?_eq_some_iff]
  cases HintKey.ofToken? name with
  | none => rfl
  | some key => cases key <;> rfl

theorem limit_set (hints : Hints) (name : String) (value : Value) :
    (hints.set name value).limit =
      if name = HintKey.limit.token then Count.ofValue? value else hints.limit := by
  simp only [set, ← HintKey.ofToken?_eq_some_iff]
  cases HintKey.ofToken? name with
  | none => rfl
  | some key => cases key <;> rfl

theorem skip_set (hints : Hints) (name : String) (value : Value) :
    (hints.set name value).skip =
      if name = HintKey.skip.token then Count.ofValue? value else hints.skip := by
  simp only [set, ← HintKey.ofToken?_eq_some_iff]
  cases HintKey.ofToken? name with
  | none => rfl
  | some key => cases key <;> rfl

/-- A hint that only the entries of one key set has the value of that key in the end. -/
theorem foldl_set {α : Type} {key : HintKey} {hint : Hints → Option α} {read : Value → Option α}
    (hset : ∀ hints name value,
      hint (hints.set name value) = if name = key.token then read value else hint hints)
    {document : Document} (hnames : (document.map Prod.fst).Nodup) (hints : Hints) :
    hint (document.foldl (fun hints entry => hints.set entry.1 entry.2) hints) =
      (document.hint? key).elim (hint hints) read := by
  induction document generalizing hints with
  | nil => rfl
  | cons entry entries ih =>
    obtain ⟨name, value⟩ := entry
    rw [List.map_cons, List.nodup_cons] at hnames
    rw [List.foldl_cons, ih hnames.2, hset, Document.hint?, Document.hint?]
    by_cases hname : name = key.token
    · subst hname
      -- no later entry sets the hint again
      rw [lookup_eq_none_of_not_mem hnames.1, List.lookup_cons_self, if_pos rfl]
      rfl
    · rw [lookup_cons_of_ne (Ne.symm hname), if_neg hname]

/-- What hints hold is told by the values of the three keys, if no limit or skip is faulty. -/
theorem outcome_ofDocument {document : Document} (hnames : (document.map Prod.fst).Nodup) :
    (ofDocument document).outcome =
      match document.findSome? fun entry => fault? entry.1 entry.2 with
      | some e => .error e
      | none => .ok ⟨(document.hint? .sort).bind SortHint.ofValue?,
          (document.hint? .limit).bind Count.ofValue?,
          (document.hint? .skip).bind Count.ofValue?⟩ := by
  rw [ofDocument, outcome_readEntries]
  cases document.findSome? fun entry => fault? entry.1 entry.2 with
  | some e => rfl
  | none =>
    have hsort := foldl_set sort_set hnames empty
    have hlimit := foldl_set limit_set hnames empty
    have hskip := foldl_set skip_set hnames empty
    generalize document.foldl (fun hints entry => hints.set entry.1 entry.2) empty = hints
      at hsort hlimit hskip
    have hbind {α : Type} (value : Option Value) (read : Value → Option α) :
        value.elim none read = value.bind read := by
      cases value <;> rfl
    obtain ⟨sort, limit, skip⟩ := hints
    obtain rfl := hsort.trans (hbind _ _)
    obtain rfl := hlimit.trans (hbind _ _)
    obtain rfl := hskip.trans (hbind _ _)
    rfl

theorem eq_of_outcome_ofDocument {document : Document} (hnames : (document.map Prod.fst).Nodup)
    {hints : Hints} (h : (ofDocument document).outcome = .ok hints) :
    hints = ⟨(document.hint? .sort).bind SortHint.ofValue?,
      (document.hint? .limit).bind Count.ofValue?,
      (document.hint? .skip).bind Count.ofValue?⟩ := by
  rw [outcome_ofDocument hnames] at h
  split at h
  · cases h
  · exact (Except.ok.inj h).symm

theorem fault?_eq_some_iff {name : String} {value : Value} {e : Error} :
    fault? name value = some e ↔ ∃ key : HintKey, key ≠ .sort ∧ name = key.token ∧
      Count.ofValue? value = none ∧ e = .hint key value := by
  rw [fault?]
  constructor
  · intro h
    split at h
    · next hkey hcount =>
      exact ⟨.limit, nofun, HintKey.ofToken?_eq_some_iff.mp hkey, hcount, (Option.some.inj h).symm⟩
    · next hkey hcount =>
      exact ⟨.skip, nofun, HintKey.ofToken?_eq_some_iff.mp hkey, hcount, (Option.some.inj h).symm⟩
    · cases h
  · rintro ⟨key, hkey, rfl, hcount, rfl⟩
    rw [HintKey.ofToken?_token, hcount]
    cases key with
    | sort => exact absurd rfl hkey
    | limit => rfl
    | skip => rfl

/-- A document is refused for a hint that it has, and only if the value of that is no count. -/
theorem exists_of_findSome?_fault? {document : Document} (hnames : (document.map Prod.fst).Nodup)
    {e : Error} (h : (document.findSome? fun entry => fault? entry.1 entry.2) = some e) :
    ∃ key : HintKey, key ≠ .sort ∧ ∃ value, document.hint? key = some value ∧
      Count.ofValue? value = none ∧ e = .hint key value := by
  obtain ⟨⟨name, value⟩, hmem, hfault⟩ := List.exists_of_findSome?_eq_some h
  obtain ⟨key, hkey, rfl, hcount, rfl⟩ := fault?_eq_some_iff.mp hfault
  exact ⟨key, hkey, value, (lookup_eq_some_iff_mem hnames).mpr hmem, hcount, rfl⟩

theorem findSome?_fault?_eq_none_iff {document : Document}
    (hnames : (document.map Prod.fst).Nodup) :
    (document.findSome? fun entry => fault? entry.1 entry.2) = none ↔
      document.ValidCount .limit ∧ document.ValidCount .skip := by
  constructor
  · intro h
    have hcount (key : HintKey) (hkey : key ≠ .sort) : document.ValidCount key := by
      by_contra hfaulty
      obtain ⟨value, hvalue, hcount⟩ := Document.not_validCount_iff.mp hfaulty
      have hmem := (lookup_eq_some_iff_mem hnames).mp hvalue
      have hfault := fault?_eq_some_iff.mpr ⟨key, hkey, rfl, hcount, rfl⟩
      rw [List.findSome?_eq_none_iff.mp h _ hmem] at hfault
      cases hfault
    exact ⟨hcount .limit nofun, hcount .skip nofun⟩
  · rintro ⟨hlimit, hskip⟩
    cases h : document.findSome? fun entry => fault? entry.1 entry.2 with
    | none => rfl
    | some e =>
      obtain ⟨key, hkey, hfaulty⟩ := exists_of_findSome?_fault? hnames h
      have hcount := Document.not_validCount_iff.mpr
        (hfaulty.imp fun value hvalue => ⟨hvalue.1, hvalue.2.1⟩)
      cases key with
      | sort => exact absurd rfl hkey
      | limit => exact absurd hlimit hcount
      | skip => exact absurd hskip hcount

theorem exists_outcome_ofDocument_iff {document : Document}
    (hnames : (document.map Prod.fst).Nodup) :
    (∃ hints, (ofDocument document).outcome = .ok hints) ↔
      document.ValidCount .limit ∧ document.ValidCount .skip := by
  rw [← findSome?_fault?_eq_none_iff hnames, outcome_ofDocument hnames]
  cases document.findSome? fun entry => fault? entry.1 entry.2 with
  | some e => exact iff_of_false nofun nofun
  | none => exact iff_of_true ⟨_, rfl⟩ rfl

/-- Hints are read if the limit and the skip are counts where they are there, and each of them is
told by the value of its key. So it makes no difference in which order the entries stand and which
other keys there are, except that of two faulty counts the first one is reported. -/
theorem ofDocument_by_key {document : Document} (hnames : (document.map Prod.fst).Nodup) :
    ((∃ hints, (ofDocument document).outcome = .ok hints) ↔
      document.ValidCount .limit ∧ document.ValidCount .skip) ∧
    (∀ hints, (ofDocument document).outcome = .ok hints →
      hints = ⟨(document.hint? .sort).bind SortHint.ofValue?,
        (document.hint? .limit).bind Count.ofValue?,
        (document.hint? .skip).bind Count.ofValue?⟩) ∧
    ∀ other : Document, (other.map Prod.fst).Nodup → document.knownHints.Perm other.knownHints →
      ((∃ hints, (ofDocument document).outcome = .ok hints ∧
          (ofDocument other).outcome = .ok hints) ∨
        ∃ e e', (ofDocument document).outcome = .error e ∧ (ofDocument other).outcome = .error e') ∧
      ((document.ValidCount .limit ↔ ¬ document.ValidCount .skip) →
        ∃ key value, document.hint? key = some value ∧
          (ofDocument document).outcome = .error (.hint key value) ∧
          (ofDocument other).outcome = .error (.hint key value)) := by
  have hread := outcome_ofDocument hnames
  have haccepted := findSome?_fault?_eq_none_iff hnames
  refine ⟨exists_outcome_ofDocument_iff hnames,
    fun hints hhints => eq_of_outcome_ofDocument hnames hhints, fun other hother hperm => ?_⟩
  have hsame := Document.hint?_of_perm hnames hperm
  have hreadOther := outcome_ofDocument hother
  have hvalid (key : HintKey) : other.ValidCount key ↔ document.ValidCount key := by
    rw [Document.ValidCount, Document.ValidCount, hsame]
  have hacceptedOther := findSome?_fault?_eq_none_iff hother
  rw [hvalid, hvalid, ← haccepted] at hacceptedOther
  constructor
  · cases hfault : document.findSome? fun entry => fault? entry.1 entry.2 with
    | none =>
      rw [hfault] at hread
      rw [hacceptedOther.mpr hfault, ← hsame, ← hsame, ← hsame] at hreadOther
      exact .inl ⟨_, hread, hreadOther⟩
    | some e =>
      have hsome := mt hacceptedOther.mp (hfault ▸ nofun)
      obtain ⟨e', hfault'⟩ := Option.ne_none_iff_exists'.mp hsome
      rw [hfault] at hread
      rw [hfault'] at hreadOther
      exact .inr ⟨e, e', hread, hreadOther⟩
  · intro hone
    have hsome := mt haccepted.mp fun hboth => hone.mp hboth.1 hboth.2
    obtain ⟨e, hfault⟩ := Option.ne_none_iff_exists'.mp hsome
    obtain ⟨e', hfault'⟩ := Option.ne_none_iff_exists'.mp (mt hacceptedOther.mp hsome)
    rw [hfault] at hread
    rw [hfault'] at hreadOther
    obtain ⟨key, hkey, value, hvalue, hcount, rfl⟩ := exists_of_findSome?_fault? hnames hfault
    obtain ⟨key', hkey', value', hvalue', hcount', rfl⟩ :=
      exists_of_findSome?_fault? hother hfault'
    rw [← hsame] at hvalue'
    obtain rfl := Document.faulty_unique hone hkey hkey'
      (Document.not_validCount_iff.mpr ⟨value, hvalue, hcount⟩)
      (Document.not_validCount_iff.mpr ⟨value', hvalue', hcount'⟩)
    obtain rfl := Option.some.inj (hvalue.symm.trans hvalue')
    exact ⟨key, value, hvalue, hread, hreadOther⟩

/-- The skip is a count, however it is written, and the limit is not. -/
def faultyDocument : Document :=
  [("$page", .null), ("$skip", .string " +007"), ("$sort", .string "a"),
    ("$limit", .number (.int (-1)))]

def shuffledDocument : Document :=
  [("$limit", .number (.int (-1))), ("$skip", .string " +007"), ("$sort", .string "a"),
    ("$order", .string "a")]

theorem ofDocument_by_key_shuffled :
    (faultyDocument.map Prod.fst).Nodup ∧ (shuffledDocument.map Prod.fst).Nodup ∧
      faultyDocument.knownHints.Perm shuffledDocument.knownHints ∧
      (faultyDocument.ValidCount .limit ↔ ¬ faultyDocument.ValidCount .skip) ∧
      ∃ key value, faultyDocument.hint? key = some value ∧
        (ofDocument faultyDocument).outcome = .error (.hint key value) ∧
        (ofDocument shuffledDocument).outcome = .error (.hint key value) := by
  have hnames : (faultyDocument.map Prod.fst).Nodup := by decide
  have hother : (shuffledDocument.map Prod.fst).Nodup := by decide
  have hperm : faultyDocument.knownHints.Perm shuffledDocument.knownHints :=
    @List.perm_append_comm _ [_, _] [_]
  have hskip : faultyDocument.ValidCount .skip := by
    rintro value ⟨⟩
    have hread : Count.ofValue? (.string " +007") = some 7 := by decide
    exact ⟨7, by decide, Count.ofValue?_eq_some_iff.mp hread⟩
  have hlimit : ¬ faultyDocument.ValidCount .limit :=
    Document.not_validCount_iff.mpr ⟨_, rfl, rfl⟩
  have hone := iff_of_false hlimit (not_not_intro hskip)
  obtain ⟨-, -, hsame⟩ := ofDocument_by_key hnames
  exact ⟨hnames, hother, hperm, hone, (hsame shuffledDocument hother hperm).2 hone⟩

theorem outcome_alone (name : String) (value : Value) : (ofDocument [(name, value)]).outcome =
    match fault? name value with
    | some e => .error e
    | none => .ok (empty.set name value) := by
  rw [ofDocument, outcome_readEntries, List.findSome?_singleton]
  rfl

/-- A limit or a skip is a number from 0 to 2^64 - 1, given as an integer or as a text of digits that
may have a plus sign in front and white space around it. Any other value is refused under the name of
the hint. A numeral gives such an integer only if it is digits alone. -/
theorem ofDocument_count (value : Value) :
    (∀ n : Count,
      ((ofDocument [("$limit", value)]).outcome = .ok ⟨none, some n, none⟩ ↔
        value.Denotes n.toNat) ∧
      ((ofDocument [("$skip", value)]).outcome = .ok ⟨none, none, some n⟩ ↔
        value.Denotes n.toNat)) ∧
    ((ofDocument [("$limit", value)]).outcome = .error (.hint .limit value) ↔
      ∀ n < UInt64.size, ¬ value.Denotes n) ∧
    ((ofDocument [("$skip", value)]).outcome = .error (.hint .skip value) ↔
      ∀ n < UInt64.size, ¬ value.Denotes n) ∧
    ∀ numeral : Numeral, numeral.number?.map .number = some value →
      ∀ n : Count, value.Denotes n.toNat ↔ numeral.negative = false ∧ numeral.fraction = [] ∧
        numeral.exponent = none ∧ Text.decimal numeral.whole = n.toNat := by
  have hlimit : (ofDocument [("$limit", value)]).outcome =
      match Count.ofValue? value with
      | some n => .ok ⟨none, some n, none⟩
      | none => .error (.hint .limit value) := by
    rw [outcome_alone, fault?, set]
    cases Count.ofValue? value <;> rfl
  have hskip : (ofDocument [("$skip", value)]).outcome =
      match Count.ofValue? value with
      | some n => .ok ⟨none, none, some n⟩
      | none => .error (.hint .skip value) := by
    rw [outcome_alone, fault?, set]
    cases Count.ofValue? value <;> rfl
  refine ⟨fun n => ?_, ?_, ?_, fun numeral hnumeral n => ?_⟩
  · rw [hlimit, hskip, ← Count.ofValue?_eq_some_iff]
    cases Count.ofValue? value <;> simp
  · rw [hlimit, ← Count.ofValue?_eq_none_iff]
    cases Count.ofValue? value <;> simp
  · rw [hskip, ← Count.ofValue?_eq_none_iff]
    cases Count.ofValue? value <;> simp
  · obtain ⟨number, hnumber, rfl⟩ := Option.map_eq_some_iff.mp hnumeral
    exact Numeral.denotes_number?_iff hnumber n

/-- As a text the largest count may have leading zeros; `-0` is refused although it is zero. -/
theorem ofDocument_count_largest :
    (ofDocument [("$limit", .string " +0018446744073709551615 ")]).outcome =
        .ok ⟨none, some 18446744073709551615, none⟩ ∧
      (∃ numeral : Numeral, numeral.negative = true ∧ Text.decimal numeral.whole = 0 ∧
        numeral.number? = some (.float (Binary64.zero true))) ∧
      (ofDocument [("$skip", .number (.float (Binary64.zero true)))]).outcome =
        .error (.hint .skip (.number (.float (Binary64.zero true)))) := by
  obtain ⟨hread, -, -, -⟩ := ofDocument_count (.string " +0018446744073709551615 ")
  obtain ⟨-, -, hrefused, hnumeral⟩ := ofDocument_count (.number (.float (Binary64.zero true)))
  have hlargest : Count.ofValue? (.string " +0018446744073709551615 ") =
      some 18446744073709551615 := by decide
  let minusZero : Numeral := ⟨true, ['0'], [], none⟩
  have hzero : minusZero.number? = some (.float (Binary64.zero true)) := by rfl
  have hsign := hnumeral minusZero (congrArg (Option.map Value.number) hzero)
  refine ⟨(hread _).1.mpr (Count.ofValue?_eq_some_iff.mp hlargest),
    ⟨minusZero, rfl, by decide, hzero⟩, hrefused.mpr fun n hn hdenotes => ?_⟩
  have hvalue : (UInt64.ofNatLT n hn).toNat = n := UInt64.toNat_ofNatLT
  rw [← hvalue] at hdenotes
  exact Bool.false_ne_true ((hsign _).mp hdenotes).1.symm

end Hints

end FilterQuery
