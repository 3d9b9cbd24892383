import FilterQuery.Document
import FilterQuery.Json.Record
import FilterQuery.Proofs.Lookup

/-!
# Values that are read

No value that is read has an object with a name twice, as fields are put one after another. Such a
value is read back from its own tree wherever as many arrays and objects may be open as it nests. A
record that is written as an object has its fields back by their names.
-/

namespace FilterQuery

namespace Json

/-! ## Names -/

namespace Fields

theorem map_fst_put (fields : Fields) (name : String) (value : Value) :
    (fields.put name value).map Prod.fst =
      if name ∈ fields.map Prod.fst then fields.map Prod.fst
      else fields.map Prod.fst ++ [name] := by
  induction fields with
  | nil => rfl
  | cons field fields ih =>
    obtain ⟨key, old⟩ := field
    rw [put]
    by_cases hkey : key = name
    · simp [hkey]
    · simp only [if_neg hkey, List.map_cons, ih, List.mem_cons, Ne.symm hkey, false_or]
      split <;> rfl

theorem mem_put {fields : Fields} {name : String} {value : Value} {field : String × Value}
    (h : field ∈ fields.put name value) : field ∈ fields ∨ field.2 = value := by
  induction fields with
  | nil =>
    rw [put, List.mem_singleton] at h
    exact .inr (congrArg Prod.snd h)
  | cons first fields ih =>
    obtain ⟨key, old⟩ := first
    rw [put] at h
    split at h
    · rcases List.mem_cons.mp h with rfl | hmem
      · exact .inr rfl
      · exact .inl (List.mem_cons_of_mem _ hmem)
    · rcases List.mem_cons.mp h with rfl | hmem
      · exact .inl List.mem_cons_self
      · exact (ih hmem).imp_left (List.mem_cons_of_mem _)

theorem distinct_put {fields : Fields} (h : (Value.object fields).Distinct) (name : String)
    {value : Value} (hvalue : value.Distinct) :
    (Value.object (fields.put name value)).Distinct := by
  cases h with
  | object names each =>
    refine .object ?_ fun field hfield => ?_
    · rw [map_fst_put]
      split
      · exact names
      · next hfresh =>
        have hfirst := List.nodup_cons.mpr ⟨hfresh, names⟩
        exact (List.perm_append_singleton name _).nodup_iff.mpr hfirst
    · rcases mem_put hfield with hmem | heq
      · exact each field hmem
      · exact heq ▸ hvalue

theorem distinct_ofPairs {pairs : Fields} (h : ∀ pair ∈ pairs, pair.2.Distinct) :
    (Value.object (ofPairs pairs)).Distinct := by
  have hfoldl (fields : Fields) (hfields : (Value.object fields).Distinct) :
      (Value.object (pairs.foldl (fun fields pair => put fields pair.1 pair.2) fields)).Distinct := by
    induction pairs generalizing fields with
    | nil => exact hfields
    | cons pair pairs ih =>
      obtain ⟨hpair, hpairs⟩ := List.forall_mem_cons.mp h
      exact ih hpairs _ (distinct_put hfields pair.1 hpair)
  exact hfoldl [] (.object List.nodup_nil (List.forall_mem_nil _))

end Fields

namespace Value

theorem distinct_of_itemsOfRaw? {depth : Nat}
    (h : ∀ raw v, ofRaw? depth raw = some v → v.Distinct) {items : List Raw} {vs : List Value}
    (hread : itemsOfRaw? depth items = some vs) : ∀ v ∈ vs, v.Distinct := by
  induction items generalizing vs with
  | nil =>
    cases hread
    exact List.forall_mem_nil _
  | cons item items ih =>
    simp only [itemsOfRaw?, Option.bind_eq_bind, Option.bind_eq_some_iff] at hread
    obtain ⟨v, hv, vs, hvs, heq⟩ := hread
    cases heq
    exact List.forall_mem_cons.mpr ⟨h item v hv, ih hvs⟩

theorem distinct_of_pairsOfRaw? {depth : Nat}
    (h : ∀ raw v, ofRaw? depth raw = some v → v.Distinct) {fields : List (Option String × Raw)}
    {pairs : Fields} (hread : pairsOfRaw? depth fields = some pairs) :
    ∀ pair ∈ pairs, pair.2.Distinct := by
  induction fields generalizing pairs with
  | nil =>
    cases hread
    exact List.forall_mem_nil _
  | cons field fields ih =>
    simp only [pairsOfRaw?, Option.bind_eq_bind, Option.bind_eq_some_iff] at hread
    obtain ⟨name, -, v, hv, pairs, hpairs, heq⟩ := hread
    cases heq
    exact List.forall_mem_cons.mpr ⟨h field.2 v hv, ih hpairs⟩

theorem distinct_of_ofRaw? {depth : Nat} {raw : Raw} {v : Value} (h : ofRaw? depth raw = some v) :
    v.Distinct := by
  induction depth using Nat.strongRecOn generalizing raw v with
  | ind depth ih =>
    cases raw with
    | null =>
      rw [ofRaw?] at h
      cases h
      exact .null
    | bool b =>
      rw [ofRaw?] at h
      cases h
      exact .bool b
    | number n =>
      rw [ofRaw?] at h
      obtain ⟨n, -, rfl⟩ := Option.map_eq_some_iff.mp h
      exact .number n
    | string s =>
      rw [ofRaw?] at h
      obtain ⟨s, -, rfl⟩ := Option.map_eq_some_iff.mp h
      exact .string s
    | array items =>
      cases depth with
      | zero => cases h
      | succ depth =>
        obtain ⟨vs, hvs, rfl⟩ := Option.map_eq_some_iff.mp h
        exact .array (distinct_of_itemsOfRaw? (fun _ _ => ih depth (Nat.lt_succ_self depth)) hvs)
    | object fields =>
      cases depth with
      | zero => cases h
      | succ depth =>
        obtain ⟨pairs, hpairs, rfl⟩ := Option.map_eq_some_iff.mp h
        refine Fields.distinct_ofPairs (distinct_of_pairsOfRaw? (fun _ _ => ?_) hpairs)
        exact ih depth (Nat.lt_succ_self depth)

/-! ## Nesting -/

mutual

/-- How many arrays and objects are open at the innermost place. -/
def height : Value → Nat
  | .array items => itemsHeight items + 1
  | .object fields => fieldsHeight fields + 1
  | _ => 0

def itemsHeight : List Value → Nat
  | [] => 0
  | item :: items => max (height item) (itemsHeight items)

def fieldsHeight : List (String × Value) → Nat
  | [] => 0
  | (_, value) :: fields => max (height value) (fieldsHeight fields)

end

theorem itemsHeight_le_iff {items : List Value} {depth : Nat} :
    itemsHeight items ≤ depth ↔ ∀ item ∈ items, item.height ≤ depth := by
  induction items with
  | nil => simp [itemsHeight]
  | cons item items ih => rw [itemsHeight, Nat.max_le, ih, List.forall_mem_cons]

theorem fieldsHeight_le_iff {fields : Fields} {depth : Nat} :
    fieldsHeight fields ≤ depth ↔ ∀ field ∈ fields, field.2.height ≤ depth := by
  induction fields with
  | nil => simp [fieldsHeight]
  | cons field fields ih => rw [fieldsHeight, Nat.max_le, ih, List.forall_mem_cons]

/-- An array opens one level above its items. -/
theorem height_array_le {items : List Value} {depth : Nat} (h : (Value.array items).height ≤ depth) :
    ∃ inner, depth = inner + 1 ∧ ∀ item ∈ items, item.height ≤ inner := by
  rw [height] at h
  obtain ⟨inner, rfl⟩ := Nat.exists_eq_add_of_le' (Nat.le_of_add_left_le h)
  exact ⟨inner, rfl, itemsHeight_le_iff.mp (Nat.le_of_add_le_add_right h)⟩

theorem height_object_le {fields : Fields} {depth : Nat}
    (h : (Value.object fields).height ≤ depth) :
    ∃ inner, depth = inner + 1 ∧ ∀ field ∈ fields, field.2.height ≤ inner := by
  rw [height] at h
  obtain ⟨inner, rfl⟩ := Nat.exists_eq_add_of_le' (Nat.le_of_add_left_le h)
  exact ⟨inner, rfl, fieldsHeight_le_iff.mp (Nat.le_of_add_le_add_right h)⟩

theorem height_single_le {name : String} {value : Value} {depth : Nat}
    (h : (object [(name, value)]).height ≤ depth) :
    ∃ inner, depth = inner + 1 ∧ value.height ≤ inner := by
  obtain ⟨inner, hdepth, hinner⟩ := height_object_le h
  exact ⟨inner, hdepth, hinner _ List.mem_cons_self⟩

theorem height_pair_le {first second : String} {value other : Value} {depth : Nat}
    (h : (object [(first, value), (second, other)]).height ≤ depth) :
    ∃ inner, depth = inner + 1 ∧ value.height ≤ inner ∧ other.height ≤ inner := by
  obtain ⟨inner, hdepth, hinner⟩ := height_object_le h
  exact ⟨inner, hdepth, hinner _ List.mem_cons_self,
    hinner _ (List.mem_cons_of_mem _ List.mem_cons_self)⟩

/-! ## Reading back -/

theorem itemsToRaw_eq_map (items : List Value) : itemsToRaw items = items.map toRaw := by
  induction items with
  | nil => rfl
  | cons item items ih => rw [itemsToRaw, ih, List.map_cons]

theorem toRaw_array_map {α : Type} (toValue : α → Value) (items : List α) :
    (array (items.map toValue)).toRaw = .array (items.map fun item => (toValue item).toRaw) := by
  rw [toRaw, itemsToRaw_eq_map, List.map_map]
  rfl

theorem itemsOfRaw?_itemsToRaw {depth : Nat} {items : List Value}
    (h : ∀ item ∈ items, ofRaw? depth item.toRaw = some item) :
    itemsOfRaw? depth (itemsToRaw items) = some items := by
  induction items with
  | nil => rfl
  | cons item items ih =>
    obtain ⟨hitem, hitems⟩ := List.forall_mem_cons.mp h
    rw [itemsToRaw, itemsOfRaw?, hitem, ih hitems]
    rfl

theorem pairsOfRaw?_fieldsToRaw {depth : Nat} {fields : Fields}
    (h : ∀ field ∈ fields, ofRaw? depth field.2.toRaw = some field.2) :
    pairsOfRaw? depth (fieldsToRaw fields) = some fields := by
  induction fields with
  | nil => rfl
  | cons field fields ih =>
    obtain ⟨hfield, hfields⟩ := List.forall_mem_cons.mp h
    rw [fieldsToRaw, pairsOfRaw?, hfield, ih hfields]
    rfl

/-- A value is read back from its own tree. -/
theorem ofRaw?_toRaw {v : Value} (hdistinct : v.Distinct) {depth : Nat} (hdepth : v.height ≤ depth) :
    ofRaw? depth v.toRaw = some v := by
  induction hdistinct generalizing depth with
  | null => rw [toRaw, ofRaw?]
  | bool b => rw [toRaw, ofRaw?]
  | number n => rw [toRaw, ofRaw?, Option.map_some]
  | string s => rw [toRaw, ofRaw?, Option.map_some]
  | array _ ih =>
    obtain ⟨inner, rfl, hinner⟩ := height_array_le hdepth
    have hread := itemsOfRaw?_itemsToRaw fun item hitem => ih item hitem (hinner item hitem)
    rw [toRaw, ofRaw?, hread, Option.map_some]
  | object names _ ih =>
    obtain ⟨inner, rfl, hinner⟩ := height_object_le hdepth
    have hread := pairsOfRaw?_fieldsToRaw fun field hfield => ih field hfield (hinner field hfield)
    rw [toRaw, ofRaw?, hread, Option.map_some, Fields.ofPairs_eq names]

end Value

/-! ## Records -/

namespace Raw

theorem knownFields?_map {names : List String} {fields : List (String × Raw)}
    (hnames : ∀ field ∈ fields, field.1 ∈ names) (hdistinct : (fields.map Prod.fst).Nodup) :
    knownFields? names (fields.map fun field => (some field.1, field.2)) = some fields := by
  induction fields with
  | nil => rfl
  | cons field fields ih =>
    obtain ⟨name, value⟩ := field
    obtain ⟨hname, hfields⟩ := List.forall_mem_cons.mp hnames
    rw [List.map_cons, List.nodup_cons] at hdistinct
    rw [List.map_cons, knownFields?, ih hfields hdistinct.2]
    simp [not_not_intro hname, lookup_eq_none_of_not_mem hdistinct.1]

/-- A record that has its fields and no others, in any order. -/
theorem record?_object {names : List String} {fields : List (String × Raw)}
    (hnames : ∀ field ∈ fields, field.1 ∈ names) (hdistinct : (fields.map Prod.fst).Nodup) :
    (object (fields.map fun field => (some field.1, field.2))).record? names = some fields :=
  knownFields?_map hnames hdistinct

theorem record?_pair {first second : String} (h : first ≠ second) (value other : Raw) :
    (object [(some first, value), (some second, other)]).record? [first, second] =
      some [(first, value), (second, other)] :=
  @record?_object [first, second] [(first, value), (second, other)] (by simp) (by simpa using h)

end Raw

/-- Items that are each read back from what is written for them. -/
theorem mapM_map_eq_some {α β : Type} {write : α → β} {read : β → Option α} {items : List α}
    (h : ∀ item ∈ items, read (write item) = some item) :
    (items.map write).mapM read = some items := by
  induction items with
  | nil => rfl
  | cons item items ih =>
    obtain ⟨hitem, hitems⟩ := List.forall_mem_cons.mp h
    rw [List.map_cons, List.mapM_cons, hitem, ih hitems]
    rfl

end Json

/-- A document that is read has different names, and so has every object in it. -/
theorem Document.distinct_of_read {text : String} {document : Document}
    (h : Document.read text = .ok document) : (Json.Value.object document).Distinct := by
  rw [Document.read] at h
  split at h
  · next value hvalue =>
    obtain ⟨raw, -, hraw⟩ := Option.bind_eq_some_iff.mp hvalue
    have hdistinct := Json.Value.distinct_of_ofRaw? hraw
    cases value with
    | object fields =>
      cases h
      exact hdistinct
    | _ => cases h
  · cases h

end FilterQuery
