import FilterQuery.Filter.Encoding
import FilterQuery.Proofs.Distinction
import FilterQuery.Proofs.Filter.Image
import FilterQuery.Proofs.Hints.Counts
import FilterQuery.Proofs.Json.Reading
import FilterQuery.Relational.Query
import FilterQuery.Search.Query

/-!
# Filters and hints are read back

What is written for a filter or for hints is read back as the same filter or hints, whatever stands
in the operands and whatever the fields are called: a variant is told by its place, never by its
contents. So the values of two filters are equal only if the filters are.
-/

namespace FilterQuery

open Json (Raw Value)

open Json (mapM_map_eq_some)
open Json.Value (height_single_le height_pair_le height_array_le ofRaw?_toRaw)

/-! ## Filters -/

theorem Node.Every.forall_conditions {P : Condition → Prop} {node : Node} (h : node.Every P) :
    ∀ c ∈ node.conditions, P c := by
  induction h with
  | condition holds => exact List.forall_mem_singleton.mpr holds
  | group kind _ _ ih =>
    intro c hc
    rw [conditions_group] at hc
    obtain ⟨item, hitem, hc⟩ := List.mem_flatMap.mp hc
    exact ih item hitem c hc

/-- The operands of a filter that is read from a text repeat no name. -/
theorem Filter.distinct_of_read {text : String} {document : Document} {filter : Filter}
    (hread : Document.read text = .ok document)
    (h : (ofDocument document).outcome = .ok filter) : ∀ c ∈ filter.conditions, c.Distinct := by
  have hvalues := (Document.distinct_of_read hread).of_object
  obtain ⟨nodes, hnodes, h⟩ := Traced.outcome_bind_eq_ok.mp h
  cases h
  intro c hc
  obtain ⟨node, hnode, hc⟩ := List.mem_flatMap.mp hc
  obtain ⟨entry, hmem, hentry⟩ := Node.exists_entry_of_mem_ofEntries hnodes node hnode
  have hdistinct := (Node.wellFormed_ofEntry_and_ofElements.1 entry.1 entry.2 node hentry).2
  exact (hdistinct (hvalues entry hmem)).forall_conditions c hc

namespace Op

/-- A variant without operands may be written as a field that is null. Only two names are such
variants; a field with another name is a variant with its payload. -/
theorem ofRaw?_variant {variant : String} (h : variant ≠ "IsNull") (h' : variant ≠ "IsNotNull")
    (depth : Nat) (payload : Raw) :
    ofRaw? (depth + 1) (.object [(some variant, payload)]) = ofPayload? depth variant payload := by
  cases payload <;> simp [ofRaw?, Raw.unitVariant?, h, h']

theorem operands?_toRaw {operands : List Value} (hdistinct : ∀ v ∈ operands, v.Distinct)
    {depth : Nat} (hdepth : (Value.array operands).height ≤ depth) :
    operands? depth (Value.array operands).toRaw = some operands := by
  obtain ⟨inner, rfl, hinner⟩ := height_array_le hdepth
  rw [Value.toRaw, operands?]
  exact Value.itemsOfRaw?_itemsToRaw fun v hv => ofRaw?_toRaw (hdistinct v hv) (hinner v hv)

theorem ofRaw?_payload {variant : String} {payload : Value} {depth : Nat}
    (hdepth : (Value.object [(variant, payload)]).height ≤ depth) {op : Op}
    (hread : ∀ inner, payload.height ≤ inner →
      ofPayload? inner variant payload.toRaw = some op) :
    ofRaw? depth (Value.object [(variant, payload)]).toRaw = some op := by
  obtain ⟨inner, rfl, hinner⟩ := height_single_le hdepth
  have hop := hread inner hinner
  -- under the names of the variants without operands no payload is read
  have hnull : variant ≠ "IsNull" := by
    rintro rfl
    cases hop
  have hnotNull : variant ≠ "IsNotNull" := by
    rintro rfl
    cases hop
  exact (ofRaw?_variant hnull hnotNull inner payload.toRaw).trans hop

theorem ofRaw?_operand {variant : String} {make : Value → Op}
    (hmake : ∀ depth payload, ofPayload? depth variant payload =
      (Value.ofRaw? depth payload).map make)
    {operand : Value} (hdistinct : operand.Distinct) {depth : Nat}
    (hdepth : (Value.object [(variant, operand)]).height ≤ depth) :
    ofRaw? depth (Value.object [(variant, operand)]).toRaw = some (make operand) := by
  refine ofRaw?_payload hdepth fun inner hinner => ?_
  rw [hmake, ofRaw?_toRaw hdistinct hinner, Option.map_some]

theorem ofRaw?_operands {variant : String} {make : List Value → Op}
    (hmake : ∀ depth payload, ofPayload? depth variant payload =
      (operands? depth payload).map make)
    {operands : List Value} (hdistinct : ∀ v ∈ operands, v.Distinct) {depth : Nat}
    (hdepth : (Value.object [(variant, .array operands)]).height ≤ depth) :
    ofRaw? depth (Value.object [(variant, .array operands)]).toRaw = some (make operands) := by
  refine ofRaw?_payload hdepth fun inner hinner => ?_
  rw [hmake, operands?_toRaw hdistinct hinner, Option.map_some]

theorem ofRaw?_toValue {op : Op} (hdistinct : ∀ v ∈ op.operands, v.Distinct) {depth : Nat}
    (hdepth : op.toValue.height ≤ depth) : ofRaw? depth op.toValue.toRaw = some op := by
  cases op with
  | eq operand =>
    exact ofRaw?_operand (fun _ _ => rfl) (List.forall_mem_singleton.mp hdistinct) hdepth
  | notEq operand =>
    exact ofRaw?_operand (fun _ _ => rfl) (List.forall_mem_singleton.mp hdistinct) hdepth
  | gt bound =>
    exact ofRaw?_operand (fun _ _ => rfl) (List.forall_mem_singleton.mp hdistinct) hdepth
  | gte bound =>
    exact ofRaw?_operand (fun _ _ => rfl) (List.forall_mem_singleton.mp hdistinct) hdepth
  | lt bound =>
    exact ofRaw?_operand (fun _ _ => rfl) (List.forall_mem_singleton.mp hdistinct) hdepth
  | lte bound =>
    exact ofRaw?_operand (fun _ _ => rfl) (List.forall_mem_singleton.mp hdistinct) hdepth
  | oneOf operands => exact ofRaw?_operands (fun _ _ => rfl) hdistinct hdepth
  | noneOf operands => exact ofRaw?_operands (fun _ _ => rfl) hdistinct hdepth
  | like pattern => exact ofRaw?_payload hdepth fun _ _ => rfl
  | between lower upper =>
    refine ofRaw?_payload hdepth fun inner hinner => ?_
    have hread : operands? inner (Value.array [lower, upper]).toRaw = some [lower, upper] :=
      operands?_toRaw hdistinct hinner
    simp only [ofPayload?, hread]
  | isNull => cases depth <;> rfl
  | isNotNull => cases depth <;> rfl

end Op

theorem Condition.ofRaw?_toValue {c : Condition} (hdistinct : c.Distinct) {depth : Nat}
    (hdepth : c.toValue.height ≤ depth) : ofRaw? depth c.toValue.toRaw = some c := by
  obtain ⟨inner, rfl, -, hinner⟩ := height_pair_le hdepth
  have hfields : c.toValue.toRaw.record? ["field", "op"] =
      some [("field", .string (some c.field)), ("op", c.op.toValue.toRaw)] :=
    Raw.record?_pair (by decide) _ _
  have hop := Op.ofRaw?_toValue hdistinct hinner
  rw [ofRaw?, hfields]
  exact congrArg (Option.bind · fun op => some (mk c.field op)) hop

theorem GroupKind.ofRaw?_name (depth : Nat) (kind : GroupKind) :
    ofRaw? depth (.string (some kind.name)) = some kind := by
  cases kind <;> cases depth <;> rfl

namespace Node

theorem toValues_eq_map (nodes : List Node) : toValues nodes = nodes.map toValue := by
  induction nodes with
  | nil => rfl
  | cons node nodes ih => rw [toValues, ih, List.map_cons]

theorem toRaw_toValues (nodes : List Node) :
    (Value.array (toValues nodes)).toRaw = .array (nodes.map fun node => node.toValue.toRaw) := by
  rw [toValues_eq_map, Value.toRaw_array_map]

theorem record?_group (kind : GroupKind) (items : List Node) :
    (Value.object [("kind", .string kind.name), ("items", .array (toValues items))]).toRaw.record?
      ["kind", "items"] = some [("kind", .string (some kind.name)),
        ("items", .array (items.map fun item => item.toValue.toRaw))] := by
  rw [← toRaw_toValues]
  exact Raw.record?_pair (by decide) _ _

theorem ofRaw?_toValue {node : Node} (hdistinct : ∀ c ∈ node.conditions, c.Distinct) {depth : Nat}
    (hdepth : node.toValue.height ≤ depth) : ofRaw? depth node.toValue.toRaw = some node := by
  induction node generalizing depth with
  | condition c =>
    rw [toValue] at hdepth
    obtain ⟨inner, rfl, hinner⟩ := height_single_le hdepth
    have hread := Condition.ofRaw?_toValue (List.forall_mem_singleton.mp hdistinct) hinner
    exact congrArg (Option.map condition) hread
  | group kind items ih =>
    -- the variant, its record and the array of the items take a level each
    rw [toValue] at hdepth
    obtain ⟨inner, rfl, hbody⟩ := height_single_le hdepth
    obtain ⟨inner, rfl, -, hitems⟩ := height_pair_le hbody
    obtain ⟨inner, rfl, hinner⟩ := height_array_le hitems
    have hread : (items.map fun item => item.toValue.toRaw).mapM (ofRaw? inner) = some items := by
      refine mapM_map_eq_some fun item hitem => ih item hitem (fun c hc => hdistinct c ?_) ?_
      · exact conditions_group kind items ▸ List.mem_flatMap.mpr ⟨item, hitem, hc⟩
      · exact hinner _ (toValues_eq_map items ▸ List.mem_map_of_mem hitem)
    have hgroup : (Node.group kind items).toValue.toRaw = .object [(some "Group",
        (Value.object [("kind", .string kind.name), ("items", .array (toValues items))]).toRaw)] := by
      rw [toValue]
      rfl
    rw [hgroup, ofRaw?, record?_group]
    change (GroupKind.ofRaw? (inner + 1) (.string (some kind.name))).bind (fun kind =>
      ((items.map fun item => item.toValue.toRaw).mapM (ofRaw? inner)).bind
        fun items => some (group kind items)) = _
    rw [GroupKind.ofRaw?_name, Option.bind_some, hread, Option.bind_some]

end Node

theorem Filter.ofRaw?_toValue {filter : Filter} (hdistinct : ∀ c ∈ filter.conditions, c.Distinct)
    {depth : Nat} (hdepth : filter.toValue.height ≤ depth) :
    ofRaw? depth filter.toValue.toRaw = some filter := by
  obtain ⟨inner, rfl, hnodes⟩ := height_single_le hdepth
  obtain ⟨inner, rfl, hinner⟩ := height_array_le hnodes
  have hread : (filter.nodes.map fun node => node.toValue.toRaw).mapM (Node.ofRaw? inner) =
      some filter.nodes := by
    refine mapM_map_eq_some fun node hnode => Node.ofRaw?_toValue (fun c hc => ?_) ?_
    · exact hdistinct c (List.mem_flatMap.mpr ⟨node, hnode, hc⟩)
    · exact hinner _ (Node.toValues_eq_map filter.nodes ▸ List.mem_map_of_mem hnode)
  have hfields : filter.toValue.toRaw.record? ["nodes"] =
      some [("nodes", .array (filter.nodes.map fun node => node.toValue.toRaw))] := by
    rw [← Node.toRaw_toValues]
    exact @Raw.record?_object ["nodes"] [("nodes", _)] (by simp) (by simp)
  rw [ofRaw?, hfields]
  exact congrArg (Option.bind · fun nodes => some (mk nodes)) hread

/-! ## Hints -/

theorem Direction.ofRaw?_name (depth : Nat) (direction : Direction) :
    ofRaw? depth (.string (some direction.name)) = some direction := by
  cases direction <;> cases depth <;> rfl

theorem SortKey.ofRaw?_toValue {key : SortKey} {depth : Nat} (hdepth : key.toValue.height ≤ depth) :
    ofRaw? depth key.toValue.toRaw = some key := by
  obtain ⟨inner, rfl, -, -⟩ := height_pair_le hdepth
  have hfields : key.toValue.toRaw.record? ["field", "direction"] =
      some [("field", .string (some key.field)), ("direction", .string (some key.direction.name))] :=
    Raw.record?_pair (by decide) _ _
  rw [ofRaw?, hfields]
  exact congrArg (Option.bind · fun direction => some (mk key.field direction))
    (Direction.ofRaw?_name inner key.direction)

theorem SortHint.ofRaw?_toValue {sort : SortHint} {depth : Nat}
    (hdepth : sort.toValue.height ≤ depth) : ofRaw? depth sort.toValue.toRaw = some sort := by
  cases sort with
  | byField field =>
    obtain ⟨inner, rfl, -⟩ := height_single_le hdepth
    rfl
  | byKeys keys =>
    obtain ⟨inner, rfl, hkeys⟩ := height_single_le hdepth
    obtain ⟨inner, rfl, hinner⟩ := height_array_le hkeys
    have hread : (keys.map fun key => key.toValue.toRaw).mapM (SortKey.ofRaw? inner) = some keys :=
      mapM_map_eq_some fun key hkey =>
        SortKey.ofRaw?_toValue (hinner key.toValue (List.mem_map_of_mem hkey))
    have hraw : (byKeys keys).toValue.toRaw =
        .object [(some "Keys", (Value.array (keys.map SortKey.toValue)).toRaw)] := rfl
    rw [hraw, Value.toRaw_array_map, ofRaw?, hread, Option.map_some]

theorem SortHint.kind_toValue (sort : SortHint) : sort.toValue.kind = .object := by
  cases sort <;> rfl

theorem Count.kind_toValue (n : Count) : n.toValue.kind = .number := rfl

theorem Count.ofRaw?_toValue (n : Count) : ofRaw? n.toValue.toRaw = some n :=
  ofNat?_eq_some_iff.mpr rfl

/-- A field that may be null is read back if null is written for none of its values. -/
theorem optionOfRaw?_optionToValue {α : Type} {toValue : α → Value} {ofRaw? : Raw → Option α}
    (hnull : ∀ a, (toValue a).kind ≠ .null) {field : Option α}
    (hread : ∀ a, field = some a → ofRaw? (toValue a).toRaw = some a) :
    optionOfRaw? ofRaw? (some (optionToValue toValue field).toRaw) = some field := by
  cases field with
  | none => rfl
  | some a =>
    have hsome : optionOfRaw? ofRaw? (some (toValue a).toRaw) =
        (ofRaw? (toValue a).toRaw).map some := by
      cases hvalue : toValue a with
      | null => exact absurd (congrArg Value.kind hvalue) (hnull a)
      | _ => rfl
    rw [optionToValue, hsome, hread a rfl, Option.map_some]

theorem Hints.ofRaw?_toValue {hints : Hints} {depth : Nat} (hdepth : hints.toValue.height ≤ depth) :
    ofRaw? depth hints.toValue.toRaw = some hints := by
  obtain ⟨inner, rfl, hinner⟩ := Json.Value.height_object_le hdepth
  have hfields : hints.toValue.toRaw.record? ["sort", "limit", "skip"] =
      some [("sort", (optionToValue SortHint.toValue hints.sort).toRaw),
        ("limit", (optionToValue Count.toValue hints.limit).toRaw),
        ("skip", (optionToValue Count.toValue hints.skip).toRaw)] :=
    @Raw.record?_object ["sort", "limit", "skip"] [("sort", _), ("limit", _), ("skip", _)]
      (by simp) (by simp)
  have hsort : optionOfRaw? (SortHint.ofRaw? inner)
      (some (optionToValue SortHint.toValue hints.sort).toRaw) = some hints.sort := by
    refine optionOfRaw?_optionToValue (fun sort => ?_) fun sort hsort => ?_
    · rw [SortHint.kind_toValue]
      decide
    · have hheight := hinner _ List.mem_cons_self
      rw [hsort] at hheight
      exact SortHint.ofRaw?_toValue hheight
  have hcount (count : Option Count) : optionOfRaw? Count.ofRaw?
      (some (optionToValue Count.toValue count).toRaw) = some count := by
    refine optionOfRaw?_optionToValue (fun n => ?_) fun n _ => Count.ofRaw?_toValue n
    rw [Count.kind_toValue]
    decide
  rw [ofRaw?, hfields]
  change (optionOfRaw? (SortHint.ofRaw? inner) (some _)).bind (fun sort =>
    (optionOfRaw? Count.ofRaw? (some _)).bind fun limit =>
      (optionOfRaw? Count.ofRaw? (some _)).bind fun skip => some (mk sort limit skip)) = _
  rw [hsort, hcount, hcount]
  rfl

/-! ## Equal values -/

section Equality

open Json.Value (array_beq object_beq_pair object_beq_single string_beq)

theorem Json.Value.string_beq_object (s : String) (fields : Json.Fields) :
    (Value.string s == Value.object fields) = false := rfl

theorem Json.Value.object_beq_string (fields : Json.Fields) (s : String) :
    (Value.object fields == Value.string s) = false := rfl

/-- Two operations differ in the name of the variant, or in its payload. -/
theorem Op.toValue_beq (op op' : Op) : (op.toValue == op'.toValue) = (op == op') := by
  cases op <;> cases op' <;>
    simp [toValue, object_beq_single, array_beq, string_beq, Json.Value.string_beq_object,
      Json.Value.object_beq_string, Op.beq_def, Op.beq]

theorem Condition.toValue_beq (c d : Condition) : (c.toValue == d.toValue) = (c == d) := by
  rw [toValue, toValue, object_beq_pair (by decide), Op.toValue_beq, string_beq]
  rfl

theorem GroupKind.name_beq (kind other : GroupKind) : (kind.name == other.name) = (kind == other) := by
  cases kind <;> cases other <;> rfl

theorem Node.toValues_beq {nodes : List Node}
    (h : ∀ node ∈ nodes, ∀ other : Node, (node.toValue == other.toValue) = (node == other))
    (others : List Node) :
    (Value.array (toValues nodes) == Value.array (toValues others)) = (nodes == others) := by
  have hmap := beq_map_congr (g := id) h others
  rw [array_beq, toValues_eq_map, toValues_eq_map, hmap, List.map_id, List.map_id]

theorem Node.toValue_beq (a b : Node) : (a.toValue == b.toValue) = (a == b) := by
  induction a generalizing b with
  | condition c =>
    rw [toValue]
    cases b with
    | condition d =>
      rw [toValue, object_beq_single, Condition.toValue_beq]
      rfl
    | group kind items =>
      rw [toValue, object_beq_single]
      rfl
  | group kind items ih =>
    rw [toValue]
    cases b with
    | condition d =>
      rw [toValue, object_beq_single]
      rfl
    | group kind' items' =>
      rw [toValue, object_beq_single, object_beq_pair (by decide), string_beq,
        GroupKind.name_beq, toValues_beq ih, group_beq]
      rfl

theorem Filter.toValue_beq (filter other : Filter) :
    (filter.toValue == other.toValue) = (filter == other) := by
  rw [toValue, toValue, object_beq_single, Node.toValues_beq fun node _ => Node.toValue_beq node]
  rfl

end Equality

/-! ## Requests -/

/-- The request of the values of its filter and its hints, where each of them is read with `depth`
levels. -/
def Request.reread? (depth : Nat) (request : Request) : Option Request := do
  let filter ← Filter.ofRaw? depth request.filter.toValue.toRaw
  let hints ← Hints.ofRaw? depth request.hints.toValue.toRaw
  return ⟨filter, hints⟩

/-- The values of a filter and of hints are read back as that filter and those hints, so both
backends compile what is read back to the same queries, and filters with equal values are equal. -/
theorem Request.readBack {filter : Filter} (hdistinct : ∀ c ∈ filter.conditions, c.Distinct)
    (hints : Hints) :
    (∀ depth, filter.toValue.height ≤ depth →
      Filter.ofRaw? depth filter.toValue.toRaw = some filter) ∧
    (∀ depth, hints.toValue.height ≤ depth →
      Hints.ofRaw? depth hints.toValue.toRaw = some hints) ∧
    (∀ depth, filter.toValue.height ≤ depth → hints.toValue.height ≤ depth →
      ∀ config template,
        (Request.reread? depth ⟨filter, hints⟩).map (Search.compile config) =
          some (Search.compile config ⟨filter, hints⟩) ∧
        (Request.reread? depth ⟨filter, hints⟩).map (Relational.compile template config) =
          some (Relational.compile template config ⟨filter, hints⟩)) ∧
    ∀ other : Filter, (filter.toValue == other.toValue) = (filter == other) := by
  have hfilter (depth : Nat) (h : filter.toValue.height ≤ depth) :=
    Filter.ofRaw?_toValue hdistinct h
  have hhints (depth : Nat) (h : hints.toValue.height ≤ depth) := Hints.ofRaw?_toValue h
  refine ⟨hfilter, hhints, fun depth hdepth hdepth' config template => ?_, filter.toValue_beq⟩
  have hreread : Request.reread? depth ⟨filter, hints⟩ = some ⟨filter, hints⟩ := by
    rw [Request.reread?, hfilter depth hdepth, hhints depth hdepth']
    rfl
  rw [hreread]
  exact ⟨rfl, rfl⟩

/-- Fields are called like variants, an operand is written like one, an operand is null, and a group
has no items. -/
def Request.variantNames : Request where
  filter :=
    ⟨[.group .or [.condition ⟨"IsNull", .eq .null⟩, .group .and []],
      .condition ⟨"Between", .between (.object [("Eq", .null), ("In", .array [.array []])])
        (.string "IsNull")⟩,
      .condition ⟨"Group", .oneOf [.object [("IsNotNull", .null)], .array [.null]]⟩]⟩
  hints := ⟨some (.byKeys [⟨"Field", .descending⟩]), some 0, none⟩

theorem Request.readBack_variantNames :
    (∀ c ∈ variantNames.filter.conditions, c.Distinct) ∧
      variantNames.filter.toValue.height = 9 ∧ variantNames.hints.toValue.height = 4 ∧
      Filter.ofRaw? 9 variantNames.filter.toValue.toRaw = some variantNames.filter ∧
      Hints.ofRaw? 4 variantNames.hints.toValue.toRaw = some variantNames.hints ∧
      (reread? 9 variantNames).map (Search.compile .default) =
        some (Search.compile .default variantNames) := by
  have hread {v : Value} (h : Value.ofRaw? 3 v.toRaw = some v) := Value.distinct_of_ofRaw? h
  have hdistinct : ∀ c ∈ variantNames.filter.conditions, c.Distinct := by
    refine List.forall_mem_cons.mpr ⟨List.forall_mem_singleton.mpr .null, ?_⟩
    refine List.forall_mem_cons.mpr ⟨List.forall_mem_cons.mpr ⟨hread rfl, ?_⟩, ?_⟩
    · exact List.forall_mem_singleton.mpr (.string "IsNull")
    · refine List.forall_mem_singleton.mpr (List.forall_mem_cons.mpr ⟨hread rfl, ?_⟩)
      exact List.forall_mem_singleton.mpr (hread rfl)
  obtain ⟨hfilter, hhints, hqueries, -⟩ := readBack hdistinct variantNames.hints
  exact ⟨hdistinct, by decide, by decide, hfilter 9 (by decide), hhints 4 (by decide),
    (hqueries 9 (by decide) (by decide) .default .empty).1⟩

end FilterQuery
