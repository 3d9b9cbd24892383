import FilterQuery.Proofs.Config.Reachable
import FilterQuery.Proofs.Json.Text

/-!
# Configurations are read back

A configuration can be read with its errors or like any other JSON value. Both ways take the fields
from the same record, of which some may be missing, and check the names afterwards, so they accept
the same texts and give the same configurations. What is written for a configuration has all fields
and no number, so reading it comes down to the check, which every configuration that can be reached
passes.
-/

namespace FilterQuery

open Json (Raw Value)

theorem Bounds.ofRaw?_name (depth : Nat) (bounds : Bounds) :
    ofRaw? depth (.string (some bounds.name)) = some bounds := by
  cases bounds <;> cases depth <;> rfl

namespace Config

theorem toOption_ofText (text : String) :
    (ofText text).toOption = Raw.read? text >>= ofRaw? Json.maxDepth := by
  rw [ofText]
  cases Raw.read? text with
  | none => rfl
  | some raw =>
    simp only [Option.bind_eq_bind, Option.bind_some, ofRaw?]
    cases unchecked? Json.maxDepth raw <;> rfl

theorem numberless_toValue (c : Config) : c.toValue.Numberless := by
  refine .object fun field hfield => ?_
  simp only [List.mem_cons, List.not_mem_nil, or_false] at hfield
  rcases hfield with rfl | rfl | rfl | rfl <;> exact .string _

theorem unchecked?_toValue (c : Config) (depth : Nat) :
    unchecked? (depth + 1) c.toValue.toRaw = some c := by
  have hfields : c.toValue.toRaw.openRecord?
      ["query_param", "hint_param", "search_between", "relational_between"] =
      some [("query_param", .string (some c.queryParam)), ("hint_param", .string (some c.hintParam)),
        ("search_between", .string (some c.searchBounds.name)),
        ("relational_between", .string (some c.relationalBounds.name))] :=
    rfl
  have hsearch := Bounds.ofRaw?_name depth c.searchBounds
  have hrelational := Bounds.ofRaw?_name depth c.relationalBounds
  rw [unchecked?, hfields]
  change (Bounds.ofRaw? depth (.string (some c.searchBounds.name))).bind (fun search =>
    (Bounds.ofRaw? depth (.string (some c.relationalBounds.name))).bind fun relational =>
      some (mk c.queryParam c.hintParam search relational)) = _
  rw [hsearch, Option.bind_some, hrelational, Option.bind_some]

/-- Reading what is written for a configuration checks it and nothing more. -/
theorem ofText_text (c : Config) : ofText c.toValue.text = c.check := by
  have hread : Raw.read? c.toValue.text >>= unchecked? Json.maxDepth = some c := by
    rw [Raw.read?_text c.numberless_toValue]
    exact c.unchecked?_toValue 126
  rw [ofText, hread]

/-- Every text is accepted in both ways with the same configuration, or in neither; and from what is
written for a configuration that can be reached both ways give it back. -/
theorem toOption_ofText_and_readBack :
    (∀ text, (ofText text).toOption = Raw.read? text >>= ofRaw? Json.maxDepth) ∧
    ∀ c, Reached c → ofText c.toValue.text = .ok c ∧
      Raw.read? c.toValue.text >>= ofRaw? Json.maxDepth = some c := by
  refine ⟨toOption_ofText, fun c hreached => ?_⟩
  have hread : ofText c.toValue.text = .ok c := by rw [ofText_text, check_of_valid hreached.valid]
  refine ⟨hread, ?_⟩
  rw [← toOption_ofText, hread]
  rfl

/-- Marks, a backslash, control characters and other scripts in the names. -/
theorem toOption_ofText_and_readBack_escaped :
    let c : Config := ⟨"\"\\\n\x01", "é\x7f", .inclusive, .inclusive⟩
    Reached c ∧
      c.toValue.text = "\x7b\"query_param\":\"\\\"\\\\\\n\\u0001\",\"hint_param\":\"é\x7f\"," ++
        "\"search_between\":\"inclusive\",\"relational_between\":\"inclusive\"\x7d" ∧
      ofText c.toValue.text = .ok c ∧
      Raw.read? c.toValue.text >>= ofRaw? Json.maxDepth = some c := by
  intro c
  have hreached : Reached c :=
    ⟨.default, [.queryParam "\"\\\n\x01", .hintParam "é\x7f", .searchBounds .inclusive], .default,
      by decide⟩
  refine ⟨hreached, ?_, toOption_ofText_and_readBack.2 c hreached⟩
  rw [Value.text, ← String.toList_inj, String.toList_ofList]
  decide +kernel

end Config

end FilterQuery
