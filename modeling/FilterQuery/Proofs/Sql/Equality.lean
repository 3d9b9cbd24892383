import FilterQuery.Proofs.Json.Equality
import FilterQuery.Proofs.Sql.Frame
import FilterQuery.Proofs.Sql.Values

/-!
# Equal statements

Equal expressions differ in their values only, and these are equal one by one. So equal statements
leave the same text once the values are erased, and what is bound for them is equal. An expression
is equal to itself as far as its values are.
-/

namespace FilterQuery.Sql

open Json (Value)

namespace Expr

theorem column_beq (ident other : Ident) :
    (column ident == column other) = (ident == other) := rfl

theorem each_erase_eq_and_values_beq {es es' : List Expr} (h : (es == es') = true)
    (heach : ∀ e ∈ es, ∀ e', (e == e') = true →
      e.erase = e'.erase ∧ (e.values == e'.values) = true) :
    eraseEach es = eraseEach es' ∧ (eachValues es == eachValues es') = true := by
  rw [eraseEach_eq_map, eraseEach_eq_map, eachValues_eq_flatMap, eachValues_eq_flatMap]
  exact ⟨map_eq_map_of_beq h fun e he e' heq => (heach e he e' heq).1,
    flatMap_beq_flatMap h fun e he e' heq => (heach e he e' heq).2⟩

/-- Equal expressions have one outline, and their values are equal from left to right. -/
theorem erase_eq_and_values_beq {e e' : Expr} (h : (e == e') = true) :
    e.erase = e'.erase ∧ (e.values == e'.values) = true := by
  induction e generalizing e' with
  | column ident =>
    cases e' with
    | column other =>
      rw [column_beq, beq_iff_eq] at h
      rw [h]
      exact ⟨rfl, rfl⟩
    | _ => cases h
  | star =>
    cases e' with
    | star => exact ⟨rfl, rfl⟩
    | _ => cases h
  | value v =>
    cases e' with
    | value w => exact ⟨rfl, beq_iff_forall₂.mpr (.cons h .nil)⟩
    | _ => cases h
  | compare left comparison right hleft hright =>
    cases e' with
    | compare left' comparison' right' =>
      simp only [compare_beq, Bool.and_eq_true, beq_iff_eq] at h
      obtain ⟨⟨hl, rfl⟩, hr⟩ := h
      obtain ⟨hleftErase, hleftValues⟩ := hleft hl
      obtain ⟨hrightErase, hrightValues⟩ := hright hr
      exact ⟨by rw [erase, erase, hleftErase, hrightErase],
        append_beq_append hleftValues hrightValues⟩
    | _ => cases h
  | inList subject items negated hsubject hitems =>
    cases e' with
    | inList subject' items' negated' =>
      simp only [inList_beq, Bool.and_eq_true, beq_iff_eq] at h
      obtain ⟨⟨hs, hi⟩, rfl⟩ := h
      obtain ⟨hsubjectErase, hsubjectValues⟩ := hsubject hs
      obtain ⟨hitemsErase, hitemsValues⟩ :=
        each_erase_eq_and_values_beq hi fun item hitem _ => hitems item hitem
      exact ⟨by rw [erase, erase, hsubjectErase, hitemsErase],
        append_beq_append hsubjectValues hitemsValues⟩
    | _ => cases h
  | like subject pattern hsubject hpattern =>
    cases e' with
    | like subject' pattern' =>
      rw [like_beq, Bool.and_eq_true] at h
      obtain ⟨hsubjectErase, hsubjectValues⟩ := hsubject h.1
      obtain ⟨hpatternErase, hpatternValues⟩ := hpattern h.2
      exact ⟨by rw [erase, erase, hsubjectErase, hpatternErase],
        append_beq_append hsubjectValues hpatternValues⟩
    | _ => cases h
  | between subject low high hsubject hlow hhigh =>
    cases e' with
    | between subject' low' high' =>
      simp only [between_beq, Bool.and_eq_true] at h
      obtain ⟨hsubjectErase, hsubjectValues⟩ := hsubject h.1.1
      obtain ⟨hlowErase, hlowValues⟩ := hlow h.1.2
      obtain ⟨hhighErase, hhighValues⟩ := hhigh h.2
      exact ⟨by rw [erase, erase, hsubjectErase, hlowErase, hhighErase],
        append_beq_append (append_beq_append hsubjectValues hlowValues) hhighValues⟩
    | _ => cases h
  | isNull subject negated hsubject =>
    cases e' with
    | isNull subject' negated' =>
      simp only [isNull_beq, Bool.and_eq_true, beq_iff_eq] at h
      obtain ⟨hs, rfl⟩ := h
      obtain ⟨hsubjectErase, hsubjectValues⟩ := hsubject hs
      exact ⟨by rw [erase, erase, hsubjectErase], hsubjectValues⟩
    | _ => cases h
  | nested combinator predicates hpredicates =>
    cases e' with
    | nested combinator' predicates' =>
      simp only [nested_beq, Bool.and_eq_true, beq_iff_eq] at h
      obtain ⟨rfl, hp⟩ := h
      obtain ⟨herase, hvalues⟩ := each_erase_eq_and_values_beq hp fun e he _ => hpredicates e he
      exact ⟨by rw [erase, erase, herase], hvalues⟩
    | _ => cases h

theorem erase_eq_of_beq {e e' : Expr} (h : (e == e') = true) : e.erase = e'.erase :=
  (erase_eq_and_values_beq h).1

theorem values_beq {e e' : Expr} (h : (e == e') = true) : (e.values == e'.values) = true :=
  (erase_eq_and_values_beq h).2

theorem beq_self {e : Expr} (h : ∀ v ∈ e.values, v.Distinct) : (e == e) = true := by
  induction e with
  | column ident => exact beq_self_eq_true ident
  | star => rfl
  | value v => exact Value.beq_self (h v List.mem_cons_self)
  | compare left comparison right hleft hright =>
    rw [values, List.forall_mem_append] at h
    rw [compare_beq, hleft h.1, hright h.2, beq_self_eq_true]
    rfl
  | inList subject items negated hsubject hitems =>
    rw [values, eachValues_eq_flatMap, List.forall_mem_append] at h
    have heach := list_beq_self fun item hitem => hitems item hitem fun v hv =>
      h.2 v (List.mem_flatMap_of_mem hitem hv)
    rw [inList_beq, hsubject h.1, heach, beq_self_eq_true]
    rfl
  | like subject pattern hsubject hpattern =>
    rw [values, List.forall_mem_append] at h
    rw [like_beq, hsubject h.1, hpattern h.2]
    rfl
  | between subject low high hsubject hlow hhigh =>
    rw [values, List.forall_mem_append, List.forall_mem_append] at h
    rw [between_beq, hsubject h.1.1, hlow h.1.2, hhigh h.2]
    rfl
  | isNull subject negated hsubject =>
    rw [isNull_beq, hsubject h, beq_self_eq_true]
    rfl
  | nested combinator predicates hpredicates =>
    rw [values, eachValues_eq_flatMap] at h
    have heach := list_beq_self fun e he => hpredicates e he fun v hv =>
      h v (List.mem_flatMap_of_mem he hv)
    rw [nested_beq, heach, beq_self_eq_true]
    rfl

end Expr

namespace Group

theorem beq_def (g g' : Group) :
    (g == g') = (g.combinator == g'.combinator && g.predicates == g'.predicates) := rfl

theorem erase_eq_of_beq {g g' : Group} (h : (g == g') = true) : g.erase = g'.erase := by
  rw [beq_def, Bool.and_eq_true, beq_iff_eq] at h
  rw [erase, erase, h.1, map_eq_map_of_beq h.2 fun _ _ _ => Expr.erase_eq_of_beq]

theorem isEmpty_eq_of_beq {g g' : Group} (h : (g == g') = true) : g.isEmpty = g'.isEmpty := by
  rw [beq_def, Bool.and_eq_true] at h
  exact FilterQuery.isEmpty_eq_of_beq h.2

theorem extend_beq {g g' other other' : Group} (h : (g == g') = true)
    (hother : (other == other') = true) : (g.extend other == g'.extend other') = true := by
  rw [beq_def, Bool.and_eq_true] at h hother ⊢
  exact ⟨h.1, append_beq_append h.2 hother.2⟩

theorem nest_empty_beq (combinator : Combinator) {g g' : Group} (h : (g == g') = true) :
    ((empty combinator).nest g == (empty combinator).nest g') = true := by
  rw [beq_def, Bool.and_eq_true] at h ⊢
  refine ⟨beq_self_eq_true combinator, beq_iff_forall₂.mpr (.cons ?_ .nil)⟩
  rw [toExpr, toExpr, Expr.nested_beq, h.1, h.2, Bool.true_and]

theorem values_beq {g g' : Group} (h : (g == g') = true) : (g.values == g'.values) = true := by
  rw [beq_def, Bool.and_eq_true] at h
  exact flatMap_beq_flatMap h.2 fun _ _ _ => Expr.values_beq

theorem beq_self {g : Group} (h : ∀ v ∈ g.values, v.Distinct) : (g == g) = true := by
  have hpredicates := list_beq_self fun e he =>
    Expr.beq_self fun v hv => h v (List.mem_flatMap_of_mem he hv)
  rw [beq_def, hpredicates, beq_self_eq_true, Bool.true_and]

end Group

namespace SortExpr

theorem beq_def (key key' : SortExpr) :
    (key == key') = (key.expr == key'.expr && key.order == key'.order) := rfl

theorem erase_eq_of_beq {key key' : SortExpr} (h : (key == key') = true) :
    key.erase = key'.erase := by
  rw [beq_def, Bool.and_eq_true] at h
  rw [erase, erase, Expr.erase_eq_of_beq h.1, eq_of_beq h.2]

theorem values_beq {key key' : SortExpr} (h : (key == key') = true) :
    (key.values == key'.values) = true := by
  rw [beq_def, Bool.and_eq_true] at h
  exact Expr.values_beq h.1

theorem beq_self {key : SortExpr} (h : ∀ v ∈ key.values, v.Distinct) : (key == key) = true := by
  rw [beq_def, Expr.beq_self h, beq_self_eq_true, Bool.true_and]

theorem list_beq_self {keys : List SortExpr}
    (h : ∀ v ∈ keys.flatMap values, v.Distinct) : (keys == keys) = true :=
  FilterQuery.list_beq_self fun _ hkey =>
    beq_self fun v hv => h v (List.mem_flatMap_of_mem hkey hv)

end SortExpr

namespace Select

theorem beq_def (s s' : Select) :
    (s == s') = (s.columns == s'.columns && (s.table == s'.table && (s.conditions == s'.conditions &&
      (s.orderBy == s'.orderBy && (s.limit == s'.limit && s.offset == s'.offset))))) := rfl

theorem erase_eq_of_beq {s s' : Select} (h : (s == s') = true) : s.erase = s'.erase := by
  simp only [beq_def, Bool.and_eq_true, beq_iff_eq] at h
  obtain ⟨hcolumns, htable, hconditions, horder, hlimit, hoffset⟩ := h
  rw [erase, erase, map_eq_map_of_beq hcolumns fun _ _ _ => Expr.erase_eq_of_beq, htable,
    Group.erase_eq_of_beq hconditions,
    map_eq_map_of_beq horder fun _ _ _ => SortExpr.erase_eq_of_beq, hlimit, hoffset]

/-- The values of a statement without its paging. -/
def values (s : Select) : List Value :=
  s.columns.flatMap Expr.values ++ s.conditions.values ++ s.orderBy.flatMap SortExpr.values

theorem beq_self {s : Select} (h : ∀ v ∈ s.values, v.Distinct) : (s == s) = true := by
  rw [values, List.forall_mem_append, List.forall_mem_append] at h
  obtain ⟨⟨hcolumnValues, hconditionValues⟩, horderValues⟩ := h
  have hcolumns := list_beq_self fun e he =>
    Expr.beq_self fun v hv => hcolumnValues v (List.mem_flatMap_of_mem he hv)
  have hconditions := Group.beq_self hconditionValues
  have horder := SortExpr.list_beq_self horderValues
  simp [beq_def, hcolumns, hconditions, horder]

theorem countValues_beq_self (n : Option Count) : (countValues n == countValues n) = true := by
  cases n with
  | none => rfl
  | some n => exact beq_iff_forall₂.mpr (.cons (Value.number_beq_self _) .nil)

theorem params_beq {s s' : Select} (h : (s == s') = true) (d : Dialect) :
    ((bound d (s.pieces d)).params == (bound d (s'.pieces d)).params) = true := by
  simp only [beq_def, Bool.and_eq_true, beq_iff_eq] at h
  obtain ⟨hcolumns, -, hconditions, horder, hlimit, hoffset⟩ := h
  have hcolumnValues := flatMap_beq_flatMap hcolumns fun _ _ _ => Expr.values_beq
  have horderValues := flatMap_beq_flatMap horder fun _ _ _ => SortExpr.values_beq
  rw [params_pieces, params_pieces, hlimit, hoffset]
  exact append_beq_append (append_beq_append (append_beq_append (append_beq_append hcolumnValues
    (Group.values_beq hconditions)) horderValues) (countValues_beq_self _)) (countValues_beq_self _)

/-- Merging equal groups into equal conditions leaves equal conditions. -/
theorem merge_beq {conditions conditions' group group' : Group}
    (h : (conditions == conditions') = true) (hgroup : (group == group') = true) :
    (merge conditions group == merge conditions' group') = true := by
  have hcombinator : conditions.combinator = conditions'.combinator := by
    rw [Group.beq_def, Bool.and_eq_true] at h
    exact eq_of_beq h.1
  rw [merge, merge, Group.isEmpty_eq_of_beq h, Group.isEmpty_eq_of_beq hgroup, hcombinator]
  split
  · exact h
  · split
    · exact hgroup
    · split
      · exact Group.extend_beq h hgroup
      · exact Group.extend_beq (Group.nest_empty_beq .and h) hgroup

end Select

end FilterQuery.Sql
