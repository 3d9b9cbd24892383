import FilterQuery.Proofs.Sql.Gaps
import FilterQuery.Proofs.Sql.Reading

/-!
# Groups without predicates in SQL text

A nested group without predicates leaves no trace among other predicates. One that holds only such
groups is written as empty parentheses, and so is any group without predicates that is an operand. A
statement has a `WHERE` as soon as its conditions list a predicate, also where none is written.
-/

namespace FilterQuery.Sql

open Json (Value)

/-- What groups are written with besides their predicates. -/
def groupTokens : List Token :=
  [.symbol "(", .symbol ")", .word "AND", .word "OR"]

def hasPredicate (ts : List Token) : Bool :=
  ts.any (· ∉ groupTokens)

def endTokens : List Token :=
  [.word "ORDER", .word "LIMIT", .word "OFFSET"]

/-- The tokens from the first `WHERE` up to the order and the paging. -/
def whereTokens? : List Token → Option (List Token)
  | [] => none
  | t :: ts => if t = .word "WHERE" then some (ts.takeWhile (· ∉ endTokens)) else whereTokens? ts

/-- Whether a text has a `WHERE`, and a predicate behind it. -/
def textWhere? (d : Dialect) (text : String) : Option (Option Bool) :=
  (lex d text.toList).map fun ts => (whereTokens? ts).map hasPredicate

namespace Expr

mutual

/-- Whether something is written for a predicate besides the parentheses and separators of groups. -/
def hasPredicate : Expr → Bool
  | .nested _ predicates => anyHasPredicate predicates
  | e => !e.isBlank

def anyHasPredicate : List Expr → Bool
  | [] => false
  | e :: es => hasPredicate e || anyHasPredicate es

end

theorem hasPredicate_nested (combinator : Combinator) (predicates : List Expr) :
    (nested combinator predicates).hasPredicate = predicates.any hasPredicate := by
  rw [hasPredicate]
  induction predicates with
  | nil => rfl
  | cons e es ih => rw [anyHasPredicate, ih, List.any_cons]

theorem hasPredicate_of_isEmptyGroup {e : Expr} (h : e.isEmptyGroup = true) :
    e.hasPredicate = false := by
  cases e with
  | nested combinator predicates =>
    cases predicates with
    | nil => rfl
    | cons _ _ => cases h
  | _ => cases h

/-- The groups that are not shown have no predicate. -/
theorem any_hasPredicate_shown (es : List Expr) :
    (shown es).any hasPredicate = es.any hasPredicate := by
  induction es with
  | nil => rfl
  | cons e es ih =>
    rw [List.any_cons, ← ih]
    cases hempty : e.isEmptyGroup with
    | true => simp [shown, hempty, hasPredicate_of_isEmptyGroup hempty]
    | false => simp [shown, hempty]

end Expr

/-- Whether the item belongs to a predicate. -/
def Item.inPredicate : Item Value → Bool
  | .token t => t ∉ groupTokens
  | .operand _ => true

theorem Item.any_separated {p : Item Value → Bool} {separator : Item Value}
    (h : p separator = false) (parts : List (List (Item Value))) :
    (separated separator parts).any p = parts.any fun part => part.any p := by
  cases parts with
  | nil => rfl
  | cons part parts => simp [separated_cons, List.any_flatMap, h]

namespace Expr

theorem any_inPredicate_separated (combinator : Combinator) {es : List Expr}
    (h : ∀ e ∈ es, e.items.any Item.inPredicate = e.hasPredicate) :
    (Item.separated (.word combinator.word) (shownItems es)).any Item.inPredicate =
      es.any hasPredicate := by
  have hseparator : Item.inPredicate (.word combinator.word) = false := by
    cases combinator <;> decide
  have heach : (shown es).map (fun e => e.items.any Item.inPredicate) =
      (shown es).map hasPredicate :=
    List.map_congr_left fun e he => h e (List.mem_filter.mp he).1
  rw [Item.any_separated hseparator, shownItems_eq_map, ← any_hasPredicate_shown]
  simpa [List.any_map, Function.comp_def, shown] using congrArg (List.any · id) heach

theorem any_inPredicate_items (e : Expr) : e.items.any Item.inPredicate = e.hasPredicate := by
  induction e with
  | column ident =>
    have hcolumn : (column ident).hasPredicate = !ident.parts.isEmpty := rfl
    rw [items, hcolumn, nameItems]
    cases ident.parts with
    | nil => rfl
    | cons part parts =>
      rw [List.map_cons, Item.separated_cons]
      simp [Item.inPredicate, groupTokens]
  | nested combinator predicates ih =>
    have hopen : Item.inPredicate (.symbol "(") = false := by decide
    have hclose : Item.inPredicate (.symbol ")") = false := by decide
    rw [items, hasPredicate_nested, List.any_append, List.any_cons,
      any_inPredicate_separated combinator ih, List.any_cons, hopen, hclose]
    simp
  | compare left comparison right _ _ =>
    have hsign : Item.inPredicate (.symbol comparison.sign) = true := by
      cases comparison <;> decide
    simp [items, hasPredicate, isBlank, hsign]
  | _ => simp [items, hasPredicate, isBlank, Item.inPredicate, groupTokens]

end Expr

theorem Group.any_inPredicate_items (g : Group) :
    g.items.any Item.inPredicate = g.predicates.any Expr.hasPredicate :=
  Expr.any_inPredicate_separated g.combinator fun e _ => e.any_inPredicate_items

theorem Token.IsOperand.not_mem {t : Token} (h : t.IsOperand) :
    t ∉ groupTokens ∧ t ∉ endTokens ∧ t ≠ .word "WHERE" := by
  cases t with
  | word w =>
    simp only [IsOperand, List.mem_cons, List.not_mem_nil, or_false] at h
    rcases h with rfl | rfl | rfl <;> decide
  | symbol _ | name _ => cases h
  | _ => simp [groupTokens, endTokens]

theorem not_mem_endTokens_of_isPlain (t : Token) (ht : t.IsPlain) : t ∉ endTokens := by
  have hvocabulary : ∀ t ∈ vocabulary, t ∉ endTokens := by decide
  rcases ht with ⟨name, rfl⟩ | ht
  · simp [endTokens]
  · exact hvocabulary t ht

theorem whereTokens?_append {ts : List Token} (h : ∀ t ∈ ts, t ≠ .word "WHERE")
    (rest : List Token) : whereTokens? (ts ++ rest) = whereTokens? rest := by
  induction ts with
  | nil => rfl
  | cons t ts ih =>
    obtain ⟨ht, hts⟩ := List.forall_mem_cons.mp h
    rw [List.cons_append, whereTokens?, if_neg ht, ih hts]

section Where

variable {write : Nat → Value → Token} (hwrite : ∀ index v, (write index v).IsOperand)
include hwrite

theorem forall_mem_tokens {P : Token → Prop} (hoperand : ∀ t, t.IsOperand → P t)
    {items : List (Item Value)} (h : AllTokens P items) (index : Nat) :
    ∀ t ∈ Item.tokens write index items, P t := by
  induction items generalizing index with
  | nil => exact List.forall_mem_nil P
  | cons item items ih =>
    have hlater := ih fun t ht => h t (List.mem_cons_of_mem item ht)
    cases item with
    | token t => exact List.forall_mem_cons.mpr ⟨h t List.mem_cons_self, hlater index⟩
    | operand v =>
      exact List.forall_mem_cons.mpr ⟨hoperand _ (hwrite index v), hlater (index + 1)⟩

theorem hasPredicate_tokens (index : Nat) (items : List (Item Value)) :
    hasPredicate (Item.tokens write index items) = items.any Item.inPredicate := by
  induction items generalizing index with
  | nil => rfl
  | cons item items ih =>
    cases item with
    | token t => exact congrArg (decide (t ∉ groupTokens) || ·) (ih index)
    | operand v =>
      have hvalue : decide (write index v ∉ groupTokens) = true :=
        decide_eq_true (hwrite index v).not_mem.1
      rw [List.any_cons, ← ih (index + 1)]
      exact congrArg (· || hasPredicate (Item.tokens write (index + 1) items)) hvalue

omit hwrite in
/-- Behind the conditions a statement goes on with its order or its paging, or ends. -/
theorem takeWhile_tailItems (d : Dialect) (s : Select) (index : Nat) :
    (Item.tokens write index (s.tailItems d)).takeWhile (· ∉ endTokens) = [] := by
  rw [Select.tailItems]
  cases s.orderBy with
  | nil => cases d <;> cases s.limit <;> cases s.offset <;> rfl
  | cons key keys => rfl

/-- A statement with conditions has a `WHERE`, and behind it the predicates that its conditions have
at any depth. -/
theorem Select.whereTokens?_tokens (d : Dialect) (s : Select) :
    (whereTokens? (Item.tokens write 0 (s.items d))).map hasPredicate =
      if s.conditions.isEmpty then none
      else some (s.conditions.predicates.any Expr.hasPredicate) := by
  have hoperand (t : Token) (ht : t.IsOperand) : t ≠ .word "WHERE" := ht.not_mem.2.2
  cases hempty : s.conditions.isEmpty with
  | true =>
    have hitems := s.allTokens_items ne_where_of_isPlain ne_where_of_mem_clauseTokens d
      fun h => by cases hempty.symm.trans h
    have hwhere := whereTokens?_append (forall_mem_tokens hwrite hoperand hitems 0) []
    rw [List.append_nil] at hwhere
    rw [hwhere]
    rfl
  | false =>
    have hsource := forall_mem_tokens hwrite hoperand
      (s.allTokens_sourceItems ne_where_of_isPlain ne_where_of_mem_clauseTokens) 0
    have hconditions (index : Nat) : ∀ t ∈ Item.tokens write index s.conditions.items,
        decide (t ∉ endTokens) = true := by
      intro t ht
      exact decide_eq_true (forall_mem_tokens hwrite (fun t ht => ht.not_mem.2.1)
        (s.conditions.allTokens_items.mono not_mem_endTokens_of_isPlain) index t ht)
    have hitems : conditionItems s.conditions = .word "WHERE" :: s.conditions.items := by
      rw [conditionItems, hempty, if_neg Bool.false_ne_true]
    rw [items_eq, Item.tokens_append, whereTokens?_append hsource, hitems, List.cons_append,
      Item.tokens, whereTokens?, if_pos rfl, Item.tokens_append,
      List.takeWhile_append_of_pos (hconditions _), takeWhile_tailItems, List.append_nil,
      Option.map_some, hasPredicate_tokens hwrite, Group.any_inPredicate_items]
    rfl

end Where

/-- Both texts of a group have a gap exactly if the group has one, and both texts of a statement have
a `WHERE` exactly if its conditions list a predicate, with a predicate behind it exactly if one of
them has one at some depth. -/
theorem textHasGap?_and_textWhere? (d : Dialect) (g : Group) (s : Select) :
    (textHasGap? d (bound d g.pieces).sql = some g.hasGap ∧
      textHasGap? d (inline d g.pieces) = some g.hasGap) ∧
    textWhere? d (bound d (s.pieces d)).sql =
        some (if s.conditions.isEmpty then none
          else some (s.conditions.predicates.any Expr.hasPredicate)) ∧
      textWhere? d (inline d (s.pieces d)) =
        some (if s.conditions.isEmpty then none
          else some (s.conditions.predicates.any Expr.hasPredicate)) := by
  have hbound (index : Nat) (_ : Value) : (d.placeholderToken index).IsOperand :=
    d.isOperand_placeholderToken index
  have hinline (_ : Nat) (v : Value) : (Token.literal v).IsOperand := Token.isOperand_literal v
  refine ⟨⟨?_, ?_⟩, ?_, ?_⟩
  · rw [textHasGap?, g.spelled.lex_bound, Option.map_some, g.hasGap_tokens hbound]
  · rw [textHasGap?, g.spelled.lex_inline, Option.map_some, g.hasGap_tokens hinline]
  · rw [textWhere?, s.spelled.lex_bound, Option.map_some, s.whereTokens?_tokens hbound]
  · rw [textWhere?, s.spelled.lex_inline, Option.map_some, s.whereTokens?_tokens hinline]

/-- A group without predicates in a group, in the conditions. -/
def hollowGroup : Group :=
  ⟨.and, [.nested .or [.nested .and []]]⟩

/-- A group that holds nothing but an empty group is written as empty parentheses, which a `WHERE`
stands before. An empty group is not written, and a `WHERE` stands before nothing. -/
theorem hollowGroup_rendered :
    inline .ansi hollowGroup.pieces = "()" ∧
      inline .ansi (((Select.ofTable ⟨none, "t"⟩).filter hollowGroup).pieces .ansi) =
        "SELECT * FROM \"t\" WHERE ()" ∧
      inline .ansi (((Select.ofTable ⟨none, "t"⟩).filter ⟨.and, [.nested .and []]⟩).pieces .ansi) =
        "SELECT * FROM \"t\" WHERE " :=
  ⟨rfl, rfl, rfl⟩

end FilterQuery.Sql
