import FilterQuery.Proofs.Sql.Meaning
import FilterQuery.Proofs.Sql.Recovery
import FilterQuery.Proofs.Sql.Rendering

/-!
# Reading statements

A database reads a bound text with the values put in for the placeholders, and an inline text as it
is. Both are the items of the statement. The conditions are what stands behind `WHERE` up to the
order and the paging. They are read as settled groups, which have the truth of the groups.
-/

namespace FilterQuery.Sql

open Json (Value)

variable {ν : Type}

/-! ## Putting in the values -/

/-- A placeholder with a position stands for the value there, any other one for the next value. -/
def placeholderIndex (next : Nat) : Option Nat → Nat
  | some position => position - 1
  | none => next

/-- The tokens with the values in place of the placeholders, after `next` others. -/
def fill (params : List ν) : Nat → List Token → List (Item ν)
  | _, [] => []
  | next, .placeholder position :: ts =>
    (match params[placeholderIndex next position]? with
      | some v => .operand v
      | none => .token (.placeholder position)) :: fill params (next + 1) ts
  | next, t :: ts => .token t :: fill params next ts

def Bound.items? (d : Dialect) (b : Bound) : Option (List (Item Value)) :=
  (lex d b.sql.toList).map (fill b.params 0)

def inlineItems? (d : Dialect) (text : String) : Option (List (Item Token)) :=
  (lex d text.toList).map (List.map .token)

theorem fill_token {params : List ν} {next : Nat} {t : Token} (ht : t.IsFixed) (ts : List Token) :
    fill params next (t :: ts) = .token t :: fill params next ts := by
  cases t with
  | placeholder position => cases ht
  | _ => rfl

theorem placeholderToken_eq (d : Dialect) (index : Nat) :
    ∃ position, d.placeholderToken index = .placeholder position ∧
      placeholderIndex index position = index := by
  cases d with
  | postgres => exact ⟨some (index + 1), rfl, rfl⟩
  | mysql | ansi => exact ⟨none, rfl, rfl⟩

/-- With its values put in, the bound text of some items is these items. -/
theorem fill_tokens (d : Dialect) {items : List (Item Value)}
    (hfixed : AllTokens Token.IsFixed items) (before : List Value) :
    fill (before ++ Item.values items) before.length
      (Item.tokens (fun index _ => d.placeholderToken index) before.length items) = items := by
  induction items generalizing before with
  | nil => rfl
  | cons item items ih =>
    have hlater := ih fun t ht => hfixed t (List.mem_cons_of_mem item ht)
    cases item with
    | token t => rw [Item.tokens, Item.values, fill_token (hfixed t List.mem_cons_self), hlater]
    | operand v =>
      obtain ⟨position, htoken, hindex⟩ := placeholderToken_eq d before.length
      have hnext := hlater (before ++ [v])
      rw [List.append_assoc, List.singleton_append, List.length_append, List.length_singleton]
        at hnext
      simp only [Item.tokens, Item.values, htoken, fill, hindex, hnext]
      simp

/-- The literals, as operands. -/
def Token.literal? : Token → Option Token
  | .text s => some (.text s)
  | .number s => some (.number s)
  | .word s => if s ∈ ["NULL", "TRUE", "FALSE"] then some (.word s) else none
  | _ => none

theorem Token.literal?_literal (v : Value) : (Token.literal v).literal? = some (.literal v) := by
  cases v with
  | bool b => cases b <;> rfl
  | _ => rfl

/-- The values themselves. -/
def Style.bound : Style Value where
  literal? := fun _ => none
  leaf := .operand
  read := id
  operand := fun _ => rfl
  count := fun _ => rfl
  closing := rfl
  opening := rfl

/-- The literals of the values. -/
def Style.inline : Style Token where
  literal? := Token.literal?
  leaf := fun v => .token (.literal v)
  read := Token.literal
  operand := Token.literal?_literal
  count := fun _ => rfl
  closing := rfl
  opening := by decide

theorem map_token_tokens (index : Nat) (items : List (Item Value)) :
    (Item.tokens (fun _ v => .literal v) index items).map (.token : Token → Item Token) =
      items.map Style.inline.item := by
  induction items generalizing index with
  | nil => rfl
  | cons item items ih =>
    cases item with
    | token t => simp [Item.tokens, Style.item, Style.inline, ih]
    | operand v => simp [Item.tokens, Style.item, Style.inline, ih]

theorem map_bound_item (items : List (Item Value)) : items.map Style.bound.item = items := by
  have hitem : Style.bound.item = id := by
    funext item
    cases item <;> rfl
  rw [hitem, List.map_id]

theorem Predicate.map_bound_read (p : Predicate Value) : p.map Style.bound.read = p :=
  map_id p

theorem Select.items?_bound (d : Dialect) (s : Select) :
    (bound d (s.pieces d)).items? d = some ((s.items d).map Style.bound.item) := by
  have hparams : (bound d (s.pieces d)).params = Item.values (s.items d) := s.spelled.values_eq
  have hfill := fill_tokens d (s.allFixed_items d) []
  rw [Bound.items?, s.spelled.lex_bound, hparams, map_bound_item]
  exact congrArg some hfill

theorem Select.inlineItems?_inline (d : Dialect) (s : Select) :
    inlineItems? d (inline d (s.pieces d)) = some ((s.items d).map Style.inline.item) := by
  rw [inlineItems?, s.spelled.lex_inline, Option.map_some, map_token_tokens]

/-! ## The conditions -/

/-- What stands behind the first `WHERE`. -/
def afterWhere : List (Item ν) → Option (List (Item ν))
  | [] => none
  | .token (.word "WHERE") :: rest => some rest
  | _ :: rest => afterWhere rest

/-- Whether a condition ends before these items. -/
def endsCondition : List (Item ν) → Bool
  | [] => true
  | .token (.word word) :: _ => word ∈ ["ORDER", "LIMIT", "OFFSET"]
  | _ => false

/-- A condition up to where it must end. -/
def readWhole (literal? : Token → Option ν) (items : List (Item ν)) :
    Option (Predicate ν × List (Item ν)) :=
  (readCondition literal? (3 * items.length) items).bind fun (conjunctions, after) =>
    if endsCondition after then some (condition conjunctions, after) else none

/-- The condition of a statement as a group. -/
def readWhere? (literal? : Token → Option ν) (items : List (Item ν)) : Option (Predicate ν) :=
  (afterWhere items).bind fun rest => (readWhole literal? rest).map Prod.fst

theorem afterWhere_cons {item : Item ν} (h : item ≠ .word "WHERE") (rest : List (Item ν)) :
    afterWhere (item :: rest) = afterWhere rest := by
  rw [afterWhere]
  exact fun heq => h heq

theorem Style.leaf_ne_where (style : Style ν) (v : Value) : style.leaf v ≠ .word "WHERE" := by
  intro heq
  have hoperand := style.operand v
  rw [heq, Item.operand?, style.opening] at hoperand
  cases hoperand

theorem afterWhere_append (style : Style ν) {items : List (Item Value)}
    (h : AllTokens (· ≠ .word "WHERE") items) (rest : List (Item ν)) :
    afterWhere (items.map style.item ++ rest) = afterWhere rest := by
  induction items with
  | nil => rfl
  | cons item items ih =>
    have hlater := ih fun t ht => h t (List.mem_cons_of_mem item ht)
    have hitem : style.item item ≠ .word "WHERE" := by
      cases item with
      | token t =>
        intro heq
        cases heq
        exact h _ List.mem_cons_self rfl
      | operand v => exact style.leaf_ne_where v
    rw [List.map_cons, List.cons_append, afterWhere_cons hitem, hlater]

theorem ne_word_of_endsCondition {rest : List (Item ν)} (h : endsCondition rest = true)
    {word : String} (hword : word ∉ ["ORDER", "LIMIT", "OFFSET"]) :
    ∀ after, rest ≠ .word word :: after := by
  rintro after rfl
  exact hword (of_decide_eq_true h)

/-- A group whose predicates are all conditions is read as itself, settled. -/
theorem Group.readWhole_items {g : Group} (hne : g.isEmpty = false)
    (h : ∀ predicate ∈ g.predicates, predicate.IsCondition) :
    ∃ tree : Predicate Value, tree.expr = g.settled.toExpr ∧
      ∀ {ν : Type} (style : Style ν) rest, endsCondition rest = true →
        readWhole style.literal? (g.items.map style.item ++ rest) =
          some (tree.map style.read, rest) := by
  obtain ⟨ps, hps⟩ := exists_forall₂ fun e he => (h e he).readAs
  have hitems : g.items =
      Item.separated (.word g.combinator.word) (g.predicates.map Expr.items) := by
    rw [Group.items, shownItems_eq_map_of_shown fun e he => (h e he).not_isEmptyGroup]
  refine ⟨.nested (g.combinator.settled g.predicates.length) ps, ?_, ?_⟩
  · rw [Predicate.expr, Predicate.exprs_eq_map, map_expr_of_readAs hps, Group.settled, Group.toExpr]
  · intro ν style rest hrest
    have hfuel : 3 * g.items.length ≤ 3 * (g.items.map style.item ++ rest).length := by
      rw [List.length_append, List.length_map]
      omega
    rw [hitems] at hfuel ⊢
    obtain ⟨conjunctions, hread, hcondition⟩ := readCondition_group hps style g.combinator
      (predicates_ne_nil hne) (ne_word_of_endsCondition hrest (by decide))
      (ne_word_of_endsCondition hrest (by decide)) hfuel
    rw [readWhole, hread, Option.bind_some]
    simp only [hrest, if_true]
    rw [hcondition, Predicate.map, Predicate.mapParts_eq_map]

namespace Select

/-- The items behind the conditions. -/
def tailItems (d : Dialect) (s : Select) : List (Item Value) :=
  orderItems s.orderBy ++ pagingItems d s.limit s.offset

theorem endsCondition_pagingItems (style : Style ν) (d : Dialect)
    (limit offset : Option Count) :
    endsCondition ((pagingItems d limit offset).map style.item) = true := by
  cases d <;> cases limit <;> cases offset <;> rfl

theorem endsCondition_tailItems (style : Style ν) (d : Dialect) (s : Select) :
    endsCondition ((s.tailItems d).map style.item) = true := by
  unfold tailItems
  cases s.orderBy with
  | nil => exact endsCondition_pagingItems style d s.limit s.offset
  | cons key keys => rfl

theorem items_eq (d : Dialect) (s : Select) :
    s.items d = s.sourceItems ++ (conditionItems s.conditions ++ s.tailItems d) := by
  rw [items, headItems, tailItems, List.append_assoc, List.append_assoc]

theorem ne_where_of_isPlain (t : Token) (ht : t.IsPlain) : t ≠ .word "WHERE" := by
  have hvocabulary : .word "WHERE" ∉ vocabulary := by decide
  rintro rfl
  rcases ht with ⟨name, heq⟩ | ht
  · cases heq
  · exact hvocabulary ht

theorem ne_where_of_mem_clauseTokens : ∀ t ∈ clauseTokens, t ≠ .word "WHERE" := by
  decide

/-- A statement without conditions has no `WHERE`. -/
theorem afterWhere_items (style : Style ν) (d : Dialect) {s : Select}
    (hempty : s.conditions.isEmpty = true) :
    afterWhere ((s.items d).map style.item) = none := by
  have hitems := s.allTokens_items ne_where_of_isPlain ne_where_of_mem_clauseTokens d
    fun h => by cases hempty.symm.trans h
  have hafter := afterWhere_append style hitems []
  rwa [List.append_nil] at hafter

/-- The conditions of a statement are read as themselves, settled. -/
theorem readWhere?_items {s : Select} (hne : s.conditions.isEmpty = false)
    (h : ∀ predicate ∈ s.conditions.predicates, predicate.IsCondition) :
    ∃ tree : Predicate Value, tree.expr = s.conditions.settled.toExpr ∧
      ∀ {ν : Type} (style : Style ν) d,
        readWhere? style.literal? ((s.items d).map style.item) = some (tree.map style.read) := by
  obtain ⟨tree, hexpr, hread⟩ := Group.readWhole_items hne h
  refine ⟨tree, hexpr, ?_⟩
  intro ν style d
  have hsource := s.allTokens_sourceItems ne_where_of_isPlain ne_where_of_mem_clauseTokens
  have hconditions : conditionItems s.conditions = .word "WHERE" :: s.conditions.items := by
    rw [conditionItems, hne, if_neg Bool.false_ne_true]
  rw [readWhere?, items_eq, List.map_append, afterWhere_append style hsource, hconditions,
    List.map_append, List.map_cons, List.cons_append]
  have hwhole := hread style _ (endsCondition_tailItems style d s)
  exact (congrArg (Option.map Prod.fst) hwhole)

end Select

/-! ## The truth of what is read -/

section Truth

variable (ρ : Test → Bool)

namespace Combinator

/-- A single verdict is joined alike by both combinators. -/
theorem join_settled (c : Combinator) (verdicts : List Bool) :
    (c.settled verdicts.length).join verdicts = c.join verdicts := by
  unfold settled
  split
  · next hone =>
    obtain ⟨verdict, rfl⟩ := List.length_eq_one_iff.mp hone
    cases c <;> simp [join, allOf, anyOf]
  · rfl

theorem exists_join (c : Combinator) {verdicts : List Bool} (h : verdicts ≠ []) :
    ∃ verdict, c.join verdicts = some verdict := by
  cases verdicts with
  | nil => exact absurd rfl h
  | cons verdict verdicts => cases c <;> exact ⟨_, rfl⟩

end Combinator

theorem Expr.verdicts_of_forall₂ {es : List Expr} {verdicts : List Bool}
    (h : List.Forall₂ (fun e verdict => e.verdict ρ = some verdict) es verdicts) :
    Expr.verdicts ρ es = verdicts := by
  induction h with
  | nil => rfl
  | cons hverdict hverdicts ih =>
    rw [Expr.verdicts, hverdict, ih, Option.toList_some, List.singleton_append]

/-- A condition has a verdict, and settling it keeps the verdict. -/
theorem Expr.IsCondition.exists_verdict {e : Expr} (h : e.IsCondition) :
    ∃ verdict, e.verdict ρ = some verdict ∧ e.settled.verdict ρ = some verdict := by
  induction h with
  | compare named comparison operand => exact ⟨_, rfl, rfl⟩
  | inList named operands negated =>
    refine ⟨_, rfl, ?_⟩
    rw [settled, eachSettled_eq_map, List.map_map]
    rfl
  | like named pattern => exact ⟨_, rfl, rfl⟩
  | between named low high => exact ⟨_, rfl, rfl⟩
  | isNull named negated => exact ⟨_, rfl, rfl⟩
  | nested combinator nonempty each ih =>
    obtain ⟨verdicts, hverdicts⟩ := exists_forall₂ ih
    have hunsettled := verdicts_of_forall₂ ρ (hverdicts.imp fun _ _ h => h.1)
    have hsettled := verdicts_of_forall₂ ρ
      (List.forall₂_map_left_iff.mpr (hverdicts.imp fun _ _ h => h.2))
    have hnonempty : verdicts ≠ [] := by
      rintro rfl
      exact nonempty (List.forall₂_nil_right_iff.mp hverdicts)
    obtain ⟨verdict, hjoin⟩ := combinator.exists_join hnonempty
    refine ⟨verdict, ?_, ?_⟩
    · rw [Expr.verdict, hunsettled, hjoin]
    · rw [settled, Expr.verdict, eachSettled_eq_map, hsettled, hverdicts.length_eq,
        Combinator.join_settled, hjoin]

/-- Read as a settled group, conditions have the truth that they have as a group. -/
theorem Group.verdict_settled {g : Group} (hne : g.isEmpty = false)
    (h : ∀ predicate ∈ g.predicates, predicate.IsCondition) :
    g.settled.toExpr.verdict ρ = some (g.holds ρ) := by
  obtain ⟨verdict, hverdict, hsettled⟩ := (isCondition_toExpr hne h).exists_verdict ρ
  have hgroup : g.settled.toExpr = g.toExpr.settled := by
    simp only [toExpr, settled, Expr.settled, Expr.eachSettled_eq_map]
  have hholds : g.holds ρ = verdict := congrArg (Option.getD · true) hverdict
  rw [hgroup, hsettled, hholds]

end Truth

end FilterQuery.Sql
