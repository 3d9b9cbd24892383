import FilterQuery.Proofs.Sql.Items

/-!
# Which tokens occur

Apart from names and values, the items of expressions are symbols and words of a fixed vocabulary,
and those of statements have the words of the clauses besides. So a placeholder only stands for a
value, and only the conditions of a statement are headed by `WHERE`.
-/

namespace FilterQuery.Sql

open Json (Value)

/-- All tokens among the items have the property. -/
def AllTokens {ν : Type} (P : Token → Prop) (items : List (Item ν)) : Prop :=
  ∀ t, .token t ∈ items → P t

namespace AllTokens

variable {ν : Type} {P : Token → Prop} {items items' : List (Item ν)}

theorem nil : AllTokens P ([] : List (Item ν)) := by
  simp [AllTokens]

theorem operand (v : ν) : AllTokens P [.operand v] := by
  simp [AllTokens]

theorem cons {t : Token} (ht : P t) (h : AllTokens P items) : AllTokens P (.token t :: items) := by
  intro t' hmem
  rcases List.mem_cons.mp hmem with heq | hmem
  · cases heq
    exact ht
  · exact h t' hmem

theorem append (h : AllTokens P items) (h' : AllTokens P items') :
    AllTokens P (items ++ items') := by
  intro t hmem
  rcases List.mem_append.mp hmem with hmem | hmem
  · exact h t hmem
  · exact h' t hmem

theorem mono {Q : Token → Prop} (hPQ : ∀ t, P t → Q t) (h : AllTokens P items) :
    AllTokens Q items :=
  fun t hmem => hPQ t (h t hmem)

theorem separated {t : Token} (ht : P t) {parts : List (List (Item ν))}
    (h : ∀ part ∈ parts, AllTokens P part) : AllTokens P (Item.separated (.token t) parts) := by
  induction parts with
  | nil => exact nil
  | cons part parts ih =>
    have hpart := h part List.mem_cons_self
    cases parts with
    | nil =>
      rw [Item.separated_singleton]
      exact hpart
    | cons next parts =>
      have hlater := ih fun other hother => h other (List.mem_cons_of_mem part hother)
      rw [Item.separated_cons_cons]
      exact hpart.append (cons ht hlater)

end AllTokens

/-- The tokens of expressions other than names and values. -/
def vocabulary : List Token :=
  [".", "*", "=", "!=", "<", "<=", ">", ">=", "(", ")", ","].map .symbol ++
    ["NOT", "IN", "LIKE", "BETWEEN", "AND", "OR", "IS", "NULL"].map .word

/-- A name, or a token that expressions are made of. -/
def Token.IsPlain (t : Token) : Prop :=
  (∃ s, t = .name s) ∨ t ∈ vocabulary

theorem allTokens_nameItems (parts : List String) : AllTokens Token.IsPlain (nameItems parts) := by
  have hpoint : (Token.symbol ".").IsPlain := .inr (by decide)
  apply AllTokens.separated hpoint
  intro part hpart
  obtain ⟨s, -, rfl⟩ := List.mem_map.mp hpart
  exact .cons (.inl ⟨s, rfl⟩) .nil

theorem Combinator.isPlain_word (c : Combinator) : (Token.word c.word).IsPlain := by
  right
  cases c <;> decide

theorem allTokens_negationItems (negated : Bool) :
    AllTokens Token.IsPlain (negationItems negated) := by
  cases negated with
  | true => exact .cons (.inr (by decide)) .nil
  | false => exact .nil

theorem Expr.allTokens_items (e : Expr) : AllTokens Token.IsPlain e.items := by
  have hword : ∀ t ∈ vocabulary, t.IsPlain := fun _ ht => .inr ht
  induction e with
  | column ident => exact allTokens_nameItems ident.parts
  | star => exact .cons (hword _ (by decide)) .nil
  | value v => exact .operand v
  | compare left comparison right hleft hright =>
    exact hleft.append (.cons (hword _ (by cases comparison <;> decide)) hright)
  | inList subject members negated hsubject hmembers =>
    have hlist : AllTokens Token.IsPlain
        (Item.separated (.symbol ",") (members.map items)) := by
      apply AllTokens.separated (hword _ (by decide))
      exact List.forall_mem_map.mpr hmembers
    rw [items, eachItems_eq_map]
    exact ((hsubject.append (allTokens_negationItems negated)).append (.cons (hword _ (by decide))
      (.cons (hword _ (by decide)) hlist))).append (.cons (hword _ (by decide)) .nil)
  | like subject pattern hsubject hpattern =>
    exact hsubject.append (.cons (hword _ (by decide)) hpattern)
  | between subject low high hsubject hlow hhigh =>
    exact (hsubject.append (.cons (hword _ (by decide)) hlow)).append
      (.cons (hword _ (by decide)) hhigh)
  | isNull subject negated hsubject =>
    exact (hsubject.append (.cons (hword _ (by decide)) (allTokens_negationItems negated))).append
      (.cons (hword _ (by decide)) .nil)
  | nested combinator predicates hpredicates =>
    rw [items, shownItems_eq_map]
    refine (AllTokens.cons (hword _ (by decide)) ?_).append (.cons (hword _ (by decide)) .nil)
    apply AllTokens.separated combinator.isPlain_word
    exact List.forall_mem_map.mpr fun e he => hpredicates e (List.mem_filter.mp he).1

theorem Group.allTokens_items (g : Group) : AllTokens Token.IsPlain g.items := by
  rw [items, Expr.shownItems_eq_map]
  apply AllTokens.separated g.combinator.isPlain_word
  exact List.forall_mem_map.mpr fun e _ => e.allTokens_items

/-- The tokens of a statement besides those of its expressions and its conditions. -/
def clauseTokens : List Token :=
  ["SELECT", "FROM", "ORDER", "BY", "ASC", "DESC", "LIMIT", "OFFSET"].map .word ++
    [.symbol ",", .number "18446744073709551615"]

namespace Select

variable {P : Token → Prop} (hplain : ∀ t, t.IsPlain → P t) (hclause : ∀ t ∈ clauseTokens, P t)
include hplain hclause

theorem allTokens_sourceItems (s : Select) : AllTokens P s.sourceItems := by
  have hcolumns : AllTokens P (Item.separated (.symbol ",") (s.columns.map Expr.items)) := by
    apply AllTokens.separated (hclause _ (by decide))
    exact List.forall_mem_map.mpr fun e _ => e.allTokens_items.mono hplain
  have htable : AllTokens P (tableItems s.table) := by
    cases s.table with
    | none => exact .nil
    | some table => exact .cons (hclause _ (by decide)) ((allTokens_nameItems _).mono hplain)
  exact (AllTokens.cons (hclause _ (by decide)) hcolumns).append htable

theorem allTokens_orderItems (keys : List SortExpr) : AllTokens P (orderItems keys) := by
  cases keys with
  | nil => exact .nil
  | cons key keys =>
    refine .cons (hclause _ (by decide)) (.cons (hclause _ (by decide)) ?_)
    apply AllTokens.separated (hclause _ (by decide))
    refine List.forall_mem_map.mpr fun key _ => ?_
    have horder : P (.word key.order.word) := by
      cases key.order <;> exact hclause _ (by decide)
    exact (key.expr.allTokens_items.mono hplain).append (.cons horder .nil)

omit hplain in
theorem allTokens_pagingItems (d : Dialect) (limit offset : Option Count) :
    AllTokens P (pagingItems d limit offset) := by
  have hlimit : AllTokens P (limitItems limit) := by
    cases limit with
    | none => exact .nil
    | some n => exact .cons (hclause _ (by decide)) (.operand _)
  have hrows : AllTokens P (allRowsItems d limit offset) := by
    cases d <;> cases limit <;> cases offset <;> first
      | exact .nil
      | exact .cons (hclause _ (by decide)) (.cons (hclause _ (by decide)) .nil)
  have hoffset : AllTokens P (offsetItems offset) := by
    cases offset with
    | none => exact .nil
    | some n => exact .cons (hclause _ (by decide)) (.operand _)
  exact (hlimit.append hrows).append hoffset

theorem allTokens_items (d : Dialect) (s : Select)
    (hwhere : s.conditions.isEmpty = false → P (.word "WHERE")) : AllTokens P (s.items d) := by
  have hconditions : AllTokens P (conditionItems s.conditions) := by
    rw [conditionItems]
    split
    · exact .nil
    · next h =>
      exact .cons (hwhere (Bool.eq_false_iff.mpr h)) (s.conditions.allTokens_items.mono hplain)
  exact (((allTokens_sourceItems hplain hclause s).append hconditions).append
    (allTokens_orderItems hplain hclause s.orderBy)).append
    (allTokens_pagingItems hclause d s.limit s.offset)

end Select

end FilterQuery.Sql
