import FilterQuery.Proofs.Sql.Reading

/-!
# The grammar of statements

A reader for statements that select everything from one table. Each clause that has its keyword must
have its content, and a group in parentheses must have a predicate. A statement is grammatical if it
is read to its end and has no empty `IN` list.
-/

namespace FilterQuery.Sql

open Json (Value)

variable {ν : Type}

/-- What the keyword heads, if it is there. -/
def readClause (keyword : String) (read : List (Item ν) → Option (List (Item ν))) :
    List (Item ν) → Option (List (Item ν))
  | .token (.word word) :: rest =>
    if word = keyword then read rest else some (.token (.word word) :: rest)
  | items => some items

def readCount : List (Item ν) → Option (List (Item ν))
  | [] => none
  | item :: rest => if item.isCount then some rest else none

def readDirection : List (Item ν) → Option (List (Item ν))
  | .token (.word "ASC") :: rest => some rest
  | .token (.word "DESC") :: rest => some rest
  | _ => none

/-- Sort keys with commas between them. The first argument bounds their number. -/
def readKeys : Nat → List (Item ν) → Option (List (Item ν))
  | 0, _ => none
  | fuel + 1, items =>
    (readColumn items).bind fun (_, rest) =>
      match readDirection rest with
      | some (.token (.symbol ",") :: rest) => readKeys fuel rest
      | rest => rest

def readOrder : List (Item ν) → Option (List (Item ν))
  | .token (.word "BY") :: rest => readKeys rest.length rest
  | _ => none

section Reading

variable (literal? : Token → Option ν)

def readConditions : List (Item ν) → Option (Option (Predicate ν) × List (Item ν))
  | .token (.word "WHERE") :: rest =>
    (readWhole literal? rest).map fun (tree, after) => (some tree, after)
  | items => some (none, items)

def readPaging (items : List (Item ν)) : Option (List (Item ν)) :=
  (readClause "LIMIT" readCount items).bind (readClause "OFFSET" readCount)

/-- The conditions of a whole statement on one table, if it has any. -/
def readStatement? : List (Item ν) → Option (Option (Predicate ν))
  | .token (.word "SELECT") :: .token (.symbol "*") :: .token (.word "FROM") :: items =>
    (readColumn items).bind fun (_, items) =>
      (readConditions literal? items).bind fun (tree, items) =>
        ((readClause "ORDER" readOrder items).bind readPaging).bind fun items =>
          if items.isEmpty then some tree else none
  | _ => none

end Reading

mutual

/-- No list of operands in the predicate is empty. -/
def Predicate.ListsFilled : Predicate ν → Prop
  | .inList _ operands _ => operands ≠ []
  | .nested _ parts => Predicate.EachFilled parts
  | _ => True

def Predicate.EachFilled : List (Predicate ν) → Prop
  | [] => True
  | part :: parts => Predicate.ListsFilled part ∧ Predicate.EachFilled parts

end

mutual

def Expr.ListsFilled : Expr → Prop
  | .inList _ members _ => members ≠ []
  | .nested _ predicates => Expr.EachFilled predicates
  | _ => True

def Expr.EachFilled : List Expr → Prop
  | [] => True
  | e :: es => Expr.ListsFilled e ∧ Expr.EachFilled es

end

/-- Whether a text was read as a statement without empty lists. -/
def Grammatical (read : Option (Option (Predicate ν))) : Prop :=
  ∃ tree, read = some tree ∧ ∀ p ∈ tree, p.ListsFilled

def Bound.statement? (d : Dialect) (b : Bound) : Option (Option (Predicate Value)) :=
  (b.items? d).bind (readStatement? fun _ => none)

def inlineStatement? (d : Dialect) (text : String) : Option (Option (Predicate Token)) :=
  (inlineItems? d text).bind (readStatement? Token.literal?)

theorem Expr.eachFilled_iff (es : List Expr) : EachFilled es ↔ ∀ e ∈ es, e.ListsFilled := by
  induction es with
  | nil => simp [EachFilled]
  | cons e es ih => simp [EachFilled, ih]

namespace Predicate

variable {μ : Type} (f : ν → μ)

mutual

theorem listsFilled_map : ∀ p : Predicate ν, (p.map f).ListsFilled ↔ p.ListsFilled
  | .compare _ _ _ => Iff.rfl
  | .inList _ _ _ => by simp [map, ListsFilled]
  | .like _ _ => Iff.rfl
  | .between _ _ _ => Iff.rfl
  | .isNull _ _ => Iff.rfl
  | .nested _ parts => eachFilled_mapParts parts

theorem eachFilled_mapParts : ∀ parts : List (Predicate ν),
    EachFilled (mapParts f parts) ↔ EachFilled parts
  | [] => Iff.rfl
  | part :: parts => and_congr (listsFilled_map part) (eachFilled_mapParts parts)

end

mutual

theorem listsFilled_expr : ∀ p : Predicate Value, p.expr.ListsFilled ↔ p.ListsFilled
  | .compare _ _ _ => Iff.rfl
  | .inList _ _ _ => by simp [expr, ListsFilled, Expr.ListsFilled]
  | .like _ _ => Iff.rfl
  | .between _ _ _ => Iff.rfl
  | .isNull _ _ => Iff.rfl
  | .nested _ parts => eachFilled_exprs parts

theorem eachFilled_exprs : ∀ parts : List (Predicate Value),
    Expr.EachFilled (exprs parts) ↔ EachFilled parts
  | [] => Iff.rfl
  | part :: parts => and_congr (listsFilled_expr part) (eachFilled_exprs parts)

end

end Predicate

theorem Expr.listsFilled_settled (e : Expr) : e.settled.ListsFilled ↔ e.ListsFilled := by
  induction e with
  | inList subject members negated =>
    simp [settled, ListsFilled, eachSettled_eq_map]
  | nested combinator predicates ih =>
    rw [settled, ListsFilled, ListsFilled, eachSettled_eq_map, eachFilled_iff, eachFilled_iff,
      List.forall_mem_map]
    exact forall₂_congr ih
  | _ => rfl

/-! ## Reading back -/

/-- Sort keys as hints give them. -/
def SortExpr.ByColumn (key : SortExpr) : Prop :=
  ∃ column : Ident, key.expr = .column column ∧ column.parts ≠ []

theorem readClause_keyword (keyword : String) (read : List (Item ν) → Option (List (Item ν)))
    (rest : List (Item ν)) : readClause keyword read (.word keyword :: rest) = read rest := by
  rw [readClause, if_pos rfl]

section Reading

/-- A key is read up to its direction. -/
theorem readColumn_key (style : Style ν) {column : Ident} (hne : column.parts ≠ [])
    (order : Order) (rest : List (Item ν)) :
    readColumn (((SortExpr.mk (.column column) order).items).map style.item ++ rest) =
      some (column.parts, .word order.word :: rest) := by
  have hitems : (SortExpr.mk (.column column) order).items =
      nameItems column.parts ++ [.word order.word] := rfl
  rw [hitems, List.map_append, List.append_assoc]
  exact readColumn_nameItems style hne fun after heq => by cases heq

theorem readDirection_word (order : Order) (rest : List (Item ν)) :
    readDirection (.word order.word :: rest) = some rest := by
  cases order <;> rfl

section Steps

variable {fuel : Nat} {items after rest : List (Item ν)} {parts : List String}
  (hcolumn : readColumn items = some (parts, after))
include hcolumn

theorem readKeys_last (hdirection : readDirection after = some rest)
    (hrest : ∀ after, rest ≠ .symbol "," :: after) : readKeys (fuel + 1) items = some rest := by
  rw [readKeys, hcolumn, Option.bind_some]
  simp only [hdirection]
  split
  · next heq =>
    cases heq
    exact absurd rfl (hrest _)
  · rfl

theorem readKeys_more (hdirection : readDirection after = some (.symbol "," :: rest)) :
    readKeys (fuel + 1) items = readKeys fuel rest := by
  rw [readKeys, hcolumn, Option.bind_some]
  simp only [hdirection]

end Steps

theorem readKeys_items (style : Style ν) {keys : List SortExpr} (hne : keys ≠ [])
    (hkeys : ∀ key ∈ keys, key.ByColumn) {rest : List (Item ν)}
    (hrest : ∀ after, rest ≠ .symbol "," :: after) {fuel : Nat} (hfuel : keys.length ≤ fuel) :
    readKeys fuel ((Item.separated (.symbol ",") (keys.map SortExpr.items)).map style.item ++
      rest) = some rest := by
  induction keys generalizing fuel with
  | nil => exact absurd rfl hne
  | cons key keys ih =>
    obtain ⟨column, hcolumn, hparts⟩ := hkeys key List.mem_cons_self
    obtain ⟨e, order⟩ := key
    obtain rfl : e = .column column := hcolumn
    obtain ⟨fuel, rfl⟩ : ∃ n, fuel = n + 1 := ⟨fuel - 1, by simp at hfuel; omega⟩
    cases keys with
    | nil =>
      have hkey := readColumn_key style hparts order rest
      rw [List.map_singleton, Item.separated_singleton]
      exact readKeys_last hkey (readDirection_word order rest) hrest
    | cons next keys =>
      have hshort : (next :: keys).length ≤ fuel := Nat.le_of_succ_le_succ hfuel
      have hlater := ih (List.cons_ne_nil next keys)
        (fun other hother => hkeys other (List.mem_cons_of_mem _ hother)) hshort
      rw [List.map_cons, List.map_cons, Item.separated_cons_cons, ← List.map_cons, List.map_append,
        List.append_assoc]
      have hkey := readColumn_key style hparts order
      exact (readKeys_more (hkey _) (readDirection_word order _)).trans hlater

theorem readPaging_items (style : Style ν) (d : Dialect) (limit offset : Option Count) :
    readPaging ((Select.pagingItems d limit offset).map style.item) = some [] := by
  have hcount : ∀ (n : Nat) rest, readCount (style.leaf (.ofNat n) :: rest) = some rest :=
    fun n rest => by rw [readCount, if_pos (style.count n)]
  have hrows : ∀ (rows : String) rest, readCount (.token (.number rows) :: rest) =
      some (rest : List (Item ν)) := fun _ _ => rfl
  cases d <;> cases limit <;> cases offset <;>
    simp [readPaging, Select.pagingItems, Select.limitItems, Select.allRowsItems,
      Select.offsetItems, Dialect.allRows?, Style.item, readClause, hcount, hrows]

theorem length_le_length_separated (keys : List SortExpr) :
    keys.length ≤ (Item.separated (.symbol ",") (keys.map SortExpr.items)).length := by
  induction keys with
  | nil => exact Nat.zero_le _
  | cons key keys ih =>
    have hkey : key.items.length = key.expr.items.length + 1 := by simp [SortExpr.items]
    cases keys with
    | nil =>
      rw [List.map_singleton, Item.separated_singleton, hkey, List.length_singleton]
      omega
    | cons next keys =>
      rw [List.map_cons, List.map_cons, Item.separated_cons_cons, ← List.map_cons]
      simp only [List.length_append, List.length_cons] at ih ⊢
      omega

/-- The order and the paging of a statement are read to the end. -/
theorem readOrder_tailItems (style : Style ν) (d : Dialect) {s : Select}
    (horder : ∀ key ∈ s.orderBy, key.ByColumn) :
    (readClause "ORDER" readOrder ((s.tailItems d).map style.item)).bind readPaging =
      some [] := by
  have hpaging := readPaging_items style d s.limit s.offset
  rw [Select.tailItems]
  cases hkeys : s.orderBy with
  | nil =>
    rw [← hpaging]
    cases d <;> cases s.limit <;> cases s.offset <;> rfl
  | cons key keys =>
    rw [hkeys] at horder
    have hcomma : ∀ after, (Select.pagingItems d s.limit s.offset).map style.item ≠
        .symbol "," :: after := by
      intro after heq
      have hends := Select.endsCondition_pagingItems style d s.limit s.offset
      rw [heq] at hends
      cases hends
    have hfuel : (key :: keys).length ≤ ((Item.separated (.symbol ",")
        ((key :: keys).map SortExpr.items)).map style.item ++
          (Select.pagingItems d s.limit s.offset).map style.item).length := by
      have hlength := length_le_length_separated (key :: keys)
      rw [List.length_append, List.length_map]
      omega
    have hread := readKeys_items style (List.cons_ne_nil key keys) horder hcomma hfuel
    have horder : readClause "ORDER" readOrder
        ((Select.orderItems (key :: keys) ++ Select.pagingItems d s.limit s.offset).map
          style.item) =
        some ((Select.pagingItems d s.limit s.offset).map style.item) := by
      rw [List.map_append]
      exact (readClause_keyword "ORDER" readOrder _).trans hread
    rw [horder, Option.bind_some, hpaging]

end Reading

theorem readConditions_of_endsCondition (literal? : Token → Option ν) {items : List (Item ν)}
    (h : endsCondition items = true) : readConditions literal? items = some (none, items) := by
  rw [readConditions]
  exact fun rest heq => ne_word_of_endsCondition h (by decide) rest heq

namespace Select

theorem readConditions_items {s : Select}
    (hconditions : ∀ predicate ∈ s.conditions.predicates, predicate.IsCondition) :
    ∃ tree : Option (Predicate Value),
      tree.map Predicate.expr =
        (if s.conditions.isEmpty then none else some s.conditions.settled.toExpr) ∧
      ∀ {ν : Type} (style : Style ν) d, readConditions style.literal?
          ((conditionItems s.conditions ++ s.tailItems d).map style.item) =
        some (tree.map (Predicate.map style.read), (s.tailItems d).map style.item) := by
  cases hempty : s.conditions.isEmpty with
  | true =>
    refine ⟨none, rfl, ?_⟩
    intro ν style d
    rw [conditionItems, hempty, if_pos rfl, List.nil_append]
    exact readConditions_of_endsCondition style.literal? (endsCondition_tailItems style d s)
  | false =>
    obtain ⟨tree, hexpr, hread⟩ := Group.readWhole_items hempty hconditions
    refine ⟨some tree, congrArg some hexpr, ?_⟩
    intro ν style d
    have hwhole := hread style _ (endsCondition_tailItems style d s)
    rw [conditionItems, hempty, if_neg Bool.false_ne_true, List.cons_append, List.map_cons,
      List.map_append]
    exact congrArg (Option.map _) hwhole

theorem ne_point (style : Style ν) (d : Dialect) (s : Select) :
    ∀ after, (conditionItems s.conditions ++ s.tailItems d).map style.item ≠
      .symbol "." :: after := by
  intro after heq
  have hends := endsCondition_tailItems style d s
  rw [conditionItems] at heq
  split at heq
  · rw [List.nil_append] at heq
    rw [heq] at hends
    cases hends
  · cases heq

theorem statement?_bound (d : Dialect) (s : Select) :
    (Sql.bound d (s.pieces d)).statement? d =
      readStatement? Style.bound.literal? ((s.items d).map Style.bound.item) := by
  rw [Bound.statement?, s.items?_bound]
  rfl

theorem inlineStatement?_inline (d : Dialect) (s : Select) :
    inlineStatement? d (inline d (s.pieces d)) =
      readStatement? Style.inline.literal? ((s.items d).map Style.inline.item) := by
  rw [inlineStatement?, s.inlineItems?_inline]
  rfl

/-- A statement on one table is read to the end, and its conditions as themselves, settled. -/
theorem readStatement?_items {s : Select} {table : Table} (hcolumns : s.columns = [.star])
    (htable : s.table = some table)
    (hconditions : ∀ predicate ∈ s.conditions.predicates, predicate.IsCondition)
    (horder : ∀ key ∈ s.orderBy, key.ByColumn) :
    ∃ tree : Option (Predicate Value),
      tree.map Predicate.expr =
        (if s.conditions.isEmpty then none else some s.conditions.settled.toExpr) ∧
      ∀ {ν : Type} (style : Style ν) d,
        readStatement? style.literal? ((s.items d).map style.item) =
          some (tree.map (Predicate.map style.read)) := by
  obtain ⟨tree, hexpr, hread⟩ := readConditions_items hconditions
  refine ⟨tree, hexpr, ?_⟩
  intro ν style d
  have hsource : s.sourceItems = .word "SELECT" :: .symbol "*" :: .word "FROM" ::
      nameItems (table.schema.toList ++ [table.name]) := by
    rw [sourceItems, hcolumns, htable]
    rfl
  have hnamed : table.schema.toList ++ [table.name] ≠ [] := by simp
  have hcolumn := readColumn_nameItems style hnamed (ne_point style d s)
  rw [items_eq, hsource, List.map_append]
  simp only [List.map_cons, Style.item, List.cons_append]
  rw [readStatement?, hcolumn]
  simp only [Option.bind_some, hread style d, readOrder_tailItems style d horder,
    List.isEmpty_nil, if_true]

/-- Such a statement is always read to the end, and it is grammatical exactly if its conditions have
no empty list. -/
theorem grammatical_items_iff {s : Select} {table : Table} (hcolumns : s.columns = [.star])
    (htable : s.table = some table)
    (hconditions : ∀ predicate ∈ s.conditions.predicates, predicate.IsCondition)
    (horder : ∀ key ∈ s.orderBy, key.ByColumn) (style : Style ν) (d : Dialect) :
    (readStatement? style.literal? ((s.items d).map style.item)).isSome = true ∧
      (Grammatical (readStatement? style.literal? ((s.items d).map style.item)) ↔
        ∀ predicate ∈ s.conditions.predicates, predicate.ListsFilled) := by
  obtain ⟨tree, hexpr, hread⟩ := readStatement?_items hcolumns htable hconditions horder
  have hgrammatical : Grammatical (some (tree.map (Predicate.map style.read))) ↔
      ∀ p ∈ tree, p.ListsFilled := by
    simp [Grammatical, Predicate.listsFilled_map]
  rw [hread style d, hgrammatical]
  refine ⟨rfl, ?_⟩
  cases tree with
  | none =>
    have hempty : s.conditions.predicates = [] := by
      simpa [Group.isEmpty] using hexpr
    simp [hempty]
  | some tree =>
    have htree : tree.expr = s.conditions.settled.toExpr := by
      split at hexpr
      · cases hexpr
      · exact Option.some.inj hexpr
    have hlists : tree.ListsFilled ↔ s.conditions.settled.toExpr.ListsFilled := by
      rw [← htree, Predicate.listsFilled_expr]
    rw [Group.toExpr, Expr.ListsFilled, Expr.eachFilled_iff] at hlists
    simp [hlists, Group.settled, Expr.listsFilled_settled]

end Select

end FilterQuery.Sql
