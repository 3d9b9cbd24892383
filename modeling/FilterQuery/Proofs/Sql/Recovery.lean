import Mathlib.Data.List.Forall2
import FilterQuery.Proofs.Sql.Condition

/-!
# Conditions are read back

The items of a condition are read as the condition itself, whatever follows them and whatever stands
for its values. An item list of length `n` needs a recursion of depth `3 * n` at most, since between
two items the reader goes through a condition, a conjunction and a predicate.
-/

namespace FilterQuery.Sql

open Json (Value)

variable {ν : Type}

/-- A style of writing values: what stands for a value, and what this is read as. In place of a
count stands an item that is read as a count, and no parenthesis or keyword is read as a value. -/
structure Style (ν : Type) where
  literal? : Token → Option ν
  leaf : Value → Item ν
  read : Value → ν
  operand : ∀ v, (leaf v).operand? literal? = some (read v)
  count : ∀ n : Nat, (leaf (.ofNat n)).isCount = true
  closing : literal? (.symbol ")") = none
  opening : literal? (.word "WHERE") = none

/-- An item as the style writes it. -/
def Style.item (style : Style ν) : Item Value → Item ν
  | .token t => .token t
  | .operand v => style.leaf v

theorem readColumn_nameItems (style : Style ν) {parts : List String} (hne : parts ≠ [])
    {rest : List (Item ν)} (hrest : ∀ after, rest ≠ .symbol "." :: after) :
    readColumn ((nameItems parts).map style.item ++ rest) = some (parts, rest) := by
  induction parts with
  | nil => exact absurd rfl hne
  | cons part parts ih =>
    cases parts with
    | nil =>
      have hitems : (nameItems [part]).map style.item ++ rest =
          .token (.name part) :: rest := by simp [nameItems, Item.separated, Style.item]
      rw [hitems, readColumn]
      exact hrest
    | cons next parts =>
      have hitems : (nameItems (part :: next :: parts)).map style.item ++ rest =
          .token (.name part) :: .symbol "." ::
            ((nameItems (next :: parts)).map style.item ++ rest) := by
        simp [nameItems, Item.separated, List.intercalate_cons_cons, Style.item]
      rw [hitems, readColumn, ih (List.cons_ne_nil next parts)]
      rfl

/-- A test of a column is read as a predicate, whatever follows. -/
theorem readPredicate_column (style : Style ν) {column : Ident} (hne : column.parts ≠ [])
    {tail rest : List (Item ν)} {p : Predicate ν}
    (hread : readTest style.literal? column tail = some (p, rest))
    (htail : ∀ after, tail ≠ .symbol "." :: after) (fuel : Nat) :
    readPredicate style.literal? (fuel + 1)
      ((nameItems column.parts).map style.item ++ tail) = some (p, rest) := by
  have hcolumn := readColumn_nameItems style hne htail
  rw [readPredicate, hcolumn]
  · exact hread
  · intro items heq
    obtain ⟨part, parts, hparts⟩ := List.exists_cons_of_ne_nil hne
    rw [hparts, nameItems, List.map_cons, Item.separated_cons] at heq
    cases heq

theorem readOperandsMore_values (style : Style ν) (vs : List Value) (rest : List (Item ν)) :
    readOperandsMore style.literal?
        (vs.flatMap (fun v => [.symbol ",", style.leaf v]) ++ .symbol ")" :: rest) =
      some (vs.map style.read, rest) := by
  induction vs with
  | nil => rfl
  | cons v vs ih =>
    rw [List.flatMap_cons, List.append_assoc, List.cons_append, List.singleton_append,
      readOperandsMore, style.operand, Option.bind_some, ih]
    rfl

theorem readOperands_values (style : Style ν) (vs : List Value) (rest : List (Item ν)) :
    readOperands style.literal?
        ((Item.separated (.symbol ",") (vs.map fun v => [.operand v])).map style.item ++
          .symbol ")" :: rest) =
      some (vs.map style.read, rest) := by
  cases vs with
  | nil =>
    have hclosing : (Item.symbol ")").operand? style.literal? = none := style.closing
    rw [List.map_nil, Item.separated, List.intercalate_nil, List.map_nil, List.nil_append,
      readOperands, hclosing]
    rfl
  | cons v vs =>
    have hitems : (Item.separated (.symbol ",") ((v :: vs).map fun v => [.operand v])).map
        style.item = style.leaf v :: vs.flatMap fun v => [.symbol ",", style.leaf v] := by
      rw [List.map_cons, Item.separated_cons]
      simp [List.map_flatMap, List.flatMap_map, Style.item]
    rw [hitems, List.cons_append, readOperands, style.operand]
    simp only
    rw [readOperandsMore_values style]
    rfl

/-- The expression is read as the predicate, whatever follows it and whatever its values are. -/
structure ReadAs (e : Expr) (p : Predicate Value) : Prop where
  length_pos : 0 < e.items.length
  expr_eq : p.expr = e.settled
  read : ∀ {ν : Type} (style : Style ν) fuel rest, 3 * e.items.length ≤ fuel + 2 →
    readPredicate style.literal? fuel (e.items.map style.item ++ rest) =
      some (p.map style.read, rest)

section Steps

variable {literal? : Token → Option ν} {fuel : Nat} {items rest : List (Item ν)}

theorem readConjunction_last {part : Predicate ν}
    (h : readPredicate literal? fuel items = some (part, rest))
    (hrest : ∀ after, rest ≠ .word "AND" :: after) :
    readConjunction literal? (fuel + 1) items = some ([part], rest) := by
  rw [readConjunction, h]
  split
  · next heq =>
    cases heq
    exact absurd rfl (hrest _)
  · next heq =>
    cases heq
    rfl
  · next heq => cases heq

theorem readConjunction_more {part : Predicate ν}
    (h : readPredicate literal? fuel items = some (part, .word "AND" :: rest)) :
    readConjunction literal? (fuel + 1) items =
      (readConjunction literal? fuel rest).map fun (parts, after) => (part :: parts, after) := by
  rw [readConjunction, h]
  rfl

theorem readCondition_last {parts : List (Predicate ν)}
    (h : readConjunction literal? fuel items = some (parts, rest))
    (hrest : ∀ after, rest ≠ .word "OR" :: after) :
    readCondition literal? (fuel + 1) items = some ([parts], rest) := by
  rw [readCondition, h]
  split
  · next heq =>
    cases heq
    exact absurd rfl (hrest _)
  · next heq =>
    cases heq
    rfl
  · next heq => cases heq

theorem readCondition_more {parts : List (Predicate ν)}
    (h : readConjunction literal? fuel items = some (parts, .word "OR" :: rest)) :
    readCondition literal? (fuel + 1) items =
      (readCondition literal? fuel rest).map fun (conjunctions, after) =>
        (parts :: conjunctions, after) := by
  rw [readCondition, h]
  rfl

theorem readPredicate_open {conjunctions : List (List (Predicate ν))}
    (h : readCondition literal? fuel items = some (conjunctions, .symbol ")" :: rest)) :
    readPredicate literal? (fuel + 1) (.symbol "(" :: items) =
      some (condition conjunctions, rest) := by
  rw [readPredicate, h]
  rfl

end Steps

section Groups

variable {es : List Expr} {ps : List (Predicate Value)} (hes : List.Forall₂ ReadAs es ps)
  (style : Style ν)
include hes

theorem readConjunction_and (hne : es ≠ []) {rest : List (Item ν)}
    (hrest : ∀ after, rest ≠ .word "AND" :: after) {fuel : Nat}
    (hfuel : 3 * (Item.separated (.word "AND") (es.map Expr.items)).length ≤ fuel + 1) :
    readConjunction style.literal? fuel
        ((Item.separated (.word "AND") (es.map Expr.items)).map style.item ++ rest) =
      some (ps.map (Predicate.map style.read), rest) := by
  induction hes generalizing fuel with
  | nil => exact absurd rfl hne
  | @cons e p es ps he hes ih =>
    have hpos := he.length_pos
    cases hes with
    | nil =>
      rw [List.map_singleton, Item.separated_singleton] at hfuel ⊢
      obtain ⟨fuel, rfl⟩ : ∃ n, fuel = n + 1 := ⟨fuel - 1, by omega⟩
      exact readConjunction_last (he.read style fuel rest (by omega)) hrest
    | @cons next q es ps hnext hes =>
      rw [List.map_cons, List.map_cons, Item.separated_cons_cons, ← List.map_cons] at hfuel ⊢
      simp only [List.length_append, List.length_cons] at hfuel
      obtain ⟨fuel, rfl⟩ : ∃ n, fuel = n + 1 := ⟨fuel - 1, by omega⟩
      have hshort : 3 * (Item.separated (.word "AND") ((next :: es).map Expr.items)).length ≤
          fuel + 1 := by omega
      have hlater := ih (List.cons_ne_nil next es) hshort
      have hread := he.read style fuel (.word "AND" :: ((Item.separated (.word "AND")
        ((next :: es).map Expr.items)).map style.item ++ rest)) (by omega)
      rw [List.map_append, List.append_assoc]
      refine (readConjunction_more hread).trans ?_
      rw [hlater]
      rfl

/-- Without parentheses, each predicate of an `OR` group is a conjunction of its own. -/
theorem readCondition_or (hne : es ≠ []) {rest : List (Item ν)}
    (hand : ∀ after, rest ≠ .word "AND" :: after) (hor : ∀ after, rest ≠ .word "OR" :: after)
    {fuel : Nat} (hfuel : 3 * (Item.separated (.word "OR") (es.map Expr.items)).length ≤ fuel) :
    readCondition style.literal? fuel
        ((Item.separated (.word "OR") (es.map Expr.items)).map style.item ++ rest) =
      some (ps.map fun p => [p.map style.read], rest) := by
  induction hes generalizing fuel with
  | nil => exact absurd rfl hne
  | @cons e p es ps he hes ih =>
    have hpos := he.length_pos
    cases hes with
    | nil =>
      rw [List.map_singleton, Item.separated_singleton] at hfuel ⊢
      obtain ⟨fuel, rfl⟩ : ∃ n, fuel = n + 2 := ⟨fuel - 2, by omega⟩
      have hread := he.read style fuel rest (by omega)
      exact readCondition_last (readConjunction_last hread hand) hor
    | @cons next q es ps hnext hes =>
      rw [List.map_cons, List.map_cons, Item.separated_cons_cons, ← List.map_cons] at hfuel ⊢
      simp only [List.length_append, List.length_cons] at hfuel
      obtain ⟨fuel, rfl⟩ : ∃ n, fuel = n + 2 := ⟨fuel - 2, by omega⟩
      have hshort : 3 * (Item.separated (.word "OR") ((next :: es).map Expr.items)).length ≤
          fuel + 1 := by omega
      have hlater := ih (List.cons_ne_nil next es) hshort
      have hread := he.read style fuel (.word "OR" :: ((Item.separated (.word "OR")
        ((next :: es).map Expr.items)).map style.item ++ rest)) (by omega)
      have hconjunction := readConjunction_last hread (by simp)
      rw [List.map_append, List.append_assoc]
      refine (readCondition_more hconjunction).trans ?_
      rw [hlater]
      rfl

theorem length_separated_pos (separator : Item Value) (hne : es ≠ []) :
    0 < (Item.separated separator (es.map Expr.items)).length := by
  cases hes with
  | nil => exact absurd rfl hne
  | cons he hes =>
    have hpos := he.length_pos
    rw [List.map_cons, Item.separated_cons, List.length_append]
    omega

/-- A group without parentheses is read as the group of what its predicates are read as. -/
theorem readCondition_group (combinator : Combinator) (hne : es ≠ []) {rest : List (Item ν)}
    (hand : ∀ after, rest ≠ .word "AND" :: after) (hor : ∀ after, rest ≠ .word "OR" :: after)
    {fuel : Nat}
    (hfuel : 3 * (Item.separated (.word combinator.word) (es.map Expr.items)).length ≤ fuel) :
    ∃ conjunctions, readCondition style.literal? fuel
        ((Item.separated (.word combinator.word) (es.map Expr.items)).map style.item ++
          rest) = some (conjunctions, rest) ∧
      condition conjunctions =
        .nested (combinator.settled es.length) (ps.map (Predicate.map style.read)) := by
  have hlength := hes.length_eq
  have hpos := length_separated_pos hes (.word combinator.word) hne
  obtain ⟨fuel, rfl⟩ : ∃ n, fuel = n + 1 := ⟨fuel - 1, by omega⟩
  cases combinator with
  | and =>
    have hread := readConjunction_and hes style hne hand hfuel
    refine ⟨[ps.map (Predicate.map style.read)], readCondition_last hread hor, ?_⟩
    rw [condition, Combinator.settled, ite_self]
  | or =>
    have hread := readCondition_or hes style hne hand hor hfuel
    refine ⟨ps.map fun p : Predicate Value => [p.map style.read], hread, ?_⟩
    cases hes with
    | nil => exact absurd rfl hne
    | cons he hes =>
      cases hes with
      | nil => rfl
      | cons hnext hes => simp [condition, conjunct, Combinator.settled]

end Groups

theorem Comparison.ofSign?_sign (c : Comparison) : ofSign? c.sign = some c := by
  cases c <;> rfl

theorem readTest_inList (style : Style ν) (column : Ident) (negated : Bool)
    (items : List (Item ν)) :
    readTest style.literal? column ((negationItems negated).map style.item ++
        .word "IN" :: .symbol "(" :: items) =
      (readOperands style.literal? items).map fun (operands, after) =>
        (.inList column operands negated, after) := by
  cases negated <;> rfl

/-- A column with a test behind it, which begins with a token other than a point. -/
theorem ReadAs.of_test {e : Expr} {p : Predicate Value} {column : Ident} (hne : column.parts ≠ [])
    {tail : List (Item Value)} (hitems : e.items = nameItems column.parts ++ tail)
    (hhead : ∃ t more, tail = .token t :: more ∧ t ≠ .symbol ".") (hexpr : p.expr = e.settled)
    (hread : ∀ {ν : Type} (style : Style ν) rest,
      readTest style.literal? column (tail.map style.item ++ rest) =
        some (p.map style.read, rest)) :
    ReadAs e p := by
  obtain ⟨t, more, rfl, ht⟩ := hhead
  have hpos : 0 < e.items.length := by
    rw [hitems, List.length_append, List.length_cons]
    omega
  refine ⟨hpos, hexpr, ?_⟩
  intro ν style fuel rest hfuel
  obtain ⟨fuel, rfl⟩ : ∃ n, fuel = n + 1 := ⟨fuel - 1, by omega⟩
  rw [hitems, List.map_append, List.append_assoc]
  apply readPredicate_column style hne (hread style rest)
  intro after heq
  cases heq
  exact ht rfl

theorem map_expr_of_readAs {es : List Expr} {ps : List (Predicate Value)}
    (hes : List.Forall₂ ReadAs es ps) : ps.map Predicate.expr = es.map Expr.settled := by
  induction hes with
  | nil => rfl
  | cons he hes ih => rw [List.map_cons, he.expr_eq, ih, List.map_cons]

theorem shownItems_eq_map_of_shown {es : List Expr} (h : ∀ e ∈ es, e.isEmptyGroup = false) :
    Expr.shownItems es = es.map Expr.items := by
  have hfilter : es.filter (!·.isEmptyGroup) = es :=
    List.filter_eq_self.mpr fun e he => by rw [h e he]; rfl
  rw [Expr.shownItems_eq_map, hfilter]

theorem ReadAs.inList {column : Ident} (hne : column.parts ≠ []) (operands : List Value)
    (negated : Bool) :
    ReadAs (.inList (.column column) (operands.map .value) negated)
      (.inList column operands negated) := by
  have hitems : (Expr.inList (.column column) (operands.map .value) negated).items =
      nameItems column.parts ++ (negationItems negated ++ .word "IN" :: .symbol "(" ::
        (Item.separated (.symbol ",") (operands.map fun v => [.operand v]) ++ [.symbol ")"])) := by
    rw [Expr.items, Expr.eachItems_eq_map, List.map_map]
    simp [Expr.items, Function.comp_def]
  have hexpr : (Predicate.inList column operands negated).expr =
      (Expr.inList (.column column) (operands.map .value) negated).settled := by
    rw [Expr.settled, Expr.eachSettled_eq_map, List.map_map]
    rfl
  refine of_test hne hitems ?_ hexpr ?_
  · cases negated with
    | true => exact ⟨_, _, rfl, by decide⟩
    | false => exact ⟨_, _, rfl, by decide⟩
  · intro ν style rest
    have hread := readOperands_values style operands rest
    rw [List.map_append, List.append_assoc, List.map_cons, List.map_cons, List.map_append,
      List.cons_append, List.cons_append, List.append_assoc]
    refine (readTest_inList style column negated _).trans ?_
    rw [List.map_singleton, List.singleton_append, Style.item, hread]
    rfl

/-- An expression in parentheses, as a predicate of its own. -/
theorem ReadAs.of_group {combinator : Combinator} {es : List Expr} {ps : List (Predicate Value)}
    (hes : List.Forall₂ ReadAs es ps) (hne : es ≠ [])
    (hshown : ∀ e ∈ es, e.isEmptyGroup = false) :
    ReadAs (.nested combinator es) (.nested (combinator.settled es.length) ps) := by
  have hitems : (Expr.nested combinator es).items = .symbol "(" ::
      (Item.separated (.word combinator.word) (es.map Expr.items) ++ [.symbol ")"]) := by
    rw [Expr.items, shownItems_eq_map_of_shown hshown, List.cons_append]
  refine ⟨?_, ?_, ?_⟩
  · rw [hitems, List.length_cons]
    omega
  · rw [Predicate.expr, Predicate.exprs_eq_map, map_expr_of_readAs hes, Expr.settled,
      Expr.eachSettled_eq_map]
  · intro ν style fuel rest hfuel
    rw [hitems] at hfuel ⊢
    simp only [List.length_cons, List.length_append, List.length_nil] at hfuel
    obtain ⟨fuel, rfl⟩ : ∃ n, fuel = n + 1 := ⟨fuel - 1, by omega⟩
    have hclosing : ∀ word after, Item.symbol ")" :: rest ≠ .word word :: after := by simp
    have hshort : 3 * (Item.separated (.word combinator.word) (es.map Expr.items)).length ≤ fuel :=
      by omega
    obtain ⟨conjunctions, hread, hcondition⟩ := readCondition_group hes style combinator hne
      (hclosing "AND") (hclosing "OR") hshort
    rw [List.map_cons, List.map_append, List.cons_append, List.append_assoc]
    refine (readPredicate_open hread).trans ?_
    rw [hcondition, Predicate.map, Predicate.mapParts_eq_map]

theorem exists_forall₂ {α β : Type} {R : α → β → Prop} {as : List α}
    (h : ∀ a ∈ as, ∃ b, R a b) : ∃ bs, List.Forall₂ R as bs := by
  induction as with
  | nil => exact ⟨[], .nil⟩
  | cons a as ih =>
    obtain ⟨b, hb⟩ := h a List.mem_cons_self
    obtain ⟨bs, hbs⟩ := ih fun other hother => h other (List.mem_cons_of_mem a hother)
    exact ⟨b :: bs, .cons hb hbs⟩

theorem Expr.IsCondition.not_isEmptyGroup {e : Expr} (h : e.IsCondition) :
    e.isEmptyGroup = false := by
  cases h with
  | nested combinator nonempty each =>
    obtain ⟨first, others, rfl⟩ := List.exists_cons_of_ne_nil nonempty
    rfl
  | _ => rfl

/-- What a condition is read as. -/
theorem Expr.IsCondition.readAs {e : Expr} (h : e.IsCondition) : ∃ p, ReadAs e p := by
  induction h with
  | @compare column named comparison operand =>
    have hitems : (Expr.compare (.column column) comparison (.value operand)).items =
        nameItems column.parts ++ [.symbol comparison.sign, .operand operand] := rfl
    have hsign : Token.symbol comparison.sign ≠ .symbol "." := by cases comparison <;> decide
    refine ⟨.compare column comparison operand,
      .of_test named hitems ⟨_, _, rfl, hsign⟩ rfl ?_⟩
    intro ν style rest
    simp [readTest, Style.item, Comparison.ofSign?_sign, style.operand, Predicate.map]
  | inList named operands negated => exact ⟨_, .inList named operands negated⟩
  | @like column named pattern =>
    have hitems : (Expr.like (.column column) (.value pattern)).items =
        nameItems column.parts ++ [.word "LIKE", .operand pattern] := rfl
    refine ⟨.like column pattern, .of_test named hitems ⟨_, _, rfl, by decide⟩ rfl ?_⟩
    intro ν style rest
    simp [readTest, Style.item, style.operand, Predicate.map]
  | @between column named low high =>
    have hitems : (Expr.between (.column column) (.value low) (.value high)).items =
        nameItems column.parts ++
          [.word "BETWEEN", .operand low, .word "AND", .operand high] := by simp [items]
    refine ⟨.between column low high, .of_test named hitems ⟨_, _, rfl, by decide⟩ rfl ?_⟩
    intro ν style rest
    simp [readTest, Style.item, style.operand, Predicate.map]
  | @isNull column named negated =>
    have hitems : (Expr.isNull (.column column) negated).items =
        nameItems column.parts ++ .word "IS" :: (negationItems negated ++ [.word "NULL"]) := by
      simp [items]
    refine ⟨.isNull column negated, .of_test named hitems ⟨_, _, rfl, by decide⟩ rfl ?_⟩
    intro ν style rest
    cases negated <;> rfl
  | nested combinator nonempty each ih =>
    obtain ⟨ps, hps⟩ := exists_forall₂ ih
    exact ⟨_, .of_group hps nonempty fun e he => (each e he).not_isEmptyGroup⟩

end FilterQuery.Sql
