import FilterQuery.Proofs.Sql.Items

/-!
# Gaps in conditions

A text of conditions has a gap where parentheses have no predicate inside or a separator has none on
one of its sides. A scan finds the gaps: it keeps whether a predicate must come next, and how many
`BETWEEN`s wait for the `AND` that belongs to them. Behind an expression the scan has found the gaps
of the expression besides, and stands in the parentheses and ranges that it came from.
-/

namespace FilterQuery.Sql

open Json (Value)

/-! ## Scanning -/

/-- What comes next: a predicate behind a parenthesis or a separator, or the list of an `IN`. -/
inductive Awaited where
  | predicate
  | list
  | nothing
deriving DecidableEq

/-- A scan up to some token, with the `BETWEEN`s that are open in the innermost parentheses and in
those around them. -/
structure Scan where
  missing : Bool
  awaited : Awaited
  ranges : Nat
  outer : List Nat

namespace Scan

def start : Scan :=
  ⟨false, .predicate, 0, []⟩

/-- Whether a predicate is missing if none comes next. -/
def lacking (s : Scan) : Bool :=
  s.missing || s.awaited = .predicate

/-- Behind something that is part of a predicate. -/
def inside (s : Scan) : Scan :=
  { s with awaited := .nothing }

def separator (s : Scan) : Scan :=
  { s with missing := s.lacking, awaited := .predicate }

def step (s : Scan) : Token → Scan
  | .word "AND" => if s.ranges = 0 then s.separator else { s.inside with ranges := s.ranges - 1 }
  | .word "OR" => s.separator
  | .word "BETWEEN" => { s.inside with ranges := s.ranges + 1 }
  | .word "IN" => { s with awaited := .list }
  | .symbol "(" =>
    ⟨s.missing, if s.awaited = .list then .nothing else .predicate, 0, s.ranges :: s.outer⟩
  | .symbol ")" => ⟨s.lacking, .nothing, s.outer.headD 0, s.outer.tail⟩
  | _ => s.inside

def stepItem (s : Scan) : Item Value → Scan
  | .token t => s.step t
  | .operand _ => s.inside

end Scan

/-- Whether conditions have parentheses without a predicate or a separator without one beside it. -/
def hasGap (ts : List Token) : Bool :=
  !ts.isEmpty && (ts.foldl Scan.step .start).lacking

def textHasGap? (d : Dialect) (text : String) : Option Bool :=
  (lex d text.toList).map hasGap

/-! ## Gaps of expressions -/

namespace Expr

/-- Nothing is written for a column without a name. -/
def isBlank : Expr → Bool
  | .column ident => ident.parts.isEmpty
  | _ => false

mutual

/-- Whether a group in the expression shows no predicate, or one for which nothing is written. -/
def hasGap : Expr → Bool
  | .compare left _ right => hasGap left || hasGap right
  | .inList subject members _ => hasGap subject || anyHasGap members
  | .like subject pattern => hasGap subject || hasGap pattern
  | .between subject low high => hasGap subject || hasGap low || hasGap high
  | .isNull subject _ => hasGap subject
  | .nested _ predicates => predicates.all isEmptyGroup || anyLacks predicates
  | _ => false

def anyHasGap : List Expr → Bool
  | [] => false
  | e :: es => hasGap e || anyHasGap es

/-- Whether a predicate that is shown is blank or has a gap. -/
def anyLacks : List Expr → Bool
  | [] => false
  | e :: es => (!e.isEmptyGroup && (e.isBlank || hasGap e)) || anyLacks es

end

def shown (es : List Expr) : List Expr :=
  es.filter (!·.isEmptyGroup)

/-- As a predicate, nothing is written for the expression, or something with a gap. -/
def lacks (e : Expr) : Bool :=
  e.isBlank || e.hasGap

theorem anyHasGap_eq_any (es : List Expr) : anyHasGap es = es.any hasGap := by
  induction es with
  | nil => rfl
  | cons e es ih => rw [anyHasGap, ih, List.any_cons]

theorem anyLacks_eq_any (es : List Expr) : anyLacks es = (shown es).any lacks := by
  induction es with
  | nil => rfl
  | cons e es ih =>
    rw [anyLacks, ih]
    cases h : e.isEmptyGroup <;> simp [shown, lacks, h]

theorem hasGap_nested (combinator : Combinator) (predicates : List Expr) :
    (nested combinator predicates).hasGap =
      ((shown predicates).isEmpty || (shown predicates).any lacks) := by
  have hall : predicates.all isEmptyGroup = (shown predicates).isEmpty := by
    rw [Bool.eq_iff_iff, List.isEmpty_iff, shown, List.filter_eq_nil_iff, List.all_eq_true]
    simp
  rw [hasGap, anyLacks_eq_any, hall]

theorem hasGap_of_isBlank {e : Expr} (h : e.isBlank = true) : e.hasGap = false := by
  cases e with
  | column ident => rfl
  | _ => cases h

end Expr

/-! ## Scanning expressions -/

namespace Scan

/-- A scan behind an expression. -/
def past (s : Scan) (e : Expr) : Scan :=
  ⟨s.missing || e.hasGap, if e.isBlank then s.awaited else .nothing, s.ranges, s.outer⟩

/-- Where an expression may stand, a scan goes past it. -/
def Passes (e : Expr) : Prop :=
  ∀ s : Scan, s.awaited ≠ .list → e.items.foldl stepItem s = s.past e

theorem step_sign (s : Scan) (comparison : Comparison) :
    s.step (.symbol comparison.sign) = s.inside := by
  cases comparison <;> rfl

theorem step_combinator {s : Scan} (h : s.ranges = 0) (combinator : Combinator) :
    s.step (.word combinator.word) = s.separator := by
  cases combinator with
  | and => exact if_pos h
  | or => rfl

theorem foldl_nameItems {parts : List String} (hne : parts ≠ []) (s : Scan) :
    (nameItems parts).foldl stepItem s = s.inside := by
  induction parts generalizing s with
  | nil => exact absurd rfl hne
  | cons part parts ih =>
    cases parts with
    | nil => rfl
    | cons next parts => exact ih (List.cons_ne_nil next parts) s.inside.inside

theorem foldl_openList (negated : Bool) (s : Scan) :
    List.foldl stepItem s (negationItems negated ++ [.word "IN", .symbol "("]) =
      ⟨s.missing, .nothing, 0, s.ranges :: s.outer⟩ := by
  cases negated <;> rfl

theorem foldl_isNull (negated : Bool) (s : Scan) :
    List.foldl stepItem s (.word "IS" :: negationItems negated ++ [.word "NULL"]) = s.inside := by
  cases negated <;> rfl

/-- The `AND` of a range is not a separator. -/
theorem step_and (missing : Bool) (awaited : Awaited) (ranges : Nat) (outer : List Nat) :
    (Scan.mk missing awaited (ranges + 1) outer).step (.word "AND") =
      ⟨missing, .nothing, ranges, outer⟩ := by
  rw [step, if_neg (Nat.succ_ne_zero ranges)]
  rfl

theorem inside_past (s : Scan) (e : Expr) :
    s.inside.past e = ⟨s.missing || e.hasGap, .nothing, s.ranges, s.outer⟩ := by
  rw [past, inside, ite_self]

theorem awaited_inside_ne_list (s : Scan) : s.inside.awaited ≠ .list := by
  intro h
  cases h

theorem Passes.inside {e : Expr} (h : Passes e) (s : Scan) :
    e.items.foldl stepItem s.inside = ⟨s.missing || e.hasGap, .nothing, s.ranges, s.outer⟩ := by
  rw [h s.inside s.awaited_inside_ne_list, inside_past]

/-- The members of a list, among which no predicate is awaited. -/
theorem foldl_members {members : List Expr} (h : ∀ e ∈ members, Passes e) (s : Scan) :
    (Item.separated (.symbol ",") (members.map Expr.items)).foldl stepItem s.inside =
      ⟨s.missing || members.any Expr.hasGap, .nothing, s.ranges, s.outer⟩ := by
  induction members generalizing s with
  | nil =>
    rw [List.any_nil, Bool.or_false]
    rfl
  | cons e members ih =>
    have hfirst := (h e List.mem_cons_self).inside s
    have hlater := ih fun other hother => h other (List.mem_cons_of_mem e hother)
    cases members with
    | nil =>
      rw [List.map_singleton, Item.separated_singleton, hfirst, List.any_cons, List.any_nil,
        Bool.or_false]
    | cons next members =>
      rw [List.map_cons, List.map_cons, Item.separated_cons_cons, List.foldl_append, hfirst,
        List.any_cons, ← Bool.or_assoc]
      exact hlater ⟨s.missing || e.hasGap, .nothing, s.ranges, s.outer⟩

/-- The predicates of a group, from where the first one is awaited. -/
theorem foldl_predicates {es : List Expr} (h : ∀ e ∈ es, Passes e) (combinator : Combinator)
    (missing : Bool) (outer : List Nat) :
    ∃ s : Scan, (Item.separated (.word combinator.word) (es.map Expr.items)).foldl stepItem
        ⟨missing, .predicate, 0, outer⟩ = s ∧ s.ranges = 0 ∧ s.outer = outer ∧
      s.lacking = (missing || es.isEmpty || es.any Expr.lacks) := by
  induction es generalizing missing with
  | nil => exact ⟨⟨missing, .predicate, 0, outer⟩, rfl, rfl, rfl, by simp [lacking]⟩
  | cons e es ih =>
    have hfirst := h e List.mem_cons_self ⟨missing, .predicate, 0, outer⟩ fun heq => by cases heq
    have hlacking : (past ⟨missing, .predicate, 0, outer⟩ e).lacking = (missing || e.lacks) := by
      cases hblank : e.isBlank <;> simp [past, lacking, Expr.lacks, hblank]
    cases es with
    | nil =>
      rw [List.map_singleton, Item.separated_singleton, hfirst]
      refine ⟨_, rfl, rfl, rfl, hlacking.trans ?_⟩
      simp
    | cons next es =>
      obtain ⟨s, hs, hranges, houter, hlater⟩ :=
        ih (fun other hother => h other (List.mem_cons_of_mem e hother)) (missing || e.lacks)
      have hseparator : (past ⟨missing, .predicate, 0, outer⟩ e).step (.word combinator.word) =
          ⟨missing || e.lacks, .predicate, 0, outer⟩ := by
        rw [step_combinator rfl, separator, hlacking]
        rfl
      refine ⟨s, ?_, hranges, houter, ?_⟩
      · rw [List.map_cons, List.map_cons, Item.separated_cons_cons, List.foldl_append, hfirst,
          List.foldl_cons, stepItem, hseparator]
        exact hs
      · rw [hlater]
        simp [Bool.or_assoc]

theorem passes (e : Expr) : Passes e := by
  induction e with
  | column ident =>
    intro s h
    rw [Expr.items]
    by_cases hparts : ident.parts = []
    · simp [past, Expr.hasGap, Expr.isBlank, hparts, nameItems, Item.separated]
    · rw [foldl_nameItems hparts]
      simp [past, inside, Expr.hasGap, Expr.isBlank, hparts]
  | star =>
    intro s h
    simp [past, Expr.items, stepItem, step, inside, Expr.hasGap, Expr.isBlank]
  | value v =>
    intro s h
    simp [past, Expr.items, stepItem, inside, Expr.hasGap, Expr.isBlank]
  | compare left comparison right hleft hright =>
    intro s h
    rw [Expr.items, List.foldl_append, hleft s h, List.foldl_cons, stepItem, step_sign,
      hright.inside (s.past left), past, Bool.or_assoc]
    rfl
  | inList subject members negated hsubject hmembers =>
    intro s h
    have hlist := foldl_members hmembers
      ⟨(s.past subject).missing, .nothing, 0, s.ranges :: s.outer⟩
    have hitems : (Expr.inList subject members negated).items = subject.items ++
        (negationItems negated ++ [.word "IN", .symbol "("]) ++
          Item.separated (.symbol ",") (members.map Expr.items) ++ [.symbol ")"] := by
      simp [Expr.items, Expr.eachItems_eq_map]
    rw [hitems, List.foldl_append, List.foldl_append, List.foldl_append, hsubject s h,
      foldl_openList]
    refine (congrArg (fun t : Scan => t.step (.symbol ")")) hlist).trans ?_
    simp [step, lacking, past, Expr.hasGap, Expr.isBlank, Expr.anyHasGap_eq_any, Bool.or_assoc]
  | like subject pattern hsubject hpattern =>
    intro s h
    have hlike : stepItem (s.past subject) (.word "LIKE") = (s.past subject).inside := rfl
    rw [Expr.items, List.foldl_append, hsubject s h, List.foldl_cons, hlike,
      hpattern.inside (s.past subject), past, Bool.or_assoc]
    rfl
  | between subject low high hsubject hlow hhigh =>
    intro s h
    have hbetween : stepItem (s.past subject) (.word "BETWEEN") =
        inside ⟨(s.past subject).missing, .nothing, s.ranges + 1, s.outer⟩ := rfl
    have hlower := hlow.inside ⟨(s.past subject).missing, .nothing, s.ranges + 1, s.outer⟩
    have hupper :=
      hhigh.inside ⟨(s.past subject).missing || low.hasGap, .nothing, s.ranges, s.outer⟩
    rw [Expr.items, List.foldl_append, List.foldl_append, hsubject s h, List.foldl_cons,
      List.foldl_cons, hbetween, hlower, stepItem, step_and]
    refine hupper.trans ?_
    simp [past, Expr.hasGap, Expr.isBlank, Bool.or_assoc]
  | isNull subject negated hsubject =>
    intro s h
    rw [Expr.items, List.append_assoc, List.foldl_append, hsubject s h]
    exact foldl_isNull negated (s.past subject)
  | nested combinator predicates hpredicates =>
    intro s h
    have hshown : ∀ e ∈ Expr.shown predicates, Passes e :=
      fun e he => hpredicates e (List.mem_filter.mp he).1
    obtain ⟨t, hscan, hranges, houter, hlacking⟩ :=
      foldl_predicates hshown combinator s.missing (s.ranges :: s.outer)
    have hopen : stepItem s (.symbol "(") = ⟨s.missing, .predicate, 0, s.ranges :: s.outer⟩ := by
      simp [stepItem, step, h]
    have hclose : stepItem t (.symbol ")") = ⟨t.lacking, .nothing, t.outer.headD 0, t.outer.tail⟩ :=
      rfl
    rw [Expr.items, Expr.shownItems_eq_map, List.foldl_append, List.foldl_cons, List.foldl_cons,
      hopen]
    refine (congrArg (stepItem · (.symbol ")")) hscan).trans ?_
    rw [hclose, hlacking, houter, past, Expr.hasGap_nested, Bool.or_assoc]
    rfl

end Scan

/-! ## Gaps of texts -/

/-- A token that may stand for a value. -/
def Token.IsOperand : Token → Prop
  | .text _ => True
  | .number _ => True
  | .placeholder _ => True
  | .word s => s ∈ ["NULL", "TRUE", "FALSE"]
  | _ => False

theorem Token.isOperand_literal (v : Value) : (literal v).IsOperand := by
  cases v with
  | null => exact List.mem_cons_self
  | bool b => cases b <;> simp [literal, IsOperand]
  | _ => trivial

theorem Dialect.isOperand_placeholderToken (d : Dialect) (index : Nat) :
    (d.placeholderToken index).IsOperand := by
  cases d <;> trivial

theorem Token.IsOperand.step {t : Token} (h : t.IsOperand) (s : Scan) : s.step t = s.inside := by
  cases t with
  | word w =>
    simp only [IsOperand, List.mem_cons, List.not_mem_nil, or_false] at h
    rcases h with rfl | rfl | rfl <;> rfl
  | symbol _ | name _ => cases h
  | _ => rfl

def Group.hasGap (g : Group) : Bool :=
  (Expr.shown g.predicates).any Expr.hasGap ||
    (2 ≤ (Expr.shown g.predicates).length && (Expr.shown g.predicates).any Expr.isBlank)

namespace Expr

theorem isEmpty_items (e : Expr) : e.items.isEmpty = e.isBlank := by
  cases e with
  | column ident =>
    rw [items, isBlank, nameItems]
    cases ident.parts with
    | nil => rfl
    | cons part parts => rw [List.map_cons, Item.separated_cons, List.singleton_append]; rfl
  | _ => simp [items, isBlank]

theorem any_lacks (es : List Expr) : es.any lacks = (es.any hasGap || es.any isBlank) := by
  induction es with
  | nil => rfl
  | cons e es ih =>
    rw [List.any_cons, List.any_cons, List.any_cons, ih, lacks]
    ac_rfl

end Expr

section Texts

variable {write : Nat → Value → Token} (hwrite : ∀ index v, (write index v).IsOperand)
include hwrite

theorem Scan.foldl_tokens (index : Nat) (items : List (Item Value)) (s : Scan) :
    (Item.tokens write index items).foldl step s = items.foldl stepItem s := by
  induction items generalizing index s with
  | nil => rfl
  | cons item items ih =>
    cases item with
    | token t => exact ih index (s.step t)
    | operand v =>
      rw [Item.tokens, List.foldl_cons, (hwrite index v).step]
      exact ih (index + 1) s.inside

omit hwrite in
theorem isEmpty_tokens (index : Nat) (items : List (Item Value)) :
    (Item.tokens write index items).isEmpty = items.isEmpty := by
  cases items with
  | nil => rfl
  | cons item items => cases item <;> rfl

/-- The text of a group has a gap exactly if one of its predicates has one or is blank among
others. -/
theorem Group.hasGap_tokens (g : Group) : Sql.hasGap (Item.tokens write 0 g.items) = g.hasGap := by
  have hitems : g.items =
      Item.separated (.word g.combinator.word) ((Expr.shown g.predicates).map Expr.items) := by
    rw [items, Expr.shownItems_eq_map]
    rfl
  rw [Sql.hasGap, Scan.foldl_tokens hwrite, isEmpty_tokens, hitems, Group.hasGap]
  obtain ⟨s, hscan, -, -, hlacking⟩ := Scan.foldl_predicates
    (fun e (_ : e ∈ Expr.shown g.predicates) => Scan.passes e) g.combinator false []
  rw [Scan.start, hscan, hlacking]
  cases Expr.shown g.predicates with
  | nil => rfl
  | cons e es =>
    cases es with
    | nil =>
      rw [List.map_singleton, Item.separated_singleton, Expr.isEmpty_items]
      cases hblank : e.isBlank with
      | true => simp [Expr.hasGap_of_isBlank hblank]
      | false => simp [Expr.lacks, hblank]
    | cons next es =>
      rw [List.map_cons, List.map_cons, Item.separated_cons_cons, Expr.any_lacks]
      simp

end Texts

end FilterQuery.Sql
