import FilterQuery.Proofs.Sql.Token
import FilterQuery.Sql.Layout

/-!
# The tokens of a statement

What a statement stands for, apart from its spelling: items, which are tokens and values. A value is
one token, a literal or a placeholder. Of the dialects only the one whose offset must not stand
alone has items of its own.
-/

namespace FilterQuery.Sql

open Json (Value)

inductive Item (ν : Type) where
  | token (t : Token)
  | operand (v : ν)
deriving DecidableEq

namespace Item

variable {ν : Type}

@[match_pattern]
abbrev word (s : String) : Item ν :=
  .token (.word s)

@[match_pattern]
abbrev symbol (s : String) : Item ν :=
  .token (.symbol s)

def values : List (Item ν) → List ν
  | [] => []
  | .token _ :: items => values items
  | .operand v :: items => v :: values items

/-- The tokens where `write` is that of a value with `index` values before it. -/
def tokens (write : Nat → ν → Token) : Nat → List (Item ν) → List Token
  | _, [] => []
  | index, .token t :: items => t :: tokens write index items
  | index, .operand v :: items => write index v :: tokens write (index + 1) items

theorem values_append (items others : List (Item ν)) :
    values (items ++ others) = values items ++ values others := by
  induction items with
  | nil => rfl
  | cons item items ih => cases item <;> simp [values, ih]

theorem tokens_append (write : Nat → ν → Token) (index : Nat) (items others : List (Item ν)) :
    tokens write index (items ++ others) =
      tokens write index items ++ tokens write (index + (values items).length) others := by
  induction items generalizing index with
  | nil => rfl
  | cons item items ih =>
    cases item with
    | token t => simp [tokens, values, ih]
    | operand v =>
      have hnext : index + 1 + (values items).length = index + ((values items).length + 1) := by
        omega
      simp [tokens, values, ih, hnext]

theorem values_map_token_append (ts : List Token) (items : List (Item ν)) :
    values (ts.map .token ++ items) = values items := by
  induction ts with
  | nil => rfl
  | cons t ts ih => exact ih

theorem tokens_map_token_append (write : Nat → ν → Token) (index : Nat) (ts : List Token)
    (items : List (Item ν)) :
    tokens write index (ts.map .token ++ items) = ts ++ tokens write index items := by
  induction ts with
  | nil => rfl
  | cons t ts ih => exact congrArg (t :: ·) ih

/-- Items between which a separator stands. -/
def separated (separator : Item ν) (parts : List (List (Item ν))) : List (Item ν) :=
  [separator].intercalate parts

theorem separated_singleton (separator : Item ν) (part : List (Item ν)) :
    separated separator [part] = part :=
  List.intercalate_singleton

theorem separated_cons_cons (separator : Item ν) (part next : List (Item ν))
    (parts : List (List (Item ν))) :
    separated separator (part :: next :: parts) =
      part ++ separator :: separated separator (next :: parts) := by
  rw [separated, List.intercalate_cons_cons, List.append_assoc]
  rfl

theorem separated_cons (separator : Item ν) (part : List (Item ν))
    (parts : List (List (Item ν))) :
    separated separator (part :: parts) = part ++ parts.flatMap (separator :: ·) := by
  induction parts generalizing part with
  | nil => simp [separated]
  | cons next parts ih => simp [separated_cons_cons, ih]

end Item

/-- The name parts of a path, with points between them. -/
def nameItems (parts : List String) : List (Item Value) :=
  Item.separated (.symbol ".") (parts.map fun part => [.token (.name part)])

def Comparison.sign : Comparison → String
  | .eq => "="
  | .ne => "!="
  | .lt => "<"
  | .le => "<="
  | .gt => ">"
  | .ge => ">="

def Combinator.word : Combinator → String
  | .and => "AND"
  | .or => "OR"

def negationItems (negated : Bool) : List (Item Value) :=
  if negated then [.word "NOT"] else []

namespace Expr

mutual

def items : Expr → List (Item Value)
  | .column ident => nameItems ident.parts
  | .star => [.symbol "*"]
  | .value v => [.operand v]
  | .compare left comparison right => items left ++ .symbol comparison.sign :: items right
  | .inList subject members negated =>
    items subject ++ negationItems negated ++ .word "IN" :: .symbol "(" ::
      Item.separated (.symbol ",") (eachItems members) ++ [.symbol ")"]
  | .like subject pattern => items subject ++ .word "LIKE" :: items pattern
  | .between subject low high =>
    items subject ++ .word "BETWEEN" :: items low ++ .word "AND" :: items high
  | .isNull subject negated =>
    items subject ++ .word "IS" :: negationItems negated ++ [.word "NULL"]
  | .nested combinator predicates =>
    .symbol "(" :: Item.separated (.word combinator.word) (shownItems predicates) ++ [.symbol ")"]

def eachItems : List Expr → List (List (Item Value))
  | [] => []
  | e :: es => items e :: eachItems es

/-- A nested group without predicates is not shown. -/
def shownItems : List Expr → List (List (Item Value))
  | [] => []
  | e :: es => if e.isEmptyGroup then shownItems es else items e :: shownItems es

end

theorem eachItems_eq_map (es : List Expr) : eachItems es = es.map items := by
  induction es with
  | nil => rfl
  | cons e es ih => rw [eachItems, ih, List.map_cons]

theorem shownItems_eq_map (es : List Expr) :
    shownItems es = (es.filter (!·.isEmptyGroup)).map items := by
  induction es with
  | nil => rfl
  | cons e es ih =>
    rw [shownItems, ih]
    cases h : e.isEmptyGroup <;> simp [h]

end Expr

def Group.items (g : Group) : List (Item Value) :=
  Item.separated (.word g.combinator.word) (Expr.shownItems g.predicates)

def Order.word : Order → String
  | .asc => "ASC"
  | .desc => "DESC"

def SortExpr.items (key : SortExpr) : List (Item Value) :=
  key.expr.items ++ [.word key.order.word]

namespace Select

def tableItems : Option Table → List (Item Value)
  | some table => .word "FROM" :: nameItems (table.schema.toList ++ [table.name])
  | none => []

def conditionItems (conditions : Group) : List (Item Value) :=
  if conditions.isEmpty then [] else .word "WHERE" :: conditions.items

def orderItems : List SortExpr → List (Item Value)
  | [] => []
  | keys => .word "ORDER" :: .word "BY" :: Item.separated (.symbol ",") (keys.map SortExpr.items)

def limitItems : Option Count → List (Item Value)
  | some limit => [.word "LIMIT", .operand (.ofNat limit.toNat)]
  | none => []

/-- The limit for all rows, in a dialect that has one and where an offset would stand alone. -/
def allRowsItems (d : Dialect) (limit offset : Option Count) : List (Item Value) :=
  match d.allRows?, limit, offset with
  | some rows, none, some _ => [.word "LIMIT", .token (.number rows)]
  | _, _, _ => []

def offsetItems : Option Count → List (Item Value)
  | some offset => [.word "OFFSET", .operand (.ofNat offset.toNat)]
  | none => []

/-- The items up to the conditions. -/
def sourceItems (s : Select) : List (Item Value) :=
  .word "SELECT" :: Item.separated (.symbol ",") (s.columns.map Expr.items) ++ tableItems s.table

/-- The items up to the paging. -/
def headItems (s : Select) : List (Item Value) :=
  s.sourceItems ++ conditionItems s.conditions ++ orderItems s.orderBy

/-- The items behind the order. -/
def pagingItems (d : Dialect) (limit offset : Option Count) : List (Item Value) :=
  limitItems limit ++ allRowsItems d limit offset ++ offsetItems offset

def items (d : Dialect) (s : Select) : List (Item Value) :=
  s.headItems ++ pagingItems d s.limit s.offset

end Select

/-- The token that a value is as a literal. -/
def Token.literal : Value → Token
  | .null => .word "NULL"
  | .bool true => .word "TRUE"
  | .bool false => .word "FALSE"
  | .number n => .number (String.ofList n.chars)
  | .string s => .text s
  | v => .text v.text

/-- The token that is a placeholder with `index` others before it. -/
def Dialect.placeholderToken (d : Dialect) (index : Nat) : Token :=
  match d with
  | .postgres => .placeholder (some (index + 1))
  | _ => .placeholder none

end FilterQuery.Sql
