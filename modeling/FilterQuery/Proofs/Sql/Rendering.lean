import FilterQuery.Proofs.Sql.Lexing
import FilterQuery.Proofs.Sql.Vocabulary

/-!
# Statements are read as they are meant

Pieces spell items if, however the values are written, the text has exactly the tokens of the items.
Every expression, every clause and every statement is laid out in pieces that spell its items, so a
rendered statement has these tokens whatever its names and values are.
-/

namespace FilterQuery.Sql

open Json (Value)

variable {d : Dialect}

structure Spelled (d : Dialect) (pieces : List Piece) (items : List (Item Value)) : Prop where
  values_eq : Piece.values pieces = Item.values items
  reads : ∀ write token, ReadsValues d write token → ∀ index rest, AtBoundary rest →
    Reads d (Piece.chars d write index pieces) (Item.tokens token index items) rest

/-- Whether a token may end before these pieces. -/
def opensBounded : List Piece → Bool
  | [] => true
  | .text s :: _ => s.toList.head?.any fun c => c = ' ' || c = ',' || c = ')'
  | _ => false

theorem AtBoundary.of_opensBounded {pieces : List Piece} (h : opensBounded pieces = true)
    {write : Nat → Value → List Char} {index : Nat} {rest : List Char} (hrest : AtBoundary rest) :
    AtBoundary (Piece.chars d write index pieces ++ rest) := by
  cases pieces with
  | nil => exact hrest
  | cons piece pieces =>
    cases piece with
    | text s =>
      simp only [opensBounded] at h
      cases hs : s.toList with
      | nil => simp [hs] at h
      | cons c tail => simpa [AtBoundary, Piece.chars, hs, or_assoc] using h
    | name s => cases h
    | value v => cases h

namespace Spelled

theorem nil : Spelled d [] [] :=
  ⟨rfl, fun _ _ _ _ rest _ => .nil rest⟩

theorem append {pieces pieces' : List Piece} {items items' : List (Item Value)}
    (h : Spelled d pieces items) (h' : Spelled d pieces' items')
    (hopens : opensBounded pieces' = true) :
    Spelled d (pieces ++ pieces') (items ++ items') := by
  constructor
  · rw [Piece.values_append, Item.values_append, h.values_eq, h'.values_eq]
  · intro write token hvalues index rest hrest
    rw [Piece.chars_append, Item.tokens_append, ← h.values_eq]
    exact (h.reads write token hvalues index _ (.of_opensBounded hopens hrest)).append
      (h'.reads write token hvalues _ rest hrest)

/-- A text that may stand before anything. -/
theorem text {s : String} {tokens : List Token} (hs : ∀ rest, Reads d s.toList tokens rest)
    {pieces : List Piece} {items : List (Item Value)} (h : Spelled d pieces items) :
    Spelled d (.text s :: pieces) (tokens.map .token ++ items) := by
  constructor
  · rw [Piece.values_text, Item.values_map_token_append, h.values_eq]
  · intro write token hvalues index rest hrest
    rw [Piece.chars, Item.tokens_map_token_append]
    exact (hs _).append (h.reads write token hvalues index rest hrest)

/-- A text with nothing behind it. -/
theorem lastText {s : String} {tokens : List Token}
    (hs : ∀ rest, AtBoundary rest → Reads d s.toList tokens rest) :
    Spelled d [.text s] (tokens.map .token) := by
  rw [← List.append_nil (tokens.map _)]
  constructor
  · rw [Piece.values_text, Item.values_map_token_append]
    rfl
  · intro write token hvalues index rest hrest
    rw [Piece.chars, Item.tokens_map_token_append]
    exact (hs _ hrest).append (.nil rest)

theorem value (v : Value) : Spelled d [.value v] [.operand v] := by
  constructor
  · rfl
  · intro write token hvalues index rest hrest
    exact (hvalues index v _ hrest).append (.nil rest)

theorem name (s : String) : Spelled d [.name s] [.token (.name s)] := by
  constructor
  · rfl
  · intro write token hvalues index rest hrest
    exact (Reads.quoteName s hrest.ne_nameMark).append (.nil rest)

/-- A name in front of a point; the point ends it as well. -/
theorem name_point (s : String) {pieces : List Piece} {items : List (Item Value)}
    (h : Spelled d pieces items) :
    Spelled d (.name s :: .text "." :: pieces) (.token (.name s) :: .symbol "." :: items) := by
  constructor
  · exact h.values_eq
  · intro write token hvalues index rest hrest
    have hpoint : ∀ c ∈ ('.' :: (Piece.chars d write index pieces ++ rest)).head?,
        c ≠ d.nameMark := by
      intro c hc
      cases hc
      cases d <;> decide
    have hread := Reads.single (d := d) (s := ".") (by decide)
      (Piece.chars d write index pieces ++ rest)
    have hlater := h.reads write token hvalues index rest hrest
    exact (Reads.quoteName s hpoint).append (hread.append hlater)

theorem names (parts : List String) :
    Spelled d (Sql.separated "." (parts.map fun part => [.name part])) (nameItems parts) := by
  induction parts with
  | nil => exact nil
  | cons part parts ih =>
    cases parts with
    | nil => exact name part
    | cons next parts => exact name_point part ih

theorem separated {α : Type} {separator : String} {t : Token}
    (hreads : ∀ rest, Reads d separator.toList [t] rest)
    (hopens : opensBounded [.text separator] = true) {pieces : α → List Piece}
    {items : α → List (Item Value)} {parts : List α}
    (h : ∀ part ∈ parts, Spelled d (pieces part) (items part)) :
    Spelled d (Sql.separated separator (parts.map pieces))
      (Item.separated (.token t) (parts.map items)) := by
  induction parts with
  | nil => exact nil
  | cons part parts ih =>
    have hpart := h part List.mem_cons_self
    cases parts with
    | nil => simpa [Sql.separated, Item.separated] using hpart
    | cons next parts =>
      have hlater := ih fun other hother => h other (List.mem_cons_of_mem part hother)
      have happend := hpart.append (text hreads hlater) hopens
      simpa [Sql.separated, Item.separated, List.intercalate_cons_cons] using happend

end Spelled

/-! ## Fixed texts -/

namespace Reads

theorem spaced_space (words : List String) (hwords : ∀ word ∈ words, isWord word = true)
    (rest : List Char) : Reads d (Sql.spaced words ++ [' ']) (words.map .word) rest := by
  have hread := (spaced (d := d) words hwords (atBoundary_space rest)).append (space rest)
  rwa [List.append_nil] at hread

theorem combinator (combinator : Combinator) (rest : List Char) :
    Reads d combinator.separator.toList [.word combinator.word] rest := by
  cases combinator with
  | and => exact spaced_space ["AND"] (by decide) rest
  | or => exact spaced_space ["OR"] (by decide) rest

theorem comma (rest : List Char) : Reads d ", ".toList [.symbol ","] rest :=
  (single (s := ",") (by decide) _).append (space rest)

theorem openList (negated : Bool) (rest : List Char) :
    Reads d (if negated then " NOT IN (" else " IN (").toList
      ((if negated then [.word "NOT"] else []) ++ [.word "IN", .symbol "("]) rest := by
  have hopen := single (d := d) (s := "(") (by decide) rest
  cases negated with
  | true => exact (spaced_space ["NOT", "IN"] (by decide) _).append hopen
  | false => exact (spaced_space ["IN"] (by decide) _).append hopen

theorem isNull (negated : Bool) {rest : List Char} (h : AtBoundary rest) :
    Reads d (if negated then " IS NOT NULL" else " IS NULL").toList
      (.word "IS" :: (if negated then [.word "NOT"] else []) ++ [.word "NULL"]) rest := by
  cases negated with
  | true => exact spaced ["IS", "NOT", "NULL"] (by decide) h
  | false => exact spaced ["IS", "NULL"] (by decide) h

end Reads

/-! ## Expressions and statements -/

theorem Expr.spelled (e : Expr) : Spelled d e.pieces e.items := by
  induction e with
  | column ident => exact .names ident.parts
  | star => exact .lastText fun rest _ => .single (by decide) rest
  | value v => exact .value v
  | compare left comparison right hleft hright =>
    exact hleft.append (.text (.comparison comparison) hright) (by cases comparison <;> rfl)
  | inList subject members negated hsubject hmembers =>
    have hlist : Spelled d (separated ", " (members.map pieces))
        (Item.separated (.symbol ",") (members.map items)) := .separated .comma rfl hmembers
    have hopened := hsubject.append (.text (.openList negated) hlist) (by cases negated <;> rfl)
    have hclosed := hopened.append (.lastText fun rest _ => .single (s := ")") (by decide) rest) rfl
    rw [pieces, items, eachPieces_eq_map, eachItems_eq_map]
    cases negated <;> simpa [negationItems] using hclosed
  | like subject pattern hsubject hpattern =>
    have hlike := Spelled.text (s := " LIKE ") (.spaced_space ["LIKE"] (by decide)) hpattern
    exact hsubject.append hlike rfl
  | between subject low high hsubject hlow hhigh =>
    have hbetween := Spelled.text (s := " BETWEEN ") (.spaced_space ["BETWEEN"] (by decide)) hlow
    have hand := Spelled.text (.combinator .and) hhigh
    exact (hsubject.append hbetween rfl).append hand rfl
  | isNull subject negated hsubject =>
    have hnull := hsubject.append (.lastText fun _ h => .isNull negated h)
      (by cases negated <;> rfl)
    rw [pieces, items]
    cases negated <;> simpa [negationItems] using hnull
  | nested combinator predicates hpredicates =>
    have hshown : ∀ e ∈ predicates.filter (!·.isEmptyGroup), Spelled d e.pieces e.items :=
      fun e he => hpredicates e (List.mem_filter.mp he).1
    have hjoined := Spelled.separated (.combinator combinator) (by cases combinator <;> rfl) hshown
    have hclosed := hjoined.append (.lastText fun rest _ => .single (s := ")") (by decide) rest) rfl
    rw [pieces, items, shownPieces_eq_map, shownItems_eq_map]
    exact .text (.single (s := "(") (by decide)) hclosed

theorem Group.spelled (g : Group) : Spelled d g.pieces g.items := by
  rw [pieces, items, Expr.shownPieces_eq_map, Expr.shownItems_eq_map]
  exact .separated (.combinator g.combinator) (by cases g.combinator <;> rfl) fun e _ => e.spelled

theorem SortExpr.spelled (key : SortExpr) : Spelled d key.pieces key.items := by
  have horder : Spelled d [.text key.order.text] [.word key.order.word] := by
    cases key.order with
    | asc => exact .lastText (s := " ASC") fun rest h => .spaced ["ASC"] (by decide) h
    | desc => exact .lastText (s := " DESC") fun rest h => .spaced ["DESC"] (by decide) h
  exact key.expr.spelled.append horder (by cases key.order <;> rfl)

namespace Select

theorem spelled_table (table : Option Table) :
    Spelled d (tablePieces table) (tableItems table) := by
  cases table with
  | none => exact .nil
  | some table =>
    exact .text (s := " FROM ") (.spaced_space ["FROM"] (by decide))
      (.names (table.schema.toList ++ [table.name]))

theorem spelled_conditions (conditions : Group) :
    Spelled d (conditionPieces conditions) (conditionItems conditions) := by
  rw [conditionPieces, conditionItems]
  split
  · exact .nil
  · exact .text (s := " WHERE ") (.spaced_space ["WHERE"] (by decide)) conditions.spelled

theorem spelled_order (keys : List SortExpr) : Spelled d (orderPieces keys) (orderItems keys) := by
  cases keys with
  | nil => exact .nil
  | cons key keys =>
    exact .text (s := " ORDER BY ") (.spaced_space ["ORDER", "BY"] (by decide))
      (.separated .comma rfl fun key _ => key.spelled)

theorem spelled_limit (limit offset : Option Count) :
    Spelled d (limitPieces d limit offset) (limitItems limit ++ allRowsItems d limit offset) := by
  cases limit with
  | some limit =>
    have hlimit := Spelled.text (s := " LIMIT ") (.spaced_space (d := d) ["LIMIT"] (by decide))
      (.value (.ofNat limit.toNat))
    cases d <;> exact hlimit
  | none =>
    cases offset with
    | none => cases d <;> exact .nil
    | some offset =>
      cases d with
      | mysql =>
        have hdigits : "18446744073709551615".toList.all Char.isDigit = true := by decide
        have hrows : Text.IsNumeral "18446744073709551615".toList :=
          .of_digits (by decide) (List.all_eq_true.mp hdigits)
        exact .lastText (s := " LIMIT 18446744073709551615") fun rest h =>
          (Reads.spaced_space ["LIMIT"] (by decide) _).append (.numeral hrows h)
      | postgres | ansi => exact .nil

theorem spelled_offset (offset : Option Count) :
    Spelled d (offsetPieces offset) (offsetItems offset) := by
  cases offset with
  | none => exact .nil
  | some offset =>
    exact .text (s := " OFFSET ") (.spaced_space ["OFFSET"] (by decide))
      (.value (.ofNat offset.toNat))

theorem opensBounded_clauses (s : Select) :
    opensBounded (tablePieces s.table) = true ∧ opensBounded (conditionPieces s.conditions) = true ∧
      opensBounded (orderPieces s.orderBy) = true ∧
      opensBounded (limitPieces d s.limit s.offset) = true ∧
      opensBounded (offsetPieces s.offset) = true := by
  refine ⟨?_, ?_, ?_, ?_, ?_⟩
  · cases s.table <;> rfl
  · rw [conditionPieces]
    split <;> rfl
  · cases s.orderBy <;> rfl
  · cases s.limit <;> cases s.offset <;> cases d <;> rfl
  · cases s.offset <;> rfl

theorem spelled (s : Select) : Spelled d (s.pieces d) (s.items d) := by
  obtain ⟨htable, hconditions, horder, hlimit, hoffset⟩ := s.opensBounded_clauses (d := d)
  have hcolumns : Spelled d (separated ", " (s.columns.map Expr.pieces))
      (Item.separated (.symbol ",") (s.columns.map Expr.items)) :=
    .separated .comma rfl fun e _ => e.spelled
  have hselect : ∀ rest, Reads d "SELECT ".toList [.word "SELECT"] rest := fun rest =>
    (Reads.word (s := "SELECT") (by decide) (atBoundary_space rest)).append (.space rest)
  have hall := (((((Spelled.text hselect hcolumns).append (spelled_table s.table) htable).append
    (spelled_conditions s.conditions) hconditions).append (spelled_order s.orderBy) horder).append
    (spelled_limit s.limit s.offset) hlimit).append (spelled_offset s.offset) hoffset
  have hitems : s.items d = s.headItems ++
      (limitItems s.limit ++ allRowsItems d s.limit s.offset) ++ offsetItems s.offset := by
    rw [items, pagingItems, ← List.append_assoc]
  rw [hitems]
  exact hall

end Select

/-! ## Tokens of rendered text -/

def Token.isPlaceholder : Token → Bool
  | .placeholder _ => true
  | _ => false

def Token.IsFixed (t : Token) : Prop :=
  t.isPlaceholder = false

/-- The token without the position of a placeholder. -/
def Token.unnumbered : Token → Token
  | .placeholder _ => .placeholder none
  | t => t

theorem Token.IsPlain.isFixed {t : Token} (h : t.IsPlain) : t.IsFixed := by
  have hvocabulary : ∀ t ∈ vocabulary, t.isPlaceholder = false := by decide
  rcases h with ⟨name, rfl⟩ | h
  · rfl
  · exact hvocabulary t h

theorem Select.allFixed_items (d : Dialect) (s : Select) :
    AllTokens Token.IsFixed (s.items d) := by
  have hclause : ∀ t ∈ clauseTokens, t.isPlaceholder = false := by decide
  exact s.allTokens_items (fun _ => Token.IsPlain.isFixed) hclause d fun _ => rfl

/-- All placeholders are those of the values, in their order. -/
theorem Item.filter_isPlaceholder_tokens (d : Dialect) {items : List (Item Value)}
    (h : AllTokens Token.IsFixed items) (index : Nat) :
    (tokens (fun i _ => d.placeholderToken i) index items).filter Token.isPlaceholder =
      (List.range' index (values items).length).map d.placeholderToken := by
  induction items generalizing index with
  | nil => rfl
  | cons item items ih =>
    have hlater := ih fun t ht => h t (List.mem_cons_of_mem item ht)
    cases item with
    | token t =>
      have ht : t.isPlaceholder = false := h t List.mem_cons_self
      simp [tokens, values, ht, hlater]
    | operand v =>
      have hplaceholder : (d.placeholderToken index).isPlaceholder = true := by cases d <;> rfl
      simp [tokens, values, hplaceholder, hlater, List.range'_succ]

theorem Item.map_unnumbered_tokens (d : Dialect) (index : Nat) (items : List (Item Value)) :
    (tokens (fun i _ => d.placeholderToken i) index items).map Token.unnumbered =
      (tokens (fun _ _ => .placeholder none) index items).map Token.unnumbered := by
  induction items generalizing index with
  | nil => rfl
  | cons item items ih =>
    cases item with
    | token t => simp [tokens, ih]
    | operand v =>
      have hvalue : (d.placeholderToken index).unnumbered = .placeholder none := by cases d <;> rfl
      simp only [tokens, List.map_cons, hvalue, ih]
      rfl

namespace Select

def boundTokens (d : Dialect) (s : Select) : List Token :=
  Item.tokens (fun index _ => d.placeholderToken index) 0 (s.items d)

def inlineTokens (d : Dialect) (s : Select) : List Token :=
  Item.tokens (fun _ v => .literal v) 0 (s.items d)

/-- What one dialect has before an offset without a limit. -/
def loneOffsetTokens (d : Dialect) (s : Select) : List Token :=
  if d = .mysql ∧ s.limit.isNone ∧ s.offset.isSome then
    [.word "LIMIT", .number "18446744073709551615"]
  else []

theorem allRowsItems_eq (d : Dialect) (s : Select) :
    allRowsItems d s.limit s.offset = (s.loneOffsetTokens d).map .token := by
  unfold loneOffsetTokens
  cases d <;> cases s.limit <;> cases s.offset <;> rfl

/-- However the values are written, the dialect shows in one place only. -/
theorem tokens_items (d : Dialect) (s : Select) (write : Nat → Value → Token) :
    Item.tokens write 0 (s.items d) =
      Item.tokens write 0 (s.headItems ++ limitItems s.limit) ++ s.loneOffsetTokens d ++
        Item.tokens write (Item.values (s.headItems ++ limitItems s.limit)).length
          (offsetItems s.offset) := by
  rw [items, pagingItems, allRowsItems_eq, List.append_assoc, ← List.append_assoc,
    Item.tokens_append, Item.tokens_map_token_append, Nat.zero_add, List.append_assoc]

theorem unnumbered_boundTokens (d : Dialect) (s : Select) :
    (s.boundTokens d).map Token.unnumbered =
      (Item.tokens (fun _ _ => .placeholder none) 0
        (s.headItems ++ limitItems s.limit)).map Token.unnumbered ++ s.loneOffsetTokens d ++
        (Item.tokens (fun _ _ => .placeholder none)
          (Item.values (s.headItems ++ limitItems s.limit)).length
          (offsetItems s.offset)).map Token.unnumbered := by
  have hlone : (s.loneOffsetTokens d).map Token.unnumbered = s.loneOffsetTokens d := by
    unfold loneOffsetTokens
    split <;> rfl
  rw [boundTokens, Item.map_unnumbered_tokens, tokens_items, List.map_append, List.map_append,
    hlone]

end Select

theorem Spelled.lex_bound {pieces : List Piece} {items : List (Item Value)}
    (h : Spelled d pieces items) : lex d (bound d pieces).sql.toList =
      some (Item.tokens (fun index _ => d.placeholderToken index) 0 items) := by
  have hreads := h.reads _ _ readsValues_placeholder 0 [] atBoundary_nil
  rw [Reads, ← Piece.boundChars_eq_chars, List.append_nil, lex_nil] at hreads
  rw [bound, String.toList_ofList, hreads]
  simp

theorem Spelled.lex_inline {pieces : List Piece} {items : List (Item Value)}
    (h : Spelled d pieces items) : lex d (inline d pieces).toList =
      some (Item.tokens (fun _ v => .literal v) 0 items) := by
  have hreads := h.reads _ _ readsValues_literal 0 [] atBoundary_nil
  rw [Reads, ← Piece.inlineChars_eq_chars, List.append_nil, lex_nil] at hreads
  rw [inline, String.toList_ofList, hreads]
  simp

/-- Both texts of a statement are read as the tokens of its items, with one placeholder for each
bound value, and these differ between the dialects by placeholders and by the limit of all rows. -/
theorem Select.lex_rendered (s : Select) :
    (∀ d, lex d (bound d (s.pieces d)).sql.toList = some (s.boundTokens d) ∧
      (s.boundTokens d).filter Token.isPlaceholder =
        (List.range (bound d (s.pieces d)).params.length).map d.placeholderToken ∧
      lex d (inline d (s.pieces d)).toList = some (s.inlineTokens d)) ∧
    (∃ before after, ∀ d, (s.boundTokens d).map Token.unnumbered =
      before ++ s.loneOffsetTokens d ++ after) ∧
    ∃ before after, ∀ d, s.inlineTokens d = before ++ s.loneOffsetTokens d ++ after := by
  have hlength : ∀ d, (bound d (s.pieces d)).params.length = (Item.values (s.items d)).length :=
    fun _ => congrArg List.length s.spelled.values_eq
  refine ⟨fun d => ⟨s.spelled.lex_bound, ?_, s.spelled.lex_inline⟩,
    ⟨_, _, fun d => s.unnumbered_boundTokens d⟩, ⟨_, _, fun d => s.tokens_items d _⟩⟩
  rw [boundTokens, Item.filter_isPlaceholder_tokens d (s.allFixed_items d), hlength,
    List.range_eq_range']

end FilterQuery.Sql
