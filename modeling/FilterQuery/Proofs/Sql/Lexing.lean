import FilterQuery.Proofs.Json.Number
import FilterQuery.Proofs.Sql.Items
import FilterQuery.Proofs.Sql.Writing

/-!
# Reading rendered text

The rendered text of a statement has exactly the tokens of its items, whatever strings its names and
values are. What is written for a name or a value ends where the next character is a blank, a comma
or a closing parenthesis, and every text that is put behind a value begins with one of these.
-/

namespace FilterQuery.Sql

open Json (Value)
open Text (Continues IsNumeral)

variable {d : Dialect}

/-- In front of `rest`, the text reads as these tokens and leaves `rest` to be read. -/
def Reads (d : Dialect) (s : List Char) (tokens : List Token) (rest : List Char) : Prop :=
  lex d (s ++ rest) = (lex d rest).map (tokens ++ ·)

theorem Reads.nil (rest : List Char) : Reads d [] [] rest := by
  simp [Reads]

theorem Reads.append {s s' rest : List Char} {tokens tokens' : List Token}
    (h : Reads d s tokens (s' ++ rest)) (h' : Reads d s' tokens' rest) :
    Reads d (s ++ s') (tokens ++ tokens') rest := by
  unfold Reads at *
  rw [List.append_assoc, h, h', Option.map_map]
  congr 1
  funext later
  exact (List.append_assoc tokens tokens' later).symm

theorem Reads.space (rest : List Char) : Reads d [' '] [] rest := by
  simp [Reads, lex_space]

theorem Reads.of_read? {c : Char} {s rest : List Char} {t : Token}
    (hspace : c.isWhitespace = false) (h : Token.read? d (c :: (s ++ rest)) = some (t, rest)) :
    Reads d (c :: s) [t] rest :=
  lex_of_read? hspace h

/-- Whether a token may end before this text. -/
def AtBoundary (rest : List Char) : Prop :=
  ∀ c ∈ rest.head?, c = ' ' ∨ c = ',' ∨ c = ')'

theorem atBoundary_nil : AtBoundary [] := by
  simp [AtBoundary]

theorem atBoundary_space (rest : List Char) : AtBoundary (' ' :: rest) := by
  simp [AtBoundary]

namespace AtBoundary

variable {rest : List Char} (h : AtBoundary rest)
include h

theorem not_isWordChar : ∀ c ∈ rest.head?, isWordChar c = false := by
  intro c hc
  rcases h c hc with rfl | rfl | rfl <;> rfl

theorem not_isDigit : ∀ c ∈ rest.head?, c.isDigit = false := by
  intro c hc
  rcases h c hc with rfl | rfl | rfl <;> rfl

theorem not_continues : ¬ Continues rest := by
  rintro ⟨c, hc, hcontinues⟩
  rcases h c hc with rfl | rfl | rfl <;> revert hcontinues <;> decide

theorem ne_mark : ∀ c ∈ rest.head?, c ≠ '\'' := by
  intro c hc
  rcases h c hc with rfl | rfl | rfl <;> decide

theorem ne_nameMark : ∀ c ∈ rest.head?, c ≠ d.nameMark := by
  intro c hc
  rcases h c hc with rfl | rfl | rfl <;> cases d <;> decide

end AtBoundary

/-! ## Names and texts -/

/-- A quoted name ends where no further mark follows. -/
theorem Reads.quoteName (name : String) {rest : List Char} (h : ∀ c ∈ rest.head?, c ≠ d.nameMark) :
    Reads d (d.quoteName name.toList) [.name name] rest := by
  have hread := Text.readDoubled_doubling name.toList h
  have hspace : d.nameMark.isWhitespace = false := by cases d <;> rfl
  have hquoted : d.quoteName name.toList =
      d.nameMark :: (name.toList.flatMap (Text.doubling d.nameMark) ++ [d.nameMark]) := rfl
  rw [hquoted]
  apply of_read? hspace
  rw [List.append_assoc, List.singleton_append, Token.read?, if_pos rfl, hread]
  simp

theorem Dialect.readText?_quoteText (s : List Char) {rest : List Char} (h : AtBoundary rest) :
    ∃ body, d.quoteText s = '\'' :: body ∧ d.readText? (body ++ rest) = some (s, rest) := by
  cases d with
  | mysql =>
    have hread := @Text.readBackslashed_backslashing '\'' (by decide) s rest
    refine ⟨s.flatMap (Text.backslashing '\'') ++ ['\''], rfl, ?_⟩
    rwa [List.append_assoc]
  | postgres | ansi =>
    have hread := @Text.readDoubled_doubling '\'' s rest h.ne_mark
    refine ⟨s.flatMap (Text.doubling '\'') ++ ['\''], rfl, ?_⟩
    rwa [List.append_assoc]

theorem Reads.quoteText (s : List Char) {rest : List Char} (h : AtBoundary rest) :
    Reads d (d.quoteText s) [.text (String.ofList s)] rest := by
  obtain ⟨body, hbody, hread⟩ := d.readText?_quoteText s h
  have hmark : '\'' ≠ d.nameMark := by cases d <;> decide
  rw [hbody]
  apply of_read? rfl
  rw [Token.read?, if_neg hmark, if_pos rfl, hread]
  rfl

/-! ## Words -/

/-- Whether a text is a word, by its characters. -/
def isWord (s : String) : Bool :=
  s.toList.all isWordChar && s.toList.head?.any isWordStart

theorem not_mark_of_isWordStart {c : Char} (h : isWordStart c = true) :
    c.isWhitespace = false ∧ c ≠ d.nameMark ∧ c ≠ '\'' := by
  refine ⟨?_, ?_, ?_⟩
  · rw [Bool.eq_false_iff]
    intro hspace
    simp only [Char.isWhitespace, Bool.or_eq_true, decide_eq_true_eq] at hspace
    rcases hspace with ((rfl | rfl) | rfl) | rfl <;> revert h <;> decide
  · rintro rfl
    cases d <;> revert h <;> decide
  · rintro rfl
    revert h
    decide

theorem Reads.word {s : String} (hs : isWord s = true) {rest : List Char}
    (h : AtBoundary rest) : Reads d s.toList [.word s] rest := by
  rw [isWord, Bool.and_eq_true, List.all_eq_true] at hs
  obtain ⟨hall, hhead⟩ := hs
  cases hchars : s.toList with
  | nil => simp [hchars] at hhead
  | cons c tail =>
    rw [hchars] at hall hhead
    have hstart : isWordStart c = true := by simpa using hhead
    obtain ⟨hspace, hmark, hquote⟩ := not_mark_of_isWordStart (d := d) hstart
    have htail : ∀ c ∈ tail, isWordChar c := fun c hc => hall c (List.mem_cons_of_mem _ hc)
    obtain ⟨htake, hdrop⟩ := Text.takeWhile_dropWhile_append htail h.not_isWordChar
    apply of_read? hspace
    rw [Token.read?, if_neg hmark, if_neg hquote, if_pos hstart, htake, hdrop, ← hchars,
      String.ofList_toList]

/-- Words with a blank before each. -/
def spaced (words : List String) : List Char :=
  words.flatMap fun word => ' ' :: word.toList

theorem Reads.spaced (words : List String) (hwords : ∀ word ∈ words, isWord word = true)
    {rest : List Char} (h : AtBoundary rest) :
    Reads d (spaced words) (words.map .word) rest := by
  induction words with
  | nil => exact .nil rest
  | cons first words ih =>
    have hlater := ih fun other hother => hwords other (List.mem_cons_of_mem _ hother)
    have hnext : AtBoundary (Sql.spaced words ++ rest) := by
      cases words with
      | nil => exact h
      | cons next words => exact atBoundary_space _
    exact ((space _).append (word (hwords _ List.mem_cons_self) hnext)).append hlater

/-! ## Numbers -/

theorem not_mark_of_isDigit {c : Char} (h : c.isDigit = true) :
    c.isWhitespace = false ∧ c ≠ d.nameMark ∧ c ≠ '\'' ∧ isWordStart c = false := by
  refine ⟨?_, ?_, ?_, ?_⟩
  · rw [Bool.eq_false_iff]
    intro hspace
    simp only [Char.isWhitespace, Bool.or_eq_true, decide_eq_true_eq] at hspace
    rcases hspace with ((rfl | rfl) | rfl) | rfl <;> revert h <;> decide
  · rintro rfl
    cases d <;> revert h <;> decide
  · rintro rfl
    revert h
    decide
  · rw [isWordStart, h, Bool.not_true, Bool.and_false]

theorem Reads.numeral {s rest : List Char} (hs : IsNumeral s) (h : AtBoundary rest) :
    Reads d s [.number (String.ofList s)] rest := by
  have hread := Text.readNumeral_isNumeral hs h.not_continues
  obtain ⟨c, tail, rfl, hdigit⟩ := hs.head_isDigit
  obtain ⟨hspace, hmark, hquote, hstart⟩ := not_mark_of_isDigit (d := d) hdigit
  apply of_read? hspace
  rw [List.cons_append] at hread
  rw [Token.read?, if_neg hmark, if_neg hquote, if_neg (Bool.eq_false_iff.mp hstart),
    if_pos hdigit, hread]

theorem Reads.negative {s rest : List Char} (hs : IsNumeral s) (h : AtBoundary rest) :
    Reads d ('-' :: s) [.number (String.ofList ('-' :: s))] rest := by
  have hread := Text.readNumeral_isNumeral hs h.not_continues
  have hmark : '-' ≠ d.nameMark := by cases d <;> decide
  obtain ⟨c, tail, rfl, hdigit⟩ := hs.head_isDigit
  apply of_read? rfl
  rw [Token.read?, if_neg hmark, if_neg (by decide), if_neg (by decide), if_neg (by decide),
    if_pos ⟨rfl, by simpa using hdigit⟩, hread]

theorem Reads.number (n : Json.Number) {rest : List Char} (h : AtBoundary rest) :
    Reads d n.chars [.number (String.ofList n.chars)] rest := by
  rcases n.isNumeral_chars with hn | ⟨s, hs, hn⟩
  · exact numeral hn h
  · rw [hs]
    exact negative hn h

/-! ## Symbols -/

/-- These symbols end whatever follows. -/
theorem Reads.single {s : String} (hs : s ∈ ["(", ")", ",", ".", "*"]) (rest : List Char) :
    Reads d s.toList [.symbol s] rest := by
  simp only [List.mem_cons, List.not_mem_nil, or_false] at hs
  rcases hs with rfl | rfl | rfl | rfl | rfl <;> apply of_read? rfl <;> cases d <;> rfl

theorem Reads.comparison (comparison : Comparison) (rest : List Char) :
    Reads d comparison.symbol.toList [.symbol comparison.sign] rest := by
  have hsign : Reads d comparison.sign.toList [.symbol comparison.sign] (' ' :: rest) := by
    cases comparison <;> apply of_read? rfl <;> cases d <;> rfl
  have hsymbol : comparison.symbol.toList = [' '] ++ (comparison.sign.toList ++ [' ']) := by
    cases comparison <;> rfl
  rw [hsymbol]
  exact (space _).append (hsign.append (space rest))

/-! ## Values -/

theorem Reads.placeholder (index : Nat) {rest : List Char} (h : AtBoundary rest) :
    Reads d (d.placeholder index) [d.placeholderToken index] rest := by
  cases d with
  | postgres =>
    have hdigits : ∀ c ∈ Nat.toDigits 10 (index + 1), c.isDigit :=
      fun _ hc => Nat.isDigit_of_mem_toDigits (by decide) (by decide) hc
    obtain ⟨htake, hdrop⟩ := Text.takeWhile_dropWhile_append hdigits h.not_isDigit
    have hread : Dialect.postgres.readPlaceholder? ('$' :: (Nat.toDigits 10 (index + 1) ++ rest)) =
        some (.placeholder (some (index + 1)), rest) := by
      simp [Dialect.readPlaceholder?, htake, hdrop, Nat.toDigits_ne_nil,
        Nat.ofDigitChars_ten_toDigits]
    apply of_read? rfl
    rw [Token.read?, if_neg (by decide), if_neg (by decide), if_neg (by decide),
      if_neg (by decide), if_neg (by simp), hread]
    rfl
  | mysql | ansi => exact of_read? rfl rfl

theorem Reads.literal (v : Value) {rest : List Char} (h : AtBoundary rest) :
    Reads d (d.literal v) [.literal v] rest := by
  cases v with
  | null => exact word (s := "NULL") rfl h
  | bool b =>
    cases b with
    | true => exact word (s := "TRUE") rfl h
    | false => exact word (s := "FALSE") rfl h
  | number n => exact number n h
  | string s =>
    have hread := quoteText (d := d) s.toList h
    rwa [String.ofList_toList] at hread
  | array _ | object _ => exact quoteText _ h

/-- A way to write values, each as one token. -/
def ReadsValues (d : Dialect) (write : Nat → Value → List Char) (token : Nat → Value → Token) :
    Prop :=
  ∀ index v rest, AtBoundary rest → Reads d (write index v) [token index v] rest

theorem readsValues_placeholder :
    ReadsValues d (fun index _ => d.placeholder index) fun index _ => d.placeholderToken index :=
  fun index _ _ h => .placeholder index h

theorem readsValues_literal : ReadsValues d (fun _ v => d.literal v) fun _ v => .literal v :=
  fun _ v _ h => .literal v h

end FilterQuery.Sql
