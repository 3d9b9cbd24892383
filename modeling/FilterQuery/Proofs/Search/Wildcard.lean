import Mathlib.Data.List.Infix
import FilterQuery.Search.Routing

/-!
# What patterns match

A pattern is a list of parts. In a filter `%` is any sequence and every other character itself. In a
search clause `*` is any sequence, `?` any one character, and a backslash takes away the meaning of
the character behind it; at the end of a pattern it stands for itself.

A pattern that is translated for a search clause matches the same texts exactly if it has none of the
characters that mean something there only. Where it has one, the shortest text that the clause
matches tells the two readings apart.
-/

namespace FilterQuery

inductive PatternPart where
  | char (c : Char)
  | anyChar
  | anySequence
deriving DecidableEq

namespace PatternPart

def matchesText : List PatternPart → List Char → Bool
  | [], s => s.isEmpty
  | .char c :: parts, s => s.head? == some c && matchesText parts s.tail
  | .anyChar :: parts, s => !s.isEmpty && matchesText parts s.tail
  | .anySequence :: parts, s => s.tails.any (matchesText parts)

def ofLike (pattern : List Char) : List PatternPart :=
  pattern.map fun c => if c = '%' then .anySequence else .char c

def ofWildcard : List Char → List PatternPart
  | [] => []
  | '*' :: cs => .anySequence :: ofWildcard cs
  | '?' :: cs => .anyChar :: ofWildcard cs
  | '\\' :: c :: cs => .char c :: ofWildcard cs
  | c :: cs => .char c :: ofWildcard cs

/-- The least text that the parts match, with a letter for any character. -/
def shortest : List PatternPart → List Char
  | [] => []
  | .char c :: parts => c :: shortest parts
  | .anyChar :: parts => 'a' :: shortest parts
  | .anySequence :: parts => shortest parts

theorem matchesText_shortest (parts : List PatternPart) :
    matchesText parts (shortest parts) = true := by
  induction parts with
  | nil => rfl
  | cons part parts ih =>
    cases part with
    | char c => simp [shortest, matchesText, ih]
    | anyChar => simp [shortest, matchesText, ih]
    | anySequence =>
      rw [shortest, matchesText, List.any_eq_true]
      exact ⟨shortest parts, (List.mem_tails _ _).mpr (List.suffix_refl _), ih⟩

/-- A text that a filter's pattern matches holds the characters of the pattern in their order. -/
theorem sublist_of_matchesText_ofLike {pattern s : List Char}
    (h : matchesText (ofLike pattern) s = true) : (shortest (ofLike pattern)).Sublist s := by
  induction pattern generalizing s with
  | nil => exact List.nil_sublist s
  | cons c pattern ih =>
    by_cases hc : c = '%'
    · simp only [ofLike, List.map_cons, if_pos hc, matchesText, List.any_eq_true] at h
      obtain ⟨rest, hrest, hmatches⟩ := h
      simp only [ofLike, List.map_cons, if_pos hc, shortest]
      exact (ih hmatches).trans ((List.mem_tails _ _).mp hrest).sublist
    · simp only [ofLike, List.map_cons, if_neg hc, matchesText, Bool.and_eq_true,
        beq_iff_eq] at h
      obtain ⟨rest, rfl⟩ : ∃ rest, s = c :: rest := by
        cases s with
        | nil => cases h.1
        | cons first rest => exact ⟨rest, by rw [Option.some.inj h.1]⟩
      simp only [ofLike, List.map_cons, if_neg hc, shortest]
      exact (ih h.2).cons_cons c

/-- The pattern of a search clause for the pattern of a filter. -/
def starred (pattern : List Char) : List Char :=
  pattern.map fun c => if c = '%' then '*' else c

/-- Nothing in the pattern means something in search clauses only. -/
structure Plain (pattern : List Char) : Prop where
  no_star : '*' ∉ pattern
  no_mark : '?' ∉ pattern
  no_escape : '\\' ∉ pattern.dropLast

/-- Induction along a filter's pattern, as it is read in a search clause. -/
theorem pattern_induction {P : List Char → Prop} (nil : P [])
    (sequence : ∀ cs, P cs → P ('%' :: cs)) (star : ∀ cs, P cs → P ('*' :: cs))
    (mark : ∀ cs, P cs → P ('?' :: cs)) (last : P ['\\'])
    (escape : ∀ c cs, P cs → P ('\\' :: c :: cs))
    (char : ∀ c cs, c ∉ ['%', '*', '?', '\\'] → P cs → P (c :: cs)) (pattern : List Char) :
    P pattern := by
  induction pattern using ofWildcard.induct with
  | case1 => exact nil
  | case2 cs ih => exact star cs ih
  | case3 cs ih => exact mark cs ih
  | case4 c cs ih => exact escape c cs ih
  | case5 c cs hstar hmark hescape ih =>
    by_cases hsequence : c = '%'
    · exact hsequence ▸ sequence cs ih
    · by_cases hc : c = '\\'
      · cases cs with
        | nil => exact hc ▸ last
        | cons next cs => exact absurd rfl (hescape next cs hc)
      · exact char c cs (by simpa [hsequence, hc] using ⟨hstar, hmark⟩) ih

theorem ofWildcard_starred_char {c : Char} (h : c ∉ ['%', '*', '?', '\\']) (cs : List Char) :
    ofWildcard (starred (c :: cs)) = .char c :: ofWildcard (starred cs) := by
  simp only [List.mem_cons, List.not_mem_nil, or_false, not_or] at h
  obtain ⟨hsequence, hstar, hmark, hescape⟩ := h
  rw [starred, List.map_cons, if_neg hsequence, ofWildcard]
  · rfl
  · exact hstar
  · exact hmark
  · exact fun c' _ hc => absurd hc hescape

theorem ofLike_char {c : Char} (h : c ∉ ['%', '*', '?', '\\']) (cs : List Char) :
    ofLike (c :: cs) = .char c :: ofLike cs := by
  have hc : c ≠ '%' := fun heq => h (heq ▸ List.mem_cons_self)
  rw [ofLike, List.map_cons, if_neg hc]
  rfl

theorem Plain.of_cons {c : Char} {cs : List Char} (h : Plain (c :: cs)) : Plain cs where
  no_star hmem := h.no_star (List.mem_cons_of_mem c hmem)
  no_mark hmem := h.no_mark (List.mem_cons_of_mem c hmem)
  no_escape hmem := by
    have hne : cs ≠ [] := fun hnil => by simp [hnil] at hmem
    apply h.no_escape
    rw [List.dropLast_cons_of_ne_nil hne]
    exact List.mem_cons_of_mem c hmem

theorem Plain.cons {c : Char} {cs : List Char} (h : Plain cs) (hc : c ∉ ['*', '?', '\\']) :
    Plain (c :: cs) := by
  simp only [List.mem_cons, List.not_mem_nil, or_false, not_or] at hc
  obtain ⟨hstar, hmark, hescape⟩ := hc
  refine ⟨by simp [h.no_star, Ne.symm hstar], by simp [h.no_mark, Ne.symm hmark], fun hmem => ?_⟩
  cases cs with
  | nil => cases hmem
  | cons next cs =>
    rw [List.dropLast_cons_of_ne_nil (List.cons_ne_nil next cs)] at hmem
    rcases List.mem_cons.mp hmem with heq | hmem
    · exact hescape heq.symm
    · exact h.no_escape hmem

theorem ofWildcard_starred_of_plain {pattern : List Char} (h : Plain pattern) :
    ofWildcard (starred pattern) = ofLike pattern := by
  induction pattern using pattern_induction with
  | nil => rfl
  | sequence cs ih => exact congrArg (PatternPart.anySequence :: ·) (ih h.of_cons)
  | star cs ih => exact absurd List.mem_cons_self h.no_star
  | mark cs ih => exact absurd List.mem_cons_self h.no_mark
  | last => rfl
  | escape c cs ih => exact absurd List.mem_cons_self h.no_escape
  | char c cs hc ih => rw [ofWildcard_starred_char hc, ofLike_char hc, ih h.of_cons]

/-- Translated, a pattern needs no longer texts than before. -/
theorem length_shortest_starred_le (pattern : List Char) :
    (shortest (ofWildcard (starred pattern))).length ≤ (shortest (ofLike pattern)).length := by
  induction pattern using pattern_induction with
  | nil => exact Nat.le_refl _
  | sequence cs ih => exact ih
  | star cs ih => exact Nat.le_succ_of_le ih
  | mark cs ih => exact Nat.succ_le_succ ih
  | last => exact Nat.le_refl _
  | escape c cs ih =>
    by_cases hc : c = '%'
    · subst hc
      exact Nat.succ_le_succ ih
    · simp only [starred, ofLike, List.map_cons, if_neg hc]
      exact Nat.succ_le_succ (Nat.le_succ_of_le ih)
  | char c cs hc ih =>
    rw [ofWildcard_starred_char hc, ofLike_char hc]
    exact Nat.succ_le_succ ih

/-- If translating a pattern keeps the least text, nothing in it has got another meaning. -/
theorem plain_of_shortest_eq {pattern : List Char}
    (h : shortest (ofWildcard (starred pattern)) = shortest (ofLike pattern)) :
    Plain pattern := by
  induction pattern using pattern_induction with
  | nil => exact ⟨List.not_mem_nil, List.not_mem_nil, List.not_mem_nil⟩
  | sequence cs ih => exact (ih h).cons (by decide)
  | star cs ih =>
    have hlength : (shortest (ofWildcard (starred cs))).length =
      (shortest (ofLike cs)).length + 1 := congrArg List.length h
    have hle := length_shortest_starred_le cs
    omega
  | mark cs ih => exact absurd (List.cons.inj h).1 (by decide)
  | last => exact ⟨by decide, by decide, by decide⟩
  | escape c cs ih =>
    by_cases hc : c = '%'
    · subst hc
      exact absurd (List.cons.inj h).1 (by decide)
    · have hlength : (shortest (ofWildcard (starred cs))).length + 1 =
          (shortest (ofLike cs)).length + 2 := by
        simpa [starred, ofLike, hc, ofWildcard, shortest] using congrArg List.length h
      have hle := length_shortest_starred_le cs
      omega
  | char c cs hc ih =>
    rw [ofWildcard_starred_char hc, ofLike_char hc] at h
    have hrest : Plain cs := ih (List.cons.inj h).2
    exact hrest.cons fun hmem => hc (List.mem_cons_of_mem '%' hmem)

/-- Only plain patterns are read alike: elsewhere the least text that the clause matches differs. -/
theorem matchesText_eq_iff_plain (pattern : List Char) :
    (∀ s, matchesText (ofWildcard (starred pattern)) s = matchesText (ofLike pattern) s) ↔
      Plain pattern := by
  constructor
  · intro h
    have hmatches := h (shortest (ofWildcard (starred pattern)))
    rw [matchesText_shortest] at hmatches
    have hsublist := sublist_of_matchesText_ofLike hmatches.symm
    have hlength := length_shortest_starred_le pattern
    exact plain_of_shortest_eq (hsublist.eq_of_length_le hlength).symm
  · intro h s
    rw [ofWildcard_starred_of_plain h]

end PatternPart

open PatternPart (matchesText ofLike ofWildcard)

def likeMatches (pattern text : String) : Bool :=
  matchesText (ofLike pattern.toList) text.toList

def wildcardMatches (pattern text : String) : Bool :=
  matchesText (ofWildcard pattern.toList) text.toList

namespace Search

/-- The clause of a pattern, whether at the top or in a group, matches what the pattern matches
exactly if the pattern is plain. -/
theorem wildcardMatches_like_iff (bounds : Bounds) (field pattern : String) :
    ∃ wildcard, leaf bounds ⟨field, .like pattern⟩ = (.must, .wildcard field wildcard) ∧
      nested bounds (.condition ⟨field, .like pattern⟩) = .wildcard field wildcard ∧
      ((∀ text, wildcardMatches wildcard text = likeMatches pattern text) ↔
        '*' ∉ pattern.toList ∧ '?' ∉ pattern.toList ∧ '\\' ∉ pattern.toList.dropLast) := by
  refine ⟨wildcardPattern pattern, rfl, rfl, ?_⟩
  have hplain := PatternPart.matchesText_eq_iff_plain pattern.toList
  have hstarred : (wildcardPattern pattern).toList = PatternPart.starred pattern.toList :=
    String.toList_ofList
  constructor
  · intro h
    have htexts : PatternPart.Plain pattern.toList := hplain.mp fun s => by
      simpa [wildcardMatches, likeMatches, hstarred] using h (String.ofList s)
    exact ⟨htexts.no_star, htexts.no_mark, htexts.no_escape⟩
  · rintro ⟨hstar, hmark, hescape⟩ text
    rw [wildcardMatches, likeMatches, hstarred]
    exact hplain.mpr ⟨hstar, hmark, hescape⟩ text.toList

/-- The clause of `a*b` matches a text that is not `a*b`. -/
theorem wildcard_of_star :
    nested .inclusive (.condition ⟨"f", .like "a*b"⟩) = .wildcard "f" "a*b" ∧
      wildcardMatches "a*b" "axb" = true ∧ likeMatches "a*b" "axb" = false := by
  exact ⟨rfl, by decide, by decide⟩

end Search

end FilterQuery
