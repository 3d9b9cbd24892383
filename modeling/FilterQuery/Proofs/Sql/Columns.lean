import FilterQuery.Proofs.Distinction
import FilterQuery.Proofs.Sql.Rendering

/-!
# Columns of different paths

A column is written with its parts quoted one by one. Its text is read as one name for each part,
whatever marks and points the parts contain, so the text gives the parts back and the parts give the
path back. Therefore different paths are different columns in every dialect.
-/

namespace FilterQuery.Sql

open Json (Value)

theorem not_mem_of_mem_splitOn {separator : Char} {s segment : List Char}
    (h : segment ∈ s.splitOn separator) : separator ∉ segment := by
  induction s generalizing segment with
  | nil =>
    rw [List.splitOn_nil, List.mem_singleton] at h
    rw [h]
    exact List.not_mem_nil
  | cons c s ih =>
    obtain ⟨first, later, hsplit⟩ :=
      List.exists_cons_of_ne_nil (List.splitOn_ne_nil separator s)
    rw [List.splitOn_cons_eq_if_modifyHead, hsplit] at h
    rw [hsplit] at ih
    split at h
    · rcases List.mem_cons.mp h with rfl | h
      · exact List.not_mem_nil
      · exact ih h
    · next hne =>
      rcases List.mem_cons.mp h with rfl | h
      · -- the first segment begins one character earlier
        rw [List.mem_cons, not_or]
        exact ⟨fun heq => hne (beq_iff_eq.mpr heq.symm), ih List.mem_cons_self⟩
      · exact ih (List.mem_cons_of_mem first h)

namespace Ident

theorem intercalate_parts (path : String) : ".".intercalate (ofPath path).parts = path := by
  rw [← String.toList_inj, String.toList_intercalate]
  exact intercalate_parts_ofPath path

/-- A path that is split has a proper name in each of its parts. -/
theorem of_mem_parts_ofPath {path part : String} (hsplit : 1 < (ofPath path).parts.length)
    (h : part ∈ (ofPath path).parts) : part ≠ "" ∧ '.' ∉ part.toList := by
  unfold ofPath at hsplit h
  simp only at hsplit h
  split at hsplit
  · simp [single] at hsplit
  · next hempty =>
    rw [if_neg hempty] at h
    refine ⟨fun heq => hempty (heq ▸ h), ?_⟩
    obtain ⟨segment, hsegment, rfl⟩ := List.mem_map.mp h
    rw [String.toList_ofList]
    exact not_mem_of_mem_splitOn hsegment

end Ident

/-- The names among some tokens. -/
def names (tokens : List Token) : List String :=
  tokens.filterMap fun
    | .name part => some part
    | _ => none

theorem names_nameItems (write : Nat → Value → Token) (index : Nat) (parts : List String) :
    names (Item.tokens write index (nameItems parts)) = parts := by
  induction parts with
  | nil => rfl
  | cons part parts ih =>
    cases parts with
    | nil => rfl
    | cons next parts => exact congrArg (part :: ·) ih

/-- The path that a text is a column of, by the names in it. -/
def readPath? (d : Dialect) (text : String) : Option String :=
  (lex d text.toList).map fun tokens => ".".intercalate (names tokens)

variable (d : Dialect)

theorem spelled_path (path : String) :
    Spelled d (Expr.path path).pieces (nameItems (Ident.ofPath path).parts) :=
  .names (Ident.ofPath path).parts

theorem readPath?_bound (path : String) :
    readPath? d (bound d (Expr.path path).pieces).sql = some path := by
  rw [readPath?, (spelled_path d path).lex_bound, Option.map_some, names_nameItems]
  exact congrArg some (Ident.intercalate_parts path)

theorem readPath?_inline (path : String) :
    readPath? d (inline d (Expr.path path).pieces) = some path := by
  rw [readPath?, (spelled_path d path).lex_inline, Option.map_some, names_nameItems]
  exact congrArg some (Ident.intercalate_parts path)

/-- A path has parts that give it back, several of them only if each is a name without points; and
in every dialect the texts of two columns are equal only if their paths are. -/
theorem parts_ofPath_and_text_injective :
    (∀ path, (Ident.ofPath path).parts ≠ [] ∧
      ".".intercalate (Ident.ofPath path).parts = path ∧
      (1 < (Ident.ofPath path).parts.length →
        ∀ part ∈ (Ident.ofPath path).parts, part ≠ "" ∧ '.' ∉ part.toList)) ∧
    ∀ (d : Dialect) (path other : String), path ≠ other →
      (bound d (Expr.path path).pieces).sql ≠ (bound d (Expr.path other).pieces).sql ∧
        inline d (Expr.path path).pieces ≠ inline d (Expr.path other).pieces := by
  constructor
  · intro path
    exact ⟨Ident.parts_ofPath_ne_nil path, Ident.intercalate_parts path,
      fun hsplit part hpart => Ident.of_mem_parts_ofPath hsplit hpart⟩
  · intro d path other hne
    refine ⟨fun htext => hne ?_, fun htext => hne ?_⟩
    · have hread := readPath?_bound d path
      rw [htext, readPath?_bound] at hread
      exact (Option.some.inj hread).symm
    · have hread := readPath?_inline d path
      rw [htext, readPath?_inline] at hread
      exact (Option.some.inj hread).symm

/-- The marks and the point of `"a"."b"` may stand inside a name or between two. -/
theorem parts_ofPath_and_text_injective_marked :
    (Ident.ofPath "a\".\"b").parts = ["a\"", "\"b"] ∧ (Ident.ofPath ".a").parts = [".a"] ∧
      1 < (Ident.ofPath "a\".\"b").parts.length ∧
      (∀ part ∈ ["a\"", "\"b"], part ≠ "" ∧ '.' ∉ part.toList) ∧
      inline .ansi (Expr.path "a\".\"b").pieces = "\"a\"\"\".\"\"\"b\"" ∧
      "a\".\"b" ≠ "a.b" ∧
      inline .ansi (Expr.path "a\".\"b").pieces ≠ inline .ansi (Expr.path "a.b").pieces := by
  obtain ⟨hparts, htext⟩ := parts_ofPath_and_text_injective
  have hsplit : 1 < (Ident.ofPath "a\".\"b").parts.length := by decide
  have hne : "a\".\"b" ≠ "a.b" := by decide
  exact ⟨by decide, by decide, hsplit, (hparts _).2.2 hsplit, by decide, hne,
    (htext .ansi _ _ hne).2⟩

end FilterQuery.Sql
