import FilterQuery.Json.Printer
import FilterQuery.Json.Reader

/-!
# Text of values is read back

The text that is written for a value without numbers is read as the tree of that value, up to the
character where it ends. A string ends at the first mark that is not behind a backslash, whatever
characters it has; an array or an object ends at its own bracket, since a text that begins a value
begins with no closing bracket. Each step of the reader takes a character, so as many steps as the
text is long are enough.
-/

namespace FilterQuery.Json

/-! ## Strings -/

namespace Escape

theorem unletter?_letter {c letter : Char} (h : letter? c = some letter) :
    letter ≠ 'u' ∧ unletter? letter = some c := by
  unfold letter? at h
  repeat' split at h
  all_goals cases h
  all_goals subst_vars; exact ⟨by decide, rfl⟩

theorem unit?_hexDigit : ∀ n < 0x20,
    unit? '0' '0' (hexDigit (n / 16)) (hexDigit (n % 16)) = some n := by
  decide

/-- A character is written by a letter, by its number, or as itself. -/
theorem encodeChar_cases (c : Char) :
    (∃ letter, encodeChar c = ['\\', letter] ∧ letter ≠ 'u' ∧ unletter? letter = some c) ∨
    (c.toNat < 0x20 ∧ encodeChar c =
      ['\\', 'u', '0', '0', hexDigit (c.toNat / 16), hexDigit (c.toNat % 16)]) ∨
    (encodeChar c = [c] ∧ c ≠ '"' ∧ c ≠ '\\' ∧ ¬ c.toNat < 0x20) := by
  rw [encodeChar]
  cases hletter : letter? c with
  | some letter => exact .inl ⟨letter, rfl, unletter?_letter hletter⟩
  | none =>
    by_cases hcontrol : c.toNat < 0x20
    · exact .inr (.inl ⟨hcontrol, if_pos hcontrol⟩)
    · refine .inr (.inr ⟨if_neg hcontrol, ?_, ?_, hcontrol⟩)
      · rintro rfl
        cases hletter
      · rintro rfl
        cases hletter

theorem body?_encodeChar (c : Char) (rest : List Char) :
    body? (encodeChar c ++ rest) =
      (body? rest).map fun (body, after) => (encodeChar c ++ body, after) := by
  rcases encodeChar_cases c with ⟨letter, hcode, hne, hletter⟩ | ⟨hcontrol, hcode⟩ |
    ⟨hcode, hmark, hslash, hcontrol⟩
  · rw [hcode, List.cons_append, List.singleton_append, body?, hletter]
    · cases body? rest <;> rfl
    · intro _ _ _ _ _ heq
      exact absurd heq hne
  · simp only [hcode, List.cons_append, List.nil_append, body?, unit?_hexDigit _ hcontrol]
    cases body? rest <;> rfl
  · rw [hcode, List.singleton_append, body?, if_neg hcontrol]
    · cases body? rest <;> rfl
    · exact hmark
    · intro _ _ _ _ _ heq
      exact absurd heq hslash
    · intro _ _ heq
      exact absurd heq hslash

theorem decode?_encodeChar (c : Char) (rest : List Char) :
    decode? (encodeChar c ++ rest) = (decode? rest).map (c :: ·) := by
  rcases encodeChar_cases c with ⟨letter, hcode, hne, hletter⟩ | ⟨hcontrol, hcode⟩ |
    ⟨hcode, -, hslash, -⟩
  · rw [hcode, List.cons_append, List.singleton_append, decode?, hletter]
    intro _ _ _ _ _ heq
    exact absurd heq hne
  · have hhigh : isHigh c.toNat = false := by simp only [isHigh]; grind
    have hlow : isLow c.toNat = false := by simp only [isLow]; grind
    simp only [hcode, List.cons_append, List.nil_append, decode?, unit?_hexDigit _ hcontrol, hhigh,
      hlow, Bool.false_eq_true, if_false, Char.ofNat_toNat]
  · rw [hcode, List.singleton_append, decode?]
    · intro _ _ _ _ _ heq
      exact absurd heq hslash
    · intro _ _ heq
      exact absurd heq hslash

/-- A text ends at the mark behind it, as every mark inside is behind a backslash. -/
theorem body?_encode (s rest : List Char) :
    body? (s.flatMap encodeChar ++ '"' :: rest) = some (s.flatMap encodeChar, rest) := by
  induction s with
  | nil => rfl
  | cons c s ih => rw [List.flatMap_cons, List.append_assoc, body?_encodeChar, ih, Option.map_some]

theorem decode?_encode (s : List Char) : decode? (s.flatMap encodeChar) = some s := by
  induction s with
  | nil => rfl
  | cons c s ih => rw [List.flatMap_cons, decode?_encodeChar, ih, Option.map_some]

end Escape

namespace Raw

theorem readString_encode (s : String) (rest : List Char) :
    readString (s.toList.flatMap Escape.encodeChar ++ '"' :: rest) = some (some s, rest) := by
  have hdecode := congrArg (Option.map String.ofList) (Escape.decode?_encode s.toList)
  rw [Option.map_some, String.ofList_toList] at hdecode
  rw [readString, Escape.body?_encode]
  exact congrArg (fun text => some (text, rest)) hdecode

theorem readName_stringChars (name : String) (rest : List Char) :
    readName (stringChars name ++ ':' :: rest) = some (some name, rest) := by
  have hread := readString_encode name (':' :: rest)
  simp only [stringChars, Text.quoted, List.cons_append, List.append_assoc, List.nil_append,
    readName, hread]
  rfl

end Raw

/-! ## Values -/

/-- No number stands anywhere in the value. -/
inductive Value.Numberless : Value → Prop where
  | null : Numberless .null
  | bool (b : Bool) : Numberless (.bool b)
  | string (s : String) : Numberless (.string s)
  | array {items : List Value} (each : ∀ item ∈ items, Numberless item) : Numberless (.array items)
  | object {fields : Fields} (each : ∀ field ∈ fields, Numberless field.2) :
    Numberless (.object fields)

namespace Value

/-- The text of the value is read as its tree, whatever follows it. -/
def ReadsBack (v : Value) : Prop :=
  ∀ steps rest, v.chars.length ≤ steps →
    Raw.readValue steps (v.chars ++ rest) = some (v.toRaw, rest)

/-- A value begins with a character that is neither a space nor a closing bracket. -/
theorem Numberless.chars_eq_cons {v : Value} (h : v.Numberless) :
    ∃ c tail, v.chars = c :: tail ∧ Raw.isSpace c = false ∧ c ≠ ']' := by
  cases h with
  | null => exact ⟨'n', _, rfl, rfl, by decide⟩
  | bool b =>
    cases b with
    | true => exact ⟨'t', _, rfl, rfl, by decide⟩
    | false => exact ⟨'f', _, rfl, rfl, by decide⟩
  | string s => exact ⟨'"', _, rfl, rfl, by decide⟩
  | @array items each =>
    cases items with
    | nil => exact ⟨'[', _, rfl, rfl, by decide⟩
    | cons item items => exact ⟨'[', _, rfl, rfl, by decide⟩
  | @object fields each =>
    cases fields with
    | nil => exact ⟨'{', _, rfl, rfl, by decide⟩
    | cons field fields => exact ⟨'{', _, rfl, rfl, by decide⟩

theorem readItems_items {item : Value} {items : List Value} (hitem : item.ReadsBack)
    (hitems : ∀ other ∈ items, other.ReadsBack) {steps : Nat}
    (hsteps : (item.chars ++ moreItems items).length ≤ steps) (rest : List Char) :
    Raw.readItems steps (item.chars ++ moreItems items ++ rest) =
      some (itemsToRaw (item :: items), rest) := by
  induction items generalizing item steps with
  | nil =>
    rw [moreItems, List.length_append, List.length_singleton] at hsteps
    obtain ⟨steps, rfl⟩ := Nat.exists_eq_add_of_le' (Nat.le_of_add_left_le hsteps)
    have hread := hitem steps (']' :: rest) (Nat.le_of_add_le_add_right hsteps)
    rw [moreItems, List.append_assoc, List.singleton_append, Raw.readItems, hread]
    rfl
  | cons next items ih =>
    obtain ⟨hnext, hlater⟩ := List.forall_mem_cons.mp hitems
    rw [moreItems, List.length_append, List.cons_append, List.length_cons] at hsteps
    obtain ⟨steps, rfl⟩ := Nat.exists_eq_add_of_le' (show 1 ≤ steps by omega)
    have hread := hitem steps (',' :: (next.chars ++ moreItems items ++ rest)) (by omega)
    have hmore : Raw.readItems steps (next.chars ++ moreItems items ++ rest) =
        some (itemsToRaw (next :: items), rest) := ih hnext hlater (by omega)
    rw [moreItems, List.append_assoc, List.cons_append, List.cons_append, Raw.readItems, hread]
    change (Raw.readItems steps (next.chars ++ moreItems items ++ rest)).bind (fun read =>
      some (item.toRaw :: read.1, read.2)) = _
    rw [hmore]
    rfl

theorem readFields_fields {name : String} {value : Value} {fields : Fields}
    (hvalue : value.ReadsBack) (hfields : ∀ field ∈ fields, field.2.ReadsBack) {steps : Nat}
    (hsteps : (stringChars name ++ ':' :: value.chars ++ moreFields fields).length ≤ steps)
    (rest : List Char) :
    Raw.readFields steps (stringChars name ++ ':' :: value.chars ++ moreFields fields ++ rest) =
      some (fieldsToRaw ((name, value) :: fields), rest) := by
  have hspace (rest : List Char) : Raw.skipSpace (stringChars name ++ rest) =
      stringChars name ++ rest := rfl
  induction fields generalizing name value steps with
  | nil =>
    simp only [moreFields, List.length_append, List.length_cons] at hsteps
    obtain ⟨steps, rfl⟩ := Nat.exists_eq_add_of_le' (show 1 ≤ steps by omega)
    have hread := hvalue steps ('}' :: rest) (by omega)
    have hname := Raw.readName_stringChars name (value.chars ++ '}' :: rest)
    simp only [moreFields, List.append_assoc, List.cons_append, List.nil_append, Raw.readFields,
      hspace, hname, Option.bind_eq_bind, Option.bind_some, hread]
    rfl
  | cons next fields ih =>
    obtain ⟨hnext, hlater⟩ := List.forall_mem_cons.mp hfields
    simp only [moreFields, List.length_append, List.length_cons] at hsteps
    obtain ⟨steps, rfl⟩ := Nat.exists_eq_add_of_le' (show 1 ≤ steps by omega)
    have hmore : Raw.readFields steps (stringChars next.1 ++ ':' :: next.2.chars ++
        moreFields fields ++ rest) = some (fieldsToRaw (next :: fields), rest) :=
      ih hnext hlater (by simp only [List.length_append, List.length_cons]; omega) fun _ => rfl
    simp only [List.append_assoc, List.cons_append] at hmore
    have hread := hvalue steps (',' :: (stringChars next.1 ++ ':' :: (next.2.chars ++
      (moreFields fields ++ rest)))) (by omega)
    have hname := Raw.readName_stringChars name (value.chars ++ ',' :: (stringChars next.1 ++
      ':' :: (next.2.chars ++ (moreFields fields ++ rest))))
    simp only [moreFields, List.append_assoc, List.cons_append, Raw.readFields, hspace, hname,
      Option.bind_eq_bind, Option.bind_some, hread]
    change (Raw.readFields steps _).bind (fun read =>
      some ((some name, value.toRaw) :: read.1, read.2)) = _
    rw [hmore]
    rfl

theorem skipSpace_cons {c : Char} (h : Raw.isSpace c = false) (rest : List Char) :
    Raw.skipSpace (c :: rest) = c :: rest :=
  List.dropWhile_cons_of_neg (Bool.eq_false_iff.mp h)

/-- Behind an opening bracket, what is neither a space nor a closing bracket begins an item. -/
theorem readValue_items {c : Char} (hspace : Raw.isSpace c = false) (hclosing : c ≠ ']')
    (steps : Nat) (rest : List Char) :
    Raw.readValue (steps + 1) ('[' :: c :: rest) =
      (Raw.readItems steps (c :: rest)).map fun (items, rest) => (.array items, rest) := by
  have hopening : Raw.skipSpace ('[' :: c :: rest) = '[' :: c :: rest := rfl
  simp only [Raw.readValue, hopening, skipSpace_cons hspace]
  split
  · next heq => exact absurd (List.cons.inj heq).1 hclosing
  · rfl

/-- A text is not empty, so at least one step is allowed for it. -/
theorem Numberless.readsBack_of_succ {v : Value} (h : v.Numberless)
    (hread : ∀ steps rest, v.chars.length ≤ steps + 1 →
      Raw.readValue (steps + 1) (v.chars ++ rest) = some (v.toRaw, rest)) : v.ReadsBack := by
  intro steps rest hsteps
  cases steps with
  | zero =>
    obtain ⟨c, tail, hchars, -, -⟩ := h.chars_eq_cons
    rw [hchars] at hsteps
    cases hsteps
  | succ steps => exact hread steps rest hsteps

/-- A value without numbers is read as its tree from its own text. -/
theorem Numberless.readsBack {v : Value} (h : v.Numberless) : v.ReadsBack := by
  induction h with
  | null => exact Numberless.null.readsBack_of_succ fun _ _ _ => rfl
  | bool b =>
    refine (Numberless.bool b).readsBack_of_succ fun _ _ _ => ?_
    cases b <;> rfl
  | string s =>
    refine (Numberless.string s).readsBack_of_succ fun steps rest _ => ?_
    have hread := Raw.readString_encode s rest
    simp only [chars, stringChars, Text.quoted, List.cons_append, List.append_assoc,
      List.nil_append]
    change (Raw.readString _).map _ = _
    rw [hread]
    rfl
  | @array items each ih =>
    refine (Numberless.array each).readsBack_of_succ fun steps rest hsteps => ?_
    cases items with
    | nil => rfl
    | cons item items =>
      obtain ⟨hitem, hitems⟩ := List.forall_mem_cons.mp ih
      obtain ⟨c, tail, hchars, hspace, hclosing⟩ := (each item List.mem_cons_self).chars_eq_cons
      have hread := readItems_items hitem hitems (Nat.le_of_succ_le_succ hsteps) rest
      simp only [hchars, List.cons_append] at hread
      simp only [chars, hchars, List.cons_append]
      rw [readValue_items hspace hclosing, hread]
      rfl
  | @object fields each ih =>
    refine (Numberless.object each).readsBack_of_succ fun steps rest hsteps => ?_
    cases fields with
    | nil => rfl
    | cons field fields =>
      obtain ⟨hfield, hfields⟩ := List.forall_mem_cons.mp ih
      have hread : Raw.readFields steps (stringChars field.1 ++ ':' :: field.2.chars ++
          moreFields fields ++ rest) = some (fieldsToRaw (field :: fields), rest) :=
        readFields_fields hfield hfields (Nat.le_of_succ_le_succ hsteps) rest
      change (Raw.readFields steps (stringChars field.1 ++ ':' :: field.2.chars ++
        moreFields fields ++ rest)).map _ = _
      rw [hread]
      rfl

end Value

/-- The whole text is the value and nothing else. -/
theorem Raw.read?_text {v : Value} (h : v.Numberless) : Raw.read? v.text = some v.toRaw := by
  have hread := h.readsBack v.chars.length [] (Nat.le_refl _)
  rw [List.append_nil] at hread
  rw [Raw.read?, Value.text, String.toList_ofList, String.length_ofList, hread]
  rfl

end FilterQuery.Json
