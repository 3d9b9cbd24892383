/-!
# Looking up names

What a list of named things holds under a name. Entries of other names make no difference to it, and
where all names are different it does not depend on the order.
-/

namespace FilterQuery

variable {α β : Type}

theorem lookup_cons_of_ne {name key : String} (h : name ≠ key) (value : α)
    (entries : List (String × α)) :
    ((key, value) :: entries).lookup name = entries.lookup name := by
  rw [List.lookup_cons, beq_false_of_ne h]

theorem lookup_eq_none_of_not_mem {entries : List (String × α)} {name : String}
    (h : name ∉ entries.map Prod.fst) : entries.lookup name = none := by
  rw [List.lookup_eq_none_iff]
  intro entry hentry
  exact bne_iff_ne.mpr fun heq => h (List.mem_map.mpr ⟨entry, hentry, heq.symm⟩)

theorem lookup_filter (keep : String → Bool) {name : String} (h : keep name)
    (entries : List (String × α)) :
    (entries.filter fun entry => keep entry.1).lookup name = entries.lookup name := by
  induction entries with
  | nil => rfl
  | cons entry entries ih =>
    obtain ⟨key, value⟩ := entry
    by_cases hname : name = key
    · subst hname
      rw [List.filter_cons, if_pos h, List.lookup_cons_self, List.lookup_cons_self]
    · have hne : (name == key) = false := beq_false_of_ne hname
      rw [List.filter_cons, List.lookup_cons, hne]
      split
      · rw [List.lookup_cons, hne, ih]
      · exact ih

theorem lookup_eq_some_iff_mem {entries : List (String × α)} (h : (entries.map Prod.fst).Nodup)
    {name : String} {value : α} :
    entries.lookup name = some value ↔ (name, value) ∈ entries := by
  rw [List.lookup_eq_some_iff]
  constructor
  · rintro ⟨before, after, rfl, -⟩
    exact List.mem_append_right before List.mem_cons_self
  · intro hmem
    obtain ⟨before, after, rfl⟩ := List.append_of_mem hmem
    refine ⟨before, after, rfl, fun entry hentry => ?_⟩
    rw [List.map_append, List.map_cons] at h
    have hfirst : entry.1 ∈ before.map Prod.fst := List.mem_map_of_mem hentry
    have hne := (List.nodup_append.mp h).2.2 entry.1 hfirst name List.mem_cons_self
    exact bne_iff_ne.mpr hne.symm

theorem lookup_eq_of_perm {entries others : List (String × α)} (h : (entries.map Prod.fst).Nodup)
    (hperm : entries.Perm others) (name : String) : entries.lookup name = others.lookup name := by
  have hothers := (hperm.map Prod.fst).nodup_iff.mp h
  apply Option.ext
  intro value
  rw [lookup_eq_some_iff_mem h, lookup_eq_some_iff_mem hothers, hperm.mem_iff]

/-- Where all names are different, what is collected under a name comes from the one entry that has
it. -/
theorem flatMap_eq_lookup {entries : List (String × α)} (h : (entries.map Prod.fst).Nodup)
    (name : String) (f : α → List β) :
    (entries.flatMap fun entry => if entry.1 = name then f entry.2 else []) =
      (entries.lookup name).toList.flatMap f := by
  induction entries with
  | nil => rfl
  | cons entry entries ih =>
    obtain ⟨key, value⟩ := entry
    rw [List.map_cons, List.nodup_cons] at h
    rw [List.flatMap_cons]
    by_cases hname : key = name
    · subst hname
      have hothers : (entries.flatMap fun entry => if entry.1 = key then f entry.2 else []) = [] := by
        rw [List.flatMap_eq_nil_iff]
        intro entry hentry
        have hne : entry.1 ≠ key := fun heq => h.1 (List.mem_map.mpr ⟨entry, hentry, heq⟩)
        rw [if_neg hne]
      rw [hothers, List.lookup_cons_self]
      simp
    · have hne : (name == key) = false := beq_false_of_ne fun heq => hname heq.symm
      rw [if_neg hname, List.nil_append, ih h.2, List.lookup_cons, hne]

end FilterQuery
