import FilterQuery.Config.Encoding

/-!
# Configurations that can be reached

A configuration starts as the default or is read from a text, and then changes by calls of setters.
A call that fails leaves the configuration that is in use. The names of a configuration that is
reached in this way can be told apart, and neither is empty. That is the only restriction: every
configuration of such names is reached from the default by calls that all succeed. A setter compares
its name with the other name in use, so on the way the hint parameter takes a name that occurs
nowhere else.
-/

namespace FilterQuery.Config

open Json (Raw)

structure Valid (c : Config) : Prop where
  query_nonempty : c.queryParam ≠ ""
  hint_nonempty : c.hintParam ≠ ""
  names_ne : c.queryParam ≠ c.hintParam

instance (c : Config) : Decidable c.Valid :=
  decidable_of_iff (c.queryParam ≠ "" ∧ c.hintParam ≠ "" ∧ c.queryParam ≠ c.hintParam)
    ⟨fun h => ⟨h.1, h.2.1, h.2.2⟩, fun h => ⟨h.1, h.2, h.3⟩⟩

theorem check_of_valid {c : Config} (h : c.Valid) : c.check = .ok c := by
  rw [check, if_neg h.query_nonempty, if_neg h.hint_nonempty, if_neg h.names_ne]

theorem check_of_not_valid {c : Config} (h : ¬ c.Valid) : ∃ e, c.check = .error e := by
  rw [check]
  split
  · exact ⟨_, rfl⟩
  · next hquery =>
    split
    · exact ⟨_, rfl⟩
    · next hhint =>
      split
      · exact ⟨_, rfl⟩
      · next hnames => exact absurd ⟨hquery, hhint, hnames⟩ h

theorem check_eq_ok_iff {c d : Config} : c.check = .ok d ↔ c.Valid ∧ c = d := by
  by_cases h : c.Valid
  · rw [check_of_valid h, Except.ok.injEq, and_iff_right h]
  · obtain ⟨e, herror⟩ := check_of_not_valid h
    rw [herror]
    exact iff_of_false nofun fun hd => h hd.1

theorem check_fails_iff {c : Config} : (∃ e, c.check = .error e) ↔ ¬ c.Valid := by
  constructor
  · rintro ⟨e, herror⟩ hvalid
    rw [check_of_valid hvalid] at herror
    cases herror
  · exact check_of_not_valid

/-- Where a configuration in use comes from: the default, a text that is read with its errors, or
one that is read like any other JSON value. -/
inductive Initial : Config → Prop where
  | default : Initial .default
  | ofText {text : String} {c : Config} (h : ofText text = .ok c) : Initial c
  | ofRaw {text : String} {c : Config} (h : Raw.read? text >>= ofRaw? Json.maxDepth = some c) :
    Initial c

theorem Initial.valid {c : Config} (h : Initial c) : c.Valid := by
  cases h with
  | default => exact ⟨by decide, by decide, by decide⟩
  | ofText h =>
    rw [Config.ofText] at h
    split at h
    · next read hread =>
      obtain ⟨hvalid, rfl⟩ := check_eq_ok_iff.mp h
      exact hvalid
    · cases h
  | ofRaw h =>
    obtain ⟨raw, -, hraw⟩ := Option.bind_eq_some_iff.mp h
    obtain ⟨read, -, hcheck⟩ := Option.bind_eq_some_iff.mp hraw
    cases hread : read.check with
    | error e =>
      rw [hread] at hcheck
      cases hcheck
    | ok d =>
      rw [hread] at hcheck
      cases hcheck
      obtain ⟨hvalid, rfl⟩ := check_eq_ok_iff.mp hread
      exact hvalid

inductive Setter where
  | queryParam (name : String)
  | hintParam (name : String)
  | searchBounds (bounds : Bounds)
  | relationalBounds (bounds : Bounds)

namespace Setter

def call (c : Config) : Setter → Except ConfigError Config
  | .queryParam name => c.withQueryParam name
  | .hintParam name => c.withHintParam name
  | .searchBounds bounds => .ok (c.withSearchBounds bounds)
  | .relationalBounds bounds => .ok (c.withRelationalBounds bounds)

/-- The configuration with one field changed, whether or not its names can be used. -/
def change (c : Config) : Setter → Config
  | .queryParam name => ⟨name, c.hintParam, c.searchBounds, c.relationalBounds⟩
  | .hintParam name => ⟨c.queryParam, name, c.searchBounds, c.relationalBounds⟩
  | .searchBounds bounds => ⟨c.queryParam, c.hintParam, bounds, c.relationalBounds⟩
  | .relationalBounds bounds => ⟨c.queryParam, c.hintParam, c.searchBounds, bounds⟩

/-- The configuration in use after a call, which may have failed. -/
def after (c : Config) (setter : Setter) : Config :=
  match setter.call c with
  | .ok d => d
  | .error _ => c

theorem call_eq_check {c : Config} (h : c.Valid) (setter : Setter) :
    setter.call c = (setter.change c).check := by
  cases setter with
  | queryParam name => rfl
  | hintParam name => rfl
  | searchBounds bounds =>
    exact (check_of_valid (c := c.withSearchBounds bounds) ⟨h.1, h.2, h.3⟩).symm
  | relationalBounds bounds =>
    exact (check_of_valid (c := c.withRelationalBounds bounds) ⟨h.1, h.2, h.3⟩).symm

theorem call_eq_ok_iff {c d : Config} (h : c.Valid) (setter : Setter) :
    setter.call c = .ok d ↔ (setter.change c).Valid ∧ setter.change c = d := by
  rw [call_eq_check h, check_eq_ok_iff]

theorem call_of_valid {c : Config} (h : c.Valid) (setter : Setter)
    (hchange : (setter.change c).Valid) : setter.call c = .ok (setter.change c) :=
  (call_eq_ok_iff h setter).mpr ⟨hchange, rfl⟩

theorem call_fails_iff {c : Config} (h : c.Valid) (setter : Setter) :
    (∃ e, setter.call c = .error e) ↔ ¬ (setter.change c).Valid := by
  rw [call_eq_check h, check_fails_iff]

theorem valid_after {c : Config} (h : c.Valid) (setter : Setter) : (after c setter).Valid := by
  rw [after]
  split
  · next d hd =>
    obtain ⟨hvalid, rfl⟩ := (call_eq_ok_iff h setter).mp hd
    exact hvalid
  · exact h

end Setter

/-- The configuration in use after a run of calls, some of which may have failed. -/
def run (c : Config) (setters : List Setter) : Config :=
  setters.foldl Setter.after c

theorem valid_run {c : Config} (h : c.Valid) (setters : List Setter) : (c.run setters).Valid := by
  induction setters generalizing c with
  | nil => exact h
  | cons setter setters ih => exact ih (Setter.valid_after h setter)

def Reached (c : Config) : Prop :=
  ∃ start setters, Initial start ∧ run start setters = c

theorem Reached.valid {c : Config} (h : Reached c) : c.Valid := by
  obtain ⟨start, setters, hstart, rfl⟩ := h
  exact valid_run hstart.valid setters

/-- The configuration that a run of calls leads to if all of them succeed. -/
def runAll (c : Config) (setters : List Setter) : Except ConfigError Config :=
  setters.foldlM Setter.call c

theorem runAll_cons {c d : Config} {setter : Setter} (h : setter.call c = .ok d)
    (setters : List Setter) : c.runAll (setter :: setters) = d.runAll setters := by
  rw [runAll, List.foldlM_cons, h]
  rfl

theorem run_of_runAll {c d : Config} {setters : List Setter} (h : c.runAll setters = .ok d) :
    c.run setters = d := by
  induction setters generalizing c with
  | nil => exact Except.ok.inj h
  | cons setter setters ih =>
    cases hcall : setter.call c with
    | error e =>
      rw [runAll, List.foldlM_cons, hcall] at h
      cases h
    | ok next =>
      rw [runAll_cons hcall] at h
      have hafter : setter.after c = next := by rw [Setter.after, hcall]
      rw [run, List.foldl_cons, hafter]
      exact ih h

/-- A name for the hint parameter that is neither the default nor the query parameter to come. -/
def detour (c : Config) : String :=
  c.queryParam ++ default.queryParam

theorem detour_ne {c : Config} (h : c.Valid) :
    c.detour ≠ "" ∧ default.queryParam ≠ c.detour ∧ c.queryParam ≠ c.detour := by
  refine ⟨fun hempty => ?_, fun hdefault => ?_, fun hquery => ?_⟩
  · exact h.query_nonempty (String.append_eq_empty_iff.mp hempty).1
  · have hlength := congrArg String.length hdefault
    simp [detour] at hlength
    exact h.query_nonempty hlength
  · have hlength := congrArg String.length hquery
    simp [detour, default] at hlength

/-- The calls that lead from the default to a configuration. -/
def route (c : Config) : List Setter :=
  [.hintParam c.detour, .queryParam c.queryParam, .hintParam c.hintParam,
    .searchBounds c.searchBounds, .relationalBounds c.relationalBounds]

theorem runAll_route {c : Config} (h : c.Valid) : default.runAll c.route = .ok c := by
  obtain ⟨hempty, hdefault, hquery⟩ := detour_ne h
  -- whichever name is set, the other one in use is different from it
  have hparked : Valid ⟨default.queryParam, c.detour, .exclusive, .inclusive⟩ :=
    ⟨Initial.default.valid.query_nonempty, hempty, hdefault⟩
  have hnamed : Valid ⟨c.queryParam, c.detour, .exclusive, .inclusive⟩ :=
    ⟨h.query_nonempty, hempty, hquery⟩
  have hboth : Valid ⟨c.queryParam, c.hintParam, .exclusive, .inclusive⟩ :=
    ⟨h.query_nonempty, h.hint_nonempty, h.names_ne⟩
  have hpark := Setter.call_of_valid Initial.default.valid (.hintParam c.detour) hparked
  have hname := Setter.call_of_valid hparked (.queryParam c.queryParam) hnamed
  have hhint := Setter.call_of_valid hnamed (.hintParam c.hintParam) hboth
  rw [route, runAll_cons hpark]
  exact (runAll_cons hname _).trans (runAll_cons hhint _)

/-- Every configuration that is reached has names that can be used. A call changes its own field or
fails, and it fails exactly if the names that it would leave cannot be used. Conversely all names
that can be used are reached from the default, with any bounds. -/
theorem valid_of_reached_and_reached_of_valid :
    (∀ c, Reached c → c.Valid ∧ ∀ setter : Setter,
      (∀ d, setter.call c = .ok d → d = setter.change c) ∧
      ((∃ e, setter.call c = .error e) ↔ ¬ (setter.change c).Valid)) ∧
    ∀ c : Config, c.Valid →
      ∃ setters, default.runAll setters = .ok c ∧ default.run setters = c := by
  constructor
  · intro c hreached
    have hvalid := hreached.valid
    refine ⟨hvalid, fun setter => ⟨fun d hd => ?_, Setter.call_fails_iff hvalid setter⟩⟩
    exact ((Setter.call_eq_ok_iff hvalid setter).mp hd).2.symm
  · intro c hc
    have hroute := runAll_route hc
    exact ⟨c.route, hroute, run_of_runAll hroute⟩

/-- The default names swapped: read from a text they survive two calls that fail, and from the
default they are reached although neither can be set first. -/
theorem valid_of_reached_and_reached_of_valid_swapped :
    let swapped : Config := ⟨"h", "q", .exclusive, .inclusive⟩
    Reached swapped ∧ swapped.Valid ∧
      (∃ e, (Setter.hintParam "h").call swapped = .error e) ∧
      (∃ c, (Setter.hintParam "o").call swapped = .ok c ∧
        c = ⟨"h", "o", .exclusive, .inclusive⟩) ∧
      ∃ setters, default.runAll setters = .ok swapped := by
  intro swapped
  have hraw : Raw.read? "\x7b\"query_param\":\"h\",\"hint_param\":\"q\"\x7d" = some (.object
      [(some "query_param", .string (some "h")), (some "hint_param", .string (some "q"))]) := by
    cbv
  have htext : ofText "\x7b\"query_param\":\"h\",\"hint_param\":\"q\"\x7d" = .ok swapped := by
    rw [ofText, hraw]
    rfl
  have hreached : Reached swapped :=
    ⟨swapped, [.queryParam "q", .hintParam ""], .ofText htext, by decide⟩
  obtain ⟨hforward, hbackward⟩ := valid_of_reached_and_reached_of_valid
  obtain ⟨hvalid, hcall⟩ := hforward swapped hreached
  obtain ⟨setters, hsetters, -⟩ := hbackward swapped hvalid
  have hother := Setter.call_of_valid hvalid (.hintParam "o") (by decide)
  exact ⟨hreached, hvalid, (hcall (.hintParam "h")).2.mpr (by decide),
    ⟨_, hother, (hcall (.hintParam "o")).1 _ hother⟩, setters, hsetters⟩

end FilterQuery.Config
