import FilterQuery.Proofs.Filter.Faults
import FilterQuery.Proofs.Lookup
import FilterQuery.Relational.Query
import FilterQuery.Search.Query

/-!
# Requests from parameters

Both compilers read a request in the same four stages: the texts of its two parameters are read as
documents, and then the documents as filter and hints. The first stage that fails gives the error;
compiling never fails. Of a source of parameters only the two texts count, so it makes no difference
which others it has and how it keeps them.
-/

namespace FilterQuery

open Sql (Select)

/-- The text of a parameter. A missing one counts as the empty document. -/
def ParamSource.text {σ : Type} [ParamSource σ] (source : σ) (name : String) : String :=
  (get? source name).getD "{}"

theorem Document.read_braces : read "{}" = .ok [] := by cbv

theorem ParamNames.document_eq {σ : Type} [ParamSource σ] (source : σ) (name : String) :
    document source name =
      (Document.read (ParamSource.text source name)).mapError (.malformed (some name)) := by
  rw [document, ParamSource.text]
  cases ParamSource.get? source name with
  | some text => rfl
  | none => rw [Option.getD_none, Document.read_braces]; rfl

namespace Request

/-- The stages of reading a request, in the order of `all`. -/
inductive Stage where
  | filterText
  | hintText
  | filter
  | hints
deriving DecidableEq

namespace Stage

def all : List Stage :=
  [.filterText, .hintText, .filter, .hints]

/-- What is wrong with a text that is to be a document, as the value of a parameter. -/
def textError? (name text : String) : Option Error :=
  match Document.read text with
  | .ok _ => none
  | .error fault => some (.malformed (some name) fault)

/-- What is wrong with the document in a text. Nothing is if there is no document. -/
def documentError? {α : Type} (parse : Document → Traced α) (text : String) : Option Error :=
  match Document.read text with
  | .ok document => (parse document).error?
  | .error _ => none

/-- The error of a stage by itself, whatever comes of the others. -/
def error? {σ : Type} [ParamSource σ] (config : Config) (source : σ) : Stage → Option Error
  | .filterText => textError? config.queryParam (ParamSource.text source config.queryParam)
  | .hintText => textError? config.hintParam (ParamSource.text source config.hintParam)
  | .filter => documentError? Filter.ofDocument (ParamSource.text source config.queryParam)
  | .hints => documentError? Hints.ofDocument (ParamSource.text source config.hintParam)

end Stage

theorem error?_ofDocuments (query hint : Document) :
    (ofDocuments query hint).error? =
      (Filter.ofDocument query).error?.or (Hints.ofDocument hint).error? := by
  apply Traced.error?_bind
  intro filter
  rw [Traced.error?_bind fun hints => Traced.error?_pure (Request.mk filter hints), Option.or_none]

variable {σ τ : Type} [ParamSource σ] [ParamSource τ]

/-- A request is refused with the error of the first stage that has one. -/
theorem error?_ofParams (config : Config) (source : σ) :
    (ofParams config source).error? = Stage.all.findSome? (Stage.error? config source) := by
  simp only [ofParams, ParamNames.decode, ParamNames.document_eq, Stage.all, Stage.error?,
    Stage.textError?, Stage.documentError?, Config.paramNames, List.findSome?_cons,
    List.findSome?_nil]
  cases Document.read (ParamSource.text source config.queryParam) with
  | error fault => rfl
  | ok query =>
    cases Document.read (ParamSource.text source config.hintParam) with
    | error fault => rfl
    | ok hint =>
      refine (error?_ofDocuments query hint).trans ?_
      dsimp only
      cases (Filter.ofDocument query).error? with
      | some e => rfl
      | none => cases (Hints.ofDocument hint).error? <;> rfl

theorem error?_search_ofParams (config : Config) (source : σ) :
    (Search.ofParams config source).error? = (ofParams config source).error? := by
  have hcompile (request : Request) : (Search.compile config request).error? = none := rfl
  rw [Search.ofParams, Traced.error?_bind hcompile, Option.or_none]

theorem error?_relational_ofParams (template : Select) (config : Config) (source : σ) :
    (Relational.ofParams template config source).error? = (ofParams config source).error? := by
  have hcompile (request : Request) : (Relational.compile template config request).error? = none :=
    rfl
  rw [Relational.ofParams, Traced.error?_bind hcompile, Option.or_none]

/-- Both compilers succeed, or both fail with the error of the first stage that fails. -/
theorem outcomes_ofParams (config : Config) (template : Select) (source : σ) :
    (∃ query s, (Search.ofParams config source).outcome = .ok query ∧
      (Relational.ofParams template config source).outcome = .ok s ∧
      Stage.all.findSome? (Stage.error? config source) = none) ∨
    ∃ e, (Search.ofParams config source).outcome = .error e ∧
      (Relational.ofParams template config source).outcome = .error e ∧
      Stage.all.findSome? (Stage.error? config source) = some e := by
  have hsearch := error?_search_ofParams config source
  have hrelational := error?_relational_ofParams template config source
  rw [error?_ofParams] at hsearch hrelational
  cases hfirst : Stage.all.findSome? (Stage.error? config source) with
  | none =>
    rw [hfirst] at hsearch hrelational
    obtain ⟨query, hquery⟩ := Traced.error?_eq_none_iff.mp hsearch
    obtain ⟨s, hs⟩ := Traced.error?_eq_none_iff.mp hrelational
    exact .inl ⟨query, s, hquery, hs, rfl⟩
  | some e =>
    rw [hfirst] at hsearch hrelational
    exact .inr ⟨e, Traced.error?_eq_some_iff.mp hsearch, Traced.error?_eq_some_iff.mp hrelational,
      rfl⟩

theorem Stage.message_of_textError? {name text : String} {e : Error}
    (h : textError? name text = some e) : ∃ fault, Document.read text = .error fault ∧
      e.message = "Malformed input: parameter '" ++ name ++ "': " ++ fault.message := by
  rw [textError?] at h
  split at h
  · cases h
  · next fault hread =>
    cases h
    exact ⟨fault, hread, rfl⟩

theorem decode_congr {config : Config} {source : σ} {other : τ}
    (hquery : ParamSource.text source config.queryParam = ParamSource.text other config.queryParam)
    (hhint : ParamSource.text source config.hintParam = ParamSource.text other config.hintParam) :
    config.paramNames.decode source = config.paramNames.decode other := by
  simp only [ParamNames.decode, ParamNames.document_eq, Config.paramNames, hquery, hhint]

/-- Both compilers answer alike for two sources. -/
def SameQueries (config : Config) (template : Select) (source : σ) (other : τ) : Prop :=
  Search.ofParams config source = Search.ofParams config other ∧
    Relational.ofParams template config source = Relational.ofParams template config other

theorem sameQueries_of_text_eq {config : Config} (template : Select) {source : σ} {other : τ}
    (hquery : ParamSource.text source config.queryParam = ParamSource.text other config.queryParam)
    (hhint : ParamSource.text source config.hintParam = ParamSource.text other config.hintParam) :
    SameQueries config template source other := by
  have hdecode := decode_congr hquery hhint
  rw [SameQueries, Search.ofParams, Search.ofParams, Relational.ofParams, Relational.ofParams,
    ofParams, ofParams, hdecode]
  exact ⟨rfl, rfl⟩

end Request

namespace ParamSource

/-- The source has these parameters, with these values, and no others. -/
def Holds {σ : Type} [ParamSource σ] (source : σ) (pairs : List (String × String)) : Prop :=
  ∀ name value, get? source name = some value ↔ (name, value) ∈ pairs

theorem Holds.perm {σ : Type} [ParamSource σ] {source : σ} {pairs pairs' : List (String × String)}
    (h : Holds source pairs) (hperm : pairs.Perm pairs') : Holds source pairs' := by
  intro name value
  rw [h name value, hperm.mem_iff]

theorem Holds.text_eq {σ τ : Type} [ParamSource σ] [ParamSource τ] {source : σ} {other : τ}
    {pairs : List (String × String)} (h : Holds source pairs) (h' : Holds other pairs)
    (name : String) : text source name = text other name := by
  have hget : get? source name = get? other name :=
    Option.ext fun value => (h name value).trans (h' name value).symm
  rw [text, text, hget]

theorem holds_hashMap (map : Std.HashMap String String) : Holds map map.toList :=
  fun _ _ => Std.HashMap.mem_toList_iff_getElem?_eq_some.symm

theorem holds_treeMap (map : Std.TreeMap String String) : Holds map map.toList :=
  fun _ _ => Std.TreeMap.mem_toList_iff_getElem?_eq_some.symm

theorem holds_list {pairs : List (String × String)} (h : (pairs.map Prod.fst).Nodup) :
    Holds pairs pairs := by
  intro name value
  exact lookup_eq_some_iff_mem h

end ParamSource

/-- The parameter of this name is one of the two that are decoded. -/
def Config.reads (config : Config) (name : String) : Bool :=
  name = config.queryParam ∨ name = config.hintParam

theorem Config.reads_queryParam (config : Config) : config.reads config.queryParam := by
  simp [reads]

theorem Config.reads_hintParam (config : Config) : config.reads config.hintParam := by
  simp [reads]

namespace Request

/-- For a list of parameters only the entries of the two names count, in their order. -/
theorem sameQueries_of_filter_eq {config : Config} (template : Select)
    {pairs others : List (String × String)}
    (h : pairs.filter (fun pair => config.reads pair.1) =
      others.filter (fun pair => config.reads pair.1)) :
    SameQueries config template pairs others := by
  have htext (name : String) (hname : config.reads name) :
      ParamSource.text pairs name = ParamSource.text others name := by
    have hlookup : pairs.lookup name = others.lookup name := by
      rw [← lookup_filter config.reads hname pairs, ← lookup_filter config.reads hname others, h]
    rw [ParamSource.text, ParamSource.text]
    exact congrArg (Option.getD · "{}") hlookup
  exact sameQueries_of_text_eq template (htext _ config.reads_queryParam)
    (htext _ config.reads_hintParam)

theorem sameQueries_of_holds {σ τ : Type} [ParamSource σ] [ParamSource τ] (config : Config)
    (template : Select) {source : σ} {other : τ} {pairs : List (String × String)}
    (h : ParamSource.Holds source pairs) (h' : ParamSource.Holds other pairs) :
    SameQueries config template source other :=
  sameQueries_of_text_eq template (h.text_eq h' config.queryParam) (h.text_eq h' config.hintParam)

/-- Both compilers succeed, or both fail with the error of the first stage that fails. A text that
is no document is reported under the name of its parameter. Other parameters make no difference, nor
does the kind of source. -/
theorem ofParams_agree (config : Config) (template : Select) :
    (∀ (σ : Type) [ParamSource σ] (source : σ),
      (∃ query s, (Search.ofParams config source).outcome = .ok query ∧
        (Relational.ofParams template config source).outcome = .ok s ∧
        Stage.all.findSome? (Stage.error? config source) = none) ∨
      ∃ e, (Search.ofParams config source).outcome = .error e ∧
        (Relational.ofParams template config source).outcome = .error e ∧
        Stage.all.findSome? (Stage.error? config source) = some e) ∧
    (∀ name text e, Stage.textError? name text = some e → ∃ fault,
      Document.read text = .error fault ∧
        e.message = "Malformed input: parameter '" ++ name ++ "': " ++ fault.message) ∧
    (∀ (σ τ : Type) [ParamSource σ] [ParamSource τ] (source : σ) (other : τ),
      ParamSource.text source config.queryParam = ParamSource.text other config.queryParam →
      ParamSource.text source config.hintParam = ParamSource.text other config.hintParam →
      SameQueries config template source other) ∧
    (∀ pairs others : List (String × String),
      pairs.filter (fun pair => config.reads pair.1) =
        others.filter (fun pair => config.reads pair.1) →
      SameQueries config template pairs others) ∧
    ∀ pairs : List (String × String), (pairs.map Prod.fst).Nodup →
      (∀ others : List (String × String), others.Perm pairs →
        SameQueries config template others pairs) ∧
      (∀ map : Std.HashMap String String, map.toList.Perm pairs →
        SameQueries config template map pairs) ∧
      ∀ map : Std.TreeMap String String, map.toList.Perm pairs →
        SameQueries config template map pairs := by
  refine ⟨fun σ _ source => outcomes_ofParams config template source,
    fun name text e he => Stage.message_of_textError? he,
    fun σ τ _ _ source other hquery hhint => sameQueries_of_text_eq template hquery hhint,
    fun pairs others hpairs => sameQueries_of_filter_eq template hpairs, fun pairs hnames => ?_⟩
  have hpairs := ParamSource.holds_list hnames
  refine ⟨fun others hperm => ?_, fun map hperm => ?_, fun map hperm => ?_⟩
  · have hothers : (others.map Prod.fst).Nodup := (hperm.map Prod.fst).nodup_iff.mpr hnames
    have hheld := (ParamSource.holds_list hothers).perm hperm
    exact sameQueries_of_holds config template hheld hpairs
  · have hheld := (ParamSource.holds_hashMap map).perm hperm
    exact sameQueries_of_holds config template hheld hpairs
  · have hheld := (ParamSource.holds_treeMap map).perm hperm
    exact sameQueries_of_holds config template hheld hpairs

/-- The hint document is no object, and the filter would be refused if it were parsed. -/
def crossedPairs : List (String × String) :=
  [("h", "[]"), ("q", "\x7b\"a\":\x7b\"$in\":null\x7d\x7d")]

def crossedMap : Std.HashMap String String :=
  crossedPairs.foldl (fun map pair => map.insert pair.1 pair.2) ∅

def crossedTree : Std.TreeMap String String :=
  crossedPairs.foldl (fun map pair => map.insert pair.1 pair.2) ∅

theorem toList_crossedMap : crossedMap.toList.Perm crossedPairs := by
  have hhint : ((∅ : Std.HashMap String String).insert "h" "[]").toList.Perm [("h", "[]")] := by
    simpa using Std.HashMap.toList_insert_perm (m := (∅ : Std.HashMap String String))
  refine Std.HashMap.toList_insert_perm.trans ?_
  refine ((hhint.filter _).cons _).trans ?_
  exact List.Perm.swap _ _ []

def crossedFault : Error :=
  .malformed (some "h") (.notObject .array)

theorem textError?_crossedFault : Stage.textError? "h" "[]" = some crossedFault := by cbv

theorem findSome?_crossedPairs :
    Stage.all.findSome? (Stage.error? .default crossedPairs) = some crossedFault := by
  have hraw : Json.Raw.read? "\x7b\"a\":\x7b\"$in\":null\x7d\x7d" =
      some (.object [(some "a", .object [(some "$in", .null)])]) := by cbv
  have hquery : Stage.textError? "q" "\x7b\"a\":\x7b\"$in\":null\x7d\x7d" = none := by
    rw [Stage.textError?, Document.read, Json.Value.read?, hraw]
    rfl
  rw [List.findSome?_eq_some_iff]
  refine ⟨[.filterText], .hintText, [.filter, .hints], rfl, textError?_crossedFault,
    fun stage hstage => ?_⟩
  rw [List.mem_singleton.mp hstage]
  exact hquery

theorem ofParams_agree_crossed :
    let template := Select.ofTable ⟨none, "t"⟩
    (Search.ofParams .default crossedPairs).outcome = .error crossedFault ∧
      (Relational.ofParams template .default crossedPairs).outcome = .error crossedFault ∧
      (∃ cause, Document.read "[]" = .error cause ∧
        crossedFault.message = "Malformed input: parameter '" ++ "h" ++ "': " ++ cause.message) ∧
      SameQueries .default template crossedTree crossedMap ∧
      SameQueries .default template (("x", "1") :: crossedPairs) crossedPairs ∧
      SameQueries .default template crossedPairs.reverse crossedPairs ∧
      SameQueries .default template crossedMap crossedPairs ∧
      SameQueries .default template crossedTree crossedPairs := by
  intro template
  obtain ⟨houtcomes, hmessage, htext, hfilter, hkinds⟩ := ofParams_agree .default template
  have hrefused : (Search.ofParams .default crossedPairs).outcome = .error crossedFault ∧
      (Relational.ofParams template .default crossedPairs).outcome = .error crossedFault := by
    rcases houtcomes _ crossedPairs with ⟨_, _, _, _, hnone⟩ | ⟨e, hsearch, hrelational, he⟩
    · cases hnone.symm.trans findSome?_crossedPairs
    · obtain rfl := Option.some.inj (he.symm.trans findSome?_crossedPairs)
      exact ⟨hsearch, hrelational⟩
  have htree : crossedTree.toList.Perm crossedPairs := by decide
  have hvalues := ((ParamSource.holds_treeMap crossedTree).perm htree).text_eq
    ((ParamSource.holds_hashMap crossedMap).perm toList_crossedMap)
  obtain ⟨hslice, hhash, hordered⟩ := hkinds crossedPairs (by decide)
  exact ⟨hrefused.1, hrefused.2, hmessage "h" "[]" _ textError?_crossedFault,
    htext _ _ crossedTree crossedMap (hvalues _) (hvalues _), hfilter _ _ (by decide),
    hslice _ (List.reverse_perm crossedPairs), hhash crossedMap toList_crossedMap,
    hordered crossedTree htree⟩

end Request

end FilterQuery
