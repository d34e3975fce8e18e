import CampusQuery.Proofs.Plan.Structure
import CampusQuery.Proofs.Plan.Typing

/-! What the check of a query asks beyond its reading. Main statement: a query that can be read as a plan
passes the check just if its objects have no names but those of the grammar and neither its COLUMNS nor the
keys of its ORDER are empty. -/

namespace CampusQuery

namespace Tree

/-- The names in an object. -/
def names (t : Tree) : List String := Entries.keys (t.object?.getD [])

/-- No names but those of the grammar where it lists them, and columns and keys where there have to be
some. -/
structure WithoutSurplus (query : Tree) : Prop where
  root : query.names ⊆ ["WHERE", "OPTIONS", "TRANSFORMATIONS"]
  options : ∀ t, query.get? "OPTIONS" = some t → t.names ⊆ ["COLUMNS", "ORDER"]
  order : ∀ t, query.order? = some t → t.names ⊆ ["dir", "keys"]
  transformations : ∀ t, query.get? "TRANSFORMATIONS" = some t → t.names ⊆ ["GROUP", "APPLY"]
  columns : query.columns? ≠ some (.array [])
  keys : ∀ t, query.order? = some t → t.get? "keys" ≠ some (.array [])

theorem names_object_subset_iff {entries : Entries Tree} {keys : List String} :
    (object entries).names ⊆ keys ↔ ∀ e ∈ entries, e.1 ∈ keys := by
  rw [List.subset_def]
  exact List.forall_mem_map

end Tree

theorem Filter.isWhere_of_ofWhere {scope : Scope} {t : Tree} {f : Option Filter}
    (h : ofWhere scope t = .ok f) : Grammar.IsWhere t := by
  rcases f with _ | f
  · rw [ofWhere_eq_none_iff.1 h]
    exact .empty
  · obtain ⟨hne, hf⟩ := ofWhere_eq_some_iff.1 h
    match t with
    | .object [] => exact absurd rfl hne
    | .object [(key, body)] =>
      rw [ofTree_single] at hf
      rcases hkey : Operator.ofKey? key with _ | operator
      · simp [hkey] at hf
      · exact .operator body (Operator.mem_of_ofKey?_eq_some hkey)

namespace Grammar

variable {scope : Scope} {columns : List Column}

theorem isApplyEntry_toTree {a : Application} (h : a.Fits scope) : IsApplyEntry a.toTree := by
  obtain ⟨hne, hunderscore⟩ := isApplyName_iff.1 h.name
  have hreduction : a.reduction.key ∈ ["MAX", "MIN", "AVG", "SUM", "COUNT"] := by
    cases a.reduction <;> decide
  exact .mk _ hne hunderscore hreduction

/-- Of transformations that can be read, the check sees the names only. -/
theorem check_transformations_iff_names {entries : Entries Tree} {t : Transformation}
    (hentries : entries.keys.Nodup) (h : Transformation.ofTree scope columns entries = .ok t) :
    check "TRANSFORMATIONS" (.object entries) = .ok () ↔ (Tree.object entries).names ⊆ ["GROUP", "APPLY"] := by
  obtain ⟨hgroup, happly, hfits, -⟩ := Transformation.ofTree_eq_ok_iff.1 h
  have hne : t.group.map (fun a => Tree.text a.key) ≠ [] := mt List.map_eq_nil_iff.1 hfits.group_ne_nil
  have hitems : ∀ item ∈ t.apply.map Application.toTree, IsApplyEntry item := by
    intro item hitem
    obtain ⟨a, ha, rfl⟩ := List.mem_map.1 hitem
    exact isApplyEntry_toTree (hfits.apply a ha)
  rw [check_transformations_iff, Tree.names_object_subset_iff]
  constructor
  · rintro ⟨entries', heq, -, -, hnames, -⟩
    exact Tree.object.inj heq ▸ hnames
  · intro hnames
    exact ⟨entries, rfl, ⟨_, hgroup, hne⟩, ⟨_, happly, hitems⟩, hnames, hentries⟩

/-- An order that can be read has a direction and keys, but there may be none. -/
theorem check_order_iff_names {t : Tree} {o : Order} (ht : t.WellFormed) (h : Order.shape t = .ok o) :
    check "ORDER" t = .ok () ↔ t.names ⊆ ["dir", "keys"] ∧ t.get? "keys" ≠ some (.array []) := by
  rw [check_order_iff]
  rcases Order.shape_eq_ok_iff.1 h with ⟨key, rfl, -⟩ | ⟨entries, dir, rfl, hdir, -, hkeys⟩
  · exact ⟨fun _ => ⟨List.nil_subset _, nofun⟩, fun _ => .inl ⟨key, rfl⟩⟩
  · have hget : (Tree.object entries).get? "keys" = some (.array (o.keys.map .text)) := hkeys
    rw [Tree.names_object_subset_iff, hget]
    constructor
    · rintro (⟨key, hkey⟩ | ⟨entries', heq, -, ⟨items, hitems, hne⟩, hnames, -⟩)
      · cases hkey
      · obtain rfl := Tree.object.inj heq
        rw [← hkeys, hitems]
        exact ⟨hnames, fun hnil => hne (Tree.array.inj (Option.some.inj hnil))⟩
    · rintro ⟨hnames, hne⟩
      exact .inr ⟨entries, rfl, ⟨dir, hdir⟩, ⟨_, hkeys, fun hnil => hne (by rw [hnil])⟩, hnames, ht.nodup_keys⟩

/-- Names from a list of two are two at most. -/
theorem length_le_two {entries : Entries Tree} (hentries : entries.keys.Nodup) {k l : String}
    (h : ∀ e ∈ entries, e.1 ∈ [k, l]) : entries.length ≤ 2 := by
  have hsubset : (Tree.object entries).names ⊆ [k, l] := Tree.names_object_subset_iff.2 h
  have hlength := (List.subperm_of_subset hentries hsubset).length_le
  rwa [Entries.length_keys] at hlength

theorem check_options_iff_names {kinds : Entries Kind} {transformations : Option (Entries Tree)}
    {entries : Entries Tree} {o : Options} (hentries : (Tree.object entries).WellFormed)
    (h : Options.ofTree kinds transformations entries = .ok o) :
    check "OPTIONS" (.object entries) = .ok () ↔
      (Tree.object entries).names ⊆ ["COLUMNS", "ORDER"] ∧ entries.lookup "COLUMNS" ≠ some (.array []) ∧
        ∀ t, entries.lookup "ORDER" = some t →
          t.names ⊆ ["dir", "keys"] ∧ t.get? "keys" ≠ some (.array []) := by
  obtain ⟨hitems, -, -, -, horder⟩ := Options.ofTree_eq_ok_iff.1 h
  have hcheckOrder : ∀ t, entries.lookup "ORDER" = some t →
      (check "ORDER" t = .ok () ↔ t.names ⊆ ["dir", "keys"] ∧ t.get? "keys" ≠ some (.array [])) := by
    intro t ht
    rw [ht] at horder
    rcases optionMapM_eq_ok_iff.1 horder with ⟨hnone, -⟩ | ⟨t', o', hsome, -, hread⟩
    · cases hnone
    · obtain rfl := Option.some.inj hsome
      exact check_order_iff_names (hentries.of_lookup ht) (Order.ofTree_eq_ok_iff.1 hread).1
  rw [check_options_iff, Tree.names_object_subset_iff]
  constructor
  · rintro ⟨entries', heq, -, ⟨t, ht, hcheck⟩, hall, hnames, -⟩
    obtain rfl := Tree.object.inj heq
    obtain ⟨items', rfl, hne⟩ := check_columns_iff.1 hcheck
    refine ⟨hnames, ?_, fun t ht => (hcheckOrder t ht).1 (hall t ht)⟩
    rw [ht]
    exact fun hnil => hne (Tree.array.inj (Option.some.inj hnil))
  · rintro ⟨hnames, hcolumns, hall⟩
    have hne : o.keys.map Tree.text ≠ [] := fun hnil => hcolumns (by rw [hitems, hnil])
    refine ⟨entries, rfl, length_le_two hentries.nodup_keys hnames, ?_, ?_, hnames,
      hentries.nodup_keys⟩
    · exact ⟨_, hitems, check_columns_iff.2 ⟨_, rfl, hne⟩⟩
    · exact fun t ht => (hcheckOrder t ht).2 (hall t ht)

end Grammar

namespace Plan

/-- Whatever else the check asks of a query, its reading asks as well. -/
theorem checkQuery_iff_withoutSurplus {kinds : Entries Kind} {query : Tree} {p : Plan}
    (hquery : query.WellFormed) (h : ofTree kinds query = .ok p) :
    Grammar.checkQuery query = .ok () ↔ query.WithoutSurplus := by
  obtain ⟨root, options, transformations, kind, whereTree, rfl, hoptions, htransformations, ho, -,
    htransformation, hwhere, hfilter⟩ := ofTree_eq_ok_iff.1 h
  have hcheckWhere := Grammar.check_where_iff.2 (Filter.isWhere_of_ofWhere hfilter)
  have hcheckOptions := Grammar.check_options_iff_names (hquery.of_lookup hoptions) ho
  have hcheckTransformations : ∀ t, root.lookup "TRANSFORMATIONS" = some t →
      (Grammar.check "TRANSFORMATIONS" t = .ok () ↔ t.names ⊆ ["GROUP", "APPLY"]) := by
    intro t ht
    rcases optionMapM_eq_ok_iff.1 htransformation with ⟨rfl, -⟩ | ⟨entries, t', rfl, -, hread⟩
    · cases htransformations.symm.trans ht
    · obtain rfl := Option.some.inj (htransformations.symm.trans ht)
      have hentries := (hquery.of_lookup ht).nodup_keys
      exact Grammar.check_transformations_iff_names hentries hread
  have hget : (Tree.object root).get? "OPTIONS" = some (.object options) := hoptions
  have hcolumns : (Tree.object root).columns? = options.lookup "COLUMNS" := by
    rw [Tree.columns?, hget]
    rfl
  have horder : (Tree.object root).order? = options.lookup "ORDER" := by
    rw [Tree.order?, hget]
    rfl
  rw [Grammar.checkQuery_eq_ok_iff]
  constructor
  · rintro ⟨root', heq, -, ⟨t, ht, hcheck⟩, hall, hnames, -⟩
    obtain rfl := Tree.object.inj heq
    obtain rfl := Option.some.inj (hoptions.symm.trans ht)
    obtain ⟨honly, hne, horderNames⟩ := hcheckOptions.1 hcheck
    refine ⟨Tree.names_object_subset_iff.2 hnames, ?_, ?_, ?_, hcolumns ▸ hne, ?_⟩
    · intro t ht
      exact Option.some.inj (hget.symm.trans ht) ▸ honly
    · exact fun t ht => (horderNames t (horder ▸ ht)).1
    · exact fun t ht => (hcheckTransformations t ht).1 (hall t ht)
    · exact fun t ht => (horderNames t (horder ▸ ht)).2
  · rintro ⟨hroot, honly, horderNames, hall, hne, hkeys⟩
    refine ⟨root, rfl, ⟨_, hwhere, hcheckWhere⟩, ⟨_, hoptions, hcheckOptions.2 ?_⟩, ?_,
      Tree.names_object_subset_iff.1 hroot, hquery.nodup_keys⟩
    · exact ⟨honly _ hget, hcolumns ▸ hne, fun t ht => ⟨horderNames t (horder ▸ ht), hkeys t (horder ▸ ht)⟩⟩
    · exact fun t ht => (hcheckTransformations t ht).2 (hall t ht)

/-- The names of all rooms, with further entries in the query's OPTIONS. -/
def roomNames (further : Entries Tree) : Tree :=
  .object [("WHERE", .object []), ("OPTIONS", .object (("COLUMNS", .array [.text "rooms_name"]) :: further))]

def roomNamesPlan : Plan where
  filter := none
  options := { datasetId := "rooms", columns := [.field ⟨"rooms", "name", 3, .text⟩], order := none }
  transformation := none

/-- A limit is read over, but does not pass. -/
theorem checkQuery_roomNames :
    (roomNames [("LIMIT", .text "9")]).WellFormed ∧
      ofTree [("rooms", .rooms)] (roomNames [("LIMIT", .text "9")]) = .ok roomNamesPlan ∧
      Grammar.checkQuery (roomNames [("LIMIT", .text "9")]) ≠ .ok () ∧
      Grammar.checkQuery (roomNames []) = .ok () := by
  have hlimited : (roomNames [("LIMIT", .text "9")]).WellFormed := by simp [roomNames, Entries.keys]
  have hplain : (roomNames []).WellFormed := by simp [roomNames, Entries.keys]
  have hread : ofTree [("rooms", .rooms)] (roomNames [("LIMIT", .text "9")]) = .ok roomNamesPlan := rfl
  refine ⟨hlimited, hread, fun hcheck => ?_, ?_⟩
  · have hwithout := (checkQuery_iff_withoutSurplus hlimited hread).1 hcheck
    have hlimit : "LIMIT" ∈ ["COLUMNS", "ORDER"] := hwithout.options _ rfl (.tail _ (.head _))
    exact absurd hlimit (by decide)
  · have hread : ofTree [("rooms", .rooms)] (roomNames []) = .ok roomNamesPlan := rfl
    have hnone : (roomNames []).order? = none := rfl
    refine (checkQuery_iff_withoutSurplus hplain hread).2 ⟨?_, ?_, ?_, ?_, ?_, ?_⟩
    · simp [roomNames, Tree.names, Tree.object?, Entries.keys]
    · intro t ht
      cases ht
      simp [Tree.names, Tree.object?, Entries.keys]
    · simp [hnone]
    · intro t ht
      cases ht
    · intro hcolumns
      cases hcolumns
    · simp [hnone]

end Plan

end CampusQuery
