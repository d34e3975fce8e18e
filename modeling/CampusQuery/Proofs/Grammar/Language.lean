import CampusQuery.Proofs.Grammar.Equality

/-! The language of queries. Main statement: the trees that pass the check are those of a fixed grammar,
and the order of entries, at whatever depth, has no part in that. -/

namespace CampusQuery.Grammar

/-- At most one operator, with any body. -/
inductive IsWhere : Tree → Prop
  | empty : IsWhere (.object [])
  | operator {key : String} (body : Tree) : key ∈ ["AND", "OR", "LT", "GT", "EQ", "IS", "NOT"] →
    IsWhere (.object [(key, body)])

inductive IsOrder : Tree → Prop
  | lone (key : String) : IsOrder (.text key)
  | directed {entries : Entries Tree} {dir : String} {keys : List Tree} :
    entries.Perm [("dir", .text dir), ("keys", .array keys)] → keys ≠ [] → IsOrder (.object entries)

inductive IsOptions : Tree → Prop
  | unordered {entries : Entries Tree} {columns : List Tree} :
    entries.Perm [("COLUMNS", .array columns)] → columns ≠ [] → IsOptions (.object entries)
  | ordered {entries : Entries Tree} {columns : List Tree} {order : Tree} :
    entries.Perm [("COLUMNS", .array columns), ("ORDER", order)] → columns ≠ [] → IsOrder order →
    IsOptions (.object entries)

inductive IsApplyEntry : Tree → Prop
  | mk {name rule : String} (target : Tree) : name ≠ "" → '_' ∉ name.toList →
    rule ∈ ["MAX", "MIN", "AVG", "SUM", "COUNT"] → IsApplyEntry (.object [(name, .object [(rule, target)])])

inductive IsTransformations : Tree → Prop
  | mk {entries : Entries Tree} {group apply : List Tree} :
    entries.Perm [("GROUP", .array group), ("APPLY", .array apply)] → group ≠ [] →
    (∀ t ∈ apply, IsApplyEntry t) → IsTransformations (.object entries)

/-- The grammar of queries. -/
inductive IsQuery : Tree → Prop
  | ungrouped {entries : Entries Tree} {filter options : Tree} :
    entries.Perm [("WHERE", filter), ("OPTIONS", options)] → IsWhere filter → IsOptions options →
    IsQuery (.object entries)
  | grouped {entries : Entries Tree} {filter options transformations : Tree} :
    entries.Perm [("WHERE", filter), ("OPTIONS", options), ("TRANSFORMATIONS", transformations)] →
    IsWhere filter → IsOptions options → IsTransformations transformations → IsQuery (.object entries)

/-- What stands under a key without a rule is not looked at. -/
theorem check_of_no_rule {key : String} (h : key ∉ rules.map Rule.key) (t : Tree) : check key t = .ok () := by
  have hskip : checkBy (rules ++ []) key t = _ := checkBy_append h t
  rwa [List.append_nil] at hskip

theorem check_where_iff {t : Tree} : check "WHERE" t = .ok () ↔ IsWhere t := by
  refine (check_closed_iff (i := 1) (by decide) rfl rfl).trans ?_
  rw [expand_of_not_shorthand rfl]
  constructor
  · rintro ⟨entries, rfl, -, hlimit, -, -, hkeys, -⟩
    have hlength : entries.length ≤ 1 := hlimit 1 rfl
    cases entries with
    | nil => exact .empty
    | cons e rest =>
      obtain rfl : rest = [] := List.length_eq_zero_iff.1 (Nat.le_zero.1 (Nat.succ_le_succ_iff.1 hlength))
      exact .operator e.2 (hkeys e (List.mem_cons_self ..))
  · intro h
    have hunruled : ∀ key ∈ ["AND", "OR", "LT", "GT", "EQ", "IS", "NOT"], key ∉ rules.map Rule.key := by
      decide
    cases h with
    | empty => exact ⟨[], rfl, nofun, fun _ _ => Nat.zero_le _, nofun, nofun, nofun, List.nodup_nil⟩
    | operator body hkey =>
      refine ⟨_, rfl, nofun, ?_, nofun, fun key hkey t _ => check_of_no_rule (hunruled key hkey) t, ?_,
        List.nodup_singleton _⟩
      · intro limit hlimit
        exact (Option.some.inj hlimit).le
      · intro e he
        rwa [List.mem_singleton.1 he]

theorem check_columns_iff {t : Tree} :
    check "COLUMNS" t = .ok () ↔ ∃ items, t = .array items ∧ items ≠ [] := by
  refine (check_key_iff (i := 3) (by decide) t).trans ((check_array_iff rfl).trans ?_)
  rw [expand_of_not_shorthand rfl]
  simp [rules]

theorem check_group_iff {t : Tree} : check "GROUP" t = .ok () ↔ ∃ items, t = .array items ∧ items ≠ [] := by
  refine (check_key_iff (i := 8) (by decide) t).trans ((check_array_iff rfl).trans ?_)
  rw [expand_of_not_shorthand rfl]
  simp [rules]

theorem isApplyName_iff {name : String} : isApplyName name = true ↔ name ≠ "" ∧ '_' ∉ name.toList := by
  unfold isApplyName
  rw [Bool.and_eq_true, decide_eq_true_eq, decide_eq_true_eq, ← String.toList_inj.ne]
  rfl

theorem check_applyRule_iff {t : Tree} :
    check "APPLY_RULE" t = .ok () ↔
      ∃ rule target, t = .object [(rule, target)] ∧ rule ∈ ["MAX", "MIN", "AVG", "SUM", "COUNT"] := by
  refine (check_closed_iff (i := 11) (by decide) rfl rfl).trans ?_
  rw [expand_of_not_shorthand rfl]
  constructor
  · rintro ⟨entries, rfl, hne, hlimit, -, -, hkeys, -⟩
    have hlength : entries.length = 1 :=
      le_antisymm (hlimit 1 rfl) (List.length_pos_iff.2 (hne rfl))
    obtain ⟨⟨rule, target⟩, rfl⟩ := List.length_eq_one_iff.1 hlength
    exact ⟨rule, target, rfl, hkeys _ (List.mem_singleton_self _)⟩
  · rintro ⟨rule, target, rfl, hrule⟩
    have hunruled : ∀ key ∈ ["MAX", "MIN", "AVG", "SUM", "COUNT"], key ∉ rules.map Rule.key := by decide
    refine ⟨_, rfl, fun _ => List.cons_ne_nil _ _, ?_, nofun,
      fun key hkey t _ => check_of_no_rule (hunruled key hkey) t, ?_, List.nodup_singleton _⟩
    · intro limit hlimit
      exact (Option.some.inj hlimit).le
    · intro e he
      rwa [List.mem_singleton.1 he]

theorem check_applyEntry_iff {t : Tree} : check "APPLY_ENTRY" t = .ok () ↔ IsApplyEntry t := by
  have hnodup := rules_keys_nodup _ (List.getElem_mem (by decide : 10 < rules.length))
  refine (check_key_iff (i := 10) (by decide) t).trans ((check_object_iff rfl).trans ?_)
  rw [expand_of_not_shorthand rfl]
  constructor
  · rintro ⟨entries, rfl, hcheck⟩
    obtain ⟨hne, hlimit, -, -, hothers, -⟩ := (checkEntries_eq_ok_iff hnodup).1 hcheck
    have hlength : entries.length = 1 :=
      le_antisymm (hlimit 1 rfl) (List.length_pos_iff.2 (hne rfl))
    obtain ⟨⟨name, body⟩, rfl⟩ := List.length_eq_one_iff.1 hlength
    obtain ⟨rule, hrule, hname, hbody⟩ := hothers _ (List.mem_singleton_self _) rfl
    obtain rfl : "APPLY_RULE" = rule := Option.some.inj hrule
    obtain ⟨hempty, hunderscore⟩ := isApplyName_iff.1 hname
    obtain ⟨rule, target, hpair, hreduction⟩ := check_applyRule_iff.1 hbody
    obtain rfl : body = _ := hpair
    exact .mk target hempty hunderscore hreduction
  · rintro ⟨target, hempty, hunderscore, hreduction⟩
    refine ⟨_, rfl, (checkEntries_eq_ok_iff hnodup).2
      ⟨fun _ => List.cons_ne_nil _ _, ?_, nofun, nofun, ?_, List.nodup_nil⟩⟩
    · intro limit hlimit
      exact (Option.some.inj hlimit).le
    · intro e he _
      rw [List.mem_singleton.1 he]
      exact ⟨_, rfl, isApplyName_iff.2 ⟨hempty, hunderscore⟩, check_applyRule_iff.2 ⟨_, _, rfl, hreduction⟩⟩

theorem check_apply_iff {t : Tree} :
    check "APPLY" t = .ok () ↔ ∃ items, t = .array items ∧ ∀ item ∈ items, IsApplyEntry item := by
  refine (check_key_iff (i := 9) (by decide) t).trans ((check_array_iff rfl).trans ?_)
  rw [expand_of_not_shorthand rfl]
  simp [rules, check_applyEntry_iff]

theorem check_transformations_iff {t : Tree} :
    check "TRANSFORMATIONS" t = .ok () ↔ ∃ entries, t = .object entries ∧
      (∃ group, entries.lookup "GROUP" = some (.array group) ∧ group ≠ []) ∧
      (∃ apply, entries.lookup "APPLY" = some (.array apply) ∧ ∀ item ∈ apply, IsApplyEntry item) ∧
      (∀ e ∈ entries, e.1 ∈ ["GROUP", "APPLY"]) ∧ (Entries.keys entries).Nodup := by
  refine (check_closed_iff (i := 7) (by decide) rfl rfl).trans (exists_congr fun entries => ?_)
  rw [expand_of_not_shorthand rfl]
  simp [rules, check_group_iff, check_apply_iff, and_assoc]

theorem ne_of_lookup_eq_none {entries : Entries Tree} {key : String} (h : entries.lookup key = none)
    {e : String × Tree} (he : e ∈ entries) : e.1 ≠ key := by
  have hne := List.lookup_eq_none_iff.1 h e he
  exact Ne.symm (bne_iff_ne.1 hne)

section Closed

variable {entries : Entries Tree} {k l m : String} {x y z : Tree}

theorem perm_singleton_iff (h : (Tree.object entries).WellFormed) :
    entries.Perm [(k, x)] ↔ entries.lookup k = some x ∧ ∀ e ∈ entries, e.1 ∈ [k] := by
  rw [Entries.perm_iff_lookup h.nodup_keys (by simp [Entries.keys])]
  simp [Entries.keys]

theorem perm_pair_iff (h : (Tree.object entries).WellFormed) (hkl : k ≠ l) :
    entries.Perm [(k, x), (l, y)] ↔
      entries.lookup k = some x ∧ entries.lookup l = some y ∧ ∀ e ∈ entries, e.1 ∈ [k, l] := by
  rw [Entries.perm_iff_lookup h.nodup_keys (by simp [Entries.keys, hkl])]
  simp [Entries.keys, and_assoc]

theorem perm_triple_iff (h : (Tree.object entries).WellFormed) (hkeys : [k, l, m].Nodup) :
    entries.Perm [(k, x), (l, y), (m, z)] ↔
      entries.lookup k = some x ∧ entries.lookup l = some y ∧ entries.lookup m = some z ∧
        ∀ e ∈ entries, e.1 ∈ [k, l, m] := by
  have hfs : (Entries.keys [(k, x), (l, y), (m, z)]).Nodup := hkeys
  rw [Entries.perm_iff_lookup h.nodup_keys hfs]
  simp [Entries.keys, and_assoc]

/-- An entry that is not there can be left off the list of those that may be there. -/
theorem forall_mem_dropLast {keys : List String} (h : entries.lookup k = none)
    (hnames : ∀ e ∈ entries, e.1 ∈ keys ++ [k]) : ∀ e ∈ entries, e.1 ∈ keys := by
  intro e he
  rcases List.mem_append.1 (hnames e he) with hkey | hkey
  · exact hkey
  · exact absurd (List.mem_singleton.1 hkey) (ne_of_lookup_eq_none h he)

theorem lookup_eq_none_of_not_mem {keys : List String} (hnames : ∀ e ∈ entries, e.1 ∈ keys) (h : k ∉ keys) :
    entries.lookup k = none := by
  cases hk : entries.lookup k with
  | none => rfl
  | some t => exact absurd (hnames _ (Entries.mem_of_lookup hk)) h

end Closed

theorem check_order_iff_isOrder {t : Tree} (h : t.WellFormed) : check "ORDER" t = .ok () ↔ IsOrder t := by
  rw [check_order_iff]
  refine ⟨fun hcheck => ?_, fun horder => ?_⟩
  · rcases hcheck with ⟨key, rfl⟩ | ⟨entries, rfl, ⟨dir, hdir⟩, ⟨keys, hkeys, hne⟩, hnames, -⟩
    · exact .lone key
    · exact .directed ((perm_pair_iff h (by decide)).2 ⟨hdir, hkeys, hnames⟩) hne
  · cases horder with
    | lone key => exact .inl ⟨key, rfl⟩
    | directed hperm hne =>
      obtain ⟨hdir, hkeys, hnames⟩ := (perm_pair_iff h (by decide)).1 hperm
      exact .inr ⟨_, rfl, ⟨_, hdir⟩, ⟨_, hkeys, hne⟩, hnames, h.nodup_keys⟩

theorem check_options_iff_isOptions {t : Tree} (h : t.WellFormed) :
    check "OPTIONS" t = .ok () ↔ IsOptions t := by
  rw [check_options_iff]
  refine ⟨fun hcheck => ?_, fun hoptions => ?_⟩
  · obtain ⟨entries, rfl, -, ⟨t, hcolumns, hcheckColumns⟩, hcheckOrder, hnames, -⟩ := hcheck
    obtain ⟨columns, rfl, hne⟩ := check_columns_iff.1 hcheckColumns
    cases horder : entries.lookup "ORDER" with
    | none =>
      have hrest : ∀ e ∈ entries, e.1 ∈ ["COLUMNS"] := forall_mem_dropLast horder hnames
      exact .unordered ((perm_singleton_iff h).2 ⟨hcolumns, hrest⟩) hne
    | some order =>
      refine .ordered ((perm_pair_iff h (by decide)).2 ⟨hcolumns, horder, hnames⟩) hne ?_
      exact (check_order_iff_isOrder (h.of_lookup horder)).1 (hcheckOrder order horder)
  · cases hoptions with
    | unordered hperm hne =>
      obtain ⟨hcolumns, hnames⟩ := (perm_singleton_iff h).1 hperm
      have hnone := lookup_eq_none_of_not_mem hnames (by decide : "ORDER" ∉ ["COLUMNS"])
      refine ⟨_, rfl, ?_, ⟨_, hcolumns, check_columns_iff.2 ⟨_, rfl, hne⟩⟩, ?_, ?_, h.nodup_keys⟩
      · exact hperm.length_eq.trans_le (by simp)
      · intro order horder
        exact nomatch hnone.symm.trans horder
      · intro e he
        exact List.mem_append_left ["ORDER"] (hnames e he)
    | ordered hperm hne horder =>
      obtain ⟨hcolumns, hlookup, hnames⟩ := (perm_pair_iff h (by decide)).1 hperm
      refine ⟨_, rfl, hperm.length_eq.le, ⟨_, hcolumns, check_columns_iff.2 ⟨_, rfl, hne⟩⟩, ?_, hnames,
        h.nodup_keys⟩
      intro order' horder'
      obtain rfl := Option.some.inj (hlookup.symm.trans horder')
      exact (check_order_iff_isOrder (h.of_lookup hlookup)).2 horder

theorem check_transformations_iff_isTransformations {t : Tree} (h : t.WellFormed) :
    check "TRANSFORMATIONS" t = .ok () ↔ IsTransformations t := by
  rw [check_transformations_iff]
  refine ⟨fun hcheck => ?_, fun htransformations => ?_⟩
  · obtain ⟨entries, rfl, ⟨group, hgroup, hne⟩, ⟨apply, happly, hentries⟩, hnames, -⟩ := hcheck
    exact .mk ((perm_pair_iff h (by decide)).2 ⟨hgroup, happly, hnames⟩) hne hentries
  · obtain ⟨hperm, hne, hentries⟩ := htransformations
    obtain ⟨hgroup, happly, hnames⟩ := (perm_pair_iff h (by decide)).1 hperm
    exact ⟨_, rfl, ⟨_, hgroup, hne⟩, ⟨_, happly, hentries⟩, hnames, h.nodup_keys⟩

theorem checkQuery_iff {query : Tree} (h : query.WellFormed) :
    checkQuery query = .ok () ↔ IsQuery query := by
  rw [checkQuery_eq_ok_iff]
  refine ⟨fun hcheck => ?_, fun hquery => ?_⟩
  · obtain ⟨root, rfl, ⟨filter, hfilter, hcheckWhere⟩, ⟨options, hoptions, hcheckOptions⟩,
      hcheckTransformations, hnames, -⟩ := hcheck
    have hisWhere := check_where_iff.1 hcheckWhere
    have hisOptions := (check_options_iff_isOptions (h.of_lookup hoptions)).1 hcheckOptions
    cases htransformations : root.lookup "TRANSFORMATIONS" with
    | none =>
      have hrest : ∀ e ∈ root, e.1 ∈ ["WHERE", "OPTIONS"] := forall_mem_dropLast htransformations hnames
      exact .ungrouped ((perm_pair_iff h (by decide)).2 ⟨hfilter, hoptions, hrest⟩) hisWhere hisOptions
    | some transformations =>
      refine .grouped ((perm_triple_iff h (by decide)).2 ⟨hfilter, hoptions, htransformations, hnames⟩)
        hisWhere hisOptions ?_
      exact (check_transformations_iff_isTransformations (h.of_lookup htransformations)).1
        (hcheckTransformations _ htransformations)
  · cases hquery with
    | ungrouped hperm hisWhere hisOptions =>
      obtain ⟨hfilter, hoptions, hnames⟩ := (perm_pair_iff h (by decide)).1 hperm
      have hnone := lookup_eq_none_of_not_mem hnames (by decide : "TRANSFORMATIONS" ∉ ["WHERE", "OPTIONS"])
      refine ⟨_, rfl, ⟨_, hfilter, check_where_iff.2 hisWhere⟩, ⟨_, hoptions, ?_⟩, ?_, ?_, h.nodup_keys⟩
      · exact (check_options_iff_isOptions (h.of_lookup hoptions)).2 hisOptions
      · intro transformations htransformations
        exact nomatch hnone.symm.trans htransformations
      · intro e he
        exact List.mem_append_left ["TRANSFORMATIONS"] (hnames e he)
    | grouped hperm hisWhere hisOptions hisTransformations =>
      obtain ⟨hfilter, hoptions, hlookup, hnames⟩ := (perm_triple_iff h (by decide)).1 hperm
      refine ⟨_, rfl, ⟨_, hfilter, check_where_iff.2 hisWhere⟩, ⟨_, hoptions, ?_⟩, ?_, hnames, h.nodup_keys⟩
      · exact (check_options_iff_isOptions (h.of_lookup hoptions)).2 hisOptions
      · intro transformations htransformations
        obtain rfl := Option.some.inj (hlookup.symm.trans htransformations)
        exact (check_transformations_iff_isTransformations (h.of_lookup hlookup)).2 hisTransformations

/-- The queries of the grammar pass, and no other trees. Trees that are equal but for the order of their
entries pass together. -/
theorem checkQuery_iff_isQuery {query : Tree} (h : query.WellFormed) :
    (checkQuery query = .ok () ↔ IsQuery query) ∧
      ∀ other : Tree, other.WellFormed → query.same other = true →
        (checkQuery other = .ok () ↔ checkQuery query = .ok ()) := by
  refine ⟨checkQuery_iff h, fun other hother hsame => ?_⟩
  exact (respects_checkBy rules "QUERY" query other ⟨h, hother, hsame⟩).symm

/-- A query with the entries of its objects in the order given or in the opposite one. -/
def roomsByName (arrange : Entries Tree → Entries Tree) : Tree :=
  .object (arrange [("WHERE", .object []), ("OPTIONS", .object (arrange
    [("COLUMNS", .array [.text "rooms_name"]),
      ("ORDER", .object (arrange [("dir", .text "DOWN"), ("keys", .array [.text "rooms_name"])]))]))])

theorem checkQuery_roomsByName :
    (roomsByName id).WellFormed ∧ (roomsByName List.reverse).WellFormed ∧
      (roomsByName id).same (roomsByName List.reverse) = true ∧
      IsQuery (roomsByName id) ∧ checkQuery (roomsByName List.reverse) = .ok () := by
  have hwellFormed : (roomsByName id).WellFormed := by simp [roomsByName, Entries.keys]
  have hreversed : (roomsByName List.reverse).WellFormed := by simp [roomsByName, Entries.keys]
  have hsame : (roomsByName id).same (roomsByName List.reverse) = true := by decide
  have hcheck : checkQuery (roomsByName id) = .ok () := rfl
  obtain ⟨hiff, hreorder⟩ := checkQuery_iff_isQuery hwellFormed
  exact ⟨hwellFormed, hreversed, hsame, hiff.1 hcheck, (hreorder _ hreversed hsame).2 hcheck⟩

end CampusQuery.Grammar
