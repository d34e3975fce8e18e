import CampusQuery.Grammar.Check
import CampusQuery.Proofs.Outcome
import Mathlib.Tactic

/-! What the check of a query comes to, rule by rule. -/

namespace CampusQuery.Grammar

variable {sub : String → Tree → Except Fault Unit} {r : Rule}

theorem tally_eq_ok_iff {checks : List (Except Fault Unit)} {n : ℕ} :
    tally checks = .ok n ↔ (∀ check ∈ checks, check = .ok ()) ∧ checks.length = n := by
  induction checks generalizing n with
  | nil => simp [tally]
  | cons check rest ih =>
    rw [tally, check_bind_eq_ok_iff, List.forall_mem_cons, List.length_cons, and_assoc]
    simp only [bind_eq_ok_iff, pure_eq_ok_iff, ih]
    refine and_congr_right fun _ => ⟨?_, fun ⟨hrest, hn⟩ => ⟨_, ⟨hrest, rfl⟩, hn⟩⟩
    rintro ⟨_, ⟨hrest, rfl⟩, hn⟩
    exact ⟨hrest, hn⟩

section Checks

variable {entries : Entries Tree} {keys : List String}

theorem required_pass_iff {place : String} :
    (∀ check ∈ keys.map fun key =>
        ((entries.lookup key).map (sub key)).getD (.error (.missing place key)), check = .ok ()) ↔
      ∀ key ∈ keys, ∃ t, entries.lookup key = some t ∧ sub key t = .ok () := by
  rw [List.forall_mem_map]
  refine forall₂_congr fun key _ => ?_
  cases entries.lookup key <;> simp

theorem optional_pass_iff :
    (∀ check ∈ keys.filterMap fun key => (entries.lookup key).map (sub key), check = .ok ()) ↔
      ∀ key ∈ keys, ∀ t, entries.lookup key = some t → sub key t = .ok () := by
  simp only [List.mem_filterMap, Option.map_eq_some_iff]
  refine ⟨fun h key hkey t ht => h _ ⟨key, hkey, t, ht, rfl⟩, ?_⟩
  rintro h _ ⟨key, hkey, t, ht, rfl⟩
  exact h key hkey t ht

theorem own_pass_iff {rule : String} :
    (∀ check ∈ (entries.filter fun (key, _) => !r.declares key).map fun (key, t) =>
        if isApplyName key then sub rule t else .error (.invalidApplyName key), check = .ok ()) ↔
      ∀ e ∈ entries, r.declares e.1 = false → isApplyName e.1 = true ∧ sub rule e.2 = .ok () := by
  simp only [List.forall_mem_map, List.mem_filter, Bool.not_eq_true', and_imp]
  refine forall₃_congr fun e _ _ => ?_
  cases isApplyName e.1 <;> simp

theorem checks_pass_iff :
    (∀ check ∈ r.checks sub entries, check = .ok ()) ↔
      (∀ key ∈ r.required, ∃ t, entries.lookup key = some t ∧ sub key t = .ok ()) ∧
      (∀ key ∈ r.optional, ∀ t, entries.lookup key = some t → sub key t = .ok ()) ∧
      ∀ rule, r.element = some rule → ∀ e ∈ entries, r.declares e.1 = false →
        isApplyName e.1 = true ∧ sub rule e.2 = .ok () := by
  rw [Rule.checks, List.forall_mem_append, List.forall_mem_append, required_pass_iff, optional_pass_iff,
    and_assoc]
  refine and_congr_right fun _ => and_congr_right fun _ => ?_
  cases r.element with
  | none => simp
  | some rule =>
    rw [Option.toList_some, List.flatMap_singleton, own_pass_iff]
    simp only [Option.some.injEq, forall_eq']

/-- How many of an object's keys a rule comes to. -/
def Rule.checkedCount (r : Rule) (keys : List String) : ℕ :=
  ((r.required ++ r.optional).filter (· ∈ keys)).length +
    if r.element.isSome then (keys.filter fun key => !r.declares key).length else 0

theorem length_checks (hrequired : ∀ key ∈ r.required, key ∈ entries.keys) :
    (r.checks sub entries).length = r.checkedCount entries.keys := by
  have hall : r.required.filter (· ∈ entries.keys) = r.required :=
    List.filter_eq_self.2 fun key hkey => decide_eq_true (hrequired key hkey)
  have hoptional : (r.optional.filterMap fun key => (entries.lookup key).map (sub key)).length =
      (r.optional.filter (· ∈ entries.keys)).length := by
    rw [List.length_filterMap_eq_countP, ← List.countP_eq_length_filter]
    refine congrArg (List.countP · r.optional) (funext fun key => ?_)
    rw [Option.isSome_map, Bool.eq_iff_iff, Entries.isSome_lookup_iff, decide_eq_true_iff]
  have hothers : (entries.filter fun e => !r.declares e.1).length =
      (entries.keys.filter fun key => !r.declares key).length := by
    rw [Entries.keys, List.filter_map, List.length_map]
    rfl
  rw [Rule.checks, Rule.checkedCount, List.length_append, List.length_append, List.length_map, hoptional,
    List.filter_append, List.length_append, hall, ← hothers]
  cases r.element <;> simp

theorem tally_checks_iff {n : ℕ} :
    tally (r.checks sub entries) = .ok n ↔
      (∀ key ∈ r.required, ∃ t, entries.lookup key = some t ∧ sub key t = .ok ()) ∧
      (∀ key ∈ r.optional, ∀ t, entries.lookup key = some t → sub key t = .ok ()) ∧
      (∀ rule, r.element = some rule → ∀ e ∈ entries, r.declares e.1 = false →
        isApplyName e.1 = true ∧ sub rule e.2 = .ok ()) ∧
      r.checkedCount entries.keys = n := by
  rw [tally_eq_ok_iff, checks_pass_iff, and_assoc, and_assoc]
  refine and_congr_right fun hrequired => ?_
  rw [length_checks fun key hkey => ?_]
  obtain ⟨t, ht, -⟩ := hrequired key hkey
  exact Entries.mem_keys_of_lookup ht

theorem checkEntries_iff_tally :
    r.checkEntries sub entries = .ok () ↔
      (r.nonEmpty = true → entries ≠ []) ∧ (∀ limit, r.maxKeys = some limit → entries.length ≤ limit) ∧
      tally (r.checks sub entries) = .ok entries.length := by
  have hempty : ¬(r.nonEmpty && entries.isEmpty) = true ↔ (r.nonEmpty = true → entries ≠ []) := by
    simp
  have hcount {fault : Fault} :
      (tally (r.checks sub entries) >>= fun n => if n ≠ entries.length then throw fault else pure ()) =
        .ok () ↔ tally (r.checks sub entries) = .ok entries.length := by
    rw [bind_eq_ok_iff]
    refine ⟨fun ⟨n, hn, hpass⟩ => ?_, fun h => ⟨_, h, if_neg (not_not.2 rfl)⟩⟩
    by_cases hlength : n = entries.length
    · rwa [← hlength]
    · rw [if_pos hlength] at hpass
      exact absurd hpass throw_ne_ok
  unfold Rule.checkEntries
  dsimp only
  rw [throw_if_eq_ok_iff, hempty]
  refine and_congr_right fun _ => ?_
  cases hmax : r.maxKeys with
  | none =>
    dsimp only
    rw [hcount, and_iff_right (nofun : ∀ limit, none = some limit → _)]
  | some limit =>
    dsimp only
    rw [throw_if_eq_ok_iff, hcount]
    exact and_congr_left fun _ => by simp

/-- An object passes if it has no more keys than it may, all that it must have, if what is looked at
passes, and if that is all there is. -/
theorem checkEntries_iff_counted :
    r.checkEntries sub entries = .ok () ↔
      (r.nonEmpty = true → entries ≠ []) ∧ (∀ limit, r.maxKeys = some limit → entries.length ≤ limit) ∧
      (∀ key ∈ r.required, ∃ t, entries.lookup key = some t ∧ sub key t = .ok ()) ∧
      (∀ key ∈ r.optional, ∀ t, entries.lookup key = some t → sub key t = .ok ()) ∧
      (∀ rule, r.element = some rule → ∀ e ∈ entries, r.declares e.1 = false →
        isApplyName e.1 = true ∧ sub rule e.2 = .ok ()) ∧
      r.checkedCount entries.keys = entries.length := by
  rw [checkEntries_iff_tally, tally_checks_iff]

end Checks

/-- The count tells of a key that the rule has no use for, and of a declared one that is there twice. -/
theorem checkedCount_eq_length_iff {keys : List String} (hr : (r.required ++ r.optional).Nodup) :
    r.checkedCount keys = keys.length ↔
      (∀ key ∈ keys, r.declares key = false → r.element.isSome = true) ∧ (keys.filter r.declares).Nodup := by
  have hfound : ((r.required ++ r.optional).filter (· ∈ keys)).Nodup := hr.filter _
  have hsame : ∀ key, key ∈ (r.required ++ r.optional).filter (· ∈ keys) ↔ key ∈ keys.filter r.declares := by
    intro key
    simp only [List.mem_filter, List.mem_append, Rule.declares, Bool.or_eq_true, List.contains_iff_mem,
      decide_eq_true_iff]
    exact and_comm
  have hsubperm := hfound.subperm fun key hkey => (hsame key).1 hkey
  have hle := hsubperm.length_le
  have hnodup : ((r.required ++ r.optional).filter (· ∈ keys)).length = (keys.filter r.declares).length ↔
      (keys.filter r.declares).Nodup := by
    refine ⟨fun h => (hsubperm.perm_of_length_le h.ge).nodup_iff.1 hfound, fun h => ?_⟩
    exact ((List.perm_ext_iff_of_nodup hfound h).2 hsame).length_eq
  have hlength := List.length_eq_length_filter_add (l := keys) r.declares
  rw [Rule.checkedCount, ← hnodup]
  cases r.element with
  | some rule =>
    simp only [Option.isSome_some, if_true, implies_true, true_and]
    omega
  | none =>
    have hall : (∀ key ∈ keys, r.declares key = false → (none : Option String).isSome = true) ↔
        (keys.filter fun key => !r.declares key).length = 0 := by
      rw [List.length_eq_zero_iff, List.filter_eq_nil_iff]
      simp
    rw [hall]
    simp only [Option.isSome_none, Bool.false_eq_true, if_false]
    omega

theorem checkEntries_eq_ok_iff {entries : Entries Tree} (hr : (r.required ++ r.optional).Nodup) :
    r.checkEntries sub entries = .ok () ↔
      (r.nonEmpty = true → entries ≠ []) ∧ (∀ limit, r.maxKeys = some limit → entries.length ≤ limit) ∧
      (∀ key ∈ r.required, ∃ t, entries.lookup key = some t ∧ sub key t = .ok ()) ∧
      (∀ key ∈ r.optional, ∀ t, entries.lookup key = some t → sub key t = .ok ()) ∧
      (∀ e ∈ entries, r.declares e.1 = false →
        ∃ rule, r.element = some rule ∧ isApplyName e.1 = true ∧ sub rule e.2 = .ok ()) ∧
      (entries.keys.filter r.declares).Nodup := by
  rw [checkEntries_iff_counted, ← Entries.length_keys entries, checkedCount_eq_length_iff hr]
  refine and_congr_right fun _ => and_congr_right fun _ => and_congr_right fun _ => and_congr_right fun _ => ?_
  rw [← and_assoc]
  refine and_congr_left fun _ => ?_
  cases r.element with
  | none => simp [Entries.keys]
  | some rule => simp

theorem rules_keys_nodup : ∀ r ∈ rules, (r.required ++ r.optional).Nodup := by decide

theorem check_object_iff (hshape : r.shape = .object) {t : Tree} :
    r.check sub t = .ok () ↔
      ∃ entries, r.expand t = .object entries ∧ r.checkEntries sub entries = .ok () := by
  unfold Rule.check
  rw [hshape]
  cases r.expand t <;> simp

theorem check_array_iff (hshape : r.shape = .array) {t : Tree} :
    r.check sub t = .ok () ↔ ∃ items, r.expand t = .array items ∧ (r.nonEmpty = true → items ≠ []) ∧
      ∀ rule, r.element = some rule → ∀ item ∈ items, sub rule item = .ok () := by
  unfold Rule.check
  rw [hshape]
  cases r.expand t with
  | array items =>
    dsimp only
    cases hempty : r.nonEmpty && items.isEmpty with
    | true => simp_all
    | false =>
      cases r.element with
      | none => simp_all
      | some rule =>
        have hitems : r.nonEmpty = true → items ≠ [] := by simpa using hempty
        dsimp only
        rw [if_neg (by simp), forM_eq_ok_iff]
        refine ⟨fun h => ⟨items, rfl, hitems, fun _ hr => Option.some.inj hr ▸ h⟩, fun ⟨_, hi, _, h⟩ => ?_⟩
        exact Tree.array.inj hi ▸ h rule rfl
  | _ => simp

theorem check_text_iff (hshape : r.shape = .text) {t : Tree} :
    r.check sub t = .ok () ↔ ∃ s, r.expand t = .text s := by
  unfold Rule.check
  rw [hshape]
  cases r.expand t <;> simp

theorem expand_of_not_shorthand (h : r.shorthand = false) (t : Tree) : r.expand t = t := by
  cases t <;> simp [Rule.expand, h]

/-- The keys whose rules a rule refers to. -/
def Rule.references (r : Rule) : List String := r.required ++ r.optional ++ r.element.toList

theorem check_congr {sub' : String → Tree → Except Fault Unit}
    (h : ∀ key ∈ r.references, ∀ t, sub key t = .ok () ↔ sub' key t = .ok ()) (t : Tree) :
    r.check sub t = .ok () ↔ r.check sub' t = .ok () := by
  have hrequired : ∀ key ∈ r.required, ∀ t, sub key t = .ok () ↔ sub' key t = .ok () :=
    fun key hkey => h key (by simp [Rule.references, hkey])
  have hoptional : ∀ key ∈ r.optional, ∀ t, sub key t = .ok () ↔ sub' key t = .ok () :=
    fun key hkey => h key (by simp [Rule.references, hkey])
  have helement : ∀ rule, r.element = some rule → ∀ t, sub rule t = .ok () ↔ sub' rule t = .ok () :=
    fun rule hrule => h rule (by simp [Rule.references, hrule])
  cases hshape : r.shape with
  | object =>
    rw [check_object_iff hshape, check_object_iff hshape]
    refine exists_congr fun entries => and_congr_right fun _ => ?_
    rw [checkEntries_iff_counted, checkEntries_iff_counted]
    refine and_congr_right fun _ => and_congr_right fun _ => ?_
    refine and_congr ?_ (and_congr ?_ (and_congr_left fun _ => ?_))
    · exact forall₂_congr fun key hkey => exists_congr fun t => and_congr_right fun _ => hrequired key hkey t
    · exact forall₂_congr fun key hkey => forall₂_congr fun t _ => hoptional key hkey t
    · refine forall₂_congr fun rule hrule => forall₃_congr fun e _ _ => ?_
      exact and_congr_right fun _ => helement rule hrule e.2
  | array =>
    rw [check_array_iff hshape, check_array_iff hshape]
    refine exists_congr fun items => and_congr_right fun _ => and_congr_right fun _ => ?_
    exact forall₂_congr fun rule hrule => forall₂_congr fun item _ => helement rule hrule item
  | text => rw [check_text_iff hshape, check_text_iff hshape]

theorem checkBy_append {before rest : List Rule} {key : String} (h : key ∉ before.map Rule.key) (t : Tree) :
    checkBy (before ++ rest) key t = checkBy rest key t := by
  induction before with
  | nil => rfl
  | cons r before ih =>
    obtain ⟨hr, hbefore⟩ := not_or.1 (mt List.mem_cons.2 h)
    rw [List.cons_append, checkBy, if_neg (Ne.symm hr), ih hbefore]

/-- A rule is the first for its key, and refers to later ones. -/
theorem rules_ordered : ∀ i, ∀ h : i < rules.length, rules[i].key ∉ (rules.take i).map Rule.key ∧
    ∀ key ∈ rules[i].references, key ∉ (rules.take (i + 1)).map Rule.key := by
  decide +kernel

/-- What a rule refers to is checked as anything under its key is. -/
theorem check_key_iff {i : ℕ} (h : i < rules.length) (t : Tree) :
    check rules[i].key t = .ok () ↔ rules[i].check check t = .ok () := by
  obtain ⟨hfirst, hlater⟩ := rules_ordered i h
  have hsplit : rules = rules.take i ++ rules[i] :: rules.drop (i + 1) := by
    rw [← List.drop_eq_getElem_cons h, List.take_append_drop]
  have hskip : ∀ key ∉ (rules.take (i + 1)).map Rule.key,
      ∀ t, check key t = checkBy (rules.drop (i + 1)) key t := by
    intro key hkey t
    have hnext : checkBy (rules.take (i + 1) ++ rules.drop (i + 1)) key t = _ := checkBy_append hkey t
    rwa [List.take_append_drop] at hnext
  have hhead : check rules[i].key t = rules[i].check (checkBy (rules.drop (i + 1))) t := by
    have happend : checkBy (rules.take i ++ rules[i] :: rules.drop (i + 1)) rules[i].key t = _ :=
      checkBy_append hfirst t
    rw [← hsplit] at happend
    exact happend.trans (if_pos rfl)
  rw [hhead]
  exact check_congr (fun key hkey t => by rw [hskip key (hlater key hkey) t]) t

/-- An object under a rule that names all its keys. -/
theorem check_closed_iff {i : ℕ} (h : i < rules.length) (hshape : rules[i].shape = .object)
    (helement : rules[i].element = none) {t : Tree} :
    check rules[i].key t = .ok () ↔ ∃ entries, rules[i].expand t = .object entries ∧
      (rules[i].nonEmpty = true → entries ≠ []) ∧
      (∀ limit, rules[i].maxKeys = some limit → entries.length ≤ limit) ∧
      (∀ key ∈ rules[i].required, ∃ t, entries.lookup key = some t ∧ check key t = .ok ()) ∧
      (∀ key ∈ rules[i].optional, ∀ t, entries.lookup key = some t → check key t = .ok ()) ∧
      (∀ e ∈ entries, e.1 ∈ rules[i].required ++ rules[i].optional) ∧ (Entries.keys entries).Nodup := by
  rw [check_key_iff, check_object_iff hshape]
  refine exists_congr fun entries => and_congr_right fun _ => ?_
  rw [checkEntries_eq_ok_iff (rules_keys_nodup _ (List.getElem_mem h))]
  refine and_congr_right fun _ => and_congr_right fun _ => ?_
  refine and_congr_right fun _ => and_congr_right fun _ => ?_
  have hnames : (∀ e ∈ entries, rules[i].declares e.1 = false → ∃ rule, rules[i].element = some rule ∧
      isApplyName e.1 = true ∧ check rule e.2 = .ok ()) ↔
      ∀ e ∈ entries, e.1 ∈ rules[i].required ++ rules[i].optional := by
    refine forall₂_congr fun e _ => ?_
    simp [helement, Rule.declares, or_iff_not_imp_left]
  rw [hnames]
  refine and_congr_right fun hdeclared => ?_
  have hall : (Entries.keys entries).filter rules[i].declares = Entries.keys entries := by
    refine List.filter_eq_self.2 (List.forall_mem_map.2 fun e he => ?_)
    simpa [Rule.declares] using hdeclared e he
  rw [hall]

theorem checkQuery_eq_ok_iff {query : Tree} :
    checkQuery query = .ok () ↔ ∃ root, query = .object root ∧
      (∃ t, root.lookup "WHERE" = some t ∧ check "WHERE" t = .ok ()) ∧
      (∃ t, root.lookup "OPTIONS" = some t ∧ check "OPTIONS" t = .ok ()) ∧
      (∀ t, root.lookup "TRANSFORMATIONS" = some t → check "TRANSFORMATIONS" t = .ok ()) ∧
      (∀ e ∈ root, e.1 ∈ ["WHERE", "OPTIONS", "TRANSFORMATIONS"]) ∧ (Entries.keys root).Nodup := by
  refine (check_closed_iff (i := 0) (by decide) rfl rfl).trans (exists_congr fun root => ?_)
  rw [expand_of_not_shorthand rfl]
  simp [rules, and_assoc]

theorem check_options_iff {t : Tree} :
    check "OPTIONS" t = .ok () ↔ ∃ entries, t = .object entries ∧ entries.length ≤ 2 ∧
      (∃ t, entries.lookup "COLUMNS" = some t ∧ check "COLUMNS" t = .ok ()) ∧
      (∀ t, entries.lookup "ORDER" = some t → check "ORDER" t = .ok ()) ∧
      (∀ e ∈ entries, e.1 ∈ ["COLUMNS", "ORDER"]) ∧ (Entries.keys entries).Nodup := by
  refine (check_closed_iff (i := 2) (by decide) rfl rfl).trans (exists_congr fun entries => ?_)
  rw [expand_of_not_shorthand rfl]
  simp [rules]

theorem check_dir_iff {t : Tree} : check "dir" t = .ok () ↔ ∃ s, t = .text s := by
  refine (check_key_iff (i := 5) (by decide) t).trans ((check_text_iff rfl).trans ?_)
  rw [expand_of_not_shorthand rfl]

theorem check_keys_iff {t : Tree} : check "keys" t = .ok () ↔ ∃ items, t = .array items ∧ items ≠ [] := by
  refine (check_key_iff (i := 6) (by decide) t).trans ((check_array_iff rfl).trans ?_)
  rw [expand_of_not_shorthand rfl]
  simp [rules]

/-- A lone text passes as the order that it stands for. -/
theorem check_order_iff {t : Tree} :
    check "ORDER" t = .ok () ↔ (∃ key, t = .text key) ∨ ∃ entries, t = .object entries ∧
      (∃ dir, entries.lookup "dir" = some (.text dir)) ∧
      (∃ items, entries.lookup "keys" = some (.array items) ∧ items ≠ []) ∧
      (∀ e ∈ entries, e.1 ∈ ["dir", "keys"]) ∧ (Entries.keys entries).Nodup := by
  refine (check_closed_iff (i := 4) (by decide) rfl rfl).trans ?_
  cases t with
  | text key =>
    refine ⟨fun _ => .inl ⟨key, rfl⟩, fun _ => ⟨_, rfl, nofun, nofun, ?_, nofun, ?_, ?_⟩⟩
    · simp [rules, check_dir_iff, check_keys_iff, Entries.lookup_cons]
    · simp [rules]
    · simp [Entries.keys]
  | object entries => simp [rules, Rule.expand, check_dir_iff, check_keys_iff, and_assoc]
  | _ => simp [Rule.expand]

end CampusQuery.Grammar
