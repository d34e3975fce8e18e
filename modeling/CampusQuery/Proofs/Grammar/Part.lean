import CampusQuery.Proofs.Grammar.Rules
import CampusQuery.Proofs.Tree.Part

/-! The check of a query with something else in one place. Main statement: what checks alike there leaves the
check of the whole query as it is, down to its fault. -/

namespace CampusQuery.Grammar

variable {sub : String → Tree → Except Fault Unit} {r : Rule}

/-- Of the entries that it declares, a rule sees only how they check. -/
theorem checkEntries_congr {es fs : Entries Tree} (hkeys : es.keys = fs.keys)
    (hlookup : ∀ key, (es.lookup key).map (sub key) = (fs.lookup key).map (sub key))
    (hothers : (es.filter fun e => !r.declares e.1) = fs.filter fun e => !r.declares e.1) :
    r.checkEntries sub es = r.checkEntries sub fs := by
  have hlength : es.length = fs.length := by
    rw [← Entries.length_keys es, hkeys, Entries.length_keys]
  have hempty : es.isEmpty = fs.isEmpty := by
    rw [Bool.eq_iff_iff, List.isEmpty_iff_length_eq_zero, List.isEmpty_iff_length_eq_zero, hlength]
  have hchecks : r.checks sub es = r.checks sub fs := by
    unfold Rule.checks
    simp only [hlookup, hothers]
  unfold Rule.checkEntries
  simp only [hempty, hlength, hchecks, hkeys]

theorem checkEntries_insert {entries : Entries Tree} {key : String} {t u : Tree}
    (hlookup : entries.lookup key = some t) (hdeclares : r.declares key = true) (hsub : sub key u = sub key t) :
    r.checkEntries sub (Entries.insert entries key u) = r.checkEntries sub entries := by
  have hmem : key ∈ Entries.keys entries := Entries.mem_keys_of_lookup hlookup
  have hkeys : (Entries.insert entries key u).keys = entries.keys := by rw [Entries.keys_insert, if_pos hmem]
  refine checkEntries_congr hkeys (fun other => ?_) ?_
  · rw [Entries.lookup_insert]
    by_cases hother : other = key
    · rw [if_pos hother, hother, hlookup, Option.map_some, Option.map_some, hsub]
    · rw [if_neg hother]
  · exact Entries.filter_insert_of_not (p := fun name => !r.declares name) (by simp [hdeclares]) hmem u

/-- A part of a clause is checked by what comes after the clause's rule. -/
theorem checkQuery_withPart {query t u : Tree} {clause name : String} {i : ℕ} (hi : i < rules.length)
    (hbody : ∀ entries, checkBy (rules.drop 1) clause (.object entries) =
      rules[i].checkEntries (checkBy (rules.drop (i + 1))) entries)
    (hclause : rules[0].declares clause = true) (hname : rules[i].declares name = true)
    (h : query.part? clause name = some t)
    (hcheck : checkBy (rules.drop (i + 1)) name u = checkBy (rules.drop (i + 1)) name t) :
    checkQuery (query.withPart clause name u) = checkQuery query := by
  obtain ⟨root, entries, rfl, hroot, hentries⟩ := Tree.part?_eq_some_iff.1 h
  rw [Tree.withPart_object hroot]
  have hsame : checkBy (rules.drop 1) clause (.object (Entries.insert entries name u)) =
      checkBy (rules.drop 1) clause (.object entries) := by
    rw [hbody, hbody]
    exact checkEntries_insert hentries hname hcheck
  exact checkEntries_insert (r := rules[0]) hroot hclause hsame

section

variable {query t u : Tree}

theorem checkQuery_withColumns (h : query.part? "OPTIONS" "COLUMNS" = some t)
    (hcheck : check "COLUMNS" u = check "COLUMNS" t) :
    checkQuery (query.withPart "OPTIONS" "COLUMNS" u) = checkQuery query :=
  checkQuery_withPart (i := 2) (by decide) (fun _ => rfl) rfl rfl h hcheck

theorem checkQuery_withOrder (h : query.part? "OPTIONS" "ORDER" = some t)
    (hcheck : check "ORDER" u = check "ORDER" t) :
    checkQuery (query.withPart "OPTIONS" "ORDER" u) = checkQuery query :=
  checkQuery_withPart (i := 2) (by decide) (fun _ => rfl) rfl rfl h hcheck

theorem checkQuery_withApply (h : query.part? "TRANSFORMATIONS" "APPLY" = some t)
    (hcheck : check "APPLY" u = check "APPLY" t) :
    checkQuery (query.withPart "TRANSFORMATIONS" "APPLY" u) = checkQuery query :=
  checkQuery_withPart (i := 7) (by decide) (fun _ => rfl) rfl rfl h hcheck

end

end CampusQuery.Grammar
