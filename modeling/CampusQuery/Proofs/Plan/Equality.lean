import CampusQuery.Proofs.Filter.Equality
import CampusQuery.Proofs.Order.Stable
import CampusQuery.Proofs.Plan.Soundness

/-! The plans of equal queries. Main statement: if a query is read as a plan, then every query equal to it
is read as a plan that differs in nothing but how its filter is written. -/

namespace CampusQuery

open CampusQuery.Tree

theorem Order.shape_of_matches {t u : Tree} (hmatches : t.Matches u) {o : Order} (h : shape t = .ok o) :
    shape u = .ok o := by
  rcases shape_eq_ok_iff.1 h with ⟨key, rfl, -⟩ | ⟨entries, dir, rfl, hdir, hdirection, hkeys⟩
  · rwa [hmatches.of_text]
  · obtain ⟨others, rfl, hothers⟩ := hmatches.of_object
    exact shape_eq_ok_iff.2 (.inr ⟨others, dir, rfl, hothers.lookup_eq_of_rigid hdir (rigid_text dir),
      hdirection, hothers.lookup_eq_of_rigid hkeys (rigid_map rigid_text o.keys)⟩)

theorem Order.ofTree_of_matches {columns : List Column} {t u : Tree} (hmatches : t.Matches u) {o : Order}
    (h : ofTree columns t = .ok o) : ofTree columns u = .ok o := by
  obtain ⟨hshape, hkeys⟩ := ofTree_eq_ok_iff.1 h
  exact ofTree_eq_ok_iff.2 ⟨shape_of_matches hmatches hshape, hkeys⟩

theorem Application.rigid_toTree (a : Application) : a.toTree.Rigid :=
  rigid_single _ (rigid_single _ (rigid_text _))

theorem Transformation.ofTree_of_matches {scope : Scope} {columns : List Column} {es fs : Entries Tree}
    (hmatches : (object es).Matches (object fs)) {t : Transformation} (h : ofTree scope columns es = .ok t) :
    ofTree scope columns fs = .ok t := by
  obtain ⟨hgroup, happly, hfits⟩ := ofTree_eq_ok_iff.1 h
  refine ofTree_eq_ok_iff.2 ⟨?_, ?_, hfits⟩
  · exact hmatches.lookup_eq_of_rigid hgroup (rigid_map (fun a => rigid_text a.key) t.group)
  · exact hmatches.lookup_eq_of_rigid happly (rigid_map Application.rigid_toTree t.apply)

/-- Both are equal objects, or neither is there. -/
abbrev ObjectsMatch : Option (Entries Tree) → Option (Entries Tree) → Prop :=
  Option.Rel fun es fs => (object es).Matches (object fs)

namespace Options

variable {kinds : Entries Kind} {ts us : Option (Entries Tree)}

/-- Of the GROUP keys only the first one is read, and the others may be anything. -/
theorem groupDatasetId_of_matches (hmatches : ObjectsMatch ts us) {id : String}
    (h : groupDatasetId kinds ts = .ok id) : groupDatasetId kinds us = .ok id := by
  obtain ⟨entries, key, keys, field, rfl, hgroup, hsplit, hknown⟩ := groupDatasetId_eq_ok_iff.1 h
  obtain ⟨others, rfl, hothers⟩ : ∃ others, us = some others ∧ (object entries).Matches (object others) := by
    cases hmatches with
    | some hothers => exact ⟨_, rfl, hothers⟩
  obtain ⟨u, hu, hkeys⟩ := hothers.exists_lookup hgroup
  obtain ⟨items, rfl, hitems⟩ := hkeys.of_array
  obtain ⟨first, keys', hfirst, -, rfl⟩ := List.forall₂_cons_left_iff.1 hitems
  rw [hfirst.of_text] at hu
  exact groupDatasetId_eq_ok_iff.2 ⟨others, key, keys', field, rfl, hu, hsplit, hknown⟩

theorem ofTree_of_matches (htransformations : ObjectsMatch ts us) {es fs : Entries Tree}
    (hmatches : (object es).Matches (object fs)) {o : Options} (h : ofTree kinds ts es = .ok o) :
    ofTree kinds us fs = .ok o := by
  obtain ⟨hkeys, hknown, hgroup, hdataset, horder⟩ := ofTree_eq_ok_iff.1 h
  have htransformed : ts.isSome = us.isSome := by
    cases htransformations <;> rfl
  refine ofTree_eq_ok_iff.2 ⟨?_, htransformed ▸ hknown, ?_, hdataset, ?_⟩
  · exact hmatches.lookup_eq_of_rigid hkeys (rigid_map rigid_text o.keys)
  · exact fun hnone => groupDatasetId_of_matches htransformations (hgroup hnone)
  · rcases optionMapM_eq_ok_iff.1 horder with ⟨hnone, hplain⟩ | ⟨t, order, ht, hordered, hread⟩
    · exact optionMapM_eq_ok_iff.2 (.inl ⟨hmatches.lookup_eq_none hnone, hplain⟩)
    · obtain ⟨u, hu, htu⟩ := hmatches.exists_lookup ht
      exact optionMapM_eq_ok_iff.2 (.inr ⟨u, order, hu, hordered, Order.ofTree_of_matches htu hread⟩)

end Options

namespace Plan

theorem objects_of_matches {root others : Entries Tree} (hmatches : (object root).Matches (object others))
    {key : String} {ts : Option (Entries Tree)} (h : root.lookup key = ts.map .object) :
    ∃ us, others.lookup key = us.map .object ∧ ObjectsMatch ts us := by
  rcases ts with _ | entries
  · exact ⟨none, hmatches.lookup_eq_none h, .none⟩
  · obtain ⟨u, hu, htu⟩ := hmatches.exists_lookup h
    obtain ⟨fs, rfl, hfs⟩ := htu.of_object
    exact ⟨some fs, hu, .some hfs⟩

theorem ofTree_of_matches {kinds : Entries Kind} {query other : Tree} (hmatches : query.Matches other)
    {p : Plan} (h : ofTree kinds query = .ok p) :
    ∃ filter, ofTree kinds other = .ok { p with filter } ∧ Option.Rel Filter.Agrees p.filter filter := by
  obtain ⟨root, options, transformations, kind, whereTree, rfl, hoptions, htransformations, ho, hkind,
    htransformation, hwhere, hfilter⟩ := ofTree_eq_ok_iff.1 h
  obtain ⟨others, rfl, hothers⟩ := hmatches.of_object
  obtain ⟨t, ht, hoptionsMatch⟩ := hothers.exists_lookup hoptions
  obtain ⟨options', rfl, hoptions'⟩ := hoptionsMatch.of_object
  obtain ⟨transformations', htransformations', hrel⟩ := objects_of_matches hothers htransformations
  obtain ⟨whereTree', hwhere', hwhereMatch⟩ := hothers.exists_lookup hwhere
  obtain ⟨filter, hread, hagrees⟩ := Filter.ofWhere_of_matches (Options.isId_of_ofTree ho) hwhereMatch hfilter
  refine ⟨filter, ofTree_eq_ok_iff.2 ⟨others, options', transformations', kind, whereTree', rfl, ht,
    htransformations', Options.ofTree_of_matches hrel hoptions' ho, hkind, ?_, hwhere', hread⟩, hagrees⟩
  cases hrel with
  | none => exact htransformation
  | some hentries =>
    rcases optionMapM_eq_ok_iff.1 htransformation with ⟨hnone, -⟩ | ⟨es, t', hes, ht', hread'⟩
    · cases hnone
    · obtain rfl := Option.some.inj hes
      exact optionMapM_eq_ok_iff.2 (.inr ⟨_, t', rfl, ht', Transformation.ofTree_of_matches hentries hread'⟩)

end Plan

end CampusQuery
