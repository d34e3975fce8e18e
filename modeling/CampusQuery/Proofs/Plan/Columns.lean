import CampusQuery.Proofs.Answer.Arrangement
import CampusQuery.Proofs.Transformation.Reading
import CampusQuery.Proofs.Tree.Part

/-! Plans of queries with the same columns, whatever their order and however often each is there. Main
statement: the plan of the one is the plan of the other, but for its list of columns, and that has the same
members. -/

namespace CampusQuery

namespace Tree

/-- Each tree of either list is equal to one of the other. -/
structure SameMembers (items others : List Tree) : Prop where
  left : ∀ t ∈ items, ∃ u ∈ others, t.same u = true
  right : ∀ u ∈ others, ∃ t ∈ items, u.same t = true

theorem SameMembers.symm {items others : List Tree} (h : SameMembers items others) :
    SameMembers others items :=
  ⟨h.right, h.left⟩

theorem eq_text_iff_of_same {t u : Tree} (h : t.same u = true) (s : String) : t = .text s ↔ u = .text s := by
  cases t with
  | text a =>
    cases u with
    | text b =>
      rw [same, beq_iff_eq] at h
      rw [h]
    | _ => simp [same] at h
  | _ => cases u <;> simp [same] at h ⊢

end Tree

namespace Column

variable {kinds : Entries Kind} {transformed : Bool} {items others : List Tree} {columns : List Column}

theorem ofTree_eq_ok_iff_of_same {t u : Tree} (h : t.same u = true) (c : Column) :
    ofTree kinds transformed t = .ok c ↔ ofTree kinds transformed u = .ok c := by
  rw [ofTree_eq_ok_iff, ofTree_eq_ok_iff, Tree.eq_text_iff_of_same h]

theorem exists_mapM_ofTree_of_sameMembers (h : Tree.SameMembers items others)
    (hread : items.mapM (ofTree kinds transformed) = .ok columns) :
    ∃ columns', others.mapM (ofTree kinds transformed) = .ok columns' ∧ ∀ c, c ∈ columns' ↔ c ∈ columns := by
  obtain ⟨columns', hread'⟩ : ∃ columns', others.mapM (ofTree kinds transformed) = .ok columns' := by
    refine exists_mapM_eq_ok fun u hu => ?_
    obtain ⟨t, ht, hsame⟩ := h.right u hu
    obtain ⟨c, hc⟩ := exists_of_mapM hread t ht
    exact ⟨c, (ofTree_eq_ok_iff_of_same hsame c).2 hc⟩
  refine ⟨columns', hread', fun c => ?_⟩
  rw [mem_iff_of_mapM hread', mem_iff_of_mapM hread]
  constructor
  · rintro ⟨u, hu, hc⟩
    obtain ⟨t, ht, hsame⟩ := h.right u hu
    exact ⟨t, ht, (ofTree_eq_ok_iff_of_same hsame c).1 hc⟩
  · rintro ⟨t, ht, hc⟩
    obtain ⟨u, hu, hsame⟩ := h.left t ht
    exact ⟨u, hu, (ofTree_eq_ok_iff_of_same hsame c).1 hc⟩

end Column

theorem Order.ofTree_eq_ok_of_mem_iff {columns columns' : List Column} (h : ∀ c, c ∈ columns' ↔ c ∈ columns)
    {t : Tree} {o : Order} (hread : ofTree columns t = .ok o) : ofTree columns' t = .ok o := by
  obtain ⟨hshape, hkeys⟩ := ofTree_eq_ok_iff.1 hread
  refine ofTree_eq_ok_iff.2 ⟨hshape, fun key hkey => ?_⟩
  obtain ⟨c, hc, rfl⟩ := List.mem_map.1 (hkeys key hkey)
  exact List.mem_map_of_mem ((h c).2 hc)

namespace Options

def withColumns (o : Options) (columns : List Column) : Options := { o with columns }

variable {o : Options} {columns : List Column}

theorem mem_attributes_withColumns (h : ∀ c, c ∈ columns ↔ c ∈ o.columns) (a : Attribute) :
    a ∈ (o.withColumns columns).attributes ↔ a ∈ o.attributes := by
  unfold attributes
  rw [List.mem_filterMap, List.mem_filterMap]
  exact exists_congr fun c => and_congr_left' (h c)

theorem ofTree_insert_columns {kinds : Entries Kind} {transformations : Option (Entries Tree)}
    {entries : Entries Tree} {items others : List Tree} (hitems : entries.lookup "COLUMNS" = some (.array items))
    (hsame : Tree.SameMembers items others) (h : ofTree kinds transformations entries = .ok o) :
    ∃ columns, ofTree kinds transformations (Entries.insert entries "COLUMNS" (.array others)) =
        .ok (o.withColumns columns) ∧ ∀ c, c ∈ columns ↔ c ∈ o.columns := by
  obtain ⟨hkeys, hknown, hgroup, hdataset, horder⟩ := ofTree_eq_ok_iff.1 h
  obtain rfl : items = o.keys.map .text := Tree.array.inj (Option.some.inj (hitems.symm.trans hkeys))
  obtain ⟨columns, hread, hmem⟩ := Column.exists_mapM_ofTree_of_sameMembers hsame
    (Column.mapM_ofTree_eq_ok_iff.2 ⟨rfl, hknown⟩)
  obtain ⟨hothers, hknown'⟩ := Column.mapM_ofTree_eq_ok_iff.1 hread
  have hattributes := mem_attributes_withColumns hmem
  refine ⟨columns, ofTree_eq_ok_iff.2 ⟨?_, hknown', fun hnil => hgroup ?_, fun a ha => ?_, ?_⟩, hmem⟩
  · rw [Entries.lookup_insert, if_pos rfl, hothers]
    rfl
  · refine List.eq_nil_iff_forall_not_mem.2 fun a ha => ?_
    exact List.eq_nil_iff_forall_not_mem.1 hnil a ((hattributes a).2 ha)
  · exact hdataset a ((hattributes a).1 ha)
  · rw [Entries.lookup_insert, if_neg (by decide)]
    rcases optionMapM_eq_ok_iff.1 horder with ⟨hnone, hplain⟩ | ⟨t, order, ht, hordered, hshape⟩
    · exact optionMapM_eq_ok_iff.2 (.inl ⟨hnone, hplain⟩)
    · exact optionMapM_eq_ok_iff.2 (.inr ⟨t, order, ht, hordered, Order.ofTree_eq_ok_of_mem_iff hmem hshape⟩)

end Options

namespace Plan

def withColumns (p : Plan) (columns : List Column) : Plan := { p with options := p.options.withColumns columns }

theorem ofTree_withColumns {kinds : Entries Kind} {query : Tree} {p : Plan} {items others : List Tree}
    (hitems : query.part? "OPTIONS" "COLUMNS" = some (.array items)) (hsame : Tree.SameMembers items others)
    (h : ofTree kinds query = .ok p) :
    ∃ columns, ofTree kinds (query.withPart "OPTIONS" "COLUMNS" (.array others)) = .ok (p.withColumns columns) ∧
      ∀ c, c ∈ columns ↔ c ∈ p.options.columns := by
  obtain ⟨root, options, transformations, kind, whereTree, rfl, hoptions, htransformations, ho, hkind,
    htransformation, hwhere, hfilter⟩ := ofTree_eq_ok_iff.1 h
  obtain ⟨root', options', hroot, hoptions', hcolumns⟩ := Tree.part?_eq_some_iff.1 hitems
  obtain rfl := Tree.object.inj hroot
  obtain rfl := Tree.object.inj (Option.some.inj (hoptions.symm.trans hoptions'))
  obtain ⟨columns, ho', hmem⟩ := Options.ofTree_insert_columns hcolumns hsame ho
  refine ⟨columns, ?_, hmem⟩
  rw [Tree.withPart_object hoptions]
  refine ofTree_eq_ok_iff.2 ⟨_, _, transformations, kind, whereTree, rfl, ?_, ?_, ho', hkind, ?_, ?_, hfilter⟩
  · rw [Entries.lookup_insert, if_pos rfl]
  · rwa [Entries.lookup_insert, if_neg (by decide)]
  · rcases optionMapM_eq_ok_iff.1 htransformation with ⟨hnone, hplain⟩ | ⟨entries, t, hsome, hgrouped, hread⟩
    · exact optionMapM_eq_ok_iff.2 (.inl ⟨hnone, hplain⟩)
    · obtain ⟨hgroup, happly, hfits, hhas⟩ := Transformation.ofTree_eq_ok_iff.1 hread
      refine optionMapM_eq_ok_iff.2 (.inr ⟨entries, t, hsome, hgrouped, ?_⟩)
      exact Transformation.ofTree_eq_ok_iff.2 ⟨hgroup, happly, hfits, fun c hc => hhas c ((hmem c).1 hc)⟩
  · rwa [Entries.lookup_insert, if_neg (by decide)]

end Plan

/-- All that the check asks of columns is that there are any. -/
theorem Grammar.check_columns_of_sameMembers {items others : List Tree} (h : Tree.SameMembers items others) :
    check "COLUMNS" (.array others) = check "COLUMNS" (.array items) := by
  cases items with
  | nil =>
    cases others with
    | nil => rfl
    | cons u us =>
      obtain ⟨t, ht, -⟩ := h.right u (List.mem_cons_self ..)
      cases ht
  | cons t ts =>
    cases others with
    | nil =>
      obtain ⟨u, hu, -⟩ := h.left t (List.mem_cons_self ..)
      cases hu
    | cons u us => rfl

end CampusQuery
