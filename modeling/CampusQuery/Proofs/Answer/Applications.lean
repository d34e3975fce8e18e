import CampusQuery.Proofs.Answer.Grouped
import CampusQuery.Proofs.Answer.Outcomes
import CampusQuery.Proofs.Grammar.Part
import CampusQuery.Proofs.Plan.Surplus

/-! What the entries of APPLY that no column names do to an answer. Main statement: a planned query keeps its
outcome when such entries are left out and the others come in any order. -/

namespace CampusQuery

/-- What is taken from the images of a list are images of what is taken from the list. -/
theorem exists_subset_of_subset_map {α β : Type} {f : α → β} {xs : List α} {ys : List β} (h : ys ⊆ xs.map f) :
    ∃ zs, zs ⊆ xs ∧ ys = zs.map f := by
  induction ys with
  | nil => exact ⟨[], List.nil_subset xs, rfl⟩
  | cons y ys ih =>
    obtain ⟨hy, hys⟩ := List.cons_subset.1 h
    obtain ⟨z, hz, rfl⟩ := List.mem_map.1 hy
    obtain ⟨zs, hzs, rfl⟩ := ih hys
    exact ⟨z :: zs, List.cons_subset.2 ⟨hz, hzs⟩, rfl⟩

theorem Application.name_eq_of_toTree_eq {a b : Application} (h : a.toTree = b.toTree) : a.name = b.name := by
  have hnames : a.toTree.names = b.toTree.names := congrArg Tree.names h
  exact (List.cons.inj hnames).1

namespace Transformation

variable {t : Transformation} {scope : Scope} {apply : List Application}

def withApply (t : Transformation) (apply : List Application) : Transformation := { t with apply }

theorem Fits.withApply (h : t.Fits scope) (hsubset : apply ⊆ t.apply) (hnodup : apply.Nodup) :
    (t.withApply apply).Fits scope := by
  refine ⟨h.group_ne_nil, h.group, fun a ha => h.apply a (hsubset ha), hnodup.map_on fun a ha b hb hname => ?_⟩
  exact List.inj_on_of_nodup_map h.names_nodup (hsubset ha) (hsubset hb) hname

theorem Fits.nodup_toTree (h : t.Fits scope) : (t.apply.map Application.toTree).Nodup := by
  refine (List.Nodup.of_map _ h.names_nodup).map_on fun a ha b hb htree => ?_
  exact List.inj_on_of_nodup_map h.names_nodup ha hb (Application.name_eq_of_toTree_eq htree)

/-- For records of the columns, it does not matter which of the two transformations there is. -/
structure AlikeFor (columns : List Column) (t other : Transformation) : Prop where
  group : other.group = t.group
  application : ∀ name, .apply name ∈ columns → other.application? name = t.application? name

theorem Fits.alikeFor_withApply (h : t.Fits scope) (hsubset : apply ⊆ t.apply) (hnodup : apply.Nodup)
    {columns : List Column} (hkept : ∀ name, .apply name ∈ columns → ∃ a ∈ apply, a.name = name) :
    t.AlikeFor columns (t.withApply apply) := by
  refine ⟨rfl, fun name hname => ?_⟩
  obtain ⟨a, ha, rfl⟩ := hkept name hname
  rw [h.application?_eq_some_iff.2 ⟨hsubset ha, rfl⟩]
  exact (h.withApply hsubset hnodup).application?_eq_some_iff.2 ⟨ha, rfl⟩

/-- The entries that are kept come of some of the applications, and all that columns name are among these. -/
theorem ofTree_insert_apply {columns : List Column} {entries : Entries Tree} {items kept : List Tree}
    (hitems : entries.lookup "APPLY" = some (.array items)) (hsub : kept.Subperm items)
    (hkept : ∀ item ∈ items, ∀ name ∈ item.names, .apply name ∈ columns → item ∈ kept)
    (h : ofTree scope columns entries = .ok t) :
    ∃ other, ofTree scope columns (Entries.insert entries "APPLY" (.array kept)) = .ok other ∧
      t.AlikeFor columns other := by
  obtain ⟨hgroup, happly, hfits, hhas⟩ := ofTree_eq_ok_iff.1 h
  obtain rfl := Tree.array.inj (Option.some.inj (hitems.symm.trans happly))
  obtain ⟨apply, hsubset, rfl⟩ := exists_subset_of_subset_map hsub.subset
  have hnodup : apply.Nodup := by
    obtain ⟨ordered, hperm, hsublist⟩ := hsub
    exact .of_map _ (hperm.nodup_iff.1 (hfits.nodup_toTree.sublist hsublist))
  have hnamed (name : String) (hname : .apply name ∈ columns) : ∃ a ∈ apply, a.name = name := by
    obtain ⟨a, ha, rfl⟩ := hhas _ hname
    have hmem := hkept a.toTree (List.mem_map_of_mem ha) a.name (List.mem_singleton_self _) hname
    obtain ⟨b, hb, htree⟩ := List.mem_map.1 hmem
    exact ⟨b, hb, Application.name_eq_of_toTree_eq htree⟩
  refine ⟨t.withApply apply, ofTree_eq_ok_iff.2 ⟨?_, ?_, hfits.withApply hsubset hnodup, fun c hc => ?_⟩, ?_⟩
  · rwa [Entries.lookup_insert, if_neg (by decide)]
  · rw [Entries.lookup_insert, if_pos rfl]
    rfl
  · rcases c with a | name
    · exact hhas _ hc
    · exact hnamed name hc
  · exact hfits.alikeFor_withApply hsubset hnodup hnamed

end Transformation

theorem Record.ofGroup_eq_of_alikeFor {t other : Transformation} {columns : List Column}
    (h : t.AlikeFor columns other) (group : List Row) : ofGroup other columns group = ofGroup t columns group := by
  unfold ofGroup
  refine congrArg _ (List.filterMap_congr fun c hc => ?_)
  rcases c with a | name
  · rfl
  · simp only [h.application name hc]

/-- Options need no more of the transformations than their GROUP. -/
theorem Options.ofTree_insert_apply (kinds : Entries Kind) (transformations entries : Entries Tree) (u : Tree) :
    ofTree kinds (some (Entries.insert transformations "APPLY" u)) entries =
      ofTree kinds (some transformations) entries := by
  have hgroup : groupDatasetId kinds (some (Entries.insert transformations "APPLY" u)) =
      groupDatasetId kinds (some transformations) := by
    unfold groupDatasetId
    rw [Option.bind_some, Option.bind_some, Entries.lookup_insert, if_neg (by decide)]
  have hdataset : datasetIdOf kinds (some (Entries.insert transformations "APPLY" u)) =
      datasetIdOf kinds (some transformations) := by
    funext attributes
    cases attributes with
    | nil => exact hgroup
    | cons a rest => rfl
  unfold ofTree
  rw [hdataset]
  rfl

namespace Plan

def withTransformation (p : Plan) (t : Transformation) : Plan := { p with transformation := some t }

variable {p : Plan} {t other : Transformation}

theorem ofTree_withApply {kinds : Entries Kind} {query : Tree} {items kept : List Tree}
    (hitems : query.part? "TRANSFORMATIONS" "APPLY" = some (.array items)) (hsub : kept.Subperm items)
    (hkept : ∀ item ∈ items, ∀ name ∈ item.names, .apply name ∈ p.options.columns → item ∈ kept)
    (h : ofTree kinds query = .ok p) :
    ∃ t other, p.transformation = some t ∧ t.AlikeFor p.options.columns other ∧
      ofTree kinds (query.withPart "TRANSFORMATIONS" "APPLY" (.array kept)) = .ok (p.withTransformation other) := by
  obtain ⟨root, options, transformations, kind, whereTree, rfl, hoptions, htransformations, ho, hkind,
    htransformation, hwhere, hfilter⟩ := ofTree_eq_ok_iff.1 h
  obtain ⟨root', entries, hroot, hentries, hlookup⟩ := Tree.part?_eq_some_iff.1 hitems
  obtain rfl := Tree.object.inj hroot
  rcases optionMapM_eq_ok_iff.1 htransformation with ⟨rfl, -⟩ | ⟨entries', t, rfl, ht, hread⟩
  · cases htransformations.symm.trans hentries
  obtain rfl := Tree.object.inj (Option.some.inj (htransformations.symm.trans hentries))
  obtain ⟨other, hread', halike⟩ := Transformation.ofTree_insert_apply hlookup hsub hkept hread
  refine ⟨t, other, ht, halike, ?_⟩
  rw [Tree.withPart_object hentries]
  refine ofTree_eq_ok_iff.2 ⟨_, options, some (Entries.insert entries' "APPLY" (.array kept)), kind, whereTree,
    rfl, ?_, ?_, ?_, hkind, optionMapM_eq_ok_iff.2 (.inr ⟨_, _, rfl, rfl, hread'⟩), ?_, hfilter⟩
  · rwa [Entries.lookup_insert, if_neg (by decide)]
  · rw [Entries.lookup_insert, if_pos rfl]
    rfl
  · exact (Options.ofTree_insert_apply kinds entries' options _).trans ho
  · rwa [Entries.lookup_insert, if_neg (by decide)]

theorem records_withTransformation (ht : p.transformation = some t) (h : t.AlikeFor p.options.columns other)
    (rows : List Row) : (p.withTransformation other).records rows = p.records rows := by
  have hgroups : other.groups rows = t.groups rows := by
    unfold Transformation.groups
    rw [h.group]
  unfold records withTransformation
  rw [ht]
  simp only [hgroups]
  exact List.map_congr_left fun group _ => Record.ofGroup_eq_of_alikeFor h group

theorem answer_withTransformation {ctx : Context} {d : Dataset}
    (hd : ctx.dataset? p.options.datasetId = some d) (ht : p.transformation = some t)
    (h : t.AlikeFor p.options.columns other) : (p.withTransformation other).answer ctx = p.answer ctx := by
  have hd' : ctx.dataset? (p.withTransformation other).options.datasetId = some d := hd
  rw [answer_of_dataset hd, answer_of_dataset hd', records_withTransformation ht h]
  rfl

end Plan

/-- An APPLY that can be read passes the check. -/
theorem Grammar.check_apply_of_ofTree {kinds : Entries Kind} {query : Tree} {p : Plan} {items : List Tree}
    (hitems : query.part? "TRANSFORMATIONS" "APPLY" = some (.array items)) (h : Plan.ofTree kinds query = .ok p) :
    check "APPLY" (.array items) = .ok () := by
  obtain ⟨kind, -, hread⟩ := Plan.readOff_of_ofTree h
  obtain ⟨transformations, htransformations, happly⟩ := Option.bind_eq_some_iff.1 hitems
  obtain ⟨t, ht, -, happly'⟩ := hread.exists_transformation htransformations
  obtain rfl := Tree.array.inj (Option.some.inj (happly.symm.trans happly'))
  have hfits := (hread.typed.transformation t ht).1
  exact check_apply_iff.2 ⟨_, rfl, List.forall_mem_map.2 fun a ha => isApplyEntry_toTree (hfits.apply a ha)⟩

namespace Context

/-- The entries that are kept may be any of the query's own, in any order, as long as none is missing that bears the
name of a column. -/
theorem answer_apply_subperm {ctx : Context} {query : Tree} {p : Plan} {columns items kept : List Tree}
    (hplan : ctx.plan query = .ok p) (hcolumns : query.columns? = some (.array columns))
    (hitems : query.part? "TRANSFORMATIONS" "APPLY" = some (.array items)) (hsub : kept.Subperm items)
    (hkept : ∀ item ∈ items, ∀ name ∈ item.names, .text name ∈ columns → item ∈ kept) :
    (query.withPart "TRANSFORMATIONS" "APPLY" (.array kept)).part? "TRANSFORMATIONS" "APPLY" =
        some (.array kept) ∧
      ctx.answer (query.withPart "TRANSFORMATIONS" "APPLY" (.array kept)) = ctx.answer query ∧
      WithinCap ctx.cap (ctx.answer query) := by
  obtain ⟨hcheck, hread⟩ := plan_eq_ok_iff.1 hplan
  obtain ⟨d, hd, hreadOff⟩ := exists_readOff hplan
  obtain rfl := Tree.array.inj (Option.some.inj (hcolumns.symm.trans hreadOff.columns))
  have hpart := Tree.part?_withPart hitems (.array kept)
  obtain ⟨t, other, ht, halike, hread'⟩ := Plan.ofTree_withApply hitems hsub
    (fun item hitem name hname hcolumn => hkept item hitem name hname
      (List.mem_map_of_mem (List.mem_map_of_mem (f := Column.key) hcolumn))) hread
  have hsame : Grammar.check "APPLY" (.array kept) = Grammar.check "APPLY" (.array items) := by
    rw [Grammar.check_apply_of_ofTree hitems hread, Grammar.check_apply_of_ofTree hpart hread']
  have hplan' := plan_eq_ok_iff.2 ⟨(Grammar.checkQuery_withApply hitems hsame).trans hcheck, hread'⟩
  refine ⟨hpart, ?_, ?_⟩
  · rw [answer_of_plan hplan, answer_of_plan hplan', Plan.answer_withTransformation hd ht halike]
  · rw [answer_of_plan hplan]
    exact Plan.withinCap_of_dataset hd

def counted (name : String) : Tree := .object [(name, .object [("COUNT", .text "rooms_fullname")])]

def countsByBuilding (apply : List Tree) : Tree :=
  .object
    [("WHERE", .object []),
      ("OPTIONS", .object [("COLUMNS", .array [.text "rooms_fullname", .text "halls", .text "names"])]),
      ("TRANSFORMATIONS", .object [("GROUP", .array [.text "rooms_fullname"]), ("APPLY", .array apply)])]

def countsPlan : Plan where
  filter := none
  options :=
    { datasetId := "rooms"
      columns := [.field ⟨"rooms", "fullname", 0, .text⟩, .apply "halls", .apply "names"]
      order := none }
  transformation := some
    { group := [⟨"rooms", "fullname", 0, .text⟩]
      apply := ["names", "others", "halls"].map (⟨·, .count, ⟨"rooms", "fullname", 0, .text⟩⟩) }

theorem answer_apply_subperm_rooms :
    rooms.plan (countsByBuilding (["names", "others", "halls"].map counted)) = .ok countsPlan ∧
      (["halls", "names"].map counted).Subperm (["names", "others", "halls"].map counted) ∧
      rooms.answer (countsByBuilding (["halls", "names"].map counted)) =
        rooms.answer (countsByBuilding (["names", "others", "halls"].map counted)) := by
  have hplan : rooms.plan (countsByBuilding (["names", "others", "halls"].map counted)) = .ok countsPlan := rfl
  have hsub : (["halls", "names"].map counted).Subperm (["names", "others", "halls"].map counted) := by
    refine ⟨["names", "halls"].map counted, .swap _ _ _, List.Sublist.map _ ?_⟩
    decide
  refine ⟨hplan, hsub, (answer_apply_subperm hplan rfl rfl hsub fun item hitem name hname hcolumn => ?_).2.1⟩
  obtain ⟨other, hother, rfl⟩ := List.mem_map.1 hitem
  obtain rfl : name = other := List.mem_singleton.1 hname
  have hcolumn' : name ∈ ["rooms_fullname", "halls", "names"] := by simpa using hcolumn
  have hnames : ∀ name ∈ ["names", "others", "halls"], name ∈ ["rooms_fullname", "halls", "names"] →
      name ∈ ["halls", "names"] := by
    decide
  exact List.mem_map_of_mem (hnames name hother hcolumn')

end Context

end CampusQuery
