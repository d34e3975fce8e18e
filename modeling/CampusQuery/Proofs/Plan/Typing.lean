import CampusQuery.Proofs.Answer.Arrangement
import CampusQuery.Proofs.Filter.Meaning
import CampusQuery.Proofs.Transformation.Reading

/-! What the names in a plan stand for. Main statement: a query that is read as a plan names fields of one
dataset and, where it has transformations, what these have one value of for each group. -/

namespace CampusQuery

namespace Options

theorem mem_attributes_iff {o : Options} {a : Attribute} : a ∈ o.attributes ↔ .field a ∈ o.columns := by
  refine List.mem_filterMap.trans ⟨fun ⟨c, hc, ha⟩ => ?_, fun ha => ⟨_, ha, rfl⟩⟩
  cases c with
  | field b => exact Option.some.inj ha ▸ hc
  | apply name => cases ha

theorem mem_applyNames_iff {o : Options} {name : String} : name ∈ o.applyNames ↔ .apply name ∈ o.columns := by
  refine List.mem_filterMap.trans ⟨fun ⟨c, hc, hname⟩ => ?_, fun hname => ⟨_, hname, rfl⟩⟩
  cases c with
  | field b => cases hname
  | apply other => exact Option.some.inj hname ▸ hc

variable {kinds : Entries Kind} {transformations : Option (Entries Tree)} {entries : Entries Tree}
  {o : Options}

theorem order_of_ofTree (h : ofTree kinds transformations entries = .ok o) :
    ∀ order, o.order = some order → ∀ key ∈ order.keys, key ∈ o.keys := by
  intro order horder
  obtain ⟨-, -, -, -, hmap⟩ := ofTree_eq_ok_iff.1 h
  rw [horder] at hmap
  rcases optionMapM_eq_ok_iff.1 hmap with ⟨-, hnone⟩ | ⟨t, order', -, hsome, hread⟩
  · cases hnone
  · obtain rfl := Option.some.inj hsome
    exact (Order.ofTree_eq_ok_iff.1 hread).2

/-- The fields among the columns are all of the one dataset. -/
theorem liesIn_of_ofTree (h : ofTree kinds transformations entries = .ok o) {kind : Kind}
    (hkind : kinds.lookup o.datasetId = some kind) {a : Attribute} (ha : .field a ∈ o.columns) :
    a.LiesIn ⟨o.datasetId, kind⟩ := by
  obtain ⟨-, hknown, -, hdataset, -⟩ := ofTree_eq_ok_iff.1 h
  obtain ⟨kind', hkind', hof, hid⟩ := hknown _ ha
  have hsame : a.datasetId = o.datasetId := hdataset a (mem_attributes_iff.2 ha)
  rw [hsame, hkind] at hkind'
  exact ⟨Option.some.inj hkind' ▸ hof, hsame, hid⟩

end Options

namespace Plan

/-- What the plan is about if its dataset is of the given kind. -/
def scope (p : Plan) (kind : Kind) : Scope := ⟨p.options.datasetId, kind⟩

structure Typed (p : Plan) (kind : Kind) : Prop where
  field : ∀ a, .field a ∈ p.options.columns → a.LiesIn (p.scope kind)
  applied : ∀ name, .apply name ∈ p.options.columns →
    isApplyName name = true ∧ p.transformation.isSome = true
  transformation : ∀ t, p.transformation = some t →
    t.Fits (p.scope kind) ∧ ∀ c ∈ p.options.columns, t.Has c
  order : ∀ o, p.options.order = some o → ∀ key ∈ o.keys, key ∈ p.options.keys

/-- The parts of a query, as a plan and the kind of its dataset are read off them. -/
structure ReadOff (query : Tree) (p : Plan) (kind : Kind) : Prop where
  columns : query.columns? = some (.array (p.options.keys.map .text))
  filter : ∃ t, query.get? "WHERE" = some t ∧ (p.filter = none ↔ t = .object []) ∧
    Filter.ofWhere (p.scope kind) t = .ok p.filter
  ungrouped : p.transformation = none → query.get? "TRANSFORMATIONS" = none
  grouped : ∀ t, p.transformation = some t → ∃ transformations,
    query.get? "TRANSFORMATIONS" = some transformations ∧
      transformations.get? "GROUP" = some (.array (t.group.map (.text ·.key))) ∧
      transformations.get? "APPLY" = some (.array (t.apply.map Application.toTree))
  typed : p.Typed kind

theorem readOff_of_ofTree {kinds : Entries Kind} {query : Tree} {p : Plan} (h : ofTree kinds query = .ok p) :
    ∃ kind, kinds.lookup p.options.datasetId = some kind ∧ ReadOff query p kind := by
  obtain ⟨root, options, transformations, kind, whereTree, rfl, hoptions, htransformations, ho, hkind,
    htransformation, hwhere, hfilter⟩ := ofTree_eq_ok_iff.1 h
  obtain ⟨hcolumns, hknown, -⟩ := Options.ofTree_eq_ok_iff.1 ho
  have hcolumns' : (Tree.object root).columns? = some (.array (p.options.keys.map .text)) := by
    simp [Tree.columns?, Tree.get?, Tree.object?, hoptions, hcolumns]
  have hnofilter : p.filter = none ↔ whereTree = .object [] := by
    rw [← Filter.ofWhere_eq_none_iff, hfilter]
    exact Except.ok.injEq .. ▸ Iff.rfl
  have happlied (name : String) (hname : .apply name ∈ p.options.columns) := hknown _ hname
  refine ⟨kind, hkind, ?_⟩
  rcases optionMapM_eq_ok_iff.1 htransformation with ⟨rfl, hnone⟩ | ⟨entries, t, rfl, hsome, hread⟩
  · refine ⟨hcolumns', ⟨whereTree, hwhere, hnofilter, hfilter⟩, fun _ => htransformations, ?_, ?_⟩
    · intro t ht
      cases hnone.symm.trans ht
    · refine ⟨fun a ha => Options.liesIn_of_ofTree ho hkind ha, ?_, ?_, Options.order_of_ofTree ho⟩
      · intro name hname
        cases (happlied name hname).2
      · intro t ht
        cases hnone.symm.trans ht
  · obtain ⟨hgroup, happly, hfits⟩ := Transformation.ofTree_eq_ok_iff.1 hread
    refine ⟨hcolumns', ⟨whereTree, hwhere, hnofilter, hfilter⟩, ?_, ?_, ?_⟩
    · intro hnone
      cases hsome.symm.trans hnone
    · intro t' ht'
      obtain rfl := Option.some.inj (hsome.symm.trans ht')
      exact ⟨.object entries, htransformations, hgroup, happly⟩
    · refine ⟨fun a ha => Options.liesIn_of_ofTree ho hkind ha, ?_, ?_, Options.order_of_ofTree ho⟩
      · intro name hname
        exact ⟨(happlied name hname).1, by rw [hsome]; rfl⟩
      · intro t' ht'
        obtain rfl := Option.some.inj (hsome.symm.trans ht')
        exact hfits

end Plan

namespace Context

/-- A query that has a plan is about a dataset of the context. -/
theorem exists_readOff {ctx : Context} {query : Tree} {p : Plan} (h : ctx.plan query = .ok p) :
    ∃ d, ctx.dataset? p.options.datasetId = some d ∧ p.ReadOff query d.kind := by
  obtain ⟨kind, hkind, hread⟩ := Plan.readOff_of_ofTree (plan_eq_ok_iff.1 h).2
  rw [lookup_kinds] at hkind
  obtain ⟨d, hd, rfl⟩ := Option.map_eq_some_iff.1 hkind
  exact ⟨d, hd, hread⟩

end Context

end CampusQuery
