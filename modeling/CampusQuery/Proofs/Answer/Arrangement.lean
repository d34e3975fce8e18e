import CampusQuery.Answer
import CampusQuery.Proofs.Entries
import CampusQuery.Proofs.Grammar.Rules
import CampusQuery.Proofs.Order.Stable
import CampusQuery.Proofs.Plan.Reading

/-! The part that ORDER has in an answer: it arranges the records, and a query without it has the same
plan otherwise. -/

namespace CampusQuery

namespace Tree

def columns? (query : Tree) : Option Tree := (query.get? "OPTIONS").bind (·.get? "COLUMNS")

def order? (query : Tree) : Option Tree := (query.get? "OPTIONS").bind (·.get? "ORDER")

/-- The query with no ORDER in its OPTIONS. -/
def withoutOrder : Tree → Tree
  | .object root =>
    match root.lookup "OPTIONS" with
    | some (.object options) =>
      .object (Entries.insert root "OPTIONS" (.object (options.filter (·.1 != "ORDER"))))
    | _ => .object root
  | t => t

end Tree

theorem capped_eq {α : Type} (limit : ℕ) (xs : List α) :
    capped limit xs = if limit < xs.length then .error (.resultTooLarge limit xs.length) else .ok xs := rfl

namespace Context

theorem lookup_kinds (ctx : Context) (id : String) :
    ctx.kinds.lookup id = (ctx.dataset? id).map Dataset.kind :=
  Entries.lookup_map Dataset.kind ctx.datasets id

theorem plan_eq_ok_iff {ctx : Context} {query : Tree} {p : Plan} :
    ctx.plan query = .ok p ↔ Grammar.checkQuery query = .ok () ∧ Plan.ofTree ctx.kinds query = .ok p :=
  check_bind_eq_ok_iff

theorem answer_of_plan {ctx : Context} {query : Tree} {p : Plan} (h : ctx.plan query = .ok p) :
    ctx.answer query = p.answer ctx := by
  unfold answer
  rw [h]
  rfl

theorem answer_eq_ok_iff {ctx : Context} {query : Tree} {records : List Record} :
    ctx.answer query = .ok records ↔ ∃ p, ctx.plan query = .ok p ∧ p.answer ctx = .ok records := by
  cases h : ctx.plan query with
  | ok p => simp [answer_of_plan h]
  | error fault =>
    unfold answer
    rw [h]
    exact ⟨nofun, fun ⟨_, hp, _⟩ => nomatch hp⟩

end Context

namespace Plan

def unordered (p : Plan) : Plan := { p with options := { p.options with order := none } }

theorem answer_of_dataset {p : Plan} {ctx : Context} {d : Dataset}
    (h : ctx.dataset? p.options.datasetId = some d) :
    p.answer ctx =
      if ctx.cap < (p.records (p.matching d)).length then
        .error (.resultTooLarge ctx.cap (p.records (p.matching d)).length)
      else .ok (p.arrange (p.records (p.matching d))) := by
  unfold answer
  simp only [h, capped_eq]
  split <;> rfl

theorem eq_arrange_of_answer {p : Plan} {ctx : Context} {d : Dataset} {records : List Record}
    (hd : ctx.dataset? p.options.datasetId = some d) (h : p.answer ctx = .ok records) :
    records = p.arrange (p.records (p.matching d)) := by
  rw [answer_of_dataset hd] at h
  split at h
  · cases h
  · exact (Except.ok.inj h).symm

end Plan

namespace Order

/-- The order of a query that has passed the check has a key. -/
theorem keys_ne_nil_of_check {t : Tree} (hcheck : Grammar.check "ORDER" t = .ok ()) {o : Order}
    (h : shape t = .ok o) : o.keys ≠ [] := by
  rcases shape_eq_ok_iff.1 h with ⟨key, -, rfl⟩ | ⟨entries, dir, rfl, -, -, hitems⟩
  · exact List.cons_ne_nil key []
  · rcases Grammar.check_order_iff.1 hcheck with ⟨key, hkey⟩ | ⟨entries', heq, -, ⟨items, hlookup, hne⟩, -⟩
    · cases hkey
    · obtain rfl := Tree.object.inj heq
      obtain rfl := Tree.array.inj (Option.some.inj (hlookup.symm.trans hitems))
      exact fun hnil => hne (by rw [hnil]; rfl)

end Order

namespace Context

variable {ctx : Context} {query : Tree} {p : Plan}

/-- Records are arranged as the query's own ORDER says. -/
theorem arranged_of_plan (h : ctx.plan query = .ok p) (rs : List Record) :
    Arranged query.order? rs (p.arrange rs) := by
  obtain ⟨hcheck, hplan⟩ := plan_eq_ok_iff.1 h
  obtain ⟨root, options, transformations, kind, whereTree, rfl, hoptions, -, ho, -⟩ :=
    Plan.ofTree_eq_ok_iff.1 hplan
  obtain ⟨-, -, -, -, horder⟩ := Options.ofTree_eq_ok_iff.1 ho
  have horder? : (Tree.object root).order? = options.lookup "ORDER" := by
    simp [Tree.order?, Tree.get?, Tree.object?, hoptions]
  rw [horder?]
  unfold Plan.arrange
  rcases optionMapM_eq_ok_iff.1 horder with ⟨hnone, hplain⟩ | ⟨t, o, hsome, hordered, hread⟩
  · rw [hnone, hplain]
    rfl
  · rw [hsome, hordered]
    obtain ⟨root', hroot, -, ⟨t', hoptions', hcheckOptions⟩, -⟩ := Grammar.checkQuery_eq_ok_iff.1 hcheck
    obtain rfl := Tree.object.inj hroot
    obtain rfl := Option.some.inj (hoptions.symm.trans hoptions')
    obtain ⟨entries, hentries, -, -, hcheckOrder, -⟩ := Grammar.check_options_iff.1 hcheckOptions
    obtain rfl := Tree.object.inj hentries
    have hshape := (Order.ofTree_eq_ok_iff.1 hread).1
    exact Order.arranged hshape (Order.keys_ne_nil_of_check (hcheckOrder t hsome) hshape) rs

/-- Where there is one record for each of `xs`, these are answered unless they are too many. -/
theorem answer_of_records_eq_map {α : Type} {xs : List α} {f : α → Record} {d : Dataset}
    (h : ctx.plan query = .ok p) (hd : ctx.dataset? p.options.datasetId = some d)
    (hrecords : p.records (p.matching d) = xs.map f) :
    if ctx.cap < xs.length then ctx.answer query = .error (.resultTooLarge ctx.cap xs.length)
    else ∃ records, ctx.answer query = .ok records ∧ records.length = xs.length ∧
      records.Perm (xs.map f) ∧ Arranged query.order? (xs.map f) records := by
  rw [answer_of_plan h, Plan.answer_of_dataset hd, hrecords, List.length_map]
  split
  · rfl
  · have harranged := arranged_of_plan h (xs.map f)
    have hperm := harranged.perm
    refine ⟨_, rfl, ?_, hperm, harranged⟩
    rw [hperm.length_eq, List.length_map]

theorem checkQuery_withoutOrder (h : Grammar.checkQuery query = .ok ()) :
    Grammar.checkQuery query.withoutOrder = .ok () := by
  obtain ⟨root, rfl, hwhere, ⟨t, hoptions, hcheck⟩, htransformations, hkeys, hnodup⟩ :=
    Grammar.checkQuery_eq_ok_iff.1 h
  obtain ⟨options, rfl, hlength, hcolumns, -, hnames, hoptionsNodup⟩ := Grammar.check_options_iff.1 hcheck
  have hfiltered : Grammar.check "OPTIONS" (.object (options.filter (·.1 != "ORDER"))) = .ok () := by
    refine Grammar.check_options_iff.2 ⟨_, rfl, (List.length_filter_le ..).trans hlength, ?_, ?_, ?_,
      hoptionsNodup.sublist (List.filter_sublist.map _)⟩
    · rwa [Entries.lookup_filter_ne, if_neg (by decide)]
    · intro t ht
      rw [Entries.lookup_filter_ne, if_pos rfl] at ht
      cases ht
    · exact fun e he => hnames e (List.mem_filter.1 he).1
  have hmem : "OPTIONS" ∈ Entries.keys root := Entries.mem_keys_of_lookup hoptions
  unfold Tree.withoutOrder
  simp only [hoptions]
  refine Grammar.checkQuery_eq_ok_iff.2 ⟨_, rfl, ?_, ⟨_, ?_, hfiltered⟩, ?_, ?_,
    Entries.nodup_keys_insert hnodup _ _⟩
  · rwa [Entries.lookup_insert, if_neg (by decide)]
  · rw [Entries.lookup_insert, if_pos rfl]
  · rwa [Entries.lookup_insert, if_neg (by decide)]
  · intro e he
    obtain ⟨e', he', hname⟩ := List.mem_map.1 (Entries.key_mem_of_mem_insert hmem he)
    exact hname ▸ hkeys e' he'

theorem plan_withoutOrder (h : ctx.plan query = .ok p) :
    ctx.plan query.withoutOrder = .ok p.unordered := by
  obtain ⟨hcheck, hplan⟩ := plan_eq_ok_iff.1 h
  refine plan_eq_ok_iff.2 ⟨checkQuery_withoutOrder hcheck, ?_⟩
  obtain ⟨root, options, transformations, kind, whereTree, rfl, hoptions, htransformations, ho, hkind,
    htransformation, hwhere, hfilter⟩ := Plan.ofTree_eq_ok_iff.1 hplan
  obtain ⟨hkeys, hknown, hgroup, hall, -⟩ := Options.ofTree_eq_ok_iff.1 ho
  unfold Tree.withoutOrder
  simp only [hoptions]
  refine Plan.ofTree_eq_ok_iff.2 ⟨_, options.filter (·.1 != "ORDER"), transformations, kind, whereTree,
    rfl, ?_, ?_, ?_, hkind, htransformation, ?_, hfilter⟩
  · rw [Entries.lookup_insert, if_pos rfl]
  · rwa [Entries.lookup_insert, if_neg (by decide)]
  · refine Options.ofTree_eq_ok_iff.2 ⟨?_, hknown, hgroup, hall, ?_⟩
    · rwa [Entries.lookup_filter_ne, if_neg (by decide)]
    · rw [Entries.lookup_filter_ne, if_pos rfl]
      rfl
  · rwa [Entries.lookup_insert, if_neg (by decide)]

/-- Whether a query is answered does not hang on its ORDER. -/
theorem answered_withoutOrder_iff (h : ctx.plan query = .ok p) :
    (∃ records, ctx.answer query.withoutOrder = .ok records) ↔ ∃ records, ctx.answer query = .ok records := by
  rw [answer_of_plan h, answer_of_plan (plan_withoutOrder h)]
  cases hd : ctx.dataset? p.options.datasetId with
  | none =>
    have hd' : ctx.dataset? p.unordered.options.datasetId = none := hd
    simp only [Plan.answer, hd, hd']
    exact Iff.rfl
  | some d =>
    rw [Plan.answer_of_dataset hd, Plan.answer_of_dataset (p := p.unordered) hd]
    have hrecords : p.unordered.records (p.unordered.matching d) = p.records (p.matching d) := rfl
    rw [hrecords]
    by_cases hlarge : ctx.cap < (p.records (p.matching d)).length
    · rw [if_pos hlarge, if_pos hlarge]
    · rw [if_neg hlarge, if_neg hlarge]
      exact ⟨fun _ => ⟨_, rfl⟩, fun _ => ⟨_, rfl⟩⟩

end Context

end CampusQuery
