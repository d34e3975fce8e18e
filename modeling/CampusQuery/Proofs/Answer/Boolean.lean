import CampusQuery.Proofs.Answer.Equality
import CampusQuery.Proofs.Filter.Boolean
import CampusQuery.Proofs.Plan.Soundness
import CampusQuery.Proofs.Plan.Surplus

/-! Boolean algebra on whole queries. Main statement: a query has the same outcome with either side of
De Morgan's laws, or of the law of double negation, for its WHERE, and one that asks for a filter or its negation
has the outcome of the one that asks for nothing, as long as the rows fit. -/

namespace CampusQuery

/-- The query with another WHERE. -/
def Tree.withWhere (query t : Tree) : Tree :=
  match query with
  | .object root => .object (Entries.insert root "WHERE" t)
  | other => other

theorem Tree.withWhere_withWhere (query t u : Tree) : (query.withWhere t).withWhere u = query.withWhere u := by
  cases query with
  | object root => exact congrArg Tree.object (Entries.insert_insert root "WHERE" t u)
  | _ => rfl

theorem Tree.get?_withWhere {query t u : Tree} (h : (query.withWhere t).get? "WHERE" = some u) : u = t := by
  cases query with
  | object root =>
    have hlookup : (Entries.insert root "WHERE" t).lookup "WHERE" = some u := h
    rw [Entries.lookup_insert, if_pos rfl] at hlookup
    exact (Option.some.inj hlookup).symm
  | _ => cases h

theorem Grammar.checkQuery_withWhere {query t : Tree} (h : checkQuery query = .ok ())
    (ht : check "WHERE" t = .ok ()) : checkQuery (query.withWhere t) = .ok () := by
  obtain ⟨root, rfl, ⟨u, hwhere, -⟩, hoptions, htransformations, hkeys, hnodup⟩ := checkQuery_eq_ok_iff.1 h
  have hmem : "WHERE" ∈ Entries.keys root := Entries.mem_keys_of_lookup hwhere
  refine checkQuery_eq_ok_iff.2 ⟨_, rfl, ⟨t, ?_, ht⟩, ?_, ?_, fun e he => ?_,
    Entries.nodup_keys_insert hnodup _ _⟩
  · rw [Entries.lookup_insert, if_pos rfl]
  · rwa [Entries.lookup_insert, if_neg (by decide)]
  · rwa [Entries.lookup_insert, if_neg (by decide)]
  · obtain ⟨e', he', hname⟩ := List.mem_map.1 (Entries.key_mem_of_mem_insert hmem he)
    exact hname ▸ hkeys e' he'

theorem SameOutcome.symm {outcome other : Except Error (List Record)} (h : SameOutcome outcome other) :
    SameOutcome other outcome := by
  cases h with
  | answered records => exact .answered records
  | tooLarge limit count => exact .tooLarge limit count
  | invalid fault other => exact .invalid other fault

/-- Where all rows fit, a filter that accepts any row is none. -/
theorem Plan.matching_of_forall_accepts {p : Plan} (hnone : p.filter = none) {d : Dataset}
    (hrows : ∀ row ∈ d.rows, row.conforms d.kind = true) {f : Filter} (haccepts : ∀ row, f.accepts row = true) :
    ({ p with filter := some f } : Plan).matching d = p.matching d := by
  unfold matching
  rw [hnone]
  refine List.filter_eq_self.2 fun row hrow => ?_
  rw [Filter.keeps, hrows row hrow, haccepts row, Bool.and_self]

namespace Context

variable {ctx : Context} {query t u : Tree} {p : Plan} {d : Dataset}

/-- Another WHERE that can be read makes for another filter, and nothing else. -/
theorem plan_withWhere (h : ctx.plan query = .ok p) (hd : ctx.dataset? p.options.datasetId = some d)
    {filter : Option Filter} (hfilter : Filter.ofWhere (p.scope d.kind) t = .ok filter) :
    ctx.plan (query.withWhere t) = .ok { p with filter } := by
  obtain ⟨hcheck, hread⟩ := plan_eq_ok_iff.1 h
  have ht : Grammar.check "WHERE" t = .ok () := Grammar.check_where_iff.2 (Filter.isWhere_of_ofWhere hfilter)
  refine plan_eq_ok_iff.2 ⟨Grammar.checkQuery_withWhere hcheck ht, ?_⟩
  obtain ⟨root, options, transformations, kind, whereTree, rfl, hoptions, htransformations, ho, hkind,
    htransformation, -, -⟩ := Plan.ofTree_eq_ok_iff.1 hread
  obtain rfl : d.kind = kind := by simpa [lookup_kinds, hd] using hkind
  refine Plan.ofTree_eq_ok_iff.2 ⟨_, options, transformations, d.kind, t, rfl, ?_, ?_, ho, hkind,
    htransformation, ?_, hfilter⟩
  · rwa [Entries.lookup_insert, if_neg (by decide)]
  · rwa [Entries.lookup_insert, if_neg (by decide)]
  · rw [Entries.lookup_insert, if_pos rfl]

theorem ofWhere_of_plan_withWhere (h : ctx.plan (query.withWhere t) = .ok p)
    (hd : ctx.dataset? p.options.datasetId = some d) : Filter.ofWhere (p.scope d.kind) t = .ok p.filter := by
  obtain ⟨d', hd', hread⟩ := exists_readOff h
  obtain rfl := Option.some.inj (hd.symm.trans hd')
  obtain ⟨u, hu, -, hfilter⟩ := hread.filter
  exact Tree.get?_withWhere hu ▸ hfilter

theorem isId_of_plan (h : ctx.plan query = .ok p) : IsId p.options.datasetId := by
  obtain ⟨_, _, _, _, _, -, -, -, ho, -⟩ := Plan.ofTree_eq_ok_iff.1 (plan_eq_ok_iff.1 h).2
  exact Options.isId_of_ofTree ho

/-- Two conditions on one query lead to the same outcome if they let the same rows of its dataset pass and
each can be read where the other one can. -/
theorem sameOutcome_withWhere
    (hread : ∀ p d, ctx.plan (query.withWhere t) = .ok p → ctx.dataset? p.options.datasetId = some d →
      ∃ filter, Filter.ofWhere (p.scope d.kind) u = .ok filter ∧
        ({ p with filter } : Plan).matching d = p.matching d)
    (hback : ∀ p d, ctx.plan (query.withWhere u) = .ok p → ctx.dataset? p.options.datasetId = some d →
      ∃ filter, Filter.ofWhere (p.scope d.kind) t = .ok filter) :
    SameOutcome (ctx.answer (query.withWhere t)) (ctx.answer (query.withWhere u)) := by
  refine sameOutcome_of_plans (fun p hp => ?_) (fun q hq => ?_)
  · obtain ⟨d, hd, -⟩ := exists_readOff hp
    obtain ⟨filter, hfilter, hmatching⟩ := hread p d hp hd
    have hplan := plan_withWhere hp hd hfilter
    rw [Tree.withWhere_withWhere] at hplan
    refine ⟨_, hplan, Plan.answer_of_matching_eq fun d' hd' => ?_⟩
    obtain rfl := Option.some.inj (hd.symm.trans hd')
    exact hmatching
  · obtain ⟨d, hd, -⟩ := exists_readOff hq
    obtain ⟨filter, hfilter⟩ := hback q d hq hd
    have hplan := plan_withWhere hq hd hfilter
    rw [Tree.withWhere_withWhere] at hplan
    exact ⟨_, hplan⟩

theorem sameOutcome_of_restates (ctx : Context) (query : Tree)
    (h : ∀ scope : Scope, IsId scope.datasetId → Filter.Restates scope u t ∧ Filter.Restates scope t u) :
    SameOutcome (ctx.answer (query.withWhere t)) (ctx.answer (query.withWhere u)) := by
  refine sameOutcome_withWhere (fun p d hp hd => ?_) (fun p d hp hd => ?_)
  · obtain ⟨filter, hfilter, hagrees⟩ :=
      (h (p.scope d.kind) (isId_of_plan hp)).1 _ (ofWhere_of_plan_withWhere hp hd)
    exact ⟨filter, hfilter, Plan.matching_eq_of_agrees hagrees d⟩
  · obtain ⟨filter, hfilter, -⟩ :=
      (h (p.scope d.kind) (isId_of_plan hp)).2 _ (ofWhere_of_plan_withWhere hp hd)
    exact ⟨filter, hfilter⟩

theorem sameOutcome_or_negation
    (h : ∀ p d, ctx.plan (query.withWhere (.object [])) = .ok p → ctx.dataset? p.options.datasetId = some d →
      (∀ row ∈ d.rows, row.conforms d.kind = true) ∧
        ∃ f, Filter.ofTree (p.scope d.kind) (.notObject "WHERE") t = .ok f) :
    SameOutcome (ctx.answer (query.withWhere (Connective.or.join [t, t.negation])))
      (ctx.answer (query.withWhere (.object []))) := by
  refine (sameOutcome_withWhere (fun p d hp hd => ?_) (fun p d _ _ => ⟨none, rfl⟩)).symm
  obtain ⟨hrows, f, hf⟩ := h p d hp hd
  obtain ⟨g, hg, haccepts⟩ := Filter.exists_ofWhere_or_negation (isId_of_plan hp) hf
  have hnone : p.filter = none := (Except.ok.inj (ofWhere_of_plan_withWhere hp hd)).symm
  exact ⟨some g, hg, Plan.matching_of_forall_accepts hnone hrows haccepts⟩

/-- The rows have to fit for the last law alone, since only no filter lets a row pass that does not. -/
theorem answer_boolean (ctx : Context) (query : Tree) :
    (∀ (c : Connective) (ts : List Tree),
      SameOutcome (ctx.answer (query.withWhere (c.join ts).negation))
        (ctx.answer (query.withWhere (c.dual.join (ts.map .negation))))) ∧
      (∀ t : Tree, t ≠ .object [] →
        SameOutcome (ctx.answer (query.withWhere t.negation.negation)) (ctx.answer (query.withWhere t))) ∧
      ∀ t : Tree,
        (∀ p d, ctx.plan (query.withWhere (.object [])) = .ok p → ctx.dataset? p.options.datasetId = some d →
          (∀ row ∈ d.rows, row.conforms d.kind = true) ∧
            ∃ f, Filter.ofTree (p.scope d.kind) (.notObject "WHERE") t = .ok f) →
        SameOutcome (ctx.answer (query.withWhere (Connective.or.join [t, t.negation])))
          (ctx.answer (query.withWhere (.object []))) := by
  refine ⟨fun c ts => ?_, fun t hne => ?_, fun t h => sameOutcome_or_negation h⟩
  · exact sameOutcome_of_restates ctx query fun _ hid => Filter.restates_negation_join hid c ts
  · exact sameOutcome_of_restates ctx query fun _ hid => Filter.restates_negation_negation hid hne

def zeroAverage : Tree := .object [("EQ", .object [("courses_avg", .number .zero)])]

/-- The courses with or without a zero for an average are all courses. -/
theorem answer_boolean_zeros :
    zeroAverage ≠ .object [] ∧
      SameOutcome (zeros.answer ((coursesOfAverage .zero id).withWhere zeroAverage.negation.negation))
        (zeros.answer ((coursesOfAverage .zero id).withWhere zeroAverage)) ∧
      SameOutcome
        (zeros.answer ((coursesOfAverage .zero id).withWhere
          (Connective.or.join [zeroAverage, zeroAverage.negation])))
        (.ok [[("courses_id", .text "200")], [("courses_id", .text "310")]]) := by
  obtain ⟨-, hnegation, hor⟩ := answer_boolean zeros (coursesOfAverage .zero id)
  have hne : zeroAverage ≠ .object [] := by simp [zeroAverage]
  refine ⟨hne, hnegation zeroAverage hne, hor zeroAverage fun p d hp hd => ?_⟩
  obtain rfl : _ = p := Except.ok.inj hp
  obtain rfl : _ = d := Option.some.inj hd
  exact ⟨by decide, _, rfl⟩

end Context

end CampusQuery
