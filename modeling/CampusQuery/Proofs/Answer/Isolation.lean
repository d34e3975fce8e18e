import CampusQuery.Proofs.Answer.Ungrouped

/-! What an answer depends on. Main statement: contexts that have the same dataset under the id of a
query's plan, and the same cap, give the query the same answer, whatever else they hold. -/

namespace CampusQuery

variable {kinds others : Entries Kind}

/-- Of all kinds, a reading that succeeds has looked at one only. -/
theorem Options.ofTree_of_lookup_eq {transformations : Option (Entries Tree)} {entries : Entries Tree}
    {o : Options} (hkind : others.lookup o.datasetId = kinds.lookup o.datasetId)
    (h : ofTree kinds transformations entries = .ok o) : ofTree others transformations entries = .ok o := by
  obtain ⟨hkeys, hknown, hgroup, hdataset, horder⟩ := ofTree_eq_ok_iff.1 h
  refine ofTree_eq_ok_iff.2 ⟨hkeys, fun c hc => ?_, fun hnone => ?_, hdataset, horder⟩
  · rcases c with a | name
    · obtain ⟨kind, hlookup, hof, hid⟩ := hknown _ hc
      have hsame : a.datasetId = o.datasetId := hdataset a (mem_attributes_iff.2 hc)
      refine ⟨kind, ?_, hof, hid⟩
      rwa [hsame, hkind, ← hsame]
    · exact hknown _ hc
  · obtain ⟨entries', key, keys, field, htransformations, hkey, hsplit, hsome⟩ :=
      groupDatasetId_eq_ok_iff.1 (hgroup hnone)
    exact groupDatasetId_eq_ok_iff.2
      ⟨entries', key, keys, field, htransformations, hkey, hsplit, hkind ▸ hsome⟩

theorem Plan.ofTree_of_lookup_eq {query : Tree} {p : Plan}
    (hkind : others.lookup p.options.datasetId = kinds.lookup p.options.datasetId)
    (h : ofTree kinds query = .ok p) : ofTree others query = .ok p := by
  obtain ⟨root, options, transformations, kind, whereTree, hquery, hoptions, htransformations, ho, hlookup,
    htransformation, hwhere, hfilter⟩ := ofTree_eq_ok_iff.1 h
  exact ofTree_eq_ok_iff.2 ⟨root, options, transformations, kind, whereTree, hquery, hoptions,
    htransformations, Options.ofTree_of_lookup_eq hkind ho, hkind.trans hlookup, htransformation, hwhere,
    hfilter⟩

namespace Context

variable {ctx other : Context} {query : Tree} {p : Plan}

theorem plan_of_dataset_eq (h : ctx.plan query = .ok p)
    (hdataset : other.dataset? p.options.datasetId = ctx.dataset? p.options.datasetId) :
    other.plan query = .ok p := by
  obtain ⟨hcheck, hread⟩ := plan_eq_ok_iff.1 h
  refine plan_eq_ok_iff.2 ⟨hcheck, Plan.ofTree_of_lookup_eq ?_ hread⟩
  rw [lookup_kinds, lookup_kinds, hdataset]

/-- A query that has a plan is answered, unless the records are too many. -/
theorem answered_or_tooLarge (h : ctx.plan query = .ok p) :
    (∃ records, ctx.answer query = .ok records) ∨
      ∃ count, ctx.cap < count ∧ ctx.answer query = .error (.resultTooLarge ctx.cap count) := by
  obtain ⟨d, hd, -⟩ := exists_readOff h
  rw [answer_of_plan h, Plan.answer_of_dataset hd]
  by_cases hlarge : ctx.cap < (p.records (p.matching d)).length
  · exact .inr ⟨_, hlarge, if_pos hlarge⟩
  · exact .inl ⟨_, if_neg hlarge⟩

/-- No other dataset has a part in the answer. -/
theorem answer_eq_of_dataset_eq (hcap : other.cap = ctx.cap) (hplan : ctx.plan query = .ok p)
    (hdataset : other.dataset? p.options.datasetId = ctx.dataset? p.options.datasetId) :
    other.answer query = ctx.answer query ∧
      ((∃ records, ctx.answer query = .ok records) ∨
        ∃ count, ctx.cap < count ∧ ctx.answer query = .error (.resultTooLarge ctx.cap count)) := by
  refine ⟨?_, answered_or_tooLarge hplan⟩
  obtain ⟨d, hd, -⟩ := exists_readOff hplan
  have hother : other.dataset? p.options.datasetId = some d := hdataset.trans hd
  rw [answer_of_plan hplan, answer_of_plan (plan_of_dataset_eq hplan hdataset), Plan.answer_of_dataset hd,
    Plan.answer_of_dataset hother, hcap]

/-- The two buildings in the place of another one, next to a dataset of sections. -/
def hallsAmongOthers : Context :=
  ({ cap := 2 } : Context).registerAll
    [⟨"courses", .sections, []⟩, ⟨"rooms", .rooms, [[.text "Angus"]]⟩,
      ⟨"rooms", .rooms, [[.text "Woodward"], [.text "Hebb"]]⟩]

theorem answer_hallsAmongOthers :
    hallsAmongOthers.cap = halls.cap ∧ halls.plan hallsByName = .ok hallsPlan ∧
      hallsAmongOthers.dataset? "rooms" = halls.dataset? "rooms" ∧
      hallsAmongOthers.answer hallsByName = halls.answer hallsByName := by
  have hplan : halls.plan hallsByName = .ok hallsPlan := rfl
  have hdataset : hallsAmongOthers.dataset? "rooms" = halls.dataset? "rooms" := rfl
  exact ⟨rfl, hplan, hdataset, (answer_eq_of_dataset_eq rfl hplan hdataset).1⟩

end Context

end CampusQuery
