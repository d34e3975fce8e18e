import CampusQuery.Proofs.Answer.Equality

/-! What can come of a query. Main statement: over datasets registered in any order, any tree whatever is
answered with as many records as the cap allows at most, refused for a fault of its own, or refused
because there are too many records. Nothing else can fail once there is a plan. -/

namespace CampusQuery

/-- There are records, as many as the cap allows, or there are too many of them. -/
inductive WithinCap (cap : ℕ) : Except Error (List Record) → Prop
  | answered {records : List Record} (h : records.length ≤ cap) : WithinCap cap (.ok records)
  | tooLarge {count : ℕ} (h : cap < count) : WithinCap cap (.error (.resultTooLarge cap count))

/-- By the time that options have been read, the kind of their dataset is known. -/
theorem Options.exists_kind_of_ofTree {kinds : Entries Kind} {transformations : Option (Entries Tree)}
    {entries : Entries Tree} {o : Options} (h : ofTree kinds transformations entries = .ok o) :
    ∃ kind, kinds.lookup o.datasetId = some kind := by
  obtain ⟨-, hknown, hgroup, hdataset, -⟩ := ofTree_eq_ok_iff.1 h
  rcases hattributes : o.attributes with _ | ⟨a, rest⟩
  · obtain ⟨_, _, _, _, -, -, -, hsome⟩ := groupDatasetId_eq_ok_iff.1 (hgroup hattributes)
    exact Option.isSome_iff_exists.1 hsome
  · have ha : a ∈ o.attributes := by simp [hattributes]
    obtain ⟨kind, hkind, -⟩ := hknown _ (mem_attributes_iff.1 ha)
    exact ⟨kind, hdataset a ha ▸ hkind⟩

theorem Order.arrange_perm (o : Order) (records : List Record) : (o.arrange records).Perm records := by
  unfold arrange
  split
  · exact .refl records
  · cases o.direction with
    | up => exact List.mergeSort_perm records _
    | down => exact (List.reverse_perm _).trans (List.mergeSort_perm records _)

namespace Plan

theorem arrange_perm (p : Plan) (records : List Record) : (p.arrange records).Perm records := by
  unfold arrange
  cases p.options.order with
  | none => exact .refl records
  | some o => exact o.arrange_perm records

theorem withinCap_of_dataset {p : Plan} {ctx : Context} {d : Dataset}
    (h : ctx.dataset? p.options.datasetId = some d) : WithinCap ctx.cap (p.answer ctx) := by
  rw [answer_of_dataset h]
  split
  · next hlarge => exact .tooLarge hlarge
  · next hfits =>
    refine .answered ?_
    rw [(p.arrange_perm _).length_eq]
    exact not_lt.1 hfits

end Plan

namespace Context

variable {ctx : Context}

/-- Kinds that are put down by themselves at each registration are those of the datasets. -/
theorem kinds_register (ctx : Context) (d : Dataset) :
    (ctx.register d).kinds = ctx.kinds.insert d.id d.kind :=
  Entries.map_insert Dataset.kind ctx.datasets d.id d

theorem kinds_registerAll (ctx : Context) (ds : List Dataset) :
    (ctx.registerAll ds).kinds = ds.foldl (fun kinds d => kinds.insert d.id d.kind) ctx.kinds := by
  induction ds generalizing ctx with
  | nil => rfl
  | cons d ds ih => exact (ih (ctx.register d)).trans (by rw [kinds_register, List.foldl_cons])

theorem cap_registerAll (ctx : Context) (ds : List Dataset) : (ctx.registerAll ds).cap = ctx.cap := by
  induction ds generalizing ctx with
  | nil => rfl
  | cons d ds ih => exact ih (ctx.register d)

/-- A plan is about a dataset that is there, whether or not its query has been checked. -/
theorem exists_dataset_of_ofTree {query : Tree} {p : Plan} (h : Plan.ofTree ctx.kinds query = .ok p) :
    ∃ d, ctx.dataset? p.options.datasetId = some d := by
  obtain ⟨_, _, _, kind, _, -, -, -, -, hkind, -⟩ := Plan.ofTree_eq_ok_iff.1 h
  rw [lookup_kinds] at hkind
  obtain ⟨d, hd, -⟩ := Option.map_eq_some_iff.1 hkind
  exact ⟨d, hd⟩

theorem invalid_or_withinCap (ctx : Context) (query : Tree) :
    (∃ fault, ctx.answer query = .error (.validation fault)) ∨ WithinCap ctx.cap (ctx.answer query) := by
  rcases hp : ctx.plan query with fault | p
  · exact .inl ⟨fault, answer_of_plan_error hp⟩
  · obtain ⟨d, hd⟩ := exists_dataset_of_ofTree (plan_eq_ok_iff.1 hp).2
    rw [answer_of_plan hp]
    exact .inr (Plan.withinCap_of_dataset hd)

/-- Kinds and datasets stay in step, so that neither the kind nor the dataset of a plan is ever found
missing, and it is only the cap that a planned query can fail at. -/
theorem answer_outcomes (cap : ℕ) (ds : List Dataset) (query : Tree) :
    let ctx := ({ cap } : Context).registerAll ds
    ((∃ fault, ctx.answer query = .error (.validation fault)) ∨ WithinCap cap (ctx.answer query)) ∧
      ctx.kinds = ds.foldl (fun (kinds : Entries Kind) d => kinds.insert d.id d.kind) [] ∧
      (∀ id, ctx.kinds.lookup id = (ctx.dataset? id).map Dataset.kind) ∧
      (∀ transformations entries o, Options.ofTree ctx.kinds transformations entries = .ok o →
        ∃ kind, ctx.kinds.lookup o.datasetId = some kind) ∧
      ∀ p, Plan.ofTree ctx.kinds query = .ok p →
        (∃ d, ctx.dataset? p.options.datasetId = some d) ∧ WithinCap cap (p.answer ctx) := by
  intro ctx
  have hcap : ctx.cap = cap := cap_registerAll { cap } ds
  refine ⟨?_, kinds_registerAll { cap } ds, ctx.lookup_kinds, fun _ _ _ => Options.exists_kind_of_ofTree,
    fun p hp => ?_⟩
  · rw [← hcap]
    exact ctx.invalid_or_withinCap query
  · obtain ⟨d, hd⟩ := exists_dataset_of_ofTree hp
    rw [← hcap]
    exact ⟨⟨d, hd⟩, Plan.withinCap_of_dataset hd⟩

/-- The two buildings come twice, first as another one. -/
theorem answer_outcomes_hallsAmongOthers :
    Plan.ofTree hallsAmongOthers.kinds hallsByName = .ok hallsPlan ∧
      WithinCap 2 (hallsPlan.answer hallsAmongOthers) := by
  have hread : Plan.ofTree hallsAmongOthers.kinds hallsByName = .ok hallsPlan := rfl
  obtain ⟨-, -, -, -, hplanned⟩ := answer_outcomes 2
    [⟨"courses", .sections, []⟩, ⟨"rooms", .rooms, [[.text "Angus"]]⟩,
      ⟨"rooms", .rooms, [[.text "Woodward"], [.text "Hebb"]]⟩] hallsByName
  exact ⟨hread, (hplanned hallsPlan hread).2⟩

end Context

end CampusQuery
