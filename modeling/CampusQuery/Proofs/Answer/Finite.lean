import CampusQuery.Proofs.Answer.Shape
import CampusQuery.Proofs.Reduction.Finite

/-! The numbers in answers from finite data. Main statement: of data that have been read off trees, each number in
an answer is finite, be it a field or a reduction, unless it is the sum or the average of numbers that overflow
when they are added. -/

namespace CampusQuery

def Plan.application? (p : Plan) (name : String) : Option Application :=
  p.transformation.bind (·.application? name)

/-- The record shows a group of the rows, if rows are grouped, and no number in it that is not finite but where
numbers of this group overflow. -/
def Plan.Shows (p : Plan) (rows : List Row) (record : Record) : Prop :=
  ∃ group : List Row, (∀ t, p.transformation = some t → group ∈ t.groups rows) ∧
    ∀ key x, (key, .number x) ∈ record →
      (x.isFinite = false ↔ ∃ a, p.application? key = some a ∧ a.Overflows group)

variable {kind : Kind} {rows : List Row}

theorem Row.isFinite_of_cell? {row : Row} (hrow : ∀ c ∈ row, c.isFinite = true) {id key : String} {x : Double}
    (h : row.cell? id kind key = some (.number x)) : x.isFinite = true := by
  obtain ⟨i, -, hcell⟩ := Option.bind_eq_some_iff.1 h
  exact hrow _ (List.mem_of_getElem? hcell)

theorem Transformation.sublist_of_mem_groups {t : Transformation} {group : List Row} (h : group ∈ t.groups rows) :
    group.Sublist rows := by
  rw [groups_eq] at h
  obtain ⟨k, -, rfl⟩ := List.mem_map.1 h
  exact List.filter_sublist

namespace Plan

variable {p : Plan}

theorem Typed.shows (h : p.Typed kind) (hrows : ∀ row ∈ rows, row.conforms kind = true)
    (hfinite : ∀ row ∈ rows, ∀ c ∈ row, c.isFinite = true) (hsize : rows.length ≤ 2 ^ 64) {record : Record}
    (hrecord : record ∈ p.records rows) : p.Shows rows record := by
  cases ht : p.transformation with
  | none =>
    rw [h.records_of_ungrouped ht] at hrecord
    obtain ⟨row, hrow, rfl⟩ := List.mem_map.1 hrecord
    refine ⟨[], ?_, fun key x hx => ?_⟩
    · intro t ht'
      cases ht.symm.trans ht'
    · obtain ⟨-, hcell⟩ := Record.mem_under_iff.1 hx
      simp [application?, ht, Row.isFinite_of_cell? (hfinite row hrow) hcell]
  | some t =>
    rw [h.records_of_grouped ht] at hrecord
    obtain ⟨group, hgroup, rfl⟩ := List.mem_map.1 hrecord
    have hsub := Transformation.sublist_of_mem_groups hgroup
    have hne := (Transformation.isGroupOf_of_mem_groups hrows hgroup).ne_nil
    refine ⟨group, fun t' ht' => Option.some.inj (ht.symm.trans ht') ▸ hgroup, fun key x hx => ?_⟩
    obtain ⟨-, hcell⟩ := Record.mem_under_iff.1 hx
    unfold Transformation.cell? at hcell
    split at hcell
    · next a ha =>
      have hvalue := Application.value_isFinite_iff hne (hsub.length_le.trans hsize)
        (fun row hrow => hfinite row (hsub.subset hrow)) hcell
      simp [application?, ht, ha, hvalue]
    · next hnone =>
      obtain ⟨row, hrow, hcell⟩ := Option.bind_eq_some_iff.1 hcell
      have hmem := hsub.subset (List.mem_of_mem_head? hrow)
      simp [application?, ht, hnone, Row.isFinite_of_cell? (hfinite row hmem) hcell]

end Plan

namespace Registry

/-- What has come into a registry only by way of trees is finite. -/
theorem Sound.isFinite_of_loaded (cap : ℕ) (commands : List Command) {id : String} {d : Dataset}
    (hd : (({ cap } : Registry).after commands).store.get? id = some d) (hloaded : .add d ∉ commands) :
    ∀ row ∈ d.rows, ∀ c ∈ row, c.isFinite = true := by
  rcases (sound_of_new cap).get?_after hd with hbefore | ⟨command, hmem, hadds⟩
  · cases hbefore
  · cases command with
    | add e =>
      obtain rfl := Option.some.inj hadds
      exact absurd hmem hloaded
    | addTree id kind t =>
      cases t with
      | array items =>
        obtain rfl := Option.some.inj hadds
        intro row hrow
        obtain ⟨item, -, hread⟩ := Row.exists_ofTree_of_mem hrow
        exact Row.isFinite_of_ofTree hread
      | _ => cases hadds
    | _ => cases hadds

/-- A dataset that is added as such may hold any numbers, so there must be none. A count is finite as long as a
word can hold it. -/
theorem query_isFinite_iff (cap : ℕ) (commands : List Command)
    (hloaded : ∀ id d, (({ cap } : Registry).after commands).store.get? id = some d →
      .add d ∉ commands ∧ d.rows.length ≤ 2 ^ 64)
    {query : Tree} {trees : List Tree}
    (h : ((({ cap } : Registry).after commands).perform (Request.query query)).1 = .ok trees) :
    let r := ({ cap } : Registry).after commands
    ∃ p d, r.context.plan query = .ok p ∧ r.store.get? p.options.datasetId = some d ∧
      ∀ t ∈ trees, ∃ entries group, t = .object entries ∧
        (∀ transformation, p.transformation = some transformation →
          group ∈ transformation.groups (p.matching d)) ∧
        ∀ key x, (key, .number x) ∈ entries →
          (x.isFinite = false ↔ ∃ a, p.application? key = some a ∧ a.Overflows group) := by
  intro r
  have hsound : r.Sound := (sound_of_new cap).after commands
  obtain ⟨p, d, hplan, hget, hread, hfit, htrees⟩ := hsound.exists_readOff_of_query h
  obtain ⟨hadded, hsize⟩ := hloaded _ d hget
  have hrows : (p.matching d).Sublist d.rows := by
    rw [Plan.matching_eq]
    exact List.filter_sublist
  have hfinite : ∀ row ∈ p.matching d, ∀ c ∈ row, c.isFinite = true := fun row hrow =>
    Sound.isFinite_of_loaded cap commands hget hadded row (hrows.subset hrow)
  refine ⟨p, d, hplan, hget, fun t ht => ?_⟩
  obtain ⟨record, hrecord, rfl⟩ := htrees t ht
  obtain ⟨group, hgroup, hnumbers⟩ := hread.typed.shows hfit hfinite (hrows.length_le.trans hsize) hrecord
  refine ⟨_, group, Record.toTree_of_nodup (Plan.nodup_keys_of_mem_records hrecord), hgroup, fun key x hx => ?_⟩
  obtain ⟨⟨name, c⟩, hc, heq⟩ := List.mem_map.1 hx
  obtain ⟨rfl, hnumber⟩ := Prod.mk.inj heq
  cases c with
  | text s => cases hnumber
  | number y =>
    obtain rfl := Tree.number.inj hnumber
    exact hnumbers name y hc

/-- A finite number such that twice as much is not finite. -/
def huge : Double := .finite false 5010420900022432 2045 (by decide)

def hugeCourse (id : String) : Tree :=
  .object
    [("dept", .text "cpsc"), ("id", .text id), ("avg", .number huge), ("instructor", .text "holmes"),
      ("title", .text "intro sw eng"), ("pass", .number .zero), ("fail", .number .zero),
      ("audit", .number .zero), ("uuid", .text id), ("year", .number .zero)]

def hugeCourses : List Command := [.addTree "courses" .sections (.array [hugeCourse "310", hugeCourse "320"])]

def extremesAndMean : Tree :=
  .object
    [("WHERE", .object []),
      ("OPTIONS", .object [("COLUMNS", .array [.text "low", .text "mean", .text "high"])]),
      ("TRANSFORMATIONS", .object
        [("GROUP", .array [.text "courses_dept"]),
          ("APPLY", .array
            [.object [("low", .object [("MIN", .text "courses_avg")])],
              .object [("mean", .object [("AVG", .text "courses_avg")])],
              .object [("high", .object [("MAX", .text "courses_avg")])]])])]

def extremesAndMeanPlan : Plan where
  filter := none
  options :=
    { datasetId := "courses", columns := [.apply "low", .apply "mean", .apply "high"], order := none }
  transformation := some
    { group := [⟨"courses", "dept", 0, .text⟩]
      apply :=
        [⟨"low", .min, ⟨"courses", "avg", 2, .number⟩⟩, ⟨"mean", .avg, ⟨"courses", "avg", 2, .number⟩⟩,
          ⟨"high", .max, ⟨"courses", "avg", 2, .number⟩⟩] }

theorem plan_hugeCourses :
    (({ cap := 1 } : Registry).after hugeCourses).context.plan extremesAndMean = .ok extremesAndMeanPlan := rfl

theorem perform_hugeCourses :
    ((({ cap := 1 } : Registry).after hugeCourses).perform (Request.query extremesAndMean)).1 =
      .ok [.object [("low", .number huge), ("mean", .number (.infinite false)), ("high", .number huge)]] := by
  obtain ⟨d, hd, hread⟩ := Context.exists_readOff plan_hugeCourses
  obtain rfl := Option.some.inj hd
  have hanswer := Context.answer_of_records_eq_map plan_hugeCourses hd (hread.typed.records_of_grouped rfl _)
  rw [Transformation.groups_eq] at hanswer
  obtain ⟨records, hrecords, -, -, harranged⟩ := hanswer
  have hsame : records = [[("low", .number huge), ("mean", .number (.infinite false)), ("high", .number huge)]] := by
    refine Eq.trans harranged ?_
    decide +kernel
  exact query_eq_ok_iff.2 ⟨records, hrecords, by rw [hsame]; rfl⟩

/-- The average of two equal and finite numbers comes out infinite, beyond the greatest and the least of them. -/
theorem mean_not_finite :
    ∃ t x, ((({ cap := 1 } : Registry).after hugeCourses).perform (Request.query extremesAndMean)).1 = .ok [t] ∧
      t.get? "mean" = some (.number x) ∧ x.isFinite = false ∧ t.get? "low" = some (.number huge) ∧
      t.get? "high" = some (.number huge) :=
  ⟨_, _, perform_hugeCourses, rfl, rfl, rfl, rfl⟩

/-- It is the sum of the two that overflows. -/
theorem query_isFinite_iff_hugeCourses :
    (∀ id d, (({ cap := 1 } : Registry).after hugeCourses).store.get? id = some d →
        .add d ∉ hugeCourses ∧ d.rows.length ≤ 2 ^ 64) ∧
      ∃ a group, extremesAndMeanPlan.application? "mean" = some a ∧ a.Overflows group := by
  have hloaded : ∀ id d, (({ cap := 1 } : Registry).after hugeCourses).store.get? id = some d →
      .add d ∉ hugeCourses ∧ d.rows.length ≤ 2 ^ 64 := by
    intro id d hd
    rcases (sound_of_new 1).get?_after hd with hbefore | ⟨command, hmem, hadds⟩
    · cases hbefore
    · obtain rfl := List.mem_singleton.1 hmem
      obtain rfl := Option.some.inj hadds
      exact ⟨by simp [hugeCourses], (List.length_filterMap_le ..).trans (by decide)⟩
  refine ⟨hloaded, ?_⟩
  obtain ⟨p, d, hplan, -, hnumbers⟩ := query_isFinite_iff 1 hugeCourses hloaded perform_hugeCourses
  obtain rfl := Except.ok.inj (plan_hugeCourses.symm.trans hplan)
  obtain ⟨entries, group, hentries, -, hfinite⟩ := hnumbers _ (List.mem_singleton_self _)
  obtain rfl := Tree.object.inj hentries
  obtain ⟨a, ha, hoverflows⟩ := (hfinite "mean" (.infinite false) (.tail _ (.head _))).1 rfl
  exact ⟨a, group, ha, hoverflows⟩

end Registry

end CampusQuery
