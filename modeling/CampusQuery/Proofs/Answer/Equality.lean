import CampusQuery.Proofs.Answer.Isolation
import CampusQuery.Proofs.Grammar.Equality
import CampusQuery.Proofs.Grouping.Key
import CampusQuery.Proofs.Plan.Equality

/-! The answers of equal queries. Main statement: queries that are equal, whatever the order of their
entries, have the same outcome. -/

namespace CampusQuery

/-- The same records, too many of them in the same number, or a fault of the query on both sides. -/
inductive SameOutcome : Except Error (List Record) → Except Error (List Record) → Prop
  | answered (records : List Record) : SameOutcome (.ok records) (.ok records)
  | tooLarge (limit count : ℕ) :
    SameOutcome (.error (.resultTooLarge limit count)) (.error (.resultTooLarge limit count))
  | invalid (fault other : Fault) : SameOutcome (.error (.validation fault)) (.error (.validation other))

/-- A plan's answer depends on its filter only by the rows that pass. -/
theorem Plan.answer_of_matching_eq {p : Plan} {filter : Option Filter} {ctx : Context}
    (h : ∀ d, ctx.dataset? p.options.datasetId = some d → ({ p with filter } : Plan).matching d = p.matching d) :
    ({ p with filter } : Plan).answer ctx = p.answer ctx := by
  rcases hd : ctx.dataset? p.options.datasetId with _ | d
  · simp only [answer, hd]
  · rw [answer_of_dataset hd, answer_of_dataset (p := { p with filter }) hd, h d hd]
    rfl

theorem Plan.matching_eq_of_agrees {p : Plan} {filter : Option Filter}
    (h : Option.Rel Filter.Agrees p.filter filter) (d : Dataset) :
    ({ p with filter } : Plan).matching d = p.matching d := by
  unfold matching
  generalize p.filter = original at h
  cases h with
  | none => rfl
  | some hagrees =>
    refine List.filter_congr fun row _ => ?_
    rw [Filter.keeps, Filter.keeps, hagrees row]

namespace Context

variable {ctx : Context} {query other : Tree}

theorem answer_of_plan_error {fault : Fault} (h : ctx.plan query = .error fault) :
    ctx.answer query = .error (.validation fault) := by
  unfold answer
  rw [h]
  rfl

/-- Two queries have the same outcome if each has a plan where the other has one, and these give the same
answer. -/
theorem sameOutcome_of_plans
    (hplan : ∀ p, ctx.plan query = .ok p → ∃ q, ctx.plan other = .ok q ∧ q.answer ctx = p.answer ctx)
    (hback : ∀ q, ctx.plan other = .ok q → ∃ p, ctx.plan query = .ok p) :
    SameOutcome (ctx.answer query) (ctx.answer other) := by
  rcases hp : ctx.plan query with fault | p
  · rcases hq : ctx.plan other with fault' | q
    · rw [answer_of_plan_error hp, answer_of_plan_error hq]
      exact .invalid fault fault'
    · obtain ⟨p, hp'⟩ := hback q hq
      cases hp.symm.trans hp'
  · obtain ⟨q, hq, hsame⟩ := hplan p hp
    rw [answer_of_plan hq, hsame, ← answer_of_plan hp]
    rcases answered_or_tooLarge hp with ⟨records, hrecords⟩ | ⟨count, -, hlarge⟩
    · rw [hrecords]
      exact .answered records
    · rw [hlarge]
      exact .tooLarge ctx.cap count

theorem plan_of_matches (hmatches : query.Matches other) {p : Plan} (h : ctx.plan query = .ok p) :
    ∃ filter, ctx.plan other = .ok { p with filter } ∧ Option.Rel Filter.Agrees p.filter filter := by
  obtain ⟨hcheck, hread⟩ := plan_eq_ok_iff.1 h
  obtain ⟨filter, hread', hagrees⟩ := Plan.ofTree_of_matches hmatches hread
  have hcheck' := (Grammar.respects_checkBy Grammar.rules "QUERY" query other hmatches).1 hcheck
  exact ⟨filter, plan_eq_ok_iff.2 ⟨hcheck', hread'⟩, hagrees⟩

/-- Neither the order of entries nor the sign of a zero tells in an answer. -/
theorem answer_sameOutcome (ctx : Context) (hquery : query.WellFormed) (hother : other.WellFormed)
    (h : query.same other = true) : SameOutcome (ctx.answer query) (ctx.answer other) := by
  have hmatches : query.Matches other := ⟨hquery, hother, h⟩
  refine sameOutcome_of_plans (fun p hp => ?_) (fun q hq => ?_)
  · obtain ⟨filter, hplan, hagrees⟩ := plan_of_matches hmatches hp
    exact ⟨_, hplan, Plan.answer_of_matching_eq fun d _ => Plan.matching_eq_of_agrees hagrees d⟩
  · obtain ⟨filter, hplan, -⟩ := plan_of_matches hmatches.symm hq
    exact ⟨_, hplan⟩

/-- Two courses with one zero each for an average. -/
def zeros : Context :=
  { datasets := [("courses", ⟨"courses", .sections,
      [Transformation.course "math" "200" .negativeZero, Transformation.course "cpsc" "310" .zero]⟩)]
    cap := 2 }

def coursesOfAverage (average : Double) (arrange : Entries Tree → Entries Tree) : Tree :=
  .object (arrange [("WHERE", .object [("EQ", .object [("courses_avg", .number average)])]),
    ("OPTIONS", .object [("COLUMNS", .array [.text "courses_id"])])])

theorem answer_coursesOfAverage :
    (coursesOfAverage .zero id).WellFormed ∧ (coursesOfAverage .negativeZero List.reverse).WellFormed ∧
      (coursesOfAverage .zero id).same (coursesOfAverage .negativeZero List.reverse) = true ∧
      zeros.answer (coursesOfAverage .negativeZero List.reverse) =
        .ok [[("courses_id", .text "200")], [("courses_id", .text "310")]] := by
  have hquery : (coursesOfAverage .zero id).WellFormed := by simp [coursesOfAverage, Entries.keys]
  have hother : (coursesOfAverage .negativeZero List.reverse).WellFormed := by
    simp [coursesOfAverage, Entries.keys]
  have hsame : (coursesOfAverage .zero id).same (coursesOfAverage .negativeZero List.reverse) = true := by
    decide
  have hanswer : zeros.answer (coursesOfAverage .zero id) =
      .ok [[("courses_id", .text "200")], [("courses_id", .text "310")]] := rfl
  refine ⟨hquery, hother, hsame, ?_⟩
  have houtcome := answer_sameOutcome zeros hquery hother hsame
  rw [hanswer] at houtcome
  generalize zeros.answer (coursesOfAverage .negativeZero List.reverse) = outcome at houtcome ⊢
  cases houtcome
  rfl

end Context

end CampusQuery
