import CampusQuery.Proofs.Filter.Equality

/-! Boolean algebra on the trees of filters. Main statements: De Morgan's laws and the law of double negation
hold of all trees. Either side is read just if the other one is, and they accept the same rows. -/

namespace CampusQuery

def Tree.negation (t : Tree) : Tree := .object [("NOT", t)]

/-- The operators on lists of filters. -/
inductive Connective where
  | and
  | or
deriving DecidableEq, Repr

namespace Connective

def key : Connective → String
  | and => "AND"
  | or => "OR"

def dual : Connective → Connective
  | and => or
  | or => and

def combine : Connective → List Filter → Filter
  | and => .all
  | or => .any

def join (c : Connective) (ts : List Tree) : Tree := .object [(c.key, .array ts)]

/-- De Morgan's laws for filters that have been read. -/
theorem not_combine_agrees (c : Connective) (fs : List Filter) :
    (Filter.not (c.combine fs)).Agrees (c.dual.combine (fs.map .not)) := by
  intro row
  cases c with
  | and =>
    show (!Filter.allAccept fs row) = Filter.anyAccepts (fs.map .not) row
    induction fs with
    | nil => rfl
    | cons f fs ih => rw [Filter.allAccept, Bool.not_and, ih, List.map_cons, Filter.anyAccepts, Filter.accepts]
  | or =>
    show (!Filter.anyAccepts fs row) = Filter.allAccept (fs.map .not) row
    induction fs with
    | nil => rfl
    | cons f fs ih => rw [Filter.anyAccepts, Bool.not_or, ih, List.map_cons, Filter.allAccept, Filter.accepts]

end Connective

namespace Filter

variable {scope : Scope}

theorem Agrees.symm {f g : Filter} (h : f.Agrees g) : g.Agrees f := fun row => (h row).symm

theorem not_not_agrees (f : Filter) : (Filter.not (.not f)).Agrees f := fun row => Bool.not_not (f.accepts row)

theorem reads_negation_iff (hid : IsId scope.datasetId) {t : Tree} {f : Filter} :
    Reads scope t.negation f ↔ ∃ g, Reads scope t g ∧ f = .not g := by
  constructor
  · intro h
    obtain ⟨g, hg, hf⟩ := bind_eq_ok_iff.1 (h .emptyFilter)
    exact ⟨g, (keptByReading_reads hid).of_ofTree hid hg, (pure_eq_ok_iff.1 hf).symm⟩
  · rintro ⟨g, hg, rfl⟩
    exact (keptByReading_reads hid).not hg

theorem reads_join_iff (hid : IsId scope.datasetId) {c : Connective} {ts : List Tree} {f : Filter} :
    Reads scope (c.join ts) f ↔ ts ≠ [] ∧ ∃ fs, List.Forall₂ (Reads scope) ts fs ∧ f = c.combine fs := by
  constructor
  · intro h
    have hoperands : ∃ fs, operands scope c.key (.array ts) = .ok fs ∧ f = c.combine fs := by
      have hread := h .emptyFilter
      cases c <;>
        · obtain ⟨fs, hfs, hf⟩ := bind_eq_ok_iff.1 hread
          exact ⟨fs, hfs, (pure_eq_ok_iff.1 hf).symm⟩
    obtain ⟨fs, hfs, hf⟩ := hoperands
    obtain ⟨ts', heq, hne, hall⟩ := (keptByReading_reads hid).of_operands hid hfs
    obtain rfl := Tree.array.inj heq
    exact ⟨hne, fs, hall, hf⟩
  · rintro ⟨hne, fs, hall, rfl⟩
    cases c with
    | and => exact (keptByReading_reads hid).and hne hall
    | or => exact (keptByReading_reads hid).or hne hall

theorem reads_negations_iff (hid : IsId scope.datasetId) {ts : List Tree} {gs : List Filter} :
    List.Forall₂ (Reads scope) (ts.map .negation) gs ↔
      ∃ fs, List.Forall₂ (Reads scope) ts fs ∧ gs = fs.map .not := by
  rw [List.forall₂_map_left_iff]
  constructor
  · intro h
    induction h with
    | nil => exact ⟨[], .nil, rfl⟩
    | cons hfirst _ ih =>
      obtain ⟨f, hf, rfl⟩ := (reads_negation_iff hid).1 hfirst
      obtain ⟨fs, hfs, rfl⟩ := ih
      exact ⟨f :: fs, .cons hf hfs, rfl⟩
  · rintro ⟨fs, hfs, rfl⟩
    rw [List.forall₂_map_right_iff]
    exact hfs.imp fun _ _ hf => (reads_negation_iff hid).2 ⟨_, hf, rfl⟩

theorem ofWhere_eq_ok_iff_reads (hid : IsId scope.datasetId) {t : Tree} (hne : t ≠ .object [])
    {filter : Option Filter} : ofWhere scope t = .ok filter ↔ ∃ f, filter = some f ∧ Reads scope t f := by
  constructor
  · intro h
    rcases filter with _ | f
    · exact absurd (ofWhere_eq_none_iff.1 h) hne
    · exact ⟨f, rfl, (keptByReading_reads hid).of_ofTree hid (ofWhere_eq_some_iff.1 h).2⟩
  · rintro ⟨f, rfl, hf⟩
    exact ofWhere_eq_some_iff.2 ⟨hne, hf _⟩

/-- Where the one tree is read, so is the other, as a filter that accepts the same rows. -/
def Restates (scope : Scope) (u t : Tree) : Prop :=
  ∀ f, ofWhere scope t = .ok f → ∃ g, ofWhere scope u = .ok g ∧ Option.Rel Agrees f g

theorem restates_of_reads (hid : IsId scope.datasetId) {t u : Tree} (ht : t ≠ .object []) (hu : u ≠ .object [])
    (h : ∀ f, Reads scope t f → ∃ g, Reads scope u g ∧ f.Agrees g) : Restates scope u t := by
  intro filter hfilter
  obtain ⟨f, rfl, hf⟩ := (ofWhere_eq_ok_iff_reads hid ht).1 hfilter
  obtain ⟨g, hg, hagrees⟩ := h f hf
  exact ⟨some g, (ofWhere_eq_ok_iff_reads hid hu).2 ⟨g, rfl, hg⟩, .some hagrees⟩

/-- De Morgan's laws. -/
theorem restates_negation_join (hid : IsId scope.datasetId) (c : Connective) (ts : List Tree) :
    Restates scope (c.dual.join (ts.map .negation)) (c.join ts).negation ∧
      Restates scope (c.join ts).negation (c.dual.join (ts.map .negation)) := by
  constructor
  · refine restates_of_reads hid nofun nofun fun f hf => ?_
    obtain ⟨g, hg, rfl⟩ := (reads_negation_iff hid).1 hf
    obtain ⟨hne, fs, hfs, rfl⟩ := (reads_join_iff hid).1 hg
    refine ⟨c.dual.combine (fs.map .not), (reads_join_iff hid).2 ⟨mt List.map_eq_nil_iff.1 hne, _, ?_, rfl⟩,
      c.not_combine_agrees fs⟩
    exact (reads_negations_iff hid).2 ⟨fs, hfs, rfl⟩
  · refine restates_of_reads hid nofun nofun fun g hg => ?_
    obtain ⟨hne, gs, hgs, rfl⟩ := (reads_join_iff hid).1 hg
    obtain ⟨fs, hfs, rfl⟩ := (reads_negations_iff hid).1 hgs
    refine ⟨.not (c.combine fs), (reads_negation_iff hid).2 ⟨_, ?_, rfl⟩, (c.not_combine_agrees fs).symm⟩
    exact (reads_join_iff hid).2 ⟨mt List.map_eq_nil_iff.2 hne, fs, hfs, rfl⟩

theorem restates_negation_negation (hid : IsId scope.datasetId) {t : Tree} (hne : t ≠ .object []) :
    Restates scope t t.negation.negation ∧ Restates scope t.negation.negation t := by
  constructor
  · refine restates_of_reads hid nofun hne fun f hf => ?_
    obtain ⟨g, hg, rfl⟩ := (reads_negation_iff hid).1 hf
    obtain ⟨h, hh, rfl⟩ := (reads_negation_iff hid).1 hg
    exact ⟨h, hh, not_not_agrees h⟩
  · refine restates_of_reads hid hne nofun fun f hf => ?_
    refine ⟨.not (.not f), (reads_negation_iff hid).2 ⟨_, ?_, rfl⟩, (not_not_agrees f).symm⟩
    exact (reads_negation_iff hid).2 ⟨f, hf, rfl⟩

/-- The law of excluded middle. -/
theorem exists_ofWhere_or_negation (hid : IsId scope.datasetId) {otherwise : Fault} {t : Tree} {f : Filter}
    (h : ofTree scope otherwise t = .ok f) :
    ∃ g, ofWhere scope (Connective.or.join [t, t.negation]) = .ok (some g) ∧ ∀ row, g.accepts row = true := by
  have hf : Reads scope t f := (keptByReading_reads hid).of_ofTree hid h
  have hnegation : Reads scope t.negation (.not f) := (reads_negation_iff hid).2 ⟨f, hf, rfl⟩
  have hjoin : Reads scope (Connective.or.join [t, t.negation]) (.any [f, .not f]) :=
    (reads_join_iff hid).2 ⟨List.cons_ne_nil t _, _, .cons hf (.cons hnegation .nil), rfl⟩
  refine ⟨.any [f, .not f], ofWhere_eq_some_iff.2 ⟨nofun, hjoin _⟩, fun row => ?_⟩
  show (f.accepts row || (!f.accepts row || false)) = true
  rw [Bool.or_false, Bool.or_not_self]

end Filter

end CampusQuery
