import CampusQuery.Proofs.Answer.Arrangement
import CampusQuery.Proofs.Filter.Meaning
import CampusQuery.Proofs.Grammar.Language

/-! What the check of a query spares the reading of its plan. Main statement: a query that has passed the
check can fail to be read only for what its names and values stand for, never for its form; its plan has
a column, and a key wherever it has an order. -/

namespace CampusQuery

namespace Fault

/-- The form of a query is at fault, outside of the bodies of its filter's operators. -/
def isStructural : Fault → Bool
  | notObject place => place == "Query" || place == "TRANSFORMATIONS" || place == "WHERE"
  | notArray place => place == "APPLY"
  | emptyArray place => place == "GROUP"
  | missing .. | orderShape _ | applyEntryKeys | underscoreInApplyName _ | applyBodyKeys _
  | unknownReduction _ => true
  | _ => false

/-- A filter has no operator, several ones, or one that is not known. -/
def concernsOperators : Fault → Bool
  | emptyFilter | severalOperators _ | unknownOperator _ => true
  | _ => false

/-- Neither of the two. -/
def Plain (fault : Fault) : Prop := fault.isStructural = false ∧ fault.concernsOperators = false

end Fault

theorem splitKey_failsWith (key : String) : FailsWith Fault.Plain (splitKey key) := by
  unfold splitKey
  split
  · exact failsWith_ok _
  · exact failsWith_error ⟨rfl, rfl⟩

theorem Attribute.ofKey_failsWith (kind : Kind) (key : String) : FailsWith Fault.Plain (ofKey kind key) := by
  apply (splitKey_failsWith key).bind
  intro (id, field) _
  dsimp only
  split
  · exact failsWith_ok _
  · exact failsWith_error ⟨rfl, rfl⟩

theorem Attribute.resolve_failsWith (kinds : Entries Kind) (key : String) :
    FailsWith Fault.Plain (resolve kinds key) := by
  apply (splitKey_failsWith key).bind
  intro (id, field) _
  dsimp only
  split
  · exact ofKey_failsWith _ key
  · exact failsWith_error ⟨rfl, rfl⟩

theorem Scope.resolve_failsWith (scope : Scope) (key : String) :
    FailsWith Fault.Plain (scope.resolve key) := by
  apply (splitKey_failsWith key).bind
  intro (id, field) _
  dsimp only
  split
  · exact Attribute.ofKey_failsWith _ key
  · exact failsWith_error ⟨rfl, rfl⟩

theorem Column.ofTree_failsWith (kinds : Entries Kind) (transformed : Bool) (t : Tree) :
    FailsWith Fault.Plain (ofTree kinds transformed t) := by
  unfold ofTree
  split
  · split
    · split
      · exact failsWith_ok _
      · exact failsWith_error ⟨rfl, rfl⟩
    · exact (Attribute.resolve_failsWith kinds _).bind fun a _ => failsWith_ok _
  · exact failsWith_error ⟨rfl, rfl⟩

namespace Order

theorem keyOfTree_failsWith (t : Tree) : FailsWith Fault.Plain (keyOfTree t) := by
  unfold keyOfTree
  split
  · exact failsWith_ok _
  · exact failsWith_error ⟨rfl, rfl⟩

theorem shape_failsWith {t : Tree} (h : Grammar.check "ORDER" t = .ok ()) : FailsWith Fault.Plain (shape t) := by
  rcases Grammar.check_order_iff.1 h with ⟨key, rfl⟩ | ⟨entries, rfl, ⟨dir, hdir⟩, ⟨keys, hkeys, -⟩, -⟩
  · exact failsWith_ok _
  · unfold shape
    simp only [hdir, hkeys]
    split
    · apply (failsWith_mapM fun key _ => keyOfTree_failsWith key).bind
      intro _ _
      exact failsWith_ok _
    · exact failsWith_error ⟨rfl, rfl⟩

theorem ofTree_failsWith (columns : List Column) {t : Tree} (h : Grammar.check "ORDER" t = .ok ()) :
    FailsWith Fault.Plain (ofTree columns t) := by
  apply (shape_failsWith h).bind
  intro order _
  split
  · exact failsWith_error ⟨rfl, rfl⟩
  · exact failsWith_ok _

end Order

namespace Options

theorem groupDatasetId_failsWith (kinds : Entries Kind) (transformations : Option (Entries Tree)) :
    FailsWith Fault.Plain (groupDatasetId kinds transformations) := by
  unfold groupDatasetId
  split
  · apply (splitKey_failsWith _).bind
    intro (id, field) _
    dsimp only
    split
    · exact failsWith_ok _
    · exact failsWith_error ⟨rfl, rfl⟩
  · exact failsWith_error ⟨rfl, rfl⟩

theorem datasetIdOf_failsWith (kinds : Entries Kind) (transformations : Option (Entries Tree))
    (attributes : List Attribute) : FailsWith Fault.Plain (datasetIdOf kinds transformations attributes) := by
  cases attributes with
  | nil => exact groupDatasetId_failsWith kinds transformations
  | cons a rest => exact failsWith_ok _

theorem checkDataset_failsWith (id : String) (attributes : List Attribute) :
    FailsWith Fault.Plain (checkDataset id attributes) := by
  unfold checkDataset
  split
  · exact failsWith_error ⟨rfl, rfl⟩
  · exact failsWith_ok _

theorem ofTree_failsWith (kinds : Entries Kind) (transformations : Option (Entries Tree))
    {entries : Entries Tree} (h : Grammar.check "OPTIONS" (.object entries) = .ok ()) :
    FailsWith Fault.Plain (ofTree kinds transformations entries) := by
  obtain ⟨entries', heq, -, ⟨t, hcolumns, hcheck⟩, horder, -⟩ := Grammar.check_options_iff.1 h
  obtain rfl := Tree.object.inj heq
  obtain ⟨items, rfl, -⟩ := Grammar.check_columns_iff.1 hcheck
  unfold ofTree
  simp only [hcolumns]
  apply (failsWith_mapM fun t _ => Column.ofTree_failsWith kinds _ t).bind
  intro columns _
  apply (datasetIdOf_failsWith kinds transformations _).bind
  intro id _
  apply (checkDataset_failsWith id _).bind
  intro _ _
  apply (failsWith_optionMapM fun t ht => Order.ofTree_failsWith columns (horder t ht)).bind
  intro order _
  exact failsWith_ok _

end Options

theorem Application.ofTree_failsWith (scope : Scope) {t : Tree} (h : Grammar.IsApplyEntry t) :
    FailsWith Fault.Plain (ofTree scope t) := by
  obtain ⟨target, hne, hunderscore, hrule⟩ := h
  have hreductions : ∀ rule ∈ ["MAX", "MIN", "AVG", "SUM", "COUNT"], (Reduction.ofKey? rule).isSome = true := by
    decide
  obtain ⟨reduction, hreduction⟩ := Option.isSome_iff_exists.1 (hreductions _ hrule)
  unfold ofTree
  simp only [Grammar.isApplyName_iff.2 ⟨hne, hunderscore⟩, hreduction, if_true]
  split
  · apply (Scope.resolve_failsWith scope _).bind
    intro field _
    split
    · exact failsWith_error ⟨rfl, rfl⟩
    · exact failsWith_ok _
  · exact failsWith_error ⟨rfl, rfl⟩

namespace Transformation

theorem groupKeyOfTree_failsWith (scope : Scope) (t : Tree) :
    FailsWith Fault.Plain (groupKeyOfTree scope t) := by
  unfold groupKeyOfTree
  split
  · exact Scope.resolve_failsWith scope _
  · exact failsWith_error ⟨rfl, rfl⟩

theorem applicationsOfTrees_failsWith (scope : Scope) {used : List String} {ts : List Tree}
    (h : ∀ t ∈ ts, Grammar.IsApplyEntry t) : FailsWith Fault.Plain (applicationsOfTrees scope used ts) := by
  induction ts generalizing used with
  | nil => exact failsWith_ok _
  | cons t ts ih =>
    obtain ⟨ht, hts⟩ := List.forall_mem_cons.1 h
    apply (Application.ofTree_failsWith scope ht).bind
    intro a _
    split
    · exact failsWith_error ⟨rfl, rfl⟩
    · exact (ih hts).bind fun _ _ => failsWith_ok _

theorem checkColumn_failsWith (t : Transformation) (c : Column) : FailsWith Fault.Plain (t.checkColumn c) := by
  unfold checkColumn
  split
  · split
    · exact failsWith_ok _
    · exact failsWith_error ⟨rfl, rfl⟩
  · split
    · exact failsWith_ok _
    · exact failsWith_error ⟨rfl, rfl⟩

theorem ofTree_failsWith (scope : Scope) (columns : List Column) {entries : Entries Tree}
    (h : Grammar.check "TRANSFORMATIONS" (.object entries) = .ok ()) :
    FailsWith Fault.Plain (ofTree scope columns entries) := by
  obtain ⟨entries', heq, ⟨group, hgroup, hne⟩, ⟨apply, happly, hentries⟩, -⟩ :=
    Grammar.check_transformations_iff.1 h
  obtain rfl := Tree.object.inj heq
  obtain ⟨key, keys, rfl⟩ := List.exists_cons_of_ne_nil hne
  unfold ofTree
  simp only [hgroup, happly]
  apply (failsWith_mapM fun t _ => groupKeyOfTree_failsWith scope t).bind
  intro group _
  apply (applicationsOfTrees_failsWith scope hentries).bind
  intro apply _
  apply (failsWith_forM fun c _ => checkColumn_failsWith _ c).bind
  intro _ _
  exact failsWith_ok _

end Transformation

namespace Filter

/-- Reading the body of an operator. -/
def ofBody (scope : Scope) (key : String) (body : Tree) : Operator → Except Fault Filter
  | .and => all <$> operands scope key body
  | .or => any <$> operands scope key body
  | .not => not <$> ofTree scope (.notObject key) body
  | .is => matchOf scope body
  | .compare c => comparisonOf scope c body

theorem ofTree_single (scope : Scope) (otherwise : Fault) (key : String) (body : Tree) :
    ofTree scope otherwise (.object [(key, body)]) =
      match Operator.ofKey? key with
      | some operator => ofBody scope key body operator
      | none => .error (.unknownOperator key) := by
  rw [ofTree]
  cases h : Operator.ofKey? key with
  | none => rfl
  | some operator => cases operator <;> rfl

theorem onlyEntry_failsWith {operator : String} (h : (Fault.notObject operator).isStructural = false)
    (body : Tree) : FailsWith (·.isStructural = false) (onlyEntry operator body) := by
  unfold onlyEntry
  split
  · exact failsWith_ok _
  · exact failsWith_error rfl
  · exact failsWith_error h

theorem ofText_failsWith (s : String) : FailsWith (·.isStructural = false) (Pattern.ofText s) := by
  unfold Pattern.ofText
  split
  · exact failsWith_ok _
  · exact failsWith_error rfl

theorem matchOf_failsWith (scope : Scope) (body : Tree) :
    FailsWith (·.isStructural = false) (matchOf scope body) := by
  apply (onlyEntry_failsWith rfl body).bind
  intro (key, value) _
  apply ((Scope.resolve_failsWith scope key).mono fun _ => And.left).bind
  intro field _
  split
  · exact failsWith_error rfl
  · split
    · exact (ofText_failsWith _).bind fun _ _ => failsWith_ok _
    · exact failsWith_error rfl

theorem comparisonOf_failsWith (scope : Scope) (c : Comparison) (body : Tree) :
    FailsWith (·.isStructural = false) (comparisonOf scope c body) := by
  have hkey : (Fault.notObject c.key).isStructural = false := by cases c <;> rfl
  apply (onlyEntry_failsWith hkey body).bind
  intro (key, value) _
  apply ((Scope.resolve_failsWith scope key).mono fun _ => And.left).bind
  intro field _
  split
  · exact failsWith_error rfl
  · split
    · exact failsWith_ok _
    · exact failsWith_error rfl

mutual

theorem ofTree_failsWith (scope : Scope) {otherwise : Fault} (h : otherwise.isStructural = false) :
    ∀ t : Tree, FailsWith (·.isStructural = false) (ofTree scope otherwise t)
  | .object [] => failsWith_error rfl
  | .object [(key, body)] => by
    rw [ofTree_single]
    cases hkey : Operator.ofKey? key with
    | none => exact failsWith_error rfl
    | some operator => exact ofBody_failsWith scope hkey body
  | .object (_ :: _ :: _) => failsWith_error rfl
  | .null | .bool _ | .number _ | .text _ | .array _ => failsWith_error h

theorem ofBody_failsWith (scope : Scope) {key : String} {operator : Operator}
    (hkey : Operator.ofKey? key = some operator) :
    ∀ body : Tree, FailsWith (·.isStructural = false) (ofBody scope key body operator) := by
  intro body
  cases operator with
  | and =>
    obtain rfl : key = "AND" := Operator.ofKey?_eq_some hkey
    exact (operands_failsWith scope rfl body).map all
  | or =>
    obtain rfl : key = "OR" := Operator.ofKey?_eq_some hkey
    exact (operands_failsWith scope rfl body).map any
  | not =>
    obtain rfl : key = "NOT" := Operator.ofKey?_eq_some hkey
    exact (ofTree_failsWith scope rfl body).map not
  | is => exact matchOf_failsWith scope body
  | compare c => exact comparisonOf_failsWith scope c body

theorem operands_failsWith (scope : Scope) {key : String} (h : (Fault.emptyArray key).isStructural = false) :
    ∀ body : Tree, FailsWith (·.isStructural = false) (operands scope key body)
  | .array (t :: ts) => by
    apply (ofTree_failsWith scope rfl t).bind
    intro f _
    exact (ofTrees_failsWith scope key ts).bind fun _ _ => failsWith_ok _
  | .array [] => failsWith_error h
  | .null | .bool _ | .number _ | .text _ | .object _ => failsWith_error h

theorem ofTrees_failsWith (scope : Scope) (key : String) :
    ∀ ts : List Tree, FailsWith (·.isStructural = false) (ofTrees scope key ts)
  | [] => failsWith_ok _
  | t :: ts => by
    apply (ofTree_failsWith scope rfl t).bind
    intro f _
    exact (ofTrees_failsWith scope key ts).bind fun _ _ => failsWith_ok _

end

/-- The operator of a query's WHERE is known and the only one, and the fault lies in its body. -/
def FailsBelow (kinds : Entries Kind) (query : Tree) (fault : Fault) : Prop :=
  ∃ scope key body operator, kinds.lookup scope.datasetId = some scope.kind ∧
    query.get? "WHERE" = some (.object [(key, body)]) ∧ Operator.ofKey? key = some operator ∧
    ofBody scope key body operator = .error fault

theorem isSome_ofKey? : ∀ key ∈ ["AND", "OR", "LT", "GT", "EQ", "IS", "NOT"],
    (Operator.ofKey? key).isSome = true := by
  decide

/-- What is left to fail in a filter whose WHERE has passed the check. -/
theorem ofWhere_failsWith {kinds : Entries Kind} {scope : Scope}
    (hscope : kinds.lookup scope.datasetId = some scope.kind) {query t : Tree}
    (hwhere : query.get? "WHERE" = some t) (h : Grammar.IsWhere t) :
    FailsWith (fun fault => fault.isStructural = false ∧ FailsBelow kinds query fault) (ofWhere scope t) := by
  cases h with
  | empty => exact failsWith_ok none
  | @operator key body hkey =>
    obtain ⟨operator, hoperator⟩ := Option.isSome_iff_exists.1 (isSome_ofKey? key hkey)
    have hread : ofTree scope (.notObject "WHERE") (.object [(key, body)]) = ofBody scope key body operator := by
      rw [ofTree_single, hoperator]
    have hbody : FailsWith (fun fault => fault.isStructural = false ∧ FailsBelow kinds query fault)
        (ofTree scope (.notObject "WHERE") (.object [(key, body)])) := by
      rw [hread]
      intro fault hfault
      refine ⟨ofBody_failsWith scope hoperator body fault hfault, ?_⟩
      exact ⟨scope, key, body, operator, hscope, hwhere, hoperator, hfault⟩
    exact hbody.bind fun _ _ => failsWith_ok _

end Filter

namespace Plan

theorem ofTree_failsWith (kinds : Entries Kind) {query : Tree} (h : Grammar.checkQuery query = .ok ()) :
    FailsWith (fun fault => fault.isStructural = false ∧
      (fault.concernsOperators = true → Filter.FailsBelow kinds query fault)) (ofTree kinds query) := by
  obtain ⟨root, rfl, ⟨whereTree, hwhere, hcheckWhere⟩, ⟨t, hoptions, hcheckOptions⟩, htransformations, -⟩ :=
    Grammar.checkQuery_eq_ok_iff.1 h
  obtain ⟨options, rfl, -⟩ := Grammar.check_options_iff.1 hcheckOptions
  have hplain : ∀ fault : Fault, fault.Plain → fault.isStructural = false ∧
      (fault.concernsOperators = true → Filter.FailsBelow kinds (.object root) fault) := by
    intro fault ⟨hstructural, hoperators⟩
    refine ⟨hstructural, fun hconcerns => ?_⟩
    rw [hoperators] at hconcerns
    cases hconcerns
  unfold ofTree
  simp only [hoptions, hwhere]
  refine FailsWith.bind (failsWith_optionMapM fun t ht => ?_) fun transformations hread => ?_
  · obtain ⟨entries, rfl, -⟩ := Grammar.check_transformations_iff.1 (htransformations t ht)
    exact failsWith_ok _
  · have hentries := objects_eq_ok_iff.1 hread
    apply ((Options.ofTree_failsWith kinds transformations hcheckOptions).mono hplain).bind
    intro o _
    split
    · next kind hkind =>
      refine FailsWith.bind (failsWith_optionMapM fun entries hsome => ?_) fun transformation _ => ?_
      · have hlookup : root.lookup "TRANSFORMATIONS" = some (.object entries) := by rw [hentries, hsome]; rfl
        exact (Transformation.ofTree_failsWith _ o.columns (htransformations _ hlookup)).mono hplain
      · have hscope : kinds.lookup (Scope.mk o.datasetId kind).datasetId = some kind := hkind
        have hget : (Tree.object root).get? "WHERE" = some whereTree := hwhere
        have hfilter := Filter.ofWhere_failsWith hscope hget (Grammar.check_where_iff.1 hcheckWhere)
        refine FailsWith.bind (hfilter.mono ?_) fun _ _ => failsWith_ok _
        intro fault ⟨hstructural, hbelow⟩
        exact ⟨hstructural, fun _ => hbelow⟩
    · exact (failsWith_error ⟨rfl, rfl⟩ : FailsWith Fault.Plain _).mono hplain

theorem columns_ne_nil_of_check {kinds : Entries Kind} {transformations : Option (Entries Tree)}
    {entries : Entries Tree} {o : Options} (h : Grammar.check "OPTIONS" (.object entries) = .ok ())
    (ho : Options.ofTree kinds transformations entries = .ok o) : o.columns ≠ [] := by
  obtain ⟨entries', heq, -, ⟨t, hcolumns, hcheck⟩, -⟩ := Grammar.check_options_iff.1 h
  obtain rfl := Tree.object.inj heq
  obtain ⟨items, rfl, hne⟩ := Grammar.check_columns_iff.1 hcheck
  obtain ⟨hkeys, -⟩ := Options.ofTree_eq_ok_iff.1 ho
  obtain rfl := Tree.array.inj (Option.some.inj (hcolumns.symm.trans hkeys))
  intro hnil
  exact hne (by simp [Options.keys, hnil])

theorem order_keys_ne_nil_of_check {kinds : Entries Kind} {transformations : Option (Entries Tree)}
    {entries : Entries Tree} {o : Options} (h : Grammar.check "OPTIONS" (.object entries) = .ok ())
    (ho : Options.ofTree kinds transformations entries = .ok o) {order : Order} (horder : o.order = some order) :
    order.keys ≠ [] := by
  obtain ⟨entries', heq, -, -, hcheck, -⟩ := Grammar.check_options_iff.1 h
  obtain rfl := Tree.object.inj heq
  obtain ⟨-, -, -, -, hread⟩ := Options.ofTree_eq_ok_iff.1 ho
  rw [horder] at hread
  rcases optionMapM_eq_ok_iff.1 hread with ⟨-, hnone⟩ | ⟨t, order', hlookup, hsome, hshape⟩
  · cases hnone
  · obtain rfl := Option.some.inj hsome
    exact Order.keys_ne_nil_of_check (hcheck t hlookup) (Order.ofTree_eq_ok_iff.1 hshape).1

/-- A query that has passed the check is never refused for its form. -/
theorem ofTree_of_checkQuery (kinds : Entries Kind) {query : Tree} (h : Grammar.checkQuery query = .ok ()) :
    (∀ fault, ofTree kinds query = .error fault → fault.isStructural = false ∧
      (fault.concernsOperators = true → Filter.FailsBelow kinds query fault)) ∧
    ∀ p, ofTree kinds query = .ok p → p.options.columns ≠ [] ∧
      ∀ order, p.options.order = some order → order.keys ≠ [] := by
  refine ⟨ofTree_failsWith kinds h, fun p hplan => ?_⟩
  obtain ⟨root, hroot, -, ⟨t, hoptions, hcheck⟩, -⟩ := Grammar.checkQuery_eq_ok_iff.1 h
  obtain ⟨root', options, transformations, kind, whereTree, hroot', hoptions', -, ho, -⟩ :=
    ofTree_eq_ok_iff.1 hplan
  obtain rfl := Tree.object.inj (hroot.symm.trans hroot')
  obtain rfl := Option.some.inj (hoptions.symm.trans hoptions')
  exact ⟨columns_ne_nil_of_check hcheck ho, fun order horder => order_keys_ne_nil_of_check hcheck ho horder⟩

/-- A filter with an operator that is not known, below one that is. -/
def roomsNotNear : Tree :=
  .object [("WHERE", .object [("NOT", .object [("NEAR", .text "rooms_name")])]),
    ("OPTIONS", .object [("COLUMNS", .array [.text "rooms_name"])])]

/-- Only the operators below the topmost one are left for the reading to refuse. -/
theorem ofTree_roomsNotNear :
    Grammar.checkQuery roomsNotNear = .ok () ∧
      ofTree [("rooms", .rooms)] roomsNotNear = .error (.unknownOperator "NEAR") ∧
      (Fault.unknownOperator "NEAR").isStructural = false ∧
      Filter.FailsBelow [("rooms", .rooms)] roomsNotNear (.unknownOperator "NEAR") := by
  have hcheck : Grammar.checkQuery roomsNotNear = .ok () := rfl
  have hfault : ofTree [("rooms", .rooms)] roomsNotNear = .error (.unknownOperator "NEAR") := rfl
  obtain ⟨hstructural, hbelow⟩ := (ofTree_of_checkQuery [("rooms", .rooms)] hcheck).1 _ hfault
  exact ⟨hcheck, hfault, hstructural, hbelow rfl⟩

end Plan

end CampusQuery
