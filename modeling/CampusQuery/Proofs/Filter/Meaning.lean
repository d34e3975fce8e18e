import CampusQuery.Filter.OfTree
import CampusQuery.Proofs.Pattern.Glob
import CampusQuery.Proofs.Row.Object

/-! Which trees are read as filters, and what they say of a row. Main statement: the trees of the
grammar and no others are read, and each one accepts the rows of whose object it holds. -/

namespace CampusQuery

/-- No comparison holds with a not-a-number, and the two zeros are in one place. -/
def Comparison.Relates (c : Comparison) (x y : Double) : Prop :=
  x.isNaN = false ∧ y.isNaN = false ∧
    match c with
    | less => x.position < y.position
    | greater => y.position < x.position
    | equal => x.position = y.position

theorem Comparison.holds_iff {c : Comparison} {x y : Double} : c.holds x y = true ↔ c.Relates x y := by
  cases c <;> simp only [holds, Relates, Double.lt, Double.eq, Bool.and_eq_true, Bool.not_eq_true',
    decide_eq_true_eq, and_assoc]
  exact and_left_comm

/-- The grammar of filters on a dataset. -/
inductive IsFilter (scope : Scope) : Tree → Prop
  | and {ts : List Tree} : ts ≠ [] → (∀ t ∈ ts, IsFilter scope t) →
    IsFilter scope (.object [("AND", .array ts)])
  | or {ts : List Tree} : ts ≠ [] → (∀ t ∈ ts, IsFilter scope t) →
    IsFilter scope (.object [("OR", .array ts)])
  | not {t : Tree} : IsFilter scope t → IsFilter scope (.object [("NOT", t)])
  | is {f : Field} {s : String} : f ∈ scope.kind.fields → f.type = .text → '*' ∉ s.toList.tail.dropLast →
    IsFilter scope (.object [("IS", .object [(scope.datasetId ++ "_" ++ f.name, .text s)])])
  | compare (c : Comparison) (x : Double) {f : Field} : f ∈ scope.kind.fields → f.type = .number →
    IsFilter scope (.object [(c.key, .object [(scope.datasetId ++ "_" ++ f.name, .number x)])])

/-- The text under the field of the body's key comes out of the body's text by replacing stars. -/
def Likens (id : String) (cells body : Tree) : Prop :=
  ∃ field pattern value, body = .object [(id ++ "_" ++ field, .text pattern)] ∧
    cells.get? field = some (.text value) ∧ Glob pattern.toList value.toList

/-- The number under the field of the body's key compares to the body's number. -/
def Compares (c : Comparison) (id : String) (cells body : Tree) : Prop :=
  ∃ field bound value, body = .object [(id ++ "_" ++ field, .number bound)] ∧
    cells.get? field = some (.number value) ∧ c.Relates value bound

mutual

/-- What a filter on the dataset of an id says of an object of cells. -/
def Says (id : String) (cells : Tree) : Tree → Prop
  | .object [(operator, body)] =>
    match operator with
    | "AND" => SaysAll id cells body
    | "OR" => SaysAny id cells body
    | "NOT" => ¬Says id cells body
    | "IS" => Likens id cells body
    | "LT" => Compares .less id cells body
    | "GT" => Compares .greater id cells body
    | "EQ" => Compares .equal id cells body
    | _ => False
  | _ => False

def SaysAll (id : String) (cells : Tree) : Tree → Prop
  | .array ts => SaysEach id cells ts
  | _ => False

def SaysAny (id : String) (cells : Tree) : Tree → Prop
  | .array ts => SaysSome id cells ts
  | _ => False

def SaysEach (id : String) (cells : Tree) : List Tree → Prop
  | [] => True
  | t :: ts => Says id cells t ∧ SaysEach id cells ts

def SaysSome (id : String) (cells : Tree) : List Tree → Prop
  | [] => False
  | t :: ts => Says id cells t ∨ SaysSome id cells ts

end

theorem says_and_iff {id : String} {cells : Tree} {ts : List Tree} :
    Says id cells (.object [("AND", .array ts)]) ↔ ∀ t ∈ ts, Says id cells t := by
  show SaysEach id cells ts ↔ _
  induction ts with
  | nil => simp [SaysEach]
  | cons t ts ih => rw [SaysEach, ih, List.forall_mem_cons]

theorem says_or_iff {id : String} {cells : Tree} {ts : List Tree} :
    Says id cells (.object [("OR", .array ts)]) ↔ ∃ t ∈ ts, Says id cells t := by
  show SaysSome id cells ts ↔ _
  induction ts with
  | nil => simp [SaysSome]
  | cons t ts ih => rw [SaysSome, ih, List.exists_mem_cons_iff]

theorem says_compare {c : Comparison} {id : String} {cells body : Tree} :
    Says id cells (.object [(c.key, body)]) ↔ Compares c id cells body := by
  cases c <;> exact Iff.rfl

namespace Filter

variable {scope : Scope}

theorem ofWhere_eq_none_iff {t : Tree} : ofWhere scope t = .ok none ↔ t = .object [] := by
  unfold ofWhere
  split
  · simp
  · next hne =>
    refine ⟨fun h => ?_, fun h => absurd h hne⟩
    obtain ⟨f, -, hf⟩ := bind_eq_ok_iff.1 h
    cases pure_eq_ok_iff.1 hf

theorem ofWhere_eq_some_iff {t : Tree} {f : Filter} :
    ofWhere scope t = .ok (some f) ↔ t ≠ .object [] ∧ ofTree scope (.notObject "WHERE") t = .ok f := by
  unfold ofWhere
  split
  · simp
  · next hne =>
    have hne' : t ≠ .object [] := hne
    rw [bind_pure_comp, map_eq_ok_iff]
    simp [hne']

theorem onlyEntry_eq_ok_iff {operator : String} {body : Tree} {entry : String × Tree} :
    onlyEntry operator body = .ok entry ↔ body = .object [entry] := by
  unfold onlyEntry
  split
  · simp
  · next entries hne =>
    refine ⟨nofun, fun h => ?_⟩
    exact absurd (Tree.object.inj h) (hne entry)
  · next hne =>
    refine ⟨nofun, fun h => ?_⟩
    exact absurd h (hne _)

/-- A field's key, and the attribute that it is resolved to. -/
theorem resolve_field_iff (hid : IsId scope.datasetId) {key : String} {a : Attribute} :
    scope.resolve key = .ok a ↔
      a.IsOf scope.kind ∧ a.datasetId = scope.datasetId ∧ key = scope.datasetId ++ "_" ++ a.field := by
  rw [Scope.resolve_eq_ok_iff]
  refine ⟨fun ⟨hof, hkey, _, hds⟩ => ⟨hof, hds, hds ▸ hkey⟩, fun ⟨hof, hds, hkey⟩ => ?_⟩
  exact ⟨hof, by rw [hkey, Attribute.key, hds], hds ▸ hid, hds⟩

theorem matchOf_eq_ok_iff (hid : IsId scope.datasetId) {body : Tree} {f : Filter} :
    matchOf scope body = .ok f ↔
      ∃ a s p, body = .object [(scope.datasetId ++ "_" ++ a.field, .text s)] ∧ a.IsOf scope.kind ∧
        a.datasetId = scope.datasetId ∧ a.type = .text ∧ Pattern.ofText s = .ok p ∧ f = .like a p := by
  unfold matchOf
  rw [bind_eq_ok_iff]
  refine ⟨fun ⟨⟨key, value⟩, hbody, h⟩ => ?_, fun ⟨a, s, p, hbody, hof, hds, htype, hp, hf⟩ => ?_⟩
  · obtain ⟨a, ha, h⟩ := bind_eq_ok_iff.1 h
    obtain ⟨hof, hds, rfl⟩ := (resolve_field_iff hid).1 ha
    rw [onlyEntry_eq_ok_iff] at hbody
    cases htype : a.type with
    | number => simp [htype] at h
    | text =>
      simp only [htype, reduceCtorEq, if_false] at h
      cases value with
      | text s =>
        obtain ⟨p, hp, hf⟩ := bind_eq_ok_iff.1 h
        exact ⟨a, s, p, hbody, hof, hds, htype, hp, (pure_eq_ok_iff.1 hf).symm⟩
      | _ => cases h
  · have ha := (resolve_field_iff hid).2 ⟨hof, hds, rfl⟩
    refine ⟨_, onlyEntry_eq_ok_iff.2 hbody, bind_eq_ok_iff.2 ⟨a, ha, ?_⟩⟩
    simp only [htype, reduceCtorEq, if_false]
    exact bind_eq_ok_iff.2 ⟨p, hp, pure_eq_ok_iff.2 hf.symm⟩

theorem comparisonOf_eq_ok_iff (hid : IsId scope.datasetId) {c : Comparison} {body : Tree} {f : Filter} :
    comparisonOf scope c body = .ok f ↔
      ∃ a x, body = .object [(scope.datasetId ++ "_" ++ a.field, .number x)] ∧ a.IsOf scope.kind ∧
        a.datasetId = scope.datasetId ∧ a.type = .number ∧ f = .compare c a x := by
  unfold comparisonOf
  rw [bind_eq_ok_iff]
  refine ⟨fun ⟨⟨key, value⟩, hbody, h⟩ => ?_, fun ⟨a, x, hbody, hof, hds, htype, hf⟩ => ?_⟩
  · obtain ⟨a, ha, h⟩ := bind_eq_ok_iff.1 h
    obtain ⟨hof, hds, rfl⟩ := (resolve_field_iff hid).1 ha
    rw [onlyEntry_eq_ok_iff] at hbody
    cases htype : a.type with
    | text => simp [htype] at h
    | number =>
      simp only [htype, reduceCtorEq, if_false] at h
      cases value with
      | number x => exact ⟨a, x, hbody, hof, hds, htype, (Except.ok.inj h).symm⟩
      | _ => cases h
  · have ha := (resolve_field_iff hid).2 ⟨hof, hds, rfl⟩
    refine ⟨_, onlyEntry_eq_ok_iff.2 hbody, bind_eq_ok_iff.2 ⟨a, ha, ?_⟩⟩
    simp only [htype, reduceCtorEq, if_false, hf]

theorem accepts_like_iff {row : Row} {kind : Kind} (hrow : row.conforms kind = true) {a : Attribute}
    (hof : a.IsOf kind) (htype : a.type = .text) {s : String} {p : Pattern}
    (hp : Pattern.ofText s = .ok p) (id : String) :
    (like a p).accepts row = true ↔
      Likens id (row.toTree kind) (.object [(id ++ "_" ++ a.field, .text s)]) := by
  obtain ⟨c, hc, hctype⟩ := Row.exists_cell hrow hof
  have hget := Row.get?_toTree hof hc
  rw [htype] at hctype
  cases c with
  | number x => cases hctype
  | text value =>
    simp only [accepts, hc, Option.bind_some, Cell.text?, Option.any_some, Pattern.accepts_iff hp]
    refine ⟨fun h => ⟨a.field, s, value, rfl, hget, h⟩, fun ⟨field, pattern, v, hbody, hv, h⟩ => ?_⟩
    obtain ⟨hfield, hs⟩ : a.field = field ∧ s = pattern := by simpa using hbody
    rw [← hfield, hget] at hv
    obtain rfl : value = v := by simpa [Cell.toTree] using hv
    exact hs ▸ h

theorem accepts_compare_iff {row : Row} {kind : Kind} (hrow : row.conforms kind = true) {a : Attribute}
    (hof : a.IsOf kind) (htype : a.type = .number) (c : Comparison) (x : Double) (id : String) :
    (compare c a x).accepts row = true ↔
      Compares c id (row.toTree kind) (.object [(id ++ "_" ++ a.field, .number x)]) := by
  obtain ⟨cell, hcell, hctype⟩ := Row.exists_cell hrow hof
  have hget := Row.get?_toTree hof hcell
  rw [htype] at hctype
  cases cell with
  | text s => cases hctype
  | number value =>
    simp only [accepts, hcell, Option.bind_some, Cell.number?, Option.any_some, Comparison.holds_iff]
    refine ⟨fun h => ⟨a.field, x, value, rfl, hget, h⟩, fun ⟨field, bound, v, hbody, hv, h⟩ => ?_⟩
    obtain ⟨hfield, hx⟩ : a.field = field ∧ x = bound := by simpa using hbody
    rw [← hfield, hget] at hv
    obtain rfl : value = v := by simpa [Cell.toTree] using hv
    exact hx ▸ h

theorem Operator.ofKey?_eq_some {key : String} {o : Operator} (h : ofKey? key = some o) :
    match o with
    | .and => key = "AND"
    | .or => key = "OR"
    | .not => key = "NOT"
    | .is => key = "IS"
    | .compare c => key = c.key := by
  unfold ofKey? at h
  split_ifs at h with hand hor hnot his
  · exact Option.some.inj h ▸ hand
  · exact Option.some.inj h ▸ hor
  · exact Option.some.inj h ▸ hnot
  · exact Option.some.inj h ▸ his
  · obtain ⟨c, hc, rfl⟩ := Option.map_eq_some_iff.1 h
    unfold Comparison.ofKey? at hc
    split_ifs at hc with hlt hgt heq
    · exact Option.some.inj hc ▸ hlt
    · exact Option.some.inj hc ▸ hgt
    · exact Option.some.inj hc ▸ heq

theorem Operator.mem_of_ofKey?_eq_some {key : String} {o : Operator} (h : ofKey? key = some o) :
    key ∈ ["AND", "OR", "LT", "GT", "EQ", "IS", "NOT"] := by
  have hkey := ofKey?_eq_some h
  cases o with
  | compare c => cases c <;> simp [hkey, Comparison.key]
  | _ => simp [hkey]

/-- A relation that holds of comparisons and matches with what these are read off, and that the other
operators keep. -/
structure KeptByReading (scope : Scope) (R : Tree → Filter → Prop) : Prop where
  and {ts : List Tree} {fs : List Filter} : ts ≠ [] → List.Forall₂ R ts fs →
    R (.object [("AND", .array ts)]) (.all fs)
  or {ts : List Tree} {fs : List Filter} : ts ≠ [] → List.Forall₂ R ts fs →
    R (.object [("OR", .array ts)]) (.any fs)
  not {t : Tree} {f : Filter} : R t f → R (.object [("NOT", t)]) (.not f)
  is {a : Attribute} {s : String} {p : Pattern} : a.IsOf scope.kind → a.datasetId = scope.datasetId →
    a.type = .text → Pattern.ofText s = .ok p →
    R (.object [("IS", .object [(scope.datasetId ++ "_" ++ a.field, .text s)])]) (.like a p)
  compare {c : Comparison} {a : Attribute} {x : Double} : a.IsOf scope.kind →
    a.datasetId = scope.datasetId → a.type = .number →
    R (.object [(c.key, .object [(scope.datasetId ++ "_" ++ a.field, .number x)])]) (.compare c a x)

mutual

/-- Such a relation holds of every tree that is read, and of what it is read as. -/
theorem KeptByReading.of_ofTree {R : Tree → Filter → Prop} (hR : KeptByReading scope R)
    (hid : IsId scope.datasetId) {otherwise : Fault} {f : Filter} :
    ∀ {t : Tree}, ofTree scope otherwise t = .ok f → R t f
  | .object [(key, body)], h => by
    unfold ofTree at h
    split at h
    · next ho =>
      obtain rfl : key = "AND" := Operator.ofKey?_eq_some ho
      obtain ⟨fs, hfs, hf⟩ := bind_eq_ok_iff.1 h
      obtain ⟨ts, rfl, hne, hall⟩ := hR.of_operands hid hfs
      exact pure_eq_ok_iff.1 hf ▸ hR.and hne hall
    · next ho =>
      obtain rfl : key = "OR" := Operator.ofKey?_eq_some ho
      obtain ⟨fs, hfs, hf⟩ := bind_eq_ok_iff.1 h
      obtain ⟨ts, rfl, hne, hall⟩ := hR.of_operands hid hfs
      exact pure_eq_ok_iff.1 hf ▸ hR.or hne hall
    · next ho =>
      obtain rfl : key = "NOT" := Operator.ofKey?_eq_some ho
      obtain ⟨g, hg, hf⟩ := bind_eq_ok_iff.1 h
      exact pure_eq_ok_iff.1 hf ▸ hR.not (hR.of_ofTree hid hg)
    · next ho =>
      obtain rfl : key = "IS" := Operator.ofKey?_eq_some ho
      obtain ⟨a, s, p, rfl, hof, hds, htype, hp, rfl⟩ := (matchOf_eq_ok_iff hid).1 h
      exact hR.is hof hds htype hp
    · next c ho =>
      obtain rfl : key = c.key := Operator.ofKey?_eq_some ho
      obtain ⟨a, x, rfl, hof, hds, htype, rfl⟩ := (comparisonOf_eq_ok_iff hid).1 h
      exact hR.compare hof hds htype
    · cases h

theorem KeptByReading.of_operands {R : Tree → Filter → Prop} (hR : KeptByReading scope R)
    (hid : IsId scope.datasetId) {key : String} {fs : List Filter} :
    ∀ {body : Tree}, operands scope key body = .ok fs →
      ∃ ts, body = .array ts ∧ ts ≠ [] ∧ List.Forall₂ R ts fs
  | .array (t :: ts), h => by
    unfold operands at h
    obtain ⟨f, hf, h⟩ := bind_eq_ok_iff.1 h
    obtain ⟨gs, hgs, hfs⟩ := bind_eq_ok_iff.1 h
    obtain rfl := pure_eq_ok_iff.1 hfs
    exact ⟨t :: ts, rfl, nofun, .cons (hR.of_ofTree hid hf) (hR.of_ofTrees hid hgs)⟩

theorem KeptByReading.of_ofTrees {R : Tree → Filter → Prop} (hR : KeptByReading scope R)
    (hid : IsId scope.datasetId) {key : String} {fs : List Filter} :
    ∀ {ts : List Tree}, ofTrees scope key ts = .ok fs → List.Forall₂ R ts fs
  | [], h => by
    unfold ofTrees at h
    obtain rfl := Except.ok.inj h
    exact .nil
  | t :: ts, h => by
    unfold ofTrees at h
    obtain ⟨f, hf, h⟩ := bind_eq_ok_iff.1 h
    obtain ⟨gs, hgs, hfs⟩ := bind_eq_ok_iff.1 h
    obtain rfl := pure_eq_ok_iff.1 hfs
    exact .cons (hR.of_ofTree hid hf) (hR.of_ofTrees hid hgs)

end

/-- The tree is read as the filter, whatever the fault for what is no object. -/
def Reads (scope : Scope) (t : Tree) (f : Filter) : Prop := ∀ otherwise, ofTree scope otherwise t = .ok f

theorem operands_of_forall₂ (key : String) {ts : List Tree} {fs : List Filter} (hne : ts ≠ [])
    (h : List.Forall₂ (Reads scope) ts fs) : operands scope key (.array ts) = .ok fs := by
  have hall : ofTrees scope key ts = .ok fs := by
    clear hne
    induction h with
    | nil => rfl
    | cons hf _ ih =>
      rw [ofTrees, hf, ih]
      rfl
  cases ts with
  | nil => exact absurd rfl hne
  | cons t ts => rwa [ofTrees] at hall

/-- Reading is the least relation that it keeps. -/
theorem keptByReading_reads (hid : IsId scope.datasetId) : KeptByReading scope (Reads scope) where
  and hne h _ := by simp [ofTree, Operator.ofKey?, operands_of_forall₂ "AND" hne h]
  or hne h _ := by simp [ofTree, Operator.ofKey?, operands_of_forall₂ "OR" hne h]
  not h _ := by simp [ofTree, Operator.ofKey?, h (.notObject "NOT")]
  is hof hds htype hp _ := (matchOf_eq_ok_iff hid).2 ⟨_, _, _, rfl, hof, hds, htype, hp, rfl⟩
  compare {c _ _} hof hds htype _ := by
    have hc : Operator.ofKey? c.key = some (.compare c) := by cases c <;> rfl
    rw [ofTree, hc]
    exact (comparisonOf_eq_ok_iff hid).2 ⟨_, _, rfl, hof, hds, htype, rfl⟩

/-- Every tree of the grammar is read. -/
theorem exists_reads (hid : IsId scope.datasetId) {t : Tree} (h : IsFilter scope t) :
    ∃ f, Reads scope t f := by
  have hkept := keptByReading_reads hid
  induction h with
  | and hne _ ih =>
    obtain ⟨fs, hfs⟩ := exists_forall₂ ih
    exact ⟨.all fs, hkept.and hne hfs⟩
  | or hne _ ih =>
    obtain ⟨fs, hfs⟩ := exists_forall₂ ih
    exact ⟨.any fs, hkept.or hne hfs⟩
  | not _ ih =>
    obtain ⟨f, hf⟩ := ih
    exact ⟨.not f, hkept.not hf⟩
  | is hf htype hstar =>
    obtain ⟨a, hof, hds, hname, hatype⟩ := Attribute.exists_isOf scope.datasetId hf
    obtain ⟨p, hp⟩ := (Pattern.exists_ofText_iff _).2 hstar
    rw [← hname]
    exact ⟨.like a p, hkept.is hof hds (hatype.trans htype) hp⟩
  | compare c x hf htype =>
    obtain ⟨a, hof, hds, hname, hatype⟩ := Attribute.exists_isOf scope.datasetId hf
    rw [← hname]
    exact ⟨.compare c a x, hkept.compare hof hds (hatype.trans htype)⟩

/-- Nothing else is read. -/
theorem keptByReading_isFilter (scope : Scope) : KeptByReading scope fun t _ => IsFilter scope t where
  and hne h := .and hne (forall_of_forall₂ h)
  or hne h := .or hne (forall_of_forall₂ h)
  not h := .not h
  is hof _ htype hp := .is hof.mem htype ((Pattern.exists_ofText_iff _).1 ⟨_, hp⟩)
  compare hof _ htype := .compare _ _ hof.mem htype

theorem isFilter_of_ofTree (hid : IsId scope.datasetId) {otherwise : Fault} {t : Tree} {f : Filter}
    (h : ofTree scope otherwise t = .ok f) : IsFilter scope t :=
  (keptByReading_isFilter scope).of_ofTree hid h

/-- Read as the filter, the tree says of the rows that fit what the filter does with them. -/
def Renders (scope : Scope) (t : Tree) (f : Filter) : Prop :=
  ∀ row : Row, row.conforms scope.kind = true →
    (f.accepts row = true ↔ Says scope.datasetId (row.toTree scope.kind) t)

theorem renders_and {ts : List Tree} {fs : List Filter} (h : List.Forall₂ (Renders scope) ts fs) :
    Renders scope (.object [("AND", .array ts)]) (.all fs) := by
  intro row hrow
  rw [says_and_iff, accepts]
  induction h with
  | nil => simp [allAccept]
  | cons hf _ ih => rw [allAccept, Bool.and_eq_true, hf row hrow, ih, List.forall_mem_cons]

theorem renders_or {ts : List Tree} {fs : List Filter} (h : List.Forall₂ (Renders scope) ts fs) :
    Renders scope (.object [("OR", .array ts)]) (.any fs) := by
  intro row hrow
  rw [says_or_iff, accepts]
  induction h with
  | nil => simp [anyAccepts]
  | cons hf _ ih => rw [anyAccepts, Bool.or_eq_true, hf row hrow, ih, List.exists_mem_cons_iff]

/-- What is read is read as what it says. -/
theorem keptByReading_renders (scope : Scope) : KeptByReading scope (Renders scope) where
  and _ h := renders_and h
  or _ h := renders_or h
  not h row hrow := by
    show (!accepts _ row) = true ↔ ¬Says _ _ _
    rw [← h row hrow, Bool.not_eq_true', Bool.not_eq_true]
  is hof _ htype hp _ hrow := accepts_like_iff hrow hof htype hp _
  compare hof _ htype _ hrow := by
    rw [says_compare]
    exact accepts_compare_iff hrow hof htype _ _ _

theorem ofTree_of_isFilter (hid : IsId scope.datasetId) {t : Tree} (h : IsFilter scope t)
    (otherwise : Fault) : ∃ f, ofTree scope otherwise t = .ok f ∧ Renders scope t f := by
  obtain ⟨f, hf⟩ := exists_reads hid h
  exact ⟨f, hf otherwise, (keptByReading_renders scope).of_ofTree hid (hf otherwise)⟩

/-- Whatever the fault for what is no object, the trees that are read are those of the grammar, and
they say of a row that fits what the filter does with it. -/
theorem ofTree_iff_and_accepts_iff (scope : Scope) (hid : IsId scope.datasetId) (otherwise : Fault)
    (t : Tree) :
    ((∃ f, ofTree scope otherwise t = .ok f) ↔ IsFilter scope t) ∧
      ∀ f, ofTree scope otherwise t = .ok f → ∀ row : Row, row.conforms scope.kind = true →
        (f.accepts row = true ↔ Says scope.datasetId (row.toTree scope.kind) t) := by
  refine ⟨⟨fun ⟨f, hf⟩ => isFilter_of_ofTree hid hf, fun h => ?_⟩, ?_⟩
  · obtain ⟨f, hf, -⟩ := ofTree_of_isFilter hid h otherwise
    exact ⟨f, hf⟩
  · intro f hf
    obtain ⟨g, hg, hrenders⟩ := ofTree_of_isFilter hid (isFilter_of_ofTree hid hf) otherwise
    obtain rfl : g = f := Except.ok.inj (hg.symm.trans hf)
    exact hrenders

/-- The rooms whose name begins with a D. -/
theorem ofTree_rooms_like :
    IsId "rooms" ∧ ∃ f, ofTree ⟨"rooms", .rooms⟩ (.notObject "NOT")
        (.object [("IS", .object [("rooms_name", .text "D*")])]) = .ok f ∧
      ∀ row : Row, row.conforms .rooms = true → (f.accepts row = true ↔
        Says "rooms" (row.toTree .rooms) (.object [("IS", .object [("rooms_name", .text "D*")])])) := by
  have hid : IsId "rooms" := by decide
  have hfilter : IsFilter ⟨"rooms", .rooms⟩ (.object [("IS", .object [("rooms_name", .text "D*")])]) :=
    .is (f := ⟨"name", .text⟩) (by decide) rfl (by decide)
  obtain ⟨hread, hsays⟩ := ofTree_iff_and_accepts_iff ⟨"rooms", .rooms⟩ hid (.notObject "NOT")
    (.object [("IS", .object [("rooms_name", .text "D*")])])
  obtain ⟨f, hf⟩ := hread.2 hfilter
  exact ⟨hid, f, hf, hsays f hf⟩

end Filter

end CampusQuery
