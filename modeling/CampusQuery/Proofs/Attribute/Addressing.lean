import CampusQuery.Dataset
import CampusQuery.Proofs.Attribute.Resolution
import Mathlib.Data.Set.Function

/-! Keys as addresses of columns. Main statement: where all ids are allowed ones, the keys that are resolved and the
columns of the known datasets stand one to one, and the scope of a dataset resolves the keys of that dataset in the
same way and refuses every other text. -/

namespace CampusQuery

/-- What may be the id of a dataset can stand in a key. -/
theorem Dataset.isId_of_checkId {id : String} (h : checkId id = .ok ()) : IsId id := by
  unfold checkId at h
  split_ifs at h with hempty hunderscore
  exact ⟨fun hid => hempty (by rw [hid]; rfl), hunderscore⟩

namespace Field

def key (id : String) (f : Field) : String := id ++ "_" ++ f.name

def attributeOf (id : String) (kind : Kind) (f : Field) : Attribute := ⟨id, f.name, kind.fields.idxOf f, f.type⟩

theorem isOf_attributeOf {id : String} {kind : Kind} {f : Field} (h : f ∈ kind.fields) :
    (f.attributeOf id kind).IsOf kind :=
  List.getElem?_idxOf h

end Field

/-- The fields of the known datasets. -/
def columns (kinds : Entries Kind) : Set (String × Field) :=
  {c | ∃ kind, kinds.lookup c.1 = some kind ∧ c.2 ∈ kind.fields}

def acceptedKeys (kinds : Entries Kind) : Set String := {key | ∃ a, Attribute.resolve kinds key = .ok a}

/-- The dataset and the field that a key is resolved to. -/
def addressed? (kinds : Entries Kind) (key : String) : Option (String × Field) :=
  (Attribute.resolve kinds key).toOption.map fun a => (a.datasetId, ⟨a.field, a.type⟩)

namespace Attribute

variable {kinds : Entries Kind} {id key : String} {kind : Kind} {f : Field} {a : Attribute}

/-- No two fields of a kind have one name, so that the name determines the rest. -/
theorem IsOf.eq_attributeOf (ha : a.IsOf kind) (hf : f ∈ kind.fields) (hname : a.field = f.name) :
    a = f.attributeOf a.datasetId kind :=
  Option.some.inj ((of?_eq_some_iff.2 ⟨ha, rfl, hname⟩).symm.trans
    (of?_eq_some_iff.2 ⟨Field.isOf_attributeOf hf, rfl, rfl⟩))

theorem resolve_key (hkind : kinds.lookup id = some kind) (hid : IsId id) (hf : f ∈ kind.fields) :
    resolve kinds (f.key id) = .ok (f.attributeOf id kind) :=
  resolve_eq_ok_iff.2 ⟨kind, hkind, Field.isOf_attributeOf hf, rfl, hid⟩

theorem key_of_resolve (h : resolve kinds key = .ok a) : a.key = key := by
  obtain ⟨-, -, -, hkey, -⟩ := resolve_eq_ok_iff.1 h
  exact hkey.symm

theorem resolve_and_names_iff (hkind : kinds.lookup id = some kind) (hid : IsId id) (hf : f ∈ kind.fields) :
    (resolve kinds key = .ok a ∧ a.datasetId = id ∧ a.field = f.name) ↔ key = f.key id ∧ a = f.attributeOf id kind := by
  constructor
  · rintro ⟨h, rfl, hname⟩
    obtain ⟨kind', hkind', hof, hkey, -⟩ := resolve_eq_ok_iff.1 h
    obtain rfl := Option.some.inj (hkind'.symm.trans hkind)
    exact ⟨by rw [hkey, Attribute.key, Field.key, hname], hof.eq_attributeOf hf hname⟩
  · rintro ⟨rfl, rfl⟩
    exact ⟨resolve_key hkind hid hf, rfl, rfl⟩

theorem addressed?_of_resolve (h : resolve kinds key = .ok a) :
    addressed? kinds key = some (a.datasetId, ⟨a.field, a.type⟩) := by
  unfold addressed?
  rw [h]
  rfl

theorem mapsTo_addressed? : Set.MapsTo (addressed? kinds) (acceptedKeys kinds) (some '' columns kinds) := by
  rintro key ⟨a, ha⟩
  obtain ⟨kind, hkind, hof, -, -⟩ := resolve_eq_ok_iff.1 ha
  exact ⟨_, ⟨kind, hkind, hof.mem⟩, (addressed?_of_resolve ha).symm⟩

theorem injOn_addressed? : Set.InjOn (addressed? kinds) (acceptedKeys kinds) := by
  rintro key ⟨a, ha⟩ key' ⟨b, hb⟩ heq
  rw [addressed?_of_resolve ha, addressed?_of_resolve hb] at heq
  obtain ⟨hid, hfield⟩ := Prod.mk.inj (Option.some.inj heq)
  obtain ⟨hname, -⟩ := Field.mk.inj hfield
  rw [← key_of_resolve ha, ← key_of_resolve hb, Attribute.key, Attribute.key, hid, hname]

theorem surjOn_addressed? (hids : ∀ id kind, kinds.lookup id = some kind → IsId id) :
    Set.SurjOn (addressed? kinds) (acceptedKeys kinds) (some '' columns kinds) := by
  rintro _ ⟨⟨id, f⟩, ⟨kind, hkind, hf⟩, rfl⟩
  have hresolve := resolve_key hkind (hids id kind hkind) hf
  exact ⟨f.key id, ⟨_, hresolve⟩, addressed?_of_resolve hresolve⟩

theorem not_mem_of_of?_eq_none {name : String} (h : of? id kind name = none) :
    name ∉ kind.fields.map Field.name := by
  intro hname
  obtain ⟨f, hf, rfl⟩ := List.mem_map.1 hname
  have hsome : of? id kind f.name = some (f.attributeOf id kind) :=
    of?_eq_some_iff.2 ⟨Field.isOf_attributeOf hf, rfl, rfl⟩
  rw [h] at hsome
  cases hsome

theorem not_isApplyName_of_resolve (h : resolve kinds key = .ok a) : isApplyName key = false :=
  key_of_resolve h ▸ a.not_isApplyName_key

end Attribute

namespace Scope

/-- Why a scope refuses a key: it is none, it is one of another dataset, or the dataset has no such field. -/
def Refuses (scope : Scope) (key : String) (fault : Fault) : Prop :=
  fault = .invalidKey key ∨ (∃ id, id ≠ scope.datasetId ∧ fault = .severalDatasets scope.datasetId id) ∨
    ∃ name, name ∉ scope.kind.fields.map Field.name ∧ fault = .unknownField key scope.kind name

theorem splitKey_failsWith_refuses (scope : Scope) (key : String) : FailsWith (scope.Refuses key) (splitKey key) := by
  unfold splitKey
  split
  · exact failsWith_ok _
  · exact failsWith_error (.inl rfl)

theorem resolve_failsWith_refuses (scope : Scope) (key : String) :
    FailsWith (scope.Refuses key) (scope.resolve key) := by
  apply (splitKey_failsWith_refuses scope key).bind
  intro (id, name) _
  dsimp only
  split
  · apply (splitKey_failsWith_refuses scope key).bind
    intro (id', name') _
    dsimp only
    split
    · exact failsWith_ok _
    · next hnone => exact failsWith_error (.inr (.inr ⟨name', Attribute.not_mem_of_of?_eq_none hnone, rfl⟩))
  · next hid => exact failsWith_error (.inr (.inl ⟨id, hid, rfl⟩))

variable {kinds : Entries Kind} {scope : Scope} {key : String}

/-- The scope of a known dataset knows of this dataset what is known of all. -/
theorem resolve_eq_ok_iff_resolve (hkind : kinds.lookup scope.datasetId = some scope.kind) (a : Attribute) :
    scope.resolve key = .ok a ↔ Attribute.resolve kinds key = .ok a ∧ a.datasetId = scope.datasetId := by
  rw [resolve_eq_ok_iff, Attribute.resolve_eq_ok_iff]
  constructor
  · rintro ⟨hof, hkey, hid, hds⟩
    exact ⟨⟨_, hds ▸ hkind, hof, hkey, hid⟩, hds⟩
  · rintro ⟨⟨kind, hkind', hof, hkey, hid⟩, hds⟩
    obtain rfl := Option.some.inj ((hds ▸ hkind').symm.trans hkind)
    exact ⟨hof, hkey, hid, hds⟩

theorem exists_refuses (h : ¬∃ a, scope.resolve key = .ok a) :
    ∃ fault, scope.resolve key = .error fault ∧ scope.Refuses key fault := by
  cases hresult : scope.resolve key with
  | ok a => exact absurd ⟨a, hresult⟩ h
  | error fault => exact ⟨fault, rfl, resolve_failsWith_refuses scope key fault hresult⟩

end Scope

namespace Attribute

/-- The key of a column is its dataset's id and its name with an underscore in between, and leads to its place and
type. -/
theorem resolve_bijOn_columns {kinds : Entries Kind} (hids : ∀ id ∈ kinds.keys, Dataset.checkId id = .ok ()) :
    Set.BijOn (addressed? kinds) (acceptedKeys kinds) (some '' columns kinds) ∧
      (∀ id kind, kinds.lookup id = some kind → ∀ f ∈ kind.fields, ∀ key a,
        (resolve kinds key = .ok a ∧ a.datasetId = id ∧ a.field = f.name) ↔
          key = f.key id ∧ a = f.attributeOf id kind) ∧
      (∀ key a, resolve kinds key = .ok a → a.key = key) ∧
      (∀ id kind, kinds.lookup id = some kind → ∀ key,
        (∀ a, Scope.resolve ⟨id, kind⟩ key = .ok a ↔ resolve kinds key = .ok a ∧ a.datasetId = id) ∧
          ((¬∃ a, resolve kinds key = .ok a ∧ a.datasetId = id) →
            ∃ fault, Scope.resolve ⟨id, kind⟩ key = .error fault ∧ Scope.Refuses ⟨id, kind⟩ key fault)) ∧
      ∀ key ∈ acceptedKeys kinds, isApplyName key = false := by
  have hallowed : ∀ id kind, kinds.lookup id = some kind → IsId id := fun id kind hkind =>
    Dataset.isId_of_checkId (hids id (Entries.mem_keys_of_lookup hkind))
  refine ⟨⟨mapsTo_addressed?, injOn_addressed?, surjOn_addressed? hallowed⟩, fun id kind hkind f hf key a => ?_,
    fun key a => key_of_resolve, fun id kind hkind key => ?_, fun key ⟨a, ha⟩ => not_isApplyName_of_resolve ha⟩
  · exact resolve_and_names_iff hkind (hallowed id kind hkind) hf
  · have hscope : ∀ a, Scope.resolve ⟨id, kind⟩ key = .ok a ↔ resolve kinds key = .ok a ∧ a.datasetId = id :=
      Scope.resolve_eq_ok_iff_resolve hkind
    exact ⟨hscope, fun hno => Scope.exists_refuses fun ⟨a, ha⟩ => hno ⟨a, (hscope a).1 ha⟩⟩

/-- Rooms beside sections whose id is the name of a field. -/
def campus : Entries Kind := [("seats", .sections), ("rooms", .rooms)]

theorem resolve_bijOn_columns_campus :
    (∀ id ∈ campus.keys, Dataset.checkId id = .ok ()) ∧
      Set.BijOn (addressed? campus) (acceptedKeys campus) (some '' columns campus) ∧
      resolve campus "rooms_seats" = .ok ⟨"rooms", "seats", 7, .number⟩ ∧
      (∃ fault, Scope.resolve ⟨"seats", .sections⟩ "rooms_seats" = .error fault ∧
        Scope.Refuses ⟨"seats", .sections⟩ "rooms_seats" fault) ∧
      isApplyName "rooms_seats" = false := by
  have hids : ∀ id ∈ campus.keys, Dataset.checkId id = .ok () :=
    List.forall_mem_cons.2 ⟨rfl, List.forall_mem_singleton.2 rfl⟩
  obtain ⟨hbij, hiff, -, hscope, hname⟩ := resolve_bijOn_columns hids
  obtain ⟨hseats, -⟩ := (hiff "rooms" .rooms rfl ⟨"seats", .number⟩ (by decide) "rooms_seats" _).2 ⟨rfl, rfl⟩
  refine ⟨hids, hbij, hseats, (hscope "seats" .sections rfl "rooms_seats").2 ?_, hname _ ⟨_, hseats⟩⟩
  rintro ⟨a, ha, hid⟩
  obtain rfl := Except.ok.inj (hseats.symm.trans ha)
  exact absurd hid (by decide)

end Attribute

end CampusQuery
