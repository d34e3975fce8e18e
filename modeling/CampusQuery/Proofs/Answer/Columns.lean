import CampusQuery.Proofs.Answer.Equality
import CampusQuery.Proofs.Answer.Selection
import CampusQuery.Proofs.Grammar.Part
import CampusQuery.Proofs.Plan.Columns

/-! What the order and the repetition of columns do to an answer. Main statement: queries with the same columns,
however they are listed, have the same outcome but for the order of the keys in each record. -/

namespace CampusQuery

namespace Record

/-- The same cells under the same keys, which may come in another order. -/
structure Reordered (r s : Record) : Prop where
  perm : r.Perm s
  left : (Entries.keys r).Nodup
  right : (Entries.keys s).Nodup

theorem Reordered.lookup {r s : Record} (h : r.Reordered s) (key : String) :
    List.lookup key r = List.lookup key s := by
  rcases hr : List.lookup key r with _ | c
  · refine (Option.eq_none_iff_forall_ne_some.2 fun c hc => ?_).symm
    have hmem := h.perm.mem_iff.2 (Entries.mem_of_lookup hc)
    cases hr.symm.trans (Entries.lookup_of_mem h.left hmem)
  · exact (Entries.lookup_of_mem h.right (h.perm.mem_iff.1 (Entries.mem_of_lookup hr))).symm

theorem reordered_under {keys keys' : List String} (h : ∀ key, key ∈ keys' ↔ key ∈ keys)
    (cell? : String → Option Cell) : (under keys cell?).Reordered (under keys' cell?) := by
  refine ⟨?_, nodup_keys_under, nodup_keys_under⟩
  refine (List.perm_ext_iff_of_nodup (.of_map _ nodup_keys_under) (.of_map _ nodup_keys_under)).2 ?_
  rintro ⟨key, c⟩
  rw [mem_under_iff, mem_under_iff, h]

end Record

/-- Records that are ordered by what they have under the same keys come out in the same order. -/
theorem Order.exists_arrange_map {α : Type} (o : Order) {f g : α → Record} (xs : List α)
    (h : ∀ x ∈ xs, (f x).Reordered (g x)) :
    ∃ ys : List α, ys.Perm xs ∧ o.arrange (xs.map f) = ys.map f ∧ o.arrange (xs.map g) = ys.map g := by
  unfold arrange
  cases o.keys with
  | nil => exact ⟨xs, .refl xs, rfl, rfl⟩
  | cons key others =>
    let before (x y : α) : Bool := Record.orderBy key (f x) (f y) != .gt
    have hleft : (xs.mergeSort before).map f = (xs.map f).mergeSort fun r s => Record.orderBy key r s != .gt :=
      List.map_mergeSort fun _ _ _ _ => rfl
    have hright : (xs.mergeSort before).map g = (xs.map g).mergeSort fun r s => Record.orderBy key r s != .gt := by
      refine List.map_mergeSort fun x hx y hy => ?_
      show (Record.orderBy key (f x) (f y) != .gt) = (Record.orderBy key (g x) (g y) != .gt)
      unfold Record.orderBy
      rw [(h x hx).lookup, (h y hy).lookup]
    have hperm : (xs.mergeSort before).Perm xs := List.mergeSort_perm xs before
    cases o.direction with
    | up => exact ⟨_, hperm, hleft.symm, hright.symm⟩
    | down =>
      refine ⟨(xs.mergeSort before).reverse, (List.reverse_perm _).trans hperm, ?_, ?_⟩
      · rw [List.map_reverse, hleft]
      · rw [List.map_reverse, hright]

/-- The same records but for the order of their keys, too many of them in the same number, or a fault of the
query on both sides. -/
inductive SameUpToKeyOrder : Except Error (List Record) → Except Error (List Record) → Prop
  | answered {records others : List Record} : List.Forall₂ Record.Reordered records others →
    SameUpToKeyOrder (.ok records) (.ok others)
  | tooLarge (limit count : ℕ) :
    SameUpToKeyOrder (.error (.resultTooLarge limit count)) (.error (.resultTooLarge limit count))
  | invalid (fault other : Fault) : SameUpToKeyOrder (.error (.validation fault)) (.error (.validation other))

namespace Plan

variable {p : Plan} {kind : Kind} {rows : List Row}

/-- What each record has under a key, whether or not the key is among the columns. -/
def cells (p : Plan) (kind : Kind) (rows : List Row) : List (String → Option Cell) :=
  match p.transformation with
  | none => rows.map (·.cell? p.options.datasetId kind)
  | some t => (t.groups rows).map (t.cell? p.options.datasetId kind)

theorem Typed.records_eq_map_under (h : p.Typed kind) (rows : List Row) :
    p.records rows = (p.cells kind rows).map (Record.under p.options.keys) := by
  unfold cells
  cases ht : p.transformation with
  | none =>
    rw [h.records_of_ungrouped ht, List.map_map]
    rfl
  | some t =>
    rw [h.records_of_grouped ht, List.map_map]
    rfl

theorem arrange_reordered (p : Plan) (columns : List Column) {f g : (String → Option Cell) → Record}
    (h : ∀ cell?, (f cell?).Reordered (g cell?)) (cells : List (String → Option Cell)) :
    List.Forall₂ Record.Reordered (p.arrange (cells.map f)) ((p.withColumns columns).arrange (cells.map g)) := by
  have hforall (ys : List (String → Option Cell)) : List.Forall₂ Record.Reordered (ys.map f) (ys.map g) := by
    rw [List.forall₂_map_left_iff, List.forall₂_map_right_iff]
    exact List.forall₂_same.2 fun cell? _ => h cell?
  unfold arrange withColumns Options.withColumns
  cases p.options.order with
  | none => exact hforall cells
  | some o =>
    obtain ⟨ys, -, hleft, hright⟩ := o.exists_arrange_map cells fun cell? _ => h cell?
    rw [Option.elim_some, Option.elim_some, hleft, hright]
    exact hforall ys

theorem answer_withColumns {ctx : Context} {d : Dataset} {columns : List Column}
    (hd : ctx.dataset? p.options.datasetId = some d) (h : p.Typed d.kind)
    (h' : (p.withColumns columns).Typed d.kind) (hmem : ∀ c, c ∈ columns ↔ c ∈ p.options.columns) :
    SameUpToKeyOrder (p.answer ctx) ((p.withColumns columns).answer ctx) := by
  have hkeys (key : String) : key ∈ (p.withColumns columns).options.keys ↔ key ∈ p.options.keys := by
    refine List.mem_map.trans (Iff.trans ?_ List.mem_map.symm)
    exact exists_congr fun c => and_congr_left' (hmem c)
  have hd' : ctx.dataset? (p.withColumns columns).options.datasetId = some d := hd
  have hrecords := h.records_eq_map_under (p.matching d)
  have hrecords' : (p.withColumns columns).records ((p.withColumns columns).matching d) =
      (p.cells d.kind (p.matching d)).map (Record.under (p.withColumns columns).options.keys) :=
    h'.records_eq_map_under (p.matching d)
  rw [answer_of_dataset hd, answer_of_dataset hd', hrecords, hrecords', List.length_map, List.length_map]
  split
  · exact .tooLarge _ _
  · exact .answered (p.arrange_reordered columns (Record.reordered_under hkeys) _)

end Plan

namespace Context

variable {ctx : Context} {query other : Tree} {items others : List Tree}

theorem plan_withColumns {p : Plan} (hitems : query.columns? = some (.array items))
    (hsame : Tree.SameMembers items others) (h : ctx.plan query = .ok p) :
    ∃ columns, ctx.plan (query.withPart "OPTIONS" "COLUMNS" (.array others)) = .ok (p.withColumns columns) ∧
      ∀ c, c ∈ columns ↔ c ∈ p.options.columns := by
  obtain ⟨hcheck, hread⟩ := plan_eq_ok_iff.1 h
  obtain ⟨columns, hread', hmem⟩ := Plan.ofTree_withColumns hitems hsame hread
  refine ⟨columns, plan_eq_ok_iff.2 ⟨?_, hread'⟩, hmem⟩
  rwa [Grammar.checkQuery_withColumns hitems (Grammar.check_columns_of_sameMembers hsame)]

/-- Queries that differ in the list of their columns only, and list the same ones. -/
theorem answer_sameUpToKeyOrder (ctx : Context) (hitems : query.columns? = some (.array items))
    (hothers : other.columns? = some (.array others))
    (hrest : query.withPart "OPTIONS" "COLUMNS" (.array []) = other.withPart "OPTIONS" "COLUMNS" (.array []))
    (hsame : Tree.SameMembers items others) : SameUpToKeyOrder (ctx.answer query) (ctx.answer other) := by
  have hother := Tree.eq_withPart_of_withPart_eq hitems hothers hrest
  have hquery := Tree.eq_withPart_of_withPart_eq hothers hitems hrest.symm
  rcases hp : ctx.plan query with fault | p
  · rcases hq : ctx.plan other with fault' | q
    · rw [answer_of_plan_error hp, answer_of_plan_error hq]
      exact .invalid fault fault'
    · obtain ⟨columns, hplan, -⟩ := plan_withColumns hothers hsame.symm hq
      cases hp.symm.trans (hquery ▸ hplan)
  · obtain ⟨columns, hplan, hmem⟩ := plan_withColumns hitems hsame hp
    rw [← hother] at hplan
    obtain ⟨d, hd, hread⟩ := exists_readOff hp
    obtain ⟨d', hd', hread'⟩ := exists_readOff hplan
    obtain rfl := Option.some.inj (hd.symm.trans hd')
    rw [answer_of_plan hp, answer_of_plan hplan]
    exact Plan.answer_withColumns hd hread.typed hread'.typed hmem

theorem answer_sameUpToKeyOrder_zeros :
    Tree.SameMembers (["courses_dept", "courses_id"].map Tree.text)
        (["courses_id", "courses_dept", "courses_id"].map Tree.text) ∧
      SameUpToKeyOrder
        (.ok [[("courses_dept", .text "math"), ("courses_id", .text "200")],
          [("courses_dept", .text "cpsc"), ("courses_id", .text "310")]])
        (zeros.answer (Tree.selecting ["courses_id", "courses_dept", "courses_id"])) := by
  have hsame : Tree.SameMembers (["courses_dept", "courses_id"].map Tree.text)
      (["courses_id", "courses_dept", "courses_id"].map Tree.text) := by
    refine ⟨?_, ?_⟩ <;> decide
  have hanswer : zeros.answer (Tree.selecting ["courses_dept", "courses_id"]) =
      .ok [[("courses_dept", .text "math"), ("courses_id", .text "200")],
        [("courses_dept", .text "cpsc"), ("courses_id", .text "310")]] := rfl
  refine ⟨hsame, ?_⟩
  rw [← hanswer]
  exact answer_sameUpToKeyOrder zeros rfl rfl rfl hsame

end Context

end CampusQuery
