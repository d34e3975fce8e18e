import CampusQuery.Proofs.Order.Places
import CampusQuery.Proofs.Outcome

/-! Stable arrangements: what sorting records by a key leads to. Main statements: the arrangement upwards
is the stable ascending one, downwards it is the same one reversed, and there is only one, that of the sorted
places. -/

namespace CampusQuery

/-- The second list holds the records of the first one in ascending order of a key, and those that are
equal there in the order in which they come in the first one. -/
structure StablyAscending (key : String) (rs ss : List Record) : Prop where
  perm : ss.Perm rs
  ascending : ss.Pairwise fun r s => Record.orderBy key r s ≠ .gt
  stable : ∀ r, ss.filter (Record.orderBy key r · == .eq) = rs.filter (Record.orderBy key r · == .eq)

variable {key : String} {rs ss ts : List Record}

/-- The records at sorted places come in ascending order, and equal ones as before. -/
theorem SortsPlaces.stablyAscending {places : List (Fin rs.length)} (h : SortsPlaces key rs places) :
    StablyAscending key rs (places.map rs.get) := by
  have hall : (List.finRange rs.length).map rs.get = rs := List.map_get_finRange rs
  refine ⟨?_, ?_, fun r => ?_⟩
  · have hperm := h.perm.map rs.get
    rwa [hall] at hperm
  · exact List.pairwise_map.2 (h.ascending.imp fun hle => Record.notAbove_iff.1 hle)
  · have hclass : places.filter ((Record.orderBy key r · == .eq) ∘ rs.get) =
        (List.finRange rs.length).filter ((Record.orderBy key r · == .eq) ∘ rs.get) := by
      -- places of records that are equal to one go up in either list
      refine List.Perm.eq_of_pairwise (fun i j _ _ hij hji => absurd hij (lt_asymm hji)) ?_
        ((List.pairwise_lt_finRange rs.length).filter _) (h.perm.filter _)
      refine (h.stable.filter _).imp_of_mem fun hi hj hstable => hstable ?_
      exact Record.levelWith_of_eq (eq_of_beq (List.mem_filter.1 hi).2) (eq_of_beq (List.mem_filter.1 hj).2)
    rw [List.filter_map, hclass, ← List.filter_map, hall]

theorem stablyAscending_mergeSort (key : String) (rs : List Record) :
    StablyAscending key rs (rs.mergeSort fun r s => Record.orderBy key r s != .gt) := by
  rw [← map_get_sortedPlaces]
  exact (sortsPlaces_sortedPlaces key rs).stablyAscending

theorem Record.eq_of_ne_gt {r s : Record} (hrs : orderBy key r s ≠ .gt) (hsr : orderBy key s r ≠ .gt) :
    orderBy key r s = .eq := by
  rw [orderBy_swap r s] at hsr
  cases h : orderBy key r s with
  | lt => simp [h] at hsr
  | eq => rfl
  | gt => exact absurd h hrs

theorem eq_of_ascending (hss : ss.Pairwise fun r s => Record.orderBy key r s ≠ .gt)
    (hts : ts.Pairwise fun r s => Record.orderBy key r s ≠ .gt) (hperm : ss.Perm ts)
    (hclass : ∀ r, ss.filter (Record.orderBy key r · == .eq) = ts.filter (Record.orderBy key r · == .eq)) :
    ss = ts := by
  induction ss generalizing ts with
  | nil => exact hperm.nil_eq
  | cons s ss ih =>
    cases ts with
    | nil => exact absurd hperm.eq_nil nofun
    | cons t ts =>
      obtain ⟨hs, hsrest⟩ := List.pairwise_cons.1 hss
      obtain ⟨ht, htrest⟩ := List.pairwise_cons.1 hts
      have hself : Record.orderBy key s s = .eq := Std.ReflCmp.compare_self
      have hst : Record.orderBy key s t = .eq := by
        rcases List.mem_cons.1 (hperm.mem_iff.2 (List.mem_cons_self ..) : t ∈ s :: ss) with rfl | htmem
        · exact hself
        · rcases List.mem_cons.1 (hperm.mem_iff.1 (List.mem_cons_self ..) : s ∈ t :: ts) with rfl | hsmem
          · exact hself
          · exact Record.eq_of_ne_gt (hs t htmem) (ht s hsmem)
      have hheads := hclass s
      rw [List.filter_cons_of_pos (by simp [hself]), List.filter_cons_of_pos (by simp [hst])] at hheads
      obtain rfl : s = t := (List.cons.inj hheads).1
      refine congrArg _ (ih hsrest htrest ((List.perm_cons s).1 hperm) fun r => ?_)
      have hr := hclass r
      by_cases heq : Record.orderBy key r s = .eq
      · rw [List.filter_cons_of_pos (by simp [heq]), List.filter_cons_of_pos (by simp [heq])] at hr
        exact (List.cons.inj hr).2
      · rwa [List.filter_cons_of_neg (by simp [heq]), List.filter_cons_of_neg (by simp [heq])] at hr

theorem StablyAscending.unique (hss : StablyAscending key rs ss) (hts : StablyAscending key rs ts) : ss = ts :=
  eq_of_ascending hss.ascending hts.ascending (hss.perm.trans hts.perm.symm)
    fun r => (hss.stable r).trans (hts.stable r).symm

/-- The stable ascending arrangement is that of the sorted places. -/
theorem stablyAscending_iff_sortsPlaces :
    StablyAscending key rs ss ↔ ∃ places, SortsPlaces key rs places ∧ ss = places.map rs.get := by
  constructor
  · intro h
    have hsorts := sortsPlaces_sortedPlaces key rs
    exact ⟨_, hsorts, h.unique hsorts.stablyAscending⟩
  · rintro ⟨places, hsorts, rfl⟩
    exact hsorts.stablyAscending

/-- What a tree under ORDER asks for: its first key, and the direction. -/
inductive OrdersBy : Tree → String → Direction → Prop
  | lone (key : String) : OrdersBy (.text key) key .up
  | up {entries : Entries Tree} {key : String} {others : List Tree} :
    entries.lookup "dir" = some (.text "UP") → entries.lookup "keys" = some (.array (.text key :: others)) →
    OrdersBy (.object entries) key .up
  | down {entries : Entries Tree} {key : String} {others : List Tree} :
    entries.lookup "dir" = some (.text "DOWN") → entries.lookup "keys" = some (.array (.text key :: others)) →
    OrdersBy (.object entries) key .down

/-- The records of the first list, arranged as a query's ORDER, if it has one, asks for. -/
def Arranged (order : Option Tree) (rs ss : List Record) : Prop :=
  match order with
  | none => ss = rs
  | some t => ∃ key, OrdersBy t key .up ∧ StablyAscending key rs ss ∨
      OrdersBy t key .down ∧ StablyAscending key rs ss.reverse

theorem Arranged.perm {order : Option Tree} {rs ss : List Record} (h : Arranged order rs ss) :
    ss.Perm rs := by
  cases order with
  | none => exact h ▸ List.Perm.refl _
  | some t =>
    obtain ⟨key, ⟨-, hup⟩ | ⟨-, hdown⟩⟩ := h
    · exact hup.perm
    · exact (List.reverse_perm ss).symm.trans hdown.perm

namespace Order

theorem keyOfTree_eq_ok_iff {t : Tree} {key : String} : keyOfTree t = .ok key ↔ t = .text key := by
  cases t <;> simp [keyOfTree]

theorem ofKey?_eq_some {s : String} {direction : Direction} (h : Direction.ofKey? s = some direction) :
    match direction with
    | .up => s = "UP"
    | .down => s = "DOWN" := by
  unfold Direction.ofKey? at h
  split_ifs at h with hup hdown
  · exact Option.some.inj h ▸ hup
  · exact Option.some.inj h ▸ hdown

/-- A lone key, or an object with a direction and an array of keys. -/
theorem shape_eq_ok_iff {t : Tree} {o : Order} :
    shape t = .ok o ↔ (∃ key, t = .text key ∧ o = ⟨.up, [key]⟩) ∨
      ∃ entries dir, t = .object entries ∧ entries.lookup "dir" = some (.text dir) ∧
        Direction.ofKey? dir = some o.direction ∧ entries.lookup "keys" = some (.array (o.keys.map .text)) := by
  have hkeys (items : List Tree) (keys : List String) :
      items.mapM keyOfTree = .ok keys ↔ items = keys.map .text := by
    have hiff : items.mapM keyOfTree = .ok keys ↔ items = keys.map .text ∧ ∀ key ∈ keys, True :=
      mapM_eq_ok_iff_map fun _ _ => keyOfTree_eq_ok_iff.trans (and_true _).symm.to_iff
    simpa using hiff
  constructor
  · intro h
    unfold shape at h
    split at h
    · exact .inl ⟨_, rfl, (Except.ok.inj h).symm⟩
    · next entries =>
      split at h
      · next dir hdir =>
        split at h
        · next direction hdirection =>
          split at h
          · next items hitems =>
            obtain ⟨keys, hmap, ho⟩ := bind_eq_ok_iff.1 h
            obtain rfl := pure_eq_ok_iff.1 ho
            exact .inr ⟨entries, dir, rfl, hdir, hdirection, by rw [hitems, (hkeys _ _).1 hmap]⟩
          · cases h
        · cases h
      · cases h
    · cases h
  · rintro (⟨key, rfl, rfl⟩ | ⟨entries, dir, rfl, hdir, hdirection, hitems⟩)
    · rfl
    · unfold shape
      simp only [hdir, hdirection, hitems]
      exact bind_eq_ok_iff.2 ⟨o.keys, (hkeys _ _).2 rfl, rfl⟩

theorem ofTree_eq_ok_iff {columns : List Column} {t : Tree} {o : Order} :
    ofTree columns t = .ok o ↔ shape t = .ok o ∧ ∀ key ∈ o.keys, key ∈ columns.map Column.key := by
  have hfound (o : Order) : (o.keys.find? fun key => !columns.any (·.key == key)) = none ↔
      ∀ key ∈ o.keys, key ∈ columns.map Column.key := by
    simp [List.find?_eq_none]
  unfold ofTree
  rw [bind_eq_ok_iff]
  constructor
  · rintro ⟨o', hshape, h⟩
    split at h
    · cases h
    · next hnone =>
      obtain rfl := Except.ok.inj h
      exact ⟨hshape, (hfound o').1 hnone⟩
  · rintro ⟨hshape, hkeys⟩
    refine ⟨o, hshape, ?_⟩
    rw [(hfound o).2 hkeys]

theorem ordersBy_of_shape {t : Tree} {o : Order} (h : shape t = .ok o) {key : String}
    {others : List String} (hkeys : o.keys = key :: others) : OrdersBy t key o.direction := by
  rcases shape_eq_ok_iff.1 h with ⟨lone, rfl, rfl⟩ | ⟨entries, dir, rfl, hdir, hdirection, hitems⟩
  · obtain ⟨rfl, -⟩ := List.cons.inj hkeys
    exact .lone _
  · rw [hkeys, List.map_cons] at hitems
    cases ho : o.direction with
    | up =>
      obtain rfl : dir = "UP" := ofKey?_eq_some (hdirection.trans (congrArg some ho))
      exact .up hdir hitems
    | down =>
      obtain rfl : dir = "DOWN" := ofKey?_eq_some (hdirection.trans (congrArg some ho))
      exact .down hdir hitems

theorem arranged {t : Tree} {o : Order} (h : shape t = .ok o) (hkeys : o.keys ≠ []) (rs : List Record) :
    Arranged (some t) rs (o.arrange rs) := by
  cases hk : o.keys with
  | nil => exact absurd hk hkeys
  | cons key others =>
    have horders := ordersBy_of_shape h hk
    have hstable := stablyAscending_mergeSort key rs
    refine ⟨key, ?_⟩
    unfold arrange
    rw [hk]
    cases hdirection : o.direction with
    | up =>
      rw [hdirection] at horders
      exact .inl ⟨horders, hstable⟩
    | down =>
      rw [hdirection] at horders
      refine .inr ⟨horders, ?_⟩
      dsimp only
      rwa [List.reverse_reverse]

end Order

end CampusQuery
