import CampusQuery.Options.OfTree
import CampusQuery.Proofs.Order.Preorder

/-! Sorting by places. Main statement: the places of some records have just one order that ascends in what the
records have under a key and that leaves equal ones as they are, and an arrangement by this key, whatever keys come
after it, is that order or, downwards, its reverse. -/

namespace CampusQuery

namespace Record

/-- What the first record has under the key is not greater than what the second one has there. A record without
the key is less than one with it. -/
def NotAbove (key : String) (r s : Record) : Prop :=
  ∀ c, r.lookup key = some c → ∃ d, s.lookup key = some d ∧ c.order d ≠ .gt

/-- The records have equal cells under the key, or none of them has one. -/
def LevelWith (key : String) (r s : Record) : Prop := r.NotAbove key s ∧ s.NotAbove key r

variable {key : String} {r s t : Record}

theorem ne_gt_iff_isLE : (orderBy key r s != .gt) = (orderBy key r s).isLE := by
  cases orderBy key r s <;> rfl

theorem orderBy_trans (r s t : Record) (hrs : (orderBy key r s != .gt) = true)
    (hst : (orderBy key s t != .gt) = true) : (orderBy key r t != .gt) = true := by
  rw [ne_gt_iff_isLE] at hrs hst ⊢
  exact Std.TransCmp.isLE_trans hrs hst

theorem orderBy_swap (r s : Record) : orderBy key s r = (orderBy key r s).swap :=
  Std.OrientedCmp.eq_swap

theorem orderBy_total (key : String) (r s : Record) :
    ((orderBy key r s != .gt) || (orderBy key s r != .gt)) = true := by
  rw [orderBy_swap r s]
  cases orderBy key r s <;> rfl

theorem notAbove_iff : r.NotAbove key s ↔ orderBy key r s ≠ .gt := by
  unfold NotAbove orderBy
  cases r.lookup key <;> cases s.lookup key <;> simp

theorem levelWith_of_eq (hs : orderBy key r s = .eq) (ht : orderBy key r t = .eq) : s.LevelWith key t := by
  have hst : orderBy key s t = .eq := Std.TransCmp.eq_trans (Std.OrientedCmp.eq_symm hs) ht
  have hts : orderBy key t s = .eq := Std.OrientedCmp.eq_symm hst
  exact ⟨notAbove_iff.2 (by simp [hst]), notAbove_iff.2 (by simp [hts])⟩

end Record

/-- All places of some records, so that what the records have under the key goes up, and places of records that
are level there go up as well. -/
structure SortsPlaces (key : String) (rs : List Record) (places : List (Fin rs.length)) : Prop where
  perm : places.Perm (List.finRange rs.length)
  ascending : places.Pairwise fun i j => (rs.get i).NotAbove key (rs.get j)
  stable : places.Pairwise fun i j => (rs.get i).LevelWith key (rs.get j) → i < j

variable {key : String} {rs : List Record}

theorem SortsPlaces.unique {ps qs : List (Fin rs.length)} (hps : SortsPlaces key rs ps)
    (hqs : SortsPlaces key rs qs) : ps = qs := by
  refine List.Perm.eq_of_pairwise ?_ (hps.ascending.and hps.stable) (hqs.ascending.and hqs.stable)
    (hps.perm.trans hqs.perm.symm)
  -- places that may stand either way round are level, and then each of them would have to come first
  intro i j _ _ hij hji
  exact absurd (hij.2 ⟨hij.1, hji.1⟩) (lt_asymm (hji.2 ⟨hji.1, hij.1⟩))

/-- Items that are not out of order among themselves are sorted into the order in which they come. -/
theorem filter_mergeSort_of_class {α : Type} {le : α → α → Bool}
    (trans : ∀ a b c, le a b = true → le b c = true → le a c = true)
    (total : ∀ a b, (le a b || le b a) = true) {p : α → Bool}
    (hp : ∀ a b, p a = true → p b = true → le a b = true) (xs : List α) :
    (xs.mergeSort le).filter p = xs.filter p := by
  have hclass : (xs.filter p).Pairwise fun a b => le a b = true :=
    List.pairwise_of_forall_mem_list fun a ha b hb =>
      hp a b (List.mem_filter.1 ha).2 (List.mem_filter.1 hb).2
  -- the class comes out in its order, and nothing else of it does
  have hsub := (List.sublist_mergeSort trans total hclass List.filter_sublist).filter p
  rw [List.filter_filter] at hsub
  simp only [Bool.and_self] at hsub
  exact (hsub.eq_of_length ((List.mergeSort_perm xs le).filter p).length_eq.symm).symm

/-- Places that may stand either way round are not turned round. -/
theorem pairwise_lt_mergeSort {n : ℕ} {le : Fin n → Fin n → Bool}
    (trans : ∀ i j k, le i j = true → le j k = true → le i k = true)
    (total : ∀ i j, (le i j || le j i) = true) :
    ((List.finRange n).mergeSort le).Pairwise fun i j => le j i = true → i < j := by
  refine List.pairwise_iff_forall_sublist.2 fun {i j} hsub hji => ?_
  have hij : le i j = true := List.pairwise_iff_forall_sublist.1 (List.pairwise_mergeSort trans total _) hsub
  have hii : le i i = true := by simpa using total i i
  have hlevel (a b : Fin n) (ha : (le i a && le a i) = true) (hb : (le i b && le b i) = true) : le a b = true :=
    trans a i b ((Bool.and_eq_true _ _).mp ha).2 ((Bool.and_eq_true _ _).mp hb).1
  have hpair := hsub.filter fun k => le i k && le k i
  have hboth : [i, j].filter (fun k => le i k && le k i) = [i, j] := by simp [hij, hji, hii]
  rw [filter_mergeSort_of_class trans total hlevel, hboth] at hpair
  exact List.pairwise_iff_forall_sublist.1 (List.pairwise_lt_finRange n) (hpair.trans List.filter_sublist)

/-- The places of some records, sorted by what the records have under a key. -/
def sortedPlaces (key : String) (rs : List Record) : List (Fin rs.length) :=
  (List.finRange rs.length).mergeSort fun i j => Record.orderBy key (rs.get i) (rs.get j) != .gt

theorem sortsPlaces_sortedPlaces (key : String) (rs : List Record) :
    SortsPlaces key rs (sortedPlaces key rs) := by
  have htrans (i j k : Fin rs.length) := @Record.orderBy_trans key (rs.get i) (rs.get j) (rs.get k)
  have htotal (i j : Fin rs.length) := Record.orderBy_total key (rs.get i) (rs.get j)
  refine ⟨List.mergeSort_perm _ _, ?_, ?_⟩
  · refine (List.pairwise_mergeSort htrans htotal _).imp fun h => Record.notAbove_iff.2 ?_
    simpa using h
  · refine (pairwise_lt_mergeSort htrans htotal).imp fun h hlevel => h ?_
    simpa using Record.notAbove_iff.1 hlevel.2

/-- Sorting records is sorting their places. -/
theorem map_get_sortedPlaces (key : String) (rs : List Record) :
    (sortedPlaces key rs).map rs.get = rs.mergeSort fun r s => Record.orderBy key r s != .gt := by
  rw [sortedPlaces, List.map_mergeSort (f := rs.get) (s := fun r s => Record.orderBy key r s != .gt)
    fun _ _ _ _ => rfl, List.map_get_finRange]

namespace Order

/-- Only the first key has a say, and it leaves no choice. -/
theorem arrange_eq_sortedPlaces (key : String) (rs : List Record) :
    ∃ places : List (Fin rs.length), (∀ others, SortsPlaces key rs others ↔ others = places) ∧
      ∀ o : Order, o.keys.head? = some key → o.arrange rs =
        match o.direction with
        | .up => places.map rs.get
        | .down => (places.map rs.get).reverse := by
  have hsorts := sortsPlaces_sortedPlaces key rs
  refine ⟨_, fun others => ⟨fun h => h.unique hsorts, fun h => h ▸ hsorts⟩, fun o hkey => ?_⟩
  obtain ⟨direction, keys⟩ := o
  obtain ⟨others, rfl⟩ := List.head?_eq_some_iff.1 hkey
  rw [map_get_sortedPlaces]
  rfl

/-- Two pairs of records that are level, one of them without the key. -/
def seatings : List Record :=
  [[("rooms_seats", .number (.ofNat 40)), ("rooms_name", .text "A")], [("rooms_name", .text "B")],
    [("rooms_seats", .number .negativeZero), ("rooms_name", .text "C")],
    [("rooms_seats", .number .zero), ("rooms_name", .text "D")], [("rooms_name", .text "E")]]

/-- Later keys would order these records otherwise. -/
theorem arrange_seatings :
    (⟨.down, ["rooms_seats", "rooms_name"]⟩ : Order).keys.head? = some "rooms_seats" ∧
      ∃ places, (∀ others, SortsPlaces "rooms_seats" seatings others ↔ others = places) ∧
        (⟨.down, ["rooms_seats", "rooms_name"]⟩ : Order).arrange seatings = (places.map seatings.get).reverse := by
  obtain ⟨places, honly, harrange⟩ := arrange_eq_sortedPlaces "rooms_seats" seatings
  exact ⟨rfl, places, honly, harrange ⟨.down, ["rooms_seats", "rooms_name"]⟩ rfl⟩

end Order

end CampusQuery
