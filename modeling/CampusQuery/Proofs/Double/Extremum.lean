import CampusQuery.Proofs.Double.Closest

/-! The least and the greatest of some doubles. Main statements: each is one of them, and unless all are
not-a-numbers, it is a number that no other one lies below or above. -/

namespace CampusQuery

section Fold

variable {α : Type} {op : α → α → α} {R : α → α → Prop}

theorem foldl_mem (hop : ∀ a b, op a b = a ∨ op a b = b) (a : α) (as : List α) : as.foldl op a ∈ a :: as := by
  induction as generalizing a with
  | nil => exact List.mem_singleton_self a
  | cons b as ih =>
    rcases List.mem_cons.1 (ih (op a b)) with heq | hmem
    · rw [List.foldl_cons, heq]
      rcases hop a b with h | h <;> simp [h]
    · exact List.mem_cons_of_mem a (List.mem_cons_of_mem b hmem)

/-- What is related to both operands comes out related to all. -/
theorem foldl_rel (refl : ∀ a, R a a) (trans : ∀ a b c, R a b → R b c → R a c) (left : ∀ a b, R (op a b) a)
    (right : ∀ a b, R (op a b) b) (a : α) (as : List α) : ∀ b ∈ a :: as, R (as.foldl op a) b := by
  induction as generalizing a with
  | nil => exact List.forall_mem_singleton.2 (refl a)
  | cons b as ih =>
    obtain ⟨hop, hrest⟩ := List.forall_mem_cons.1 (ih (op a b))
    refine List.forall_mem_cons.2 ⟨trans _ _ _ hop (left a b), List.forall_mem_cons.2 ⟨?_, hrest⟩⟩
    exact trans _ _ _ hop (right a b)

end Fold

namespace Double

/-- A comparison with a not-a-number is false. -/
def le (x y : Double) : Bool := x.lt y || x.eq y

theorem le_iff {x y : Double} : x.le y = true ↔ x.isNaN = false ∧ y.isNaN = false ∧ x.position ≤ y.position := by
  have hsplit : x.position ≤ y.position ↔ x.position < y.position ∨ x.position = y.position := le_iff_lt_or_eq
  unfold le lt eq
  cases x.isNaN <;> cases y.isNaN <;> simp [hsplit]

/-- The first one is a number that is not above the second one, if that is a number. -/
def Below (x y : Double) : Prop := y.isNaN = false → x.le y = true

/-- The first one is a number that is not below the second one, if that is a number. -/
def Above (x y : Double) : Prop := y.isNaN = false → y.le x = true

theorem Below.self (x : Double) : Below x x := fun hx => le_iff.2 ⟨hx, hx, Int.le_refl _⟩

theorem Above.self (x : Double) : Above x x := fun hx => le_iff.2 ⟨hx, hx, Int.le_refl _⟩

theorem Below.trans (x y z : Double) (hxy : Below x y) (hyz : Below y z) : Below x z := by
  intro hz
  obtain ⟨hy, -, hyz⟩ := le_iff.1 (hyz hz)
  obtain ⟨hx, -, hxy⟩ := le_iff.1 (hxy hy)
  exact le_iff.2 ⟨hx, hz, hxy.trans hyz⟩

theorem Above.trans (x y z : Double) (hxy : Above x y) (hyz : Above y z) : Above x z := by
  intro hz
  obtain ⟨-, hy, hyz⟩ := le_iff.1 (hyz hz)
  obtain ⟨-, hx, hxy⟩ := le_iff.1 (hxy hy)
  exact le_iff.2 ⟨hz, hx, hyz.trans hxy⟩

theorem min_eq_or (x y : Double) : x.min y = x ∨ x.min y = y := by
  unfold min
  split_ifs <;> simp

theorem max_eq_or (x y : Double) : x.max y = x ∨ x.max y = y := by
  unfold max
  split_ifs <;> simp

theorem le_of_less {x y : Double} (h : x.lt y = true) : x.le y = true := by
  unfold le
  rw [h, Bool.true_or]

theorem le_of_not_less {x y : Double} (hx : ¬x.isNaN = true) (hy : ¬y.isNaN = true) (h : ¬y.lt x = true) :
    x.le y = true := by
  rw [Bool.not_eq_true] at hx hy
  refine le_iff.2 ⟨hx, hy, ?_⟩
  unfold lt at h
  simpa [hx, hy] using h

theorem min_below (x y : Double) : Below (x.min y) x ∧ Below (x.min y) y := by
  unfold min
  split_ifs with hx hy hlt
  · exact ⟨fun hnot => absurd hx (Bool.eq_false_iff.1 hnot), Below.self y⟩
  · exact ⟨Below.self x, fun hnot => absurd hy (Bool.eq_false_iff.1 hnot)⟩
  · exact ⟨fun _ => le_of_less hlt, Below.self y⟩
  · exact ⟨Below.self x, fun _ => le_of_not_less hx hy hlt⟩

theorem max_above (x y : Double) : Above (x.max y) x ∧ Above (x.max y) y := by
  unfold max
  split_ifs with hx hy hlt
  · exact ⟨fun hnot => absurd hx (Bool.eq_false_iff.1 hnot), Above.self y⟩
  · exact ⟨Above.self x, fun hnot => absurd hy (Bool.eq_false_iff.1 hnot)⟩
  · exact ⟨fun _ => le_of_less hlt, Above.self y⟩
  · exact ⟨Above.self x, fun _ => le_of_not_less hy hx hlt⟩

/-- The least of some doubles is one of them, and lies above none of the numbers among them. -/
theorem foldl_min_spec (x : Double) (xs : List Double) :
    xs.foldl min x ∈ x :: xs ∧ ∀ y ∈ x :: xs, Below (xs.foldl min x) y :=
  ⟨foldl_mem min_eq_or x xs, foldl_rel Below.self Below.trans (fun y z => (min_below y z).1)
    (fun y z => (min_below y z).2) x xs⟩

/-- The greatest of some doubles is one of them, and lies below none of the numbers among them. -/
theorem foldl_max_spec (x : Double) (xs : List Double) :
    xs.foldl max x ∈ x :: xs ∧ ∀ y ∈ x :: xs, Above (xs.foldl max x) y :=
  ⟨foldl_mem max_eq_or x xs, foldl_rel Above.self Above.trans (fun y z => (max_above y z).1)
    (fun y z => (max_above y z).2) x xs⟩

section Value

variable {x y : Double} {v : ℚ}

theorem isNaN_eq_false (hx : x.isFinite = true) : x.isNaN = false := by
  cases x with
  | nan => cases hx
  | _ => rfl

/-- Finite numbers compare as what they stand for. -/
theorem le_iff_value_le (hx : x.isFinite = true) (hy : y.isFinite = true) : x.le y = true ↔ x.value ≤ y.value := by
  have hunit : (0 : ℚ) < 2 ^ 1074 := pow_pos two_pos 1074
  rw [le_iff, value, value, div_le_div_iff_of_pos_right hunit, Int.cast_le]
  simp [isNaN_eq_false hx, isNaN_eq_false hy]

/-- A closest double is on the same side of another one as the number that it is closest to. -/
theorem IsClosestTo.le_value (hx : x.IsClosestTo v) (hy : y.isFinite = true) (h : y.value ≤ v) :
    y.value ≤ x.value := by
  by_contra hlt
  have hcloser := hx.2 y hy
  rw [abs_of_nonpos (by linarith), abs_of_nonpos (by linarith)] at hcloser
  linarith

theorem IsClosestTo.value_le (hx : x.IsClosestTo v) (hy : y.isFinite = true) (h : v ≤ y.value) :
    x.value ≤ y.value := by
  by_contra hlt
  have hcloser := hx.2 y hy
  rw [abs_of_nonneg (by linarith), abs_of_nonneg (by linarith)] at hcloser
  linarith

end Value

end Double

end CampusQuery
