import CampusQuery.Proofs.Cell.Equality
import CampusQuery.Proofs.Order.Places

/-! The comparisons that records are arranged by. Main statement: any two cells come in one order, which is that of
equal ones just if they are equal, and records come in the order of what they have under a key. -/

namespace CampusQuery

/-- A comparison that puts any two things in order, and in an order that can be followed from thing to thing. -/
structure OrdersTotally {α : Type} (cmp : α → α → Ordering) : Prop where
  reverse : ∀ a b, cmp a b = (cmp b a).swap
  total : ∀ a b, cmp a b ≠ .gt ∨ cmp b a ≠ .gt
  trans : ∀ a b c, cmp a b ≠ .gt → cmp b c ≠ .gt → cmp a c ≠ .gt
  follows : ∀ a b c result, cmp a b = result → cmp b c = result → cmp a c = result

theorem ordersTotally {α : Type} (cmp : α → α → Ordering) [Std.TransCmp cmp] : OrdersTotally cmp where
  reverse a b := Std.OrientedCmp.eq_swap
  total a b := by
    have hswap : cmp b a = (cmp a b).swap := Std.OrientedCmp.eq_swap
    rw [hswap]
    cases cmp a b <;> simp
  trans a b c hab hbc := by
    have hac : (cmp a c).isLE :=
      Std.TransCmp.isLE_trans (Ordering.isLE_iff_ne_gt.2 hab) (Ordering.isLE_iff_ne_gt.2 hbc)
    exact Ordering.isLE_iff_ne_gt.1 hac
  follows a b c result hab hbc := by
    cases result with
    | lt => exact Std.TransCmp.lt_trans hab hbc
    | eq => exact Std.TransCmp.eq_trans hab hbc
    | gt => exact Std.TransCmp.gt_trans hab hbc

theorem Double.order_eq_eq_iff (x y : Double) : x.order y = .eq ↔ x.same y = true := by
  unfold order same eq
  cases hx : x.isNaN <;> cases hy : y.isNaN <;> simp

namespace Cell

theorem order_eq_eq_iff (c d : Cell) : c.order d = .eq ↔ c.same d = true := by
  cases c with
  | number x =>
    cases d with
    | number y => exact Double.order_eq_eq_iff x y
    | text t => simp [order, same]
  | text s =>
    cases d with
    | number y => simp [order, same]
    | text t => simp [order, same]

/-- Cells are in a total order up to equality, and records in a total preorder in which those that lack the key
come first. -/
theorem ordersTotally_order_and_orderBy :
    OrdersTotally order ∧ (∀ c d : Cell, c.order d = .eq ↔ c.same d = true) ∧
      ∀ key : String, OrdersTotally (Record.orderBy key) ∧
        ∀ r s : Record, Record.orderBy key r s ≠ .gt ↔ r.NotAbove key s :=
  ⟨ordersTotally order, order_eq_eq_iff, fun key => ⟨ordersTotally (Record.orderBy key), fun _ _ =>
    Record.notAbove_iff.symm⟩⟩

-- not-a-numbers are equal, and come after infinity and before texts
example : (number .undefined).order (number (.nan true 1 (by decide))) = .eq ∧
    (number (.infinite false)).order (number .undefined) = .lt ∧ (number .undefined).order (text "") = .lt := by
  decide

end Cell

end CampusQuery
