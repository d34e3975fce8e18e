import CampusQuery.Record
import Mathlib.Tactic

/-! Doubles, cells and records are totally preordered by their comparisons. -/

namespace CampusQuery

namespace Double

theorem position_of_isNaN {x : Double} (h : x.isNaN = true) : x.position = 0 := by
  cases x with
  | nan s _ _ => cases s <;> rfl
  | infinite s => cases h
  | finite s m e _ => cases h

/-- Numbers first, and among them the order of their places. -/
theorem order_eq (x y : Double) :
    x.order y = compareLex (compareOn isNaN) (compareOn position) x y := by
  unfold order compareLex compareOn
  cases hx : x.isNaN <;> cases hy : y.isNaN
  · rfl
  · rfl
  · rfl
  · rw [position_of_isNaN hx, position_of_isNaN hy]
    rfl

instance : Std.TransCmp order := by
  have heq : order = compareLex (compareOn isNaN) (compareOn position) := by
    funext x y
    exact order_eq x y
  rw [heq]
  infer_instance

end Double

namespace Cell

instance : Std.TransCmp order where
  eq_swap := by
    intro a b
    cases a with
    | number x =>
      cases b with
      | number y =>
        show x.order y = (y.order x).swap
        exact Std.OrientedCmp.eq_swap
      | text t => rfl
    | text s =>
      cases b with
      | number y => rfl
      | text t =>
        show compare s t = (compare t s).swap
        exact Std.OrientedCmp.eq_swap
  isLE_trans := by
    intro a b c hab hbc
    cases a <;> cases b <;> cases c
    case number.number.number x y z =>
      have hxy : (x.order y).isLE := hab
      have hyz : (y.order z).isLE := hbc
      have hxz : (x.order z).isLE := Std.TransCmp.isLE_trans hxy hyz
      exact hxz
    case text.text.text s t u =>
      have hst : (compare s t).isLE := hab
      have htu : (compare t u).isLE := hbc
      have hsu : (compare s u).isLE := Std.TransCmp.isLE_trans hst htu
      exact hsu
    all_goals simp_all [order]

end Cell

namespace Record

instance (key : String) : Std.TransCmp (orderBy key) where
  eq_swap := by
    intro r s
    unfold orderBy
    cases r.lookup key with
    | none => cases s.lookup key <;> rfl
    | some c =>
      cases s.lookup key with
      | none => rfl
      | some d =>
        show c.order d = (d.order c).swap
        exact Std.OrientedCmp.eq_swap
  isLE_trans := by
    intro r s t hrs hst
    unfold orderBy at hrs hst ⊢
    cases hr : r.lookup key <;> cases hs : s.lookup key <;> cases ht : t.lookup key <;>
      simp only [hr, hs, ht] at hrs hst ⊢
    case some.some.some => exact Std.TransCmp.isLE_trans hrs hst
    all_goals simp_all

end Record

end CampusQuery
