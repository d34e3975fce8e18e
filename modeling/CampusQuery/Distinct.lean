import CampusQuery.Cell
import Std.Data.HashSet

/-! Counting distinct cells. Main statement: the count is that of the distinct filing keys. -/

namespace CampusQuery

/-- How many cells there are when those filed under the same key count once. -/
def distinctCount (cells : List Cell) : Nat :=
  (cells.foldl (fun (seen : Std.HashSet Cell) c => seen.insert c.filing) ∅).size

theorem eraseDups_concat {α : Type} [BEq α] [LawfulBEq α] (ks : List α) (k : α) :
    (ks ++ [k]).eraseDups = if ks.contains k then ks.eraseDups else ks.eraseDups ++ [k] := by
  rw [List.eraseDups_append]
  by_cases h : k ∈ ks <;> simp [List.removeAll, h, List.eraseDups_cons]

theorem distinctCount_eq (cells : List Cell) :
    distinctCount cells = (cells.map Cell.filing).eraseDups.length := by
  suffices ∀ (ks : List Cell) (seen : Std.HashSet Cell), (∀ c, c ∈ seen ↔ c ∈ ks) →
      seen.size = ks.eraseDups.length →
      (cells.foldl (fun (seen : Std.HashSet Cell) c => seen.insert c.filing) seen).size =
        (ks ++ cells.map Cell.filing).eraseDups.length from by
    simpa [distinctCount] using this [] ∅ (by simp) rfl
  induction cells with
  | nil => intro ks seen _ hs; simpa using hs
  | cons c cells ih =>
    intro ks seen hm hs
    have hsize : (seen.insert c.filing).size = (ks ++ [c.filing]).eraseDups.length := by
      rw [Std.HashSet.size_insert, eraseDups_concat]
      by_cases h : c.filing ∈ ks <;> simp [h, hm, hs]
    have := ih (ks ++ [c.filing]) (seen.insert c.filing) (fun d => by
      simp only [Std.HashSet.mem_insert, beq_iff_eq, hm, List.mem_append, List.mem_singleton]
      grind) hsize
    simpa using this

end CampusQuery
