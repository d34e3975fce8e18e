import CampusQuery.Distinct
import CampusQuery.Row
import CampusQuery.Transformation.Basic
import Std.Data.HashMap

/-! Grouping of rows by the texts of their cells. Main statement: classifying is filtering by each key
in turn, in the order of first occurrence. -/

namespace CampusQuery

variable {α : Type}

/-- The items seen so far under each key, and the keys in the order of their first items. Both are
kept with the latest in front. -/
structure Classes (α : Type) where
  keys : List String
  members : Std.HashMap String (List α)

namespace Classes

def empty : Classes α := ⟨[], ∅⟩

def add (key : α → String) (cs : Classes α) (x : α) : Classes α :=
  let k := key x
  match cs.members[k]? with
  | some xs => { cs with members := cs.members.insert k (x :: xs) }
  | none => ⟨k :: cs.keys, cs.members.insert k [x]⟩

def toLists (cs : Classes α) : List (List α) :=
  cs.keys.reverse.map fun k => (cs.members.getD k []).reverse

end Classes

/-- The items by key: the classes in the order of their first items, and the items of each in the
order given. -/
def classify (key : α → String) (xs : List α) : List (List α) :=
  (xs.foldl (Classes.add key) Classes.empty).toLists

namespace Classes

/-- The classes are those of `xs`. -/
structure Of (key : α → String) (cs : Classes α) (xs : List α) : Prop where
  keys : cs.keys.reverse = (xs.map key).eraseDups
  members (k : String) : cs.members[k]? =
    if k ∈ xs.map key then some (xs.filter (key · == k)).reverse else none

theorem of_empty (key : α → String) : Of key empty [] := ⟨rfl, by simp [empty]⟩

theorem of_add {key : α → String} {cs : Classes α} {xs : List α} (h : Of key cs xs) (x : α) :
    Of key (cs.add key x) (xs ++ [x]) := by
  have hm := h.members (key x)
  have hk := eraseDups_concat (xs.map key) (key x)
  by_cases hx : key x ∈ xs.map key
  · rw [if_pos hx] at hm
    rw [if_pos (List.contains_iff_mem.2 hx)] at hk
    refine ⟨by simp only [add, hm, List.map_append, List.map_cons, List.map_nil, hk, h.keys], fun k => ?_⟩
    simp only [add, hm, Std.HashMap.getElem?_insert]
    by_cases hkx : key x = k
    · subst hkx; simp
    · simp [h.members k, hkx, Ne.symm hkx]
  · rw [if_neg hx] at hm
    rw [if_neg (fun hc => hx (List.contains_iff_mem.1 hc))] at hk
    refine ⟨by simp only [add, hm, List.map_append, List.map_cons, List.map_nil, hk,
      List.reverse_cons, h.keys], fun k => ?_⟩
    simp only [add, hm, Std.HashMap.getElem?_insert]
    by_cases hkx : key x = k
    · subst hkx
      have : xs.filter (key · == key x) = [] := List.filter_eq_nil_iff.2 fun y hy => by
        simpa using fun hyx => hx (List.mem_map.2 ⟨y, hy, hyx⟩)
      simp [List.filter_append, this]
    · simp [h.members k, hkx, Ne.symm hkx]

theorem of_foldl {key : α → String} {cs : Classes α} {ys : List α} (h : Of key cs ys) (xs : List α) :
    Of key (xs.foldl (add key) cs) (ys ++ xs) := by
  induction xs generalizing cs ys with
  | nil => simpa using h
  | cons x xs ih => simpa using ih (of_add h x)

end Classes

theorem classify_eq (key : α → String) (xs : List α) :
    classify key xs = (xs.map key).eraseDups.map fun k => xs.filter (key · == k) := by
  have h := Classes.of_foldl (Classes.of_empty key) xs
  rw [List.nil_append] at h
  rw [classify, Classes.toLists, h.keys]
  refine List.map_congr_left fun k hk => ?_
  rw [Std.HashMap.getD_eq_getD_getElem?, h.members, if_pos (List.mem_eraseDups.1 hk)]
  simp

/-- The texts of the cells at some places, with a unit separator in between. A missing cell has the
empty text. -/
def Row.groupKey (row : Row) (indices : List Nat) : String :=
  "\x1f".intercalate (indices.map fun i => (row[i]?).elim "" Cell.toText)

def Transformation.groups (t : Transformation) (rows : List Row) : List (List Row) :=
  let indices := t.group.map Attribute.index
  classify (·.groupKey indices) rows

end CampusQuery
