import CampusQuery.Proofs.Double.Reading
import CampusQuery.Proofs.Tree.Equality
import CampusQuery.Tree.Text

/-! A tree's text has one reading. Main statement: trees have the same text just if they are the same, with one
not-a-number for all. -/

namespace CampusQuery

namespace Double

/-- One not-a-number for all. -/
def oneNaN (x : Double) : Double := if x.isNaN then undefined else x

theorem text_eq_iff_oneNaN_eq (x y : Double) : x.text = y.text ↔ x.oneNaN = y.oneNaN := by
  rw [text_eq_text_iff]
  unfold oneNaN
  constructor
  · rintro (rfl | ⟨hx, hy⟩)
    · rfl
    · rw [if_pos hx, if_pos hy]
  · intro h
    split at h <;> split at h
    · next hx hy => exact .inr ⟨hx, hy⟩
    · next hy => exact absurd (h ▸ rfl) hy
    · next hx _ => exact absurd (h ▸ rfl) hx
    · exact .inl h

theorem text_oneNaN (x : Double) : x.oneNaN.text = x.text := by
  unfold oneNaN
  split
  · next hx => exact (text_eq_text_iff _ _).2 (.inr ⟨rfl, hx⟩)
  · rfl

end Double

namespace Tree

section Escapes

/-! The text of a string: after a backslash stands what is read as one character. -/

def hexValue (c : Char) : ℕ := if c.isDigit then c.toNat - '0'.toNat else c.toNat - 'a'.toNat + 10

/-- The character that stands after a backslash, and what is left. -/
def readEscape : List Char → Option (Char × List Char)
  | 'u' :: _ :: _ :: high :: low :: rest => some (Char.ofNat (16 * hexValue high + hexValue low), rest)
  | c :: rest => some (if c = 'n' then '\n' else if c = 'r' then '\r' else if c = 't' then '\t' else c, rest)
  | [] => none

def readChar : List Char → Option (Char × List Char)
  | c :: rest => if c = '\\' then readEscape rest else some (c, rest)
  | [] => none

theorem hexValue_digits : ∀ n < 32, 16 * hexValue (Nat.digitChar (n / 16)) + hexValue (Nat.digitChar (n % 16)) = n := by
  decide

/-- What is written for a character starts with a backslash, or is the character itself, which is no quote then. -/
theorem escapedChar_cases (c : Char) :
    (∃ escape, escapedChar c = '\\' :: escape ∧ ∀ rest, readEscape (escape ++ rest) = some (c, rest)) ∨
      escapedChar c = [c] ∧ c ≠ '\\' ∧ c ≠ '"' := by
  unfold escapedChar
  split
  iterate 5 exact .inl ⟨_, rfl, fun _ => rfl⟩
  next hquote hbackslash _ _ _ =>
    split
    · next hlt =>
      refine .inl ⟨_, rfl, fun rest => ?_⟩
      show some (Char.ofNat _, rest) = _
      rw [hexValue_digits c.toNat hlt, Char.ofNat_toNat]
    · exact .inr ⟨rfl, hbackslash, hquote⟩

theorem readChar_escapedChar (c : Char) (rest : List Char) : readChar (escapedChar c ++ rest) = some (c, rest) := by
  rcases escapedChar_cases c with ⟨escape, hescaped, hread⟩ | ⟨hescaped, hbackslash, -⟩
  · rw [hescaped, List.cons_append, readChar, if_pos rfl, hread]
  · rw [hescaped, List.singleton_append, readChar, if_neg hbackslash]

theorem escapedChar_append_ne (c : Char) (rest other : List Char) : escapedChar c ++ rest ≠ '"' :: other := by
  intro h
  rcases escapedChar_cases c with ⟨escape, hescaped, -⟩ | ⟨hescaped, -, hquote⟩
  · rw [hescaped, List.cons_append] at h
    exact absurd (List.cons.inj h).1 (by decide)
  · rw [hescaped] at h
    exact hquote (List.cons.inj h).1

theorem flatMap_escapedChar_append_inj {cs ds r s : List Char}
    (h : cs.flatMap escapedChar ++ '"' :: r = ds.flatMap escapedChar ++ '"' :: s) : cs = ds ∧ r = s := by
  induction cs generalizing ds with
  | nil =>
    cases ds with
    | nil => exact ⟨rfl, (List.cons.inj h).2⟩
    | cons d ds =>
      rw [List.flatMap_cons, List.append_assoc] at h
      exact absurd h.symm (escapedChar_append_ne d _ r)
  | cons c cs ih =>
    rw [List.flatMap_cons, List.append_assoc] at h
    cases ds with
    | nil => exact absurd h (escapedChar_append_ne c _ s)
    | cons d ds =>
      rw [List.flatMap_cons, List.append_assoc] at h
      have hread := congrArg readChar h
      rw [readChar_escapedChar, readChar_escapedChar] at hread
      obtain ⟨rfl, hrest⟩ := Prod.mk.inj (Option.some.inj hread)
      obtain ⟨rfl, hrs⟩ := ih hrest
      exact ⟨rfl, hrs⟩

theorem escaped_append_inj {a b : String} {r s : List Char} (h : escaped a ++ r = escaped b ++ s) : a = b ∧ r = s := by
  unfold escaped at h
  simp only [List.cons_append, List.append_assoc, List.cons.injEq, true_and, List.nil_append] at h
  obtain ⟨hchars, hrs⟩ := flatMap_escapedChar_append_inj h
  exact ⟨String.toList_inj.1 hchars, hrs⟩

end Escapes

section Ends

/-! What can follow the text of a tree inside of another. -/

def isEnd (c : Char) : Bool := c == ',' || c == ']' || c == '\x7d'

/-- Nothing follows, or the item or the entry ends here. -/
def Ends (r : List Char) : Prop := ∀ c ∈ r.head?, isEnd c = true

theorem ends_nil : Ends [] := nofun

theorem ends_charsOfItems (xs : List Tree) (r : List Char) : Ends (charsOfItems xs ++ r) := by
  cases xs <;> simp [Ends, charsOfItems, isEnd]

theorem ends_charsOfEntries (es : List (String × Tree)) (r : List Char) : Ends (charsOfEntries es ++ r) := by
  cases es <;> simp [Ends, charsOfEntries, isEnd]

theorem not_isEnd_of_isDigit {c : Char} (h : c.isDigit = true) : isEnd c = false := by
  rw [Bool.eq_false_iff]
  intro hend
  simp only [isEnd, Bool.or_eq_true, beq_iff_eq] at hend
  rcases hend with (rfl | rfl) | rfl <;> exact absurd h (by decide)

theorem not_isEnd_of_mem_text {x : Double} {c : Char} (h : c ∈ x.text.toList) : isEnd c = false := by
  cases x with
  | nan =>
    simp only [Double.text, String.reduceToList, List.mem_cons, List.not_mem_nil, or_false] at h
    rcases h with rfl | rfl | rfl <;> rfl
  | infinite s =>
    cases s
    · simp only [Double.text, Bool.false_eq_true, if_false, String.reduceToList, List.mem_cons, List.not_mem_nil,
        or_false] at h
      rcases h with rfl | rfl | rfl <;> rfl
    · simp only [Double.text, if_true, String.reduceToList, List.mem_cons, List.not_mem_nil, or_false] at h
      rcases h with rfl | rfl | rfl | rfl <;> rfl
  | finite s m e hc =>
    rcases Double.mem_text_finite h with rfl | hdigit | rfl
    · rfl
    · exact not_isEnd_of_isDigit hdigit
    · rfl

theorem takeWhile_text_append (x : Double) {r : List Char} (hr : Ends r) :
    (x.text.toList ++ r).takeWhile (!isEnd ·) = x.text.toList := by
  rw [List.takeWhile_append_of_pos fun c hc => by rw [not_isEnd_of_mem_text hc]; rfl]
  cases r with
  | nil => simp
  | cons c r => simp [hr c rfl]

theorem text_append_inj {x y : Double} {r s : List Char} (hr : Ends r) (hs : Ends s)
    (h : x.text.toList ++ r = y.text.toList ++ s) : x.text = y.text ∧ r = s := by
  have htext : x.text.toList = y.text.toList := by
    rw [← takeWhile_text_append x hr, h, takeWhile_text_append y hs]
  rw [htext] at h
  exact ⟨String.toList_inj.1 htext, List.append_cancel_left h⟩

end Ends

section Leads

/-! The first character of a tree's text shows its type. -/

def typeOfLead : Char → Option String
  | 'n' => "null"
  | 't' | 'f' => "boolean"
  | '"' => "string"
  | '[' => "array"
  | '\x7b' => "object"
  | c => if isEnd c then none else "number"

def leadType (cs : List Char) : Option String := cs.head?.bind typeOfLead

theorem typeOfLead_of_isDigit {c : Char} (h : c.isDigit = true) : typeOfLead c = some "number" := by
  unfold typeOfLead
  split
  iterate 6 exact absurd h (by decide)
  rw [not_isEnd_of_isDigit h]
  rfl

theorem leadType_text_append (x : Double) (r : List Char) : leadType (x.text.toList ++ r) = some "number" := by
  cases x with
  | nan => simp [Double.text, leadType, typeOfLead, isEnd]
  | infinite s => cases s <;> rfl
  | finite s m e hc =>
    obtain ⟨c, cs, hcs⟩ := List.exists_cons_of_ne_nil (Double.text_finite_ne_nil s m e hc)
    rw [hcs]
    rcases Double.mem_text_finite (hcs ▸ List.mem_cons_self ..) with rfl | hdigit | rfl
    · rfl
    · exact typeOfLead_of_isDigit hdigit
    · rfl

theorem leadType_chars_append (t : Tree) (r : List Char) : leadType (t.chars ++ r) = some t.typeName := by
  cases t with
  | null => rfl
  | bool b => cases b <;> rfl
  | number x => exact leadType_text_append x r
  | text s => rfl
  | array items => cases items <;> rfl
  | object entries => cases entries <;> rfl

end Leads

mutual

/-- The tree with one not-a-number for all. -/
def oneNaN : Tree → Tree
  | null => null
  | bool b => bool b
  | number x => number x.oneNaN
  | text s => text s
  | array items => array (oneNaNItems items)
  | object entries => object (oneNaNEntries entries)

def oneNaNItems : List Tree → List Tree
  | [] => []
  | t :: ts => t.oneNaN :: oneNaNItems ts

def oneNaNEntries : List (String × Tree) → List (String × Tree)
  | [] => []
  | (key, t) :: rest => (key, t.oneNaN) :: oneNaNEntries rest

end

/-- Whatever may follow, the text is one of this tree only, and ends where it ends. -/
def ReadsAlone (t : Tree) : Prop :=
  ∀ u r s, Ends r → Ends s → t.chars ++ r = chars u ++ s → t.oneNaN = u.oneNaN ∧ r = s

theorem readsAlone_items {xs : List Tree} (ih : ∀ t ∈ xs, t.ReadsAlone) {ys : List Tree} {r s : List Char}
    (h : charsOfItems xs ++ r = charsOfItems ys ++ s) : oneNaNItems xs = oneNaNItems ys ∧ r = s := by
  induction xs generalizing ys with
  | nil =>
    cases ys with
    | nil => exact ⟨rfl, (List.cons.inj h).2⟩
    -- a bracket is no comma
    | cons y ys => exact absurd (List.cons.inj h).1 (by decide)
  | cons x xs ihxs =>
    obtain ⟨hx, hxs⟩ := List.forall_mem_cons.1 ih
    cases ys with
    | nil => exact absurd (List.cons.inj h).1 (by decide)
    | cons y ys =>
      simp only [charsOfItems, List.cons_append, List.append_assoc, List.cons.injEq, true_and] at h
      obtain ⟨hhead, hrest⟩ := hx y _ _ (ends_charsOfItems xs r) (ends_charsOfItems ys s) h
      obtain ⟨htail, hrs⟩ := ihxs hxs hrest
      exact ⟨by rw [oneNaNItems, oneNaNItems, hhead, htail], hrs⟩

theorem readsAlone_entries {es : List (String × Tree)} (ih : ∀ e ∈ es, e.2.ReadsAlone) {fs : List (String × Tree)}
    {r s : List Char} (h : charsOfEntries es ++ r = charsOfEntries fs ++ s) :
    oneNaNEntries es = oneNaNEntries fs ∧ r = s := by
  induction es generalizing fs with
  | nil =>
    cases fs with
    | nil => exact ⟨rfl, (List.cons.inj h).2⟩
    | cons f fs => exact absurd (List.cons.inj h).1 (by decide)
  | cons e es ihes =>
    obtain ⟨key, x⟩ := e
    obtain ⟨hx, hes⟩ := List.forall_mem_cons.1 ih
    cases fs with
    | nil => exact absurd (List.cons.inj h).1 (by decide)
    | cons f fs =>
      obtain ⟨key', y⟩ := f
      simp only [charsOfEntries, List.cons_append, List.append_assoc, List.cons.injEq, true_and] at h
      obtain ⟨rfl, hvalue⟩ := escaped_append_inj h
      obtain ⟨hhead, hrest⟩ := hx y _ _ (ends_charsOfEntries es r) (ends_charsOfEntries fs s) (List.cons.inj hvalue).2
      obtain ⟨htail, hrs⟩ := ihes hes hrest
      exact ⟨by rw [oneNaNEntries, oneNaNEntries, hhead, htail], hrs⟩

/-- Only trees of the same type need to be told apart, since the first character shows the type. -/
theorem readsAlone_of_sameType {t : Tree}
    (h : ∀ u r s, Ends r → Ends s → t.chars ++ r = chars u ++ s → t.typeName = u.typeName →
      t.oneNaN = u.oneNaN ∧ r = s) : t.ReadsAlone := by
  intro u r s hr hs heq
  have hlead := congrArg leadType heq
  rw [leadType_chars_append, leadType_chars_append] at hlead
  exact h u r s hr hs heq (Option.some.inj hlead)

/-- No text of a tree starts with what ends an item. -/
theorem cons_ne_chars_append (c : Char) (r : List Char) {u : Tree} {s : List Char} (hc : typeOfLead c = none) :
    c :: r ≠ u.chars ++ s := by
  intro h
  have hlead := leadType_chars_append u s
  rw [← h] at hlead
  exact nomatch hc.symm.trans hlead

theorem readsAlone_array {items : List Tree} (ih : ∀ t ∈ items, t.ReadsAlone) : (array items).ReadsAlone := by
  refine readsAlone_of_sameType fun u r s hr hs h htype => ?_
  cases u with
  | array others =>
    -- the first item has no comma before it, and with one the items read as those that follow it
    suffices hitems : oneNaNItems items = oneNaNItems others ∧ r = s from
      ⟨by rw [oneNaN, oneNaN, hitems.1], hitems.2⟩
    cases items with
    | nil =>
      cases others with
      | nil => exact ⟨rfl, (List.cons.inj (List.cons.inj h).2).2⟩
      | cons y ys =>
        simp only [chars, List.cons_append, List.append_assoc, List.cons.injEq, true_and] at h
        exact absurd h (cons_ne_chars_append ']' _ rfl)
    | cons x xs =>
      cases others with
      | nil =>
        simp only [chars, List.cons_append, List.append_assoc, List.cons.injEq, true_and] at h
        exact absurd h.symm (cons_ne_chars_append ']' _ rfl)
      | cons y ys =>
        apply readsAlone_items ih
        rw [charsOfItems, charsOfItems]
        simp only [chars, List.cons_append, List.append_assoc, List.cons.injEq, true_and] at h ⊢
        exact h
  | _ => simp [typeName] at htype

theorem readsAlone_object {entries : List (String × Tree)} (ih : ∀ e ∈ entries, e.2.ReadsAlone) :
    (object entries).ReadsAlone := by
  refine readsAlone_of_sameType fun u r s hr hs h htype => ?_
  cases u with
  | object others =>
    suffices hentries : oneNaNEntries entries = oneNaNEntries others ∧ r = s from
      ⟨by rw [oneNaN, oneNaN, hentries.1], hentries.2⟩
    cases entries with
    | nil =>
      cases others with
      | nil => exact ⟨rfl, (List.cons.inj (List.cons.inj h).2).2⟩
      | cons f fs => exact absurd (List.cons.inj (List.cons.inj h).2).1 (by decide)
    | cons e es =>
      cases others with
      | nil => exact absurd (List.cons.inj (List.cons.inj h).2).1 (by decide)
      | cons f fs =>
        apply readsAlone_entries ih
        rw [charsOfEntries, charsOfEntries]
        simp only [chars, List.cons_append, List.append_assoc, List.cons.injEq, true_and] at h ⊢
        exact h
  | _ => simp [typeName] at htype

theorem readsAlone (t : Tree) : t.ReadsAlone := by
  induction t using Tree.induction with
  | array items ih => exact readsAlone_array ih
  | object entries ih => exact readsAlone_object ih
  | null =>
    refine readsAlone_of_sameType fun u r s hr hs h htype => ?_
    cases u with
    | null => exact ⟨rfl, List.append_cancel_left h⟩
    | _ => simp [typeName] at htype
  | bool b =>
    refine readsAlone_of_sameType fun u r s hr hs h htype => ?_
    cases u with
    | bool c =>
      cases b <;> cases c
      · exact ⟨rfl, List.append_cancel_left h⟩
      · exact absurd (List.cons.inj h).1 (by decide)
      · exact absurd (List.cons.inj h).1 (by decide)
      · exact ⟨rfl, List.append_cancel_left h⟩
    | _ => simp [typeName] at htype
  | number x =>
    refine readsAlone_of_sameType fun u r s hr hs h htype => ?_
    cases u with
    | number y =>
      obtain ⟨htext, hrs⟩ := text_append_inj hr hs h
      rw [oneNaN, oneNaN, (Double.text_eq_iff_oneNaN_eq x y).1 htext]
      exact ⟨rfl, hrs⟩
    | _ => simp [typeName] at htype
  | text a =>
    refine readsAlone_of_sameType fun u r s hr hs h htype => ?_
    cases u with
    | text b =>
      obtain ⟨rfl, hrs⟩ := escaped_append_inj h
      exact ⟨rfl, hrs⟩
    | _ => simp [typeName] at htype

theorem charsOfItems_oneNaN {xs : List Tree} (ih : ∀ t ∈ xs, t.oneNaN.chars = t.chars) :
    charsOfItems (oneNaNItems xs) = charsOfItems xs := by
  induction xs with
  | nil => rfl
  | cons x xs ihxs =>
    obtain ⟨hx, hxs⟩ := List.forall_mem_cons.1 ih
    rw [oneNaNItems, charsOfItems, charsOfItems, hx, ihxs hxs]

theorem charsOfEntries_oneNaN {es : List (String × Tree)} (ih : ∀ e ∈ es, e.2.oneNaN.chars = e.2.chars) :
    charsOfEntries (oneNaNEntries es) = charsOfEntries es := by
  induction es with
  | nil => rfl
  | cons e es ihes =>
    obtain ⟨key, x⟩ := e
    obtain ⟨hx, hes⟩ := List.forall_mem_cons.1 ih
    rw [oneNaNEntries, charsOfEntries, charsOfEntries, hx, ihes hes]

theorem chars_oneNaN (t : Tree) : t.oneNaN.chars = t.chars := by
  induction t using Tree.induction with
  | null | bool b | text s => rw [oneNaN]
  | number x => rw [oneNaN, chars, chars, x.text_oneNaN]
  | array items ih =>
    cases items with
    | nil => rw [oneNaN, oneNaNItems]
    | cons x xs =>
      obtain ⟨hx, hxs⟩ := List.forall_mem_cons.1 ih
      rw [oneNaN, oneNaNItems, chars, chars, hx, charsOfItems_oneNaN hxs]
  | object entries ih =>
    cases entries with
    | nil => rw [oneNaN, oneNaNEntries]
    | cons e es =>
      obtain ⟨key, x⟩ := e
      obtain ⟨hx, hes⟩ := List.forall_mem_cons.1 ih
      rw [oneNaN, oneNaNEntries, chars, chars, hx, charsOfEntries_oneNaN hes]

theorem toText_eq_iff_oneNaN_eq (t u : Tree) : t.toText = u.toText ↔ t.oneNaN = u.oneNaN := by
  have hchars : t.toText = u.toText ↔ t.chars = u.chars := by
    rw [toText, toText, ← String.toList_inj, String.toList_ofList, String.toList_ofList]
  rw [hchars]
  constructor
  · intro h
    have happend : t.chars ++ [] = u.chars ++ [] := by rw [h]
    exact (readsAlone t u [] [] ends_nil ends_nil happend).1
  · intro h
    rw [← chars_oneNaN t, h, chars_oneNaN u]

end Tree

end CampusQuery
