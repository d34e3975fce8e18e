import CampusQuery.Proofs.Double.Nearest
import Mathlib.Data.List.TakeWhile

/-! Reading a double's text back. Main statement: doubles with one text are the same, or none of them is
a number. -/

namespace CampusQuery.Double

/-- The number that digits stand for, with a point among them or without. -/
def readChars (cs : List Char) : ℚ :=
  let places := (cs.dropWhile (· != '.')).tail
  Nat.ofDigitChars 10 (cs.takeWhile (· != '.') ++ places) 0 / 10 ^ places.length

theorem ne_point_of_isDigit {c : Char} (h : c.isDigit = true) : (c != '.') = true := by
  rcases eq_or_ne c '.' with rfl | hne
  · exact absurd h (by decide)
  · simpa using hne

theorem readChars_whole {cs : List Char} (h : ∀ c ∈ cs, c.isDigit = true) :
    readChars cs = Nat.ofDigitChars 10 cs 0 := by
  have hp : ∀ c ∈ cs, (c != '.') = true := fun c hc => ne_point_of_isDigit (h c hc)
  simp [readChars, List.takeWhile_eq_self_iff.2 hp, List.dropWhile_eq_nil_iff.2 hp]

theorem readChars_point {whole : List Char} (h : ∀ c ∈ whole, c.isDigit = true) (places : List Char) :
    readChars (whole ++ '.' :: places) =
      Nat.ofDigitChars 10 (whole ++ places) 0 / 10 ^ places.length := by
  have hp : ∀ c ∈ whole, (c != '.') = true := fun c hc => ne_point_of_isDigit (h c hc)
  simp [readChars, List.takeWhile_append_of_pos hp, List.dropWhile_append_of_pos hp]

theorem isDigit_of_mem_zeros_digits {k n : ℕ} {c : Char}
    (h : c ∈ List.replicate k '0' ++ Nat.toDigits 10 n) : c.isDigit = true := by
  rcases List.mem_append.1 h with h | h
  · rw [List.eq_of_mem_replicate h]; decide
  · exact Nat.isDigit_of_mem_toDigits (by decide) (by decide) h

theorem readChars_text (d : Decimals) : readChars d.text.toList = d.value := by
  obtain ⟨n, scale⟩ := d
  cases scale with
  | ofNat p =>
    have hdigits : ∀ c ∈ Nat.toDigits 10 n ++ List.replicate p '0', c.isDigit = true := fun c hc =>
      isDigit_of_mem_zeros_digits (List.mem_append.2 (List.mem_append.1 hc).symm)
    simp only [Decimals.text, String.toList_ofList, Decimals.value, Int.ofNat_eq_natCast, zpow_natCast]
    rw [readChars_whole hdigits, Nat.ofDigitChars_append, Nat.ofDigitChars_ten_toDigits,
      Nat.ofDigitChars_replicate_zero]
    push_cast
    ring
  | negSucc p =>
    simp only [Decimals.text, String.toList_ofList, Decimals.value, zpow_negSucc]
    obtain ⟨padded, hpadded⟩ : ∃ cs, cs =
        List.replicate (p + 2 - (Nat.toDigits 10 n).length) '0' ++ Nat.toDigits 10 n := ⟨_, rfl⟩
    have hlength : p + 2 ≤ padded.length := by
      rw [hpadded, List.length_append, List.length_replicate]; omega
    have hdigits : ∀ c ∈ padded, c.isDigit = true := fun c hc =>
      isDigit_of_mem_zeros_digits (hpadded ▸ hc)
    have hread : Nat.ofDigitChars 10 padded 0 = n := by
      rw [hpadded, Nat.ofDigitChars_append, Nat.ofDigitChars_replicate_zero, Nat.mul_zero,
        Nat.ofDigitChars_ten_toDigits]
    rw [← hpadded, readChars_point fun c hc => hdigits c (List.mem_of_mem_take hc), List.take_append_drop,
      hread, List.length_drop, Nat.sub_sub_self (by omega)]
    rfl

theorem numeral_of_mem_text {d : Decimals} {c : Char} (h : c ∈ d.text.toList) :
    c.isDigit = true ∨ c = '.' := by
  obtain ⟨n, scale⟩ := d
  cases scale with
  | ofNat p =>
    simp only [Decimals.text, String.toList_ofList] at h
    exact .inl (isDigit_of_mem_zeros_digits (List.mem_append.2 (List.mem_append.1 h).symm))
  | negSucc p =>
    simp only [Decimals.text, String.toList_ofList, List.mem_append, List.mem_cons] at h
    rcases h with h | rfl | h
    · exact .inl (isDigit_of_mem_zeros_digits (List.mem_of_mem_take h))
    · exact .inr rfl
    · exact .inl (isDigit_of_mem_zeros_digits (List.mem_of_mem_drop h))

/-- The text of a magnitude. -/
def unsigned (m e : ℕ) : String := if m = 0 then "0" else (shortest m e).text

theorem numeral_of_mem_unsigned {m e : ℕ} {c : Char} (h : c ∈ (unsigned m e).toList) :
    c.isDigit = true ∨ c = '.' := by
  unfold unsigned at h
  split at h
  · simp only [String.reduceToList, List.mem_singleton] at h
    subst h
    exact .inl (by decide)
  · exact numeral_of_mem_text h

theorem readChars_unsigned (m e : ℕ) :
    readChars (unsigned m e).toList = if m = 0 then 0 else (shortest m e).value := by
  by_cases hm : m = 0
  · have hdigit : ∀ c ∈ ['0'], c.isDigit = true := by simp
    rw [unsigned, if_pos hm, if_pos hm]
    exact readChars_whole hdigit
  · rw [unsigned, if_neg hm, if_neg hm, readChars_text]

theorem eq_of_unsigned_eq {m e n f : ℕ} (hx : Canonical m e) (hy : Canonical n f)
    (h : unsigned m e = unsigned n f) : m = n ∧ e = f := by
  have hvalue : readChars (unsigned m e).toList = readChars (unsigned n f).toList := by rw [h]
  rw [readChars_unsigned, readChars_unsigned] at hvalue
  by_cases hm : m = 0 <;> by_cases hn : n = 0
  · obtain ⟨-, -, he⟩ := hx
    obtain ⟨-, -, hf⟩ := hy
    omega
  · rw [if_pos hm, if_neg hn] at hvalue
    exact absurd hvalue (shortest_pos (Nat.pos_of_ne_zero hn) f).ne
  · rw [if_neg hm, if_pos hn] at hvalue
    exact absurd hvalue (shortest_pos (Nat.pos_of_ne_zero hm) e).ne'
  · rw [if_neg hm, if_neg hn] at hvalue
    have hq := contains_shortest (e := f) (Nat.pos_of_ne_zero hn)
    rw [← hvalue] at hq
    exact eq_of_contains hx hy (contains_shortest (Nat.pos_of_ne_zero hm)) hq

theorem text_finite (s : Bool) (m e : ℕ) (h : Canonical m e) :
    (text (.finite s m e h)).toList = (if s then ['-'] else []) ++ (unsigned m e).toList := by
  cases s <;> simp [text, unsigned]

theorem Decimals.text_ne_nil (d : Decimals) : d.text.toList ≠ [] := by
  obtain ⟨n, scale⟩ := d
  cases scale with
  | ofNat p =>
    simp only [Decimals.text, String.toList_ofList]
    exact List.append_ne_nil_of_left_ne_nil Nat.toDigits_ne_nil _
  | negSucc p => simp [Decimals.text]

theorem text_finite_ne_nil (s : Bool) (m e : ℕ) (h : Canonical m e) : (text (.finite s m e h)).toList ≠ [] := by
  rw [text_finite, unsigned]
  apply List.append_ne_nil_of_right_ne_nil
  split
  · decide
  · exact Decimals.text_ne_nil _

theorem mem_text_finite {s : Bool} {m e : ℕ} {h : Canonical m e} {c : Char}
    (hc : c ∈ (text (.finite s m e h)).toList) : c = '-' ∨ c.isDigit = true ∨ c = '.' := by
  rw [text_finite] at hc
  rcases List.mem_append.1 hc with hc | hc
  · cases s <;> simp_all
  · exact .inr (numeral_of_mem_unsigned hc)

theorem text_finite_ne {s : Bool} {m e : ℕ} {h : Canonical m e} {t : String} {c : Char}
    (hc : c ∈ t.toList) (hne : ¬ (c = '-' ∨ c.isDigit = true ∨ c = '.')) :
    text (.finite s m e h) ≠ t := by
  rintro rfl
  exact hne (mem_text_finite hc)

theorem text_finite_injective {s t : Bool} {m e n f : ℕ} {hx : Canonical m e} {hy : Canonical n f}
    (h : text (.finite s m e hx) = text (.finite t n f hy)) : s = t ∧ m = n ∧ e = f := by
  have hminus (k g : ℕ) : '-' ∉ (unsigned k g).toList := fun hc => by
    rcases numeral_of_mem_unsigned hc with hd | hd <;> exact absurd hd (by decide)
  have hl := congrArg String.toList h
  rw [text_finite, text_finite] at hl
  cases s <;> cases t <;> simp only [Bool.false_eq_true, if_false, if_true, List.nil_append] at hl
  · exact ⟨rfl, eq_of_unsigned_eq hx hy (String.toList_inj.1 hl)⟩
  · exact absurd (hl ▸ List.mem_append_left _ (List.mem_singleton_self _)) (hminus m e)
  · exact absurd (hl ▸ List.mem_append_left _ (List.mem_singleton_self _)) (hminus n f)
  · exact ⟨rfl, eq_of_unsigned_eq hx hy (String.toList_inj.1 (List.append_cancel_left hl))⟩

theorem separator_not_mem_text (x : Double) : '\x1f' ∉ x.text.toList := by
  cases x with
  | nan => simp [text]
  | infinite s => cases s <;> simp [text]
  | finite s m e h =>
    intro hc
    rcases mem_text_finite hc with hc | hc | hc <;> exact absurd hc (by decide)

/-- The text tells the two zeros apart, and no two not-a-numbers. -/
theorem text_eq_text_iff (x y : Double) :
    x.text = y.text ↔ x = y ∨ (x.isNaN = true ∧ y.isNaN = true) := by
  constructor
  · intro h
    cases x with
    | nan =>
      cases y with
      | nan => exact .inr ⟨rfl, rfl⟩
      | infinite t => cases t <;> simp [text] at h
      | finite t n f hy => exact absurd h.symm (text_finite_ne (by decide : 'N' ∈ "NaN".toList) (by decide))
    | infinite s =>
      cases y with
      | nan => cases s <;> simp [text] at h
      | infinite t => cases s <;> cases t <;> simp [text] at h ⊢
      | finite t n f hy =>
        cases s <;> exact absurd h.symm (text_finite_ne (by decide : 'i' ∈ _) (by decide))
    | finite s m e hx =>
      cases y with
      | nan => exact absurd h (text_finite_ne (by decide : 'N' ∈ "NaN".toList) (by decide))
      | infinite t => cases t <;> exact absurd h (text_finite_ne (by decide : 'i' ∈ _) (by decide))
      | finite t n f hy =>
        obtain ⟨rfl, rfl, rfl⟩ := text_finite_injective h
        exact .inl rfl
  · rintro (rfl | ⟨hx, hy⟩)
    · rfl
    · cases x <;> cases y <;> simp_all [isNaN, text]

end CampusQuery.Double
