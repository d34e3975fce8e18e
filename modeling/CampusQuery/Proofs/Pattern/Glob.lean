import CampusQuery.Pattern
import Mathlib.Tactic

/-! The texts that a wildcard pattern stands for. Main statement: a pattern is refused if it has a star
between its first and its last character, and else accepts what comes out of it when each star is
replaced by any text. But for a lone star and two of them, what is accepted by one pattern was read from
one text. -/

namespace CampusQuery

/-- The second text is the first one with each star replaced by some text. -/
inductive Glob : List Char → List Char → Prop
  | nil : Glob [] []
  | char {c : Char} {ps cs : List Char} : c ≠ '*' → Glob ps cs → Glob (c :: ps) (c :: cs)
  | star {ps cs : List Char} (replacement : List Char) :
    Glob ps cs → Glob ('*' :: ps) (replacement ++ cs)

namespace Glob

theorem nil_iff {cs : List Char} : Glob [] cs ↔ cs = [] := by
  refine ⟨fun h => ?_, fun h => h ▸ nil⟩
  cases h
  rfl

theorem star_iff {ps cs : List Char} :
    Glob ('*' :: ps) cs ↔ ∃ replacement rest, cs = replacement ++ rest ∧ Glob ps rest := by
  refine ⟨fun h => ?_, fun ⟨_, _, hcs, h⟩ => hcs ▸ star _ h⟩
  cases h with
  | char hne _ => exact absurd rfl hne
  | star replacement h => exact ⟨replacement, _, rfl, h⟩

theorem literal_iff {literal ps cs : List Char} (hstar : '*' ∉ literal) :
    Glob (literal ++ ps) cs ↔ ∃ rest, cs = literal ++ rest ∧ Glob ps rest := by
  induction literal generalizing cs with
  | nil => exact ⟨fun h => ⟨cs, rfl, h⟩, fun ⟨_, hcs, h⟩ => hcs ▸ h⟩
  | cons c literal ih =>
    obtain ⟨hc, hliteral⟩ := not_or.1 (mt List.mem_cons.2 hstar)
    refine ⟨fun h => ?_, fun ⟨rest, hcs, h⟩ => ?_⟩
    · cases h with
      | char _ hglob =>
        obtain ⟨rest, rfl, hrest⟩ := (ih hliteral).1 hglob
        exact ⟨rest, rfl, hrest⟩
      | star _ _ => exact absurd rfl hc
    · rw [hcs]
      exact char (Ne.symm hc) ((ih hliteral).2 ⟨rest, rfl, h⟩)

theorem literal_nil_iff {literal cs : List Char} (hstar : '*' ∉ literal) :
    Glob literal cs ↔ cs = literal := by
  have h : Glob (literal ++ []) cs ↔ ∃ rest, cs = literal ++ rest ∧ Glob [] rest := literal_iff hstar
  rw [List.append_nil] at h
  simp [h, nil_iff]

theorem trailing_star_iff {cs : List Char} : Glob ['*'] cs := star_iff.2 ⟨cs, [], by simp, nil⟩

end Glob

namespace Pattern

/-- The characters of a pattern, with its stars. -/
def chars (p : Pattern) : List Char :=
  (if p.anyBefore then ['*'] else []) ++ p.literal ++ if p.anyAfter then ['*'] else []

theorem matchesChars_iff (p : Pattern) (hstar : '*' ∉ p.literal) (cs : List Char) :
    p.matchesChars cs = true ↔ Glob p.chars cs := by
  obtain ⟨anyBefore, literal, anyAfter⟩ := p
  unfold matchesChars chars
  cases anyBefore <;> cases anyAfter
  all_goals simp only [if_true, Bool.false_eq_true, if_false, List.nil_append, List.append_nil,
    List.cons_append, Glob.star_iff, Glob.literal_iff hstar,
    Glob.literal_nil_iff hstar, Glob.nil_iff]
  · rw [beq_iff_eq, eq_comm]
  · rw [List.isPrefixOf_iff_prefix]
    refine ⟨fun ⟨rest, h⟩ => ⟨rest, h.symm, rest, [], by simp⟩, ?_⟩
    intro ⟨rest, h, _⟩
    exact ⟨rest, h.symm⟩
  · rw [List.isSuffixOf_iff_suffix]
    refine ⟨fun ⟨before, h⟩ => ⟨before, literal, h.symm, rfl⟩, ?_⟩
    intro ⟨before, _, h, heq⟩
    exact ⟨before, heq ▸ h.symm⟩
  · rw [occurs_iff]
    refine ⟨fun ⟨before, rest, h⟩ => ?_, ?_⟩
    · exact ⟨before, literal ++ rest, by simp [← h], rest, rfl, rest, [], by simp⟩
    · intro ⟨before, _, h, rest, hrest, _⟩
      exact ⟨before, rest, by rw [h, hrest, List.append_assoc]⟩

theorem ofChars?_single (c : Char) :
    ofChars? [c] = some (if c = '*' then ⟨true, [], true⟩ else ⟨false, [c], false⟩) := by
  by_cases hc : c = '*'
  · rw [hc]
    rfl
  · unfold ofChars?
    simp [hc, Ne.symm hc]

/-- The pattern of characters that have a first and a last one. -/
theorem ofChars?_between (c d : Char) (mid : List Char) :
    ofChars? (c :: (mid ++ [d])) =
      if '*' ∈ mid then none
      else some ⟨c == '*', (if c = '*' then [] else [c]) ++ mid ++ (if d = '*' then [] else [d]),
        d == '*'⟩ := by
  have hlast : (c :: (mid ++ [d])).getLast? = some d := by
    rw [← List.cons_append, List.getLast?_concat]
  have hdrop : ∀ d, (c :: (mid ++ [d])).dropLast = c :: mid := fun _ => by
    rw [← List.cons_append, List.dropLast_concat]
  unfold ofChars?
  split
  · next h => simp at h
  · simp only [List.head?_cons, hlast, List.tail_cons]
    by_cases hc : c = '*' <;> by_cases hd : d = '*' <;>
      simp [hdrop, hc, hd, eq_comm (a := '*')]

theorem chars_cases (cs : List Char) :
    cs = [] ∨ (∃ c, cs = [c]) ∨ ∃ c mid d, cs = c :: (mid ++ [d]) := by
  rcases cs with _ | ⟨c, cs⟩
  · exact .inl rfl
  · rcases List.eq_nil_or_concat cs with rfl | ⟨mid, d, rfl⟩
    · exact .inr (.inl ⟨c, rfl⟩)
    · exact .inr (.inr ⟨c, mid, d, by simp⟩)

theorem isSome_ofChars?_iff (cs : List Char) : (ofChars? cs).isSome = true ↔ '*' ∉ cs.tail.dropLast := by
  rcases chars_cases cs with rfl | ⟨c, rfl⟩ | ⟨c, mid, d, rfl⟩
  · simp [ofChars?]
  · simp [ofChars?_single]
  · rw [ofChars?_between]
    by_cases h : '*' ∈ mid <;> simp [h]

/-- Putting the stars of a pattern back gives the characters that it was read from, but a lone star comes
back as two. -/
theorem chars_of_ofChars? {cs : List Char} {p : Pattern} (h : ofChars? cs = some p) :
    '*' ∉ p.literal ∧ (cs = p.chars ∨ cs = ['*'] ∧ p = ⟨true, [], true⟩) := by
  rcases chars_cases cs with rfl | ⟨c, rfl⟩ | ⟨c, mid, d, rfl⟩
  · obtain rfl : ⟨false, [], false⟩ = p := by simpa [ofChars?] using h
    exact ⟨List.not_mem_nil, .inl rfl⟩
  · rw [ofChars?_single] at h
    by_cases hc : c = '*'
    · obtain rfl : ⟨true, [], true⟩ = p := by simpa [hc] using h
      exact ⟨List.not_mem_nil, .inr ⟨by rw [hc], rfl⟩⟩
    · obtain rfl : ⟨false, [c], false⟩ = p := by simpa [hc] using h
      exact ⟨by simpa using Ne.symm hc, .inl rfl⟩
  · rw [ofChars?_between] at h
    by_cases hmid : '*' ∈ mid
    · simp [hmid] at h
    · rw [if_neg hmid] at h
      obtain rfl := Option.some.inj h
      refine ⟨?_, .inl ?_⟩
      · by_cases hc : c = '*' <;> by_cases hd : d = '*' <;> simp [hc, hd, hmid, eq_comm (a := '*')]
      · unfold chars
        by_cases hc : c = '*' <;> by_cases hd : d = '*' <;> simp [hc, hd]

/-- A pattern stands for the same texts as the characters that it was read from. -/
theorem glob_chars {cs : List Char} {p : Pattern} (h : ofChars? cs = some p) (vs : List Char) :
    '*' ∉ p.literal ∧ (Glob p.chars vs ↔ Glob cs vs) := by
  obtain ⟨hstar, rfl | ⟨rfl, rfl⟩⟩ := chars_of_ofChars? h
  · exact ⟨hstar, Iff.rfl⟩
  · exact ⟨hstar, fun _ => Glob.trailing_star_iff, fun _ => Glob.star [] Glob.trailing_star_iff⟩

theorem ofText_eq_ok_iff {s : String} {p : Pattern} : ofText s = .ok p ↔ ofChars? s.toList = some p := by
  unfold ofText
  cases ofChars? s.toList with
  | none => simp
  | some q => simp

/-- A star may stand only first or last. -/
theorem exists_ofText_iff (s : String) : (∃ p, ofText s = .ok p) ↔ '*' ∉ s.toList.tail.dropLast := by
  simp only [ofText_eq_ok_iff, ← isSome_ofChars?_iff, Option.isSome_iff_exists]

theorem accepts_iff {s : String} {p : Pattern} (h : ofText s = .ok p) (v : String) :
    p.accepts v = true ↔ Glob s.toList v.toList := by
  obtain ⟨hstar, hglob⟩ := glob_chars (ofText_eq_ok_iff.1 h) v.toList
  exact (matchesChars_iff p hstar v.toList).trans hglob

/-- Some star has a character before it and one behind it. -/
def HasInnerStar (cs : List Char) : Prop :=
  ∃ before after, before ≠ [] ∧ after ≠ [] ∧ cs = before ++ '*' :: after

theorem hasInnerStar_iff (cs : List Char) : HasInnerStar cs ↔ '*' ∈ cs.tail.dropLast := by
  constructor
  · rintro ⟨before, after, hbefore, hafter, rfl⟩
    obtain ⟨c, before, rfl⟩ := List.exists_cons_of_ne_nil hbefore
    obtain ⟨after, d, rfl⟩ := (List.eq_nil_or_concat after).resolve_left hafter
    have htail : ((c :: before) ++ '*' :: after.concat d).tail = (before ++ '*' :: after) ++ [d] := by simp
    rw [htail, List.dropLast_concat]
    exact List.mem_append_right _ (List.mem_cons_self ..)
  · intro h
    rcases chars_cases cs with rfl | ⟨c, rfl⟩ | ⟨c, mid, d, rfl⟩
    · cases h
    · cases h
    · rw [List.tail_cons, List.dropLast_concat] at h
      obtain ⟨before, after, rfl⟩ := List.append_of_mem h
      exact ⟨c :: before, after ++ [d], List.cons_ne_nil c before, by simp, by simp⟩

theorem ofText_eq_error_iff {s : String} {fault : Fault} :
    ofText s = .error fault ↔ fault = .innerWildcard ∧ HasInnerStar s.toList := by
  have hnone : HasInnerStar s.toList ↔ ofChars? s.toList = none := by
    rw [hasInnerStar_iff, ← Option.not_isSome_iff_eq_none, isSome_ofChars?_iff, not_not]
  rw [hnone]
  unfold ofText
  cases ofChars? s.toList with
  | none => simp [eq_comm]
  | some p => simp

/-- A pattern comes from one text, but that of the lone star comes from the double star as well. -/
theorem ofText_eq_iff {s t : String} {p : Pattern} (hs : ofText s = .ok p) :
    ofText t = .ok p ↔ t = s ∨ (s = "*" ∧ t = "**") ∨ (s = "**" ∧ t = "*") := by
  have hlone (u : String) : u.toList = "*".toList ↔ u = "*" := String.toList_inj
  have hdouble (u : String) : u.toList = "**".toList ↔ u = "**" := String.toList_inj
  constructor
  · intro ht
    obtain ⟨-, hschars⟩ := chars_of_ofChars? (ofText_eq_ok_iff.1 hs)
    obtain ⟨-, htchars⟩ := chars_of_ofChars? (ofText_eq_ok_iff.1 ht)
    rcases hschars with hschars | ⟨hschars, rfl⟩ <;> rcases htchars with htchars | ⟨htchars, hp⟩
    · exact .inl (String.toList_inj.1 (htchars.trans hschars.symm))
    · rw [hp] at hschars
      exact .inr (.inr ⟨(hdouble s).1 hschars, (hlone t).1 htchars⟩)
    · exact .inr (.inl ⟨(hlone s).1 hschars, (hdouble t).1 htchars⟩)
    · exact .inl (String.toList_inj.1 (htchars.trans hschars.symm))
  · have honce : ofText "*" = .ok ⟨true, [], true⟩ := rfl
    have htwice : ofText "**" = .ok ⟨true, [], true⟩ := rfl
    rintro (rfl | ⟨rfl, rfl⟩ | ⟨rfl, rfl⟩)
    · exact hs
    · rw [htwice, ← honce, hs]
    · rw [honce, ← htwice, hs]

/-- A text is refused just for a star inside. Of any other text the pattern accepts what comes out of the text
when each star gives way to some text, and which text that was can be told from the pattern, but for a lone
star and two. -/
theorem ofText_glob (s : String) :
    (∀ fault, ofText s = .error fault ↔ fault = .innerWildcard ∧ HasInnerStar s.toList) ∧
      ∀ p, ofText s = .ok p →
        (∀ v : String, p.accepts v = true ↔ Glob s.toList v.toList) ∧
          ∀ t, ofText t = .ok p ↔ t = s ∨ (s = "*" ∧ t = "**") ∨ (s = "**" ∧ t = "*") :=
  ⟨fun _ => ofText_eq_error_iff, fun _ hp => ⟨accepts_iff hp, fun _ => ofText_eq_iff hp⟩⟩

/-- The stars of this pattern stand for no character and for several. -/
theorem ofText_glob_aroundName :
    ofText "*é*" = .ok ⟨true, ['é'], true⟩ ∧ Glob "*é*".toList "école".toList ∧
      ¬Glob "*é*".toList "ecole".toList ∧ ofText "*é" ≠ .ok ⟨true, ['é'], true⟩ := by
  have hread : ofText "*é*" = .ok ⟨true, ['é'], true⟩ := rfl
  obtain ⟨-, hall⟩ := ofText_glob "*é*"
  obtain ⟨haccepts, honly⟩ := hall _ hread
  refine ⟨hread, (haccepts _).1 (by decide), mt (haccepts _).2 (by decide), mt (honly _).1 ?_⟩
  decide

end Pattern

end CampusQuery
