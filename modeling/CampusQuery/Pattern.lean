import CampusQuery.Error

/-! Wildcard patterns: a literal, with a star before it, after it, or both. -/

namespace CampusQuery

structure Pattern where
  anyBefore : Bool
  literal : List Char
  anyAfter : Bool
deriving DecidableEq, Repr

namespace Pattern

/-- A lone star stands both before and after an empty literal. -/
def ofChars? : List Char → Option Pattern
  | ['*'] => some ⟨true, [], true⟩
  | cs =>
    let anyBefore := cs.head? == some '*'
    let anyAfter := cs.getLast? == some '*'
    let rest := if anyBefore then cs.tail else cs
    let literal := if anyAfter then rest.dropLast else rest
    if '*' ∈ literal then none else some ⟨anyBefore, literal, anyAfter⟩

def ofText (s : String) : Except Fault Pattern :=
  match ofChars? s.toList with
  | some p => .ok p
  | none => .error .innerWildcard

/-- Whether the literal stands somewhere in the text. -/
def occurs (literal : List Char) : List Char → Bool
  | [] => literal.isEmpty
  | c :: cs => literal.isPrefixOf (c :: cs) || occurs literal cs

theorem occurs_iff {literal cs : List Char} : occurs literal cs = true ↔ literal <:+: cs := by
  induction cs with
  | nil => simp [occurs]
  | cons c cs ih => rw [occurs, Bool.or_eq_true, ih, List.isPrefixOf_iff_prefix, List.infix_cons_iff]

def matchesChars (p : Pattern) (cs : List Char) : Bool :=
  match p.anyBefore, p.anyAfter with
  | true, true => occurs p.literal cs
  | true, false => p.literal.isSuffixOf cs
  | false, true => p.literal.isPrefixOf cs
  | false, false => p.literal == cs

/-- Each star stands for any text, the empty one included. -/
def accepts (p : Pattern) (s : String) : Bool := p.matchesChars s.toList

end Pattern

end CampusQuery
