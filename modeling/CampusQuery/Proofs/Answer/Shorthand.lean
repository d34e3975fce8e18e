import CampusQuery.Proofs.Answer.Arrangement
import CampusQuery.Proofs.Answer.Ungrouped
import CampusQuery.Proofs.Grammar.Part
import CampusQuery.Proofs.Plan.Surplus

/-! The long form of an order that is written as a lone key. Main statement: a query has the same outcome with
either form, down to its fault, whether it is checked first or read right away. -/

namespace CampusQuery

open Grammar (expandShorthand)

theorem Order.ofTree_expandShorthand (columns : List Column) (key : String) :
    ofTree columns (expandShorthand key) = ofTree columns (.text key) := by
  have hshape : shape (expandShorthand key) = shape (.text key) := rfl
  unfold ofTree
  rw [hshape]

/-- Of an order, only what it reads as matters. -/
theorem Options.ofTree_insert_order {kinds : Entries Kind} {transformations : Option (Entries Tree)}
    {entries : Entries Tree} {t u : Tree} (h : entries.lookup "ORDER" = some t)
    (hread : ∀ columns, Order.ofTree columns u = Order.ofTree columns t) :
    ofTree kinds transformations (Entries.insert entries "ORDER" u) = ofTree kinds transformations entries := by
  unfold ofTree
  rw [Entries.lookup_insert, Entries.lookup_insert, if_neg (by decide), if_pos rfl, h]
  simp only [Option.mapM_some, hread]

theorem Plan.ofTree_withOrder {kinds : Entries Kind} {query t u : Tree}
    (h : query.part? "OPTIONS" "ORDER" = some t)
    (hread : ∀ columns, Order.ofTree columns u = Order.ofTree columns t) :
    ofTree kinds (query.withPart "OPTIONS" "ORDER" u) = ofTree kinds query := by
  obtain ⟨root, options, rfl, hoptions, horder⟩ := Tree.part?_eq_some_iff.1 h
  rw [Tree.withPart_object hoptions]
  unfold ofTree
  simp only [Entries.lookup_insert, hoptions, Options.ofTree_insert_order horder hread, if_true,
    if_neg (show "TRANSFORMATIONS" ≠ "OPTIONS" by decide), if_neg (show "WHERE" ≠ "OPTIONS" by decide)]

namespace Context

variable {query : Tree} {key : String}

theorem plan_withOrder (ctx : Context) {t u : Tree} (h : query.part? "OPTIONS" "ORDER" = some t)
    (hcheck : Grammar.check "ORDER" u = Grammar.check "ORDER" t)
    (hread : ∀ columns, Order.ofTree columns u = Order.ofTree columns t) :
    ctx.plan (query.withPart "OPTIONS" "ORDER" u) = ctx.plan query := by
  unfold plan
  rw [Grammar.checkQuery_withOrder h hcheck, Plan.ofTree_withOrder h hread]

/-- What stands in the place of the key is the long form, and nothing comes of it that does not come of the key. -/
theorem answer_expandShorthand (ctx : Context) (h : query.part? "OPTIONS" "ORDER" = some (.text key)) :
    (query.withPart "OPTIONS" "ORDER" (expandShorthand key)).order? = some (expandShorthand key) ∧
      ctx.answer (query.withPart "OPTIONS" "ORDER" (expandShorthand key)) = ctx.answer query ∧
      ∀ kinds, Plan.ofTree kinds (query.withPart "OPTIONS" "ORDER" (expandShorthand key)) =
        Plan.ofTree kinds query := by
  have hread (columns : List Column) := Order.ofTree_expandShorthand columns key
  have hcheck : Grammar.check "ORDER" (expandShorthand key) = Grammar.check "ORDER" (.text key) := rfl
  refine ⟨Tree.part?_withPart h _, ?_, fun kinds => Plan.ofTree_withOrder h hread⟩
  unfold answer
  rw [plan_withOrder ctx h hcheck hread]

/-- A key that is not among the columns is refused in either form. -/
theorem answer_expandShorthand_notInColumns :
    (Plan.roomNames [("ORDER", .text "rooms_seats")]).part? "OPTIONS" "ORDER" = some (.text "rooms_seats") ∧
      halls.answer (Plan.roomNames [("ORDER", expandShorthand "rooms_seats")]) =
        .error (.validation (.orderKeyNotInColumns "rooms_seats")) := by
  have horder : (Plan.roomNames [("ORDER", .text "rooms_seats")]).part? "OPTIONS" "ORDER" =
      some (.text "rooms_seats") := rfl
  exact ⟨horder, (answer_expandShorthand halls horder).2.1⟩

end Context

end CampusQuery
