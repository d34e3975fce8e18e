import CampusQuery.Filter.Basic
import CampusQuery.Options.Basic
import CampusQuery.Transformation.Basic

/-! Plans: queries with every name resolved. -/

namespace CampusQuery

structure Plan where
  filter : Option Filter
  options : Options
  transformation : Option Transformation

/-- The plan on one line. -/
def Plan.summary (p : Plan) : String :=
  "Query[" ++ p.options.datasetId ++ "] columns=" ++ quotedList p.options.keys ++
    (p.filter.elim "" fun f => " filter_nodes=" ++ toString f.size) ++
    (p.transformation.elim "" fun t =>
      " group=" ++ quotedList (t.group.map Attribute.key) ++ " apply=" ++ toString t.apply.length) ++
    (p.options.order.elim "" fun o => " order=" ++ quotedList o.keys ++ " " ++ o.direction.name)

end CampusQuery
