import LiveQuery.Impact.Subscription
import LiveQuery.Proofs.Impact.Staleness

set_option autoImplicit false

namespace LiveQuery

variable {catalog : Catalog} {change : Change} {node : Node} {record : Record}

namespace MutationImpact

end MutationImpact

namespace Subscription

variable {filter : Option Filter} {order : Option SortOrder} {selection : Selection}
  {subscription : Subscription}

end Subscription

/-- A filter in normal form still fits the catalog. -/
theorem Filter.fits_reduced {filter : Filter} (fits : filter.fits catalog = true) :
    filter.reduced.fits catalog = true := by
  unfold Filter.fits at fits ⊢
  rw [Bool.and_eq_true] at fits ⊢
  exact ⟨fits.1, Predicate.fits_reduced fits.2⟩

namespace Subscription

variable {filter : Option Filter} {order : Option SortOrder} {selection : Selection}
  {subscription : Subscription} {store : Store} {row : Record}

/-- What the analysis of the filter, if there is one, tells of a change. -/
def matching (catalog : Catalog) (subscription : Subscription) (change : Change) :
    Except StatementError (Option Filter) :=
  match subscription.filter with
  | some filter => filter.affected catalog change
  | none => .ok none

end Subscription

namespace Samples

end Samples

open Samples

end LiveQuery
