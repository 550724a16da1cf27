import TableClient.Page
import TableClient.Retry

/-! Following cursors.

Pages are fetched one after the other, each from the cursor of the one before, until one
has no cursor or there are as many items as asked for. The limit that a request carries
is never lowered to what is still missing. -/
namespace TableClient

/-- Fetches pages from a request on and adds them to those that came before. -/
def paginateFrom {op : Operation} {ι κ : Type} (s : Settings) (paged : Paged op ι κ)
    (paging : Paging) :
    (rounds : Nat) → op.Request → Aggregate Float ι κ → Call (Aggregate Float ι κ)
  | 0, _, _ => ExceptT.mk .cut
  | rounds + 1, request, before => do
    let page := paged.page (← send s op request)
    let total := before.absorb page
    if paging.singlePage then
      return Aggregate.truncate? { total with cursor := page.cursor } paging.limit
    if paging.limit.any (· ≤ total.items.length) then
      return total.truncate? paging.limit
    match page.cursor with
    | none => return total
    | some cursor => paginateFrom s paged paging rounds (paged.resume request cursor) total

/-- Fetches the pages of a request, in no more than a number of rounds. -/
def paginate {op : Operation} {ι κ : Type} (s : Settings) (paged : Paged op ι κ) (rounds : Nat)
    (request : op.Request) (paging : Paging) : Call (Aggregate Float ι κ) :=
  paginateFrom s paged paging rounds request ∅

end TableClient
