import TableClient.Options.Pending
import TableClient.Paginate

/-! Scans in segments.

A scan of a whole table is split into segments that are fetched at once. One that resumes
from a key, asks for a segment of its own or for one page only is not split. -/
namespace TableClient

/-- How a scan is split. -/
structure SegmentPlan where
  /-- The number of segments. -/
  total : Nat
  /-- The most items of one segment. -/
  limit : Option Nat
deriving DecidableEq

namespace SegmentPlan

/-- The most segments of a scan. -/
def mostSegments : Nat := 1000000

/-- A quotient rounded up. -/
def ceilDiv (n d : Nat) : Nat := (n + d - 1) / d

/-- Splits a scan into as many segments as asked for, within bounds. With a limit there are no
more than a fifth of it, and each segment is asked for its share. -/
def make (requested : Nat) (limit : Option Nat) : SegmentPlan :=
  let most := max 1 (min requested mostSegments)
  match limit with
  | none => ⟨most, none⟩
  | some limit =>
    let total := max 1 (min most (ceilDiv limit 5))
    ⟨total, some (ceilDiv limit total)⟩

/-- The requests for the segments, in order. -/
def requests (plan : SegmentPlan) (request : Scan.Request) : List Scan.Request :=
  (List.range plan.total).map fun segment =>
    { request with
      limit := (plan.limit.map wireNumber).or request.limit
      segment := some (wireNumber segment)
      totalSegments := some (wireNumber plan.total) }

end SegmentPlan

namespace Scan.Request

/-- A number brought between two others. -/
def clamp (n low high : Int) : Int := max low (min n high)

/-- The request with its segment one of those that there are. -/
def inRange (request : Scan.Request) (segment : Int32) : Scan.Request :=
  let total := clamp ((request.totalSegments.map Int32.toInt).getD 1) 1 SegmentPlan.mostSegments
  { request with
    segment := some (.ofInt (clamp segment.toInt 0 (total - 1)))
    totalSegments := some (.ofInt total) }

/-- Whether a scan is split, and into what. -/
def plan? (request : Scan.Request) (paging : Paging) (segments : Option Nat) : Option SegmentPlan :=
  if request.startKey.isEmpty && request.segment.isNone && !paging.singlePage then
    segments.map (SegmentPlan.make · paging.limit)
  else none

/-- The request of a scan that is not split. A key to resume from says all about where the scan
is, so a segment next to it is dropped. -/
def whole (request : Scan.Request) : Scan.Request :=
  if !request.startKey.isEmpty then { request with segment := none, totalSegments := none }
  else
    match request.segment with
    | some segment => request.inRange segment
    | none => { request with totalSegments := none }

/-- Fetches what a scan asks for. Segments are joined in their order. -/
def run (request : Scan.Request) (s : Settings) (rounds : Nat) (paging : Paging)
    (segments : Option Nat) : Call (Aggregate Float Item Key) :=
  match request.plan? paging segments with
  | none => paginate s Paged.scan rounds request.whole paging
  | some plan => do
    let parts ← Call.all ((plan.requests request).map fun (part : Scan.Request) =>
      paginate s Paged.scan rounds part { limit := plan.limit })
    return (parts.foldl Aggregate.merge ∅).truncate? paging.limit

end Scan.Request

end TableClient
