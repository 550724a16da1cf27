import TableClient.Options.Read
import TableClient.Proofs.Assembly
import TableClient.Proofs.Segments

/-! Which segments scans ask for.

All requests of a call that fetches pages have the numbers of the first, so those of a scan have the
numbers of its request, brought within bounds, or those of one of its parts (`sends_run`). So every
request that a scan sends is about a whole table or about one of the segments into which a table can
be split, whatever numbers its request comes with and whatever its options say
(`scan_segments_placed`). -/
namespace TableClient

/-- The number of a segment and that of all segments, as a request gives them. -/
abbrev SegmentNumbers := Option Int × Option Int

namespace SegmentNumbers

/-- No numbers, for a whole table. -/
def whole : SegmentNumbers := (none, none)

/-- The numbers of a segment. -/
def part (segment total : Int) : SegmentNumbers := (some segment, some total)

/-- Numbers are those of a whole table, or of one of the segments into which a table can be
split. -/
inductive ArePlaced : SegmentNumbers → Prop where
  | whole : ArePlaced .whole
  | part {segment total : Int} (nonneg : 0 ≤ segment) (lt : segment < total)
      (most : total ≤ 1000000) : ArePlaced (.part segment total)

end SegmentNumbers

namespace Scan.Request
variable {r : Scan.Request}

/-- The numbers of a request. -/
def numbers (r : Scan.Request) : SegmentNumbers :=
  (r.segment.map Int32.toInt, r.totalSegments.map Int32.toInt)

/-! ### Numbers within bounds -/

theorem clamp_bounds {n low high : Int} (h : low ≤ high) :
    low ≤ clamp n low high ∧ clamp n low high ≤ high := by
  unfold clamp
  omega

/-- The number of segments that a request gives, brought within bounds. -/
def clampedTotal (r : Scan.Request) : Int :=
  clamp ((r.totalSegments.map Int32.toInt).getD 1) 1 SegmentPlan.mostSegments

theorem clampedTotal_bounds (r : Scan.Request) : 1 ≤ r.clampedTotal ∧ r.clampedTotal ≤ 1000000 :=
  clamp_bounds (by decide)

theorem clampedSegment_bounds (r : Scan.Request) (segment : Int32) :
    0 ≤ clamp segment.toInt 0 (r.clampedTotal - 1) ∧
      clamp segment.toInt 0 (r.clampedTotal - 1) ≤ r.clampedTotal - 1 :=
  clamp_bounds (by have := r.clampedTotal_bounds; omega)

/-- Numbers within bounds are sent as they are. -/
theorem numbers_inRange (r : Scan.Request) (segment : Int32) :
    (r.inRange segment).numbers =
      .part (clamp segment.toInt 0 (r.clampedTotal - 1)) r.clampedTotal := by
  have hsent {n : Int} (hlow : 0 ≤ n) (hhigh : n ≤ 1000000) : (Int32.ofInt n).toInt = n :=
    Int32.toInt_ofInt_of_le (by omega) (by omega)
  have htotal := r.clampedTotal_bounds
  have hsegment := r.clampedSegment_bounds segment
  have hn : (Int32.ofInt (clamp segment.toInt 0 (r.clampedTotal - 1))).toInt = _ :=
    hsent hsegment.1 (by omega)
  have hall : (Int32.ofInt r.clampedTotal).toInt = _ := hsent (by omega) htotal.2
  exact Prod.ext (congrArg some hn) (congrArg some hall)

/-- A request that resumes from a key has no numbers. -/
theorem numbers_whole_of_resumed (h : r.startKey ≠ ∅) : r.whole.numbers = .whole := by
  have hstart : r.startKey.isEmpty = false := by simpa [← KeyMap.isEmpty_iff] using h
  simp [whole, hstart, numbers, SegmentNumbers.whole]

/-- A request for no segment has no numbers. -/
theorem numbers_whole_of_none (h : r.segment = none) : r.whole.numbers = .whole := by
  unfold whole
  split
  · rfl
  · simp [h, numbers, SegmentNumbers.whole]

/-- A request for a segment, from its start on, has its numbers brought within bounds. -/
theorem whole_of_segment {segment : Int32} (hstart : r.startKey = ∅)
    (hsegment : r.segment = some segment) : r.whole = r.inRange segment := by
  simp [whole, hstart, hsegment]

theorem arePlaced_whole (r : Scan.Request) : r.whole.numbers.ArePlaced := by
  by_cases hstart : r.startKey = ∅
  · cases hsegment : r.segment with
    | none =>
      rw [numbers_whole_of_none hsegment]
      exact .whole
    | some segment =>
      have hbounds := r.clampedSegment_bounds segment
      rw [whole_of_segment hstart hsegment, numbers_inRange]
      exact .part hbounds.1 (by omega) r.clampedTotal_bounds.2
  · rw [numbers_whole_of_resumed hstart]
    exact .whole

end Scan.Request

/-- The parts of a scan are numbered from zero on. -/
theorem SegmentPlan.arePlaced_part {requested i : Nat} {limit : Option Nat} (r : Scan.Request)
    (hi : i < (make requested limit).total) :
    ((make requested limit).part r i).numbers.ArePlaced := by
  have hnumbers : ((make requested limit).part r i).numbers =
      .part i (make requested limit).total :=
    Prod.ext (congrArg some (toInt_wireNumber (le_maxSigned32 hi.le)))
      (congrArg some (toInt_wireNumber (le_maxSigned32 le_rfl)))
  have hmost : (make requested limit).total ≤ 1000000 := total_le requested limit
  rw [hnumbers]
  exact .part (by omega) (by omega) (by omega)

/-! ### What is sent -/

/-- Whether only scans are sent, with numbers that are as a predicate says. -/
def SendsScans (P : SegmentNumbers → Prop) (es : List Exchange) : Prop :=
  ∀ x ∈ es, ∃ (request : Scan.Request) (arrival : Arrival .scan),
    x = ⟨.scan, request, arrival⟩ ∧ P request.numbers

section Sends
variable {P : SegmentNumbers → Prop} {s : Settings} {rounds : Nat} {request : Scan.Request}
  {paging : Paging} {segments : Option Nat} {es : List Exchange}
  {result : Option (Outcome (Aggregate Float Item Key))}

/-- Requests that follow cursors have the numbers of the first. -/
theorem Paged.Follows.numbers {earlier : List (Page Float Item Key)} {sends : List (Sent s .scan)}
    (h : Paged.scan.Follows paging rounds earlier request sends result) :
    ∀ sent ∈ sends, Scan.Request.numbers sent.request = request.numbers := by
  intro sent hsent
  rcases h.eq_or_resumed sent hsent with hrequest | ⟨key, hrequest⟩
  · rw [hrequest]
  · rw [hrequest]
    rfl

/-- A call that fetches pages sends the numbers of its request. -/
theorem sends_paginate (h : (paginate s Paged.scan rounds request paging).run.Plays es result)
    (hrequest : P request.numbers) : SendsScans P es := by
  obtain ⟨sends, rfl, hsends⟩ := (Paged.scan_overwrites.followsCursors s rounds _ _ _ _).1 h
  intro x hx
  obtain ⟨sent, hsent, hx⟩ := List.mem_flatMap.1 hx
  obtain ⟨arrival, rfl⟩ := sent.eq_of_mem hx
  exact ⟨sent.request, arrival, rfl, (hsends.numbers sent hsent).symm ▸ hrequest⟩

/-- A scan sends the numbers of its request if it is not split, and else those of its parts. -/
theorem sends_run (h : (request.run s rounds paging segments).run.Plays es result)
    (hwhole : request.plan? paging segments = none → P request.whole.numbers)
    (hparts : ∀ plan, request.plan? paging segments = some plan →
      ∀ i < plan.total, P (plan.part request i).numbers) : SendsScans P es := by
  cases hplan : request.plan? paging segments with
  | none =>
    simp only [Scan.Request.run, hplan] at h
    exact sends_paginate h (hwhole hplan)
  | some plan =>
    obtain ⟨tracks, ends, ⟨labelled, rfl, htracks⟩, hends, -⟩ :=
      (Scan.Request.plays_run_split hplan).1 h
    intro x hx
    obtain ⟨⟨i, x⟩, hmem, rfl⟩ := List.mem_map.1 hx
    refine sends_paginate (hends i) (hparts plan hplan i i.isLt) x ?_
    rw [← htracks i]
    exact List.mem_map.2 ⟨(i, x), List.mem_filter.2 ⟨hmem, by simp⟩, rfl⟩

/-- Every request that a scan sends is placed. -/
theorem sends_placed (h : (request.run s rounds paging segments).run.Plays es result) :
    SendsScans SegmentNumbers.ArePlaced es := by
  refine sends_run h (fun _ => request.arePlaced_whole) fun plan hplan i hi => ?_
  obtain ⟨requested, rfl⟩ : ∃ requested, plan = .make requested paging.limit := by
    unfold Scan.Request.plan? at hplan
    split at hplan
    · obtain ⟨requested, -, rfl⟩ := Option.map_eq_some_iff.1 hplan
      exact ⟨requested, rfl⟩
    · cases hplan
  exact SegmentPlan.arePlaced_part request hi

/-- A scan for no segment that is not to be split sends no numbers. -/
theorem sends_none (h : (request.run s rounds paging segments).run.Plays es result)
    (hsegment : request.segment = none) (hwhole : paging.singlePage ∨ segments = none) :
    SendsScans (· = .whole) es := by
  have hplan : request.plan? paging segments = none := by
    rcases hwhole with hsingle | rfl
    · simp [Scan.Request.plan?, hsingle]
    · simp [Scan.Request.plan?]
  refine sends_run h (fun _ => Scan.Request.numbers_whole_of_none hsegment) fun plan hsome => ?_
  cases hplan.symm.trans hsome

/-- A scan of a segment from its start on sends its numbers within bounds. -/
theorem sends_segment {segment : Int32}
    (h : (request.run s rounds paging segments).run.Plays es result) (hstart : request.startKey = ∅)
    (hsegment : request.segment = some segment) :
    SendsScans
      (· = .part (Scan.Request.clamp segment.toInt 0 (request.clampedTotal - 1))
        request.clampedTotal) es := by
  have hplan : request.plan? paging segments = none := by simp [Scan.Request.plan?, hsegment]
  refine sends_run h (fun _ => ?_) fun plan hsome => ?_
  · rw [Scan.Request.whole_of_segment hstart hsegment, Scan.Request.numbers_inRange]
  · cases hplan.symm.trans hsome

end Sends

/-! ### Options -/

/-- A number that does not fit is sent as the greatest that does. -/
theorem toInt_wireNumber_eq_min (n : Nat) :
    (wireNumber n).toInt = (min n Number.maxSigned32 : Nat) := by
  have hsame : wireNumber n = wireNumber (min n Number.maxSigned32) := by
    unfold wireNumber
    rw [Nat.min_assoc, Nat.min_self]
  rw [hsame, toInt_wireNumber (Nat.min_le_right _ _)]

namespace ScanOptions
variable {o : ScanOptions} {table : String} {defaultSegments : Nat} {pending : Pending Scan.Request}

/-- What the options of a scan come to, as far as segments go. -/
theorem finalize_ok (h : o.finalize table defaultSegments = .ok pending) :
    pending.request.startKey = o.startKey ∧
      pending.request.segment = (o.oneSegment {}).segment ∧
      pending.request.totalSegments = (o.oneSegment {}).totalSegments ∧
      pending.paging = o.paging ∧ pending.segments = o.segments defaultSegments := by
  obtain ⟨p, hp, h⟩ := exists_of_bind_eq_ok h
  obtain ⟨q, hq, h⟩ := exists_of_bind_eq_ok h
  obtain ⟨limit, -, hp⟩ := exists_of_bind_eq_ok hp
  obtain ⟨r, -, rfl⟩ := Parameters.assemble_ok hq
  cases hp
  cases h
  rw [Parameters.forIndex_eq]
  unfold oneSegment
  split
  · exact ⟨rfl, rfl, rfl, rfl, rfl⟩
  · exact ⟨rfl, rfl, rfl, rfl, rfl⟩

/-- A request for a segment is for one within bounds. -/
theorem clamped_of_only {segment total : Nat} (h : o.finalize table defaultSegments = .ok pending)
    (honly : o.segmentation = .only segment total) :
    pending.request.segment = some (wireNumber segment) ∧
      pending.request.clampedTotal = max 1 (min (total : Int) 1000000) ∧
      Scan.Request.clamp (wireNumber segment).toInt 0 (pending.request.clampedTotal - 1) =
        min (segment : Int) (pending.request.clampedTotal - 1) := by
  obtain ⟨-, hsegment, htotal, -⟩ := finalize_ok h
  simp only [oneSegment, honly] at hsegment htotal
  have hmost : Number.maxSigned32 = 2147483647 := rfl
  have hlimit : (SegmentPlan.mostSegments : Int) = 1000000 := rfl
  have hclamped : pending.request.clampedTotal = max 1 (min (total : Int) 1000000) := by
    simp only [Scan.Request.clampedTotal, htotal, Option.map_some, Option.getD_some,
      toInt_wireNumber_eq_min, Scan.Request.clamp, hlimit, hmost]
    omega
  refine ⟨hsegment, hclamped, ?_⟩
  rw [toInt_wireNumber_eq_min, hclamped, Scan.Request.clamp, hmost]
  omega

end ScanOptions

/-- **Every scan asks for segments that there are.** Whatever the request and the options, all that
a scan sends is about the whole table, or about a segment from zero on below a number of segments
that is no more than a million. Options for one segment of a number of them ask for the last segment
that there is where theirs is beyond it. A scan that is not to be split, for no segment, is about
the whole table. -/
theorem scan_segments_placed :
    (∀ (request : Scan.Request) (s : Settings) (rounds : Nat) (paging : Paging)
        (segments : Option Nat) (es : List Exchange)
        (result : Option (Outcome (Aggregate Float Item Key))),
      (request.run s rounds paging segments).run.Plays es result →
      SendsScans SegmentNumbers.ArePlaced es ∧
      (request.segment = none → paging.singlePage ∨ segments = none →
        SendsScans (· = .whole) es)) ∧
    (∀ (o : ScanOptions) (table : String) (defaultSegments : Nat) (pending : Pending Scan.Request)
        (s : Settings) (rounds : Nat) (es : List Exchange)
        (result : Option (Outcome (Aggregate Float Item Key))),
      o.finalize table defaultSegments = .ok pending →
      (pending.request.run s rounds pending.paging pending.segments).run.Plays es result →
      SendsScans SegmentNumbers.ArePlaced es ∧
      (∀ segment total, o.segmentation = .only segment total → o.startKey = ∅ →
        let all := max 1 (min (total : Int) 1000000)
        SendsScans (· = .part (min (segment : Int) (all - 1)) all) es) ∧
      ((∀ segment total, o.segmentation ≠ .only segment total) →
        o.singlePage ∨ o.segmentation = .disabled → SendsScans (· = .whole) es)) := by
  refine ⟨?_, ?_⟩
  · intro request s rounds paging segments es result h
    exact ⟨sends_placed h, sends_none h⟩
  · intro o table defaultSegments pending s rounds es result hfinal h
    obtain ⟨hstart, hsegment, -, hpaging, hsegments⟩ := ScanOptions.finalize_ok hfinal
    refine ⟨sends_placed h, ?_, ?_⟩
    · intro segment total honly hfresh
      obtain ⟨hsent, htotal, hclamped⟩ := ScanOptions.clamped_of_only hfinal honly
      have hsends := sends_segment h (hstart.trans hfresh) hsent
      rwa [hclamped, htotal] at hsends
    · intro hnot hwhole
      have hnone : pending.request.segment = none := by
        rw [hsegment, ScanOptions.oneSegment]
        split
        · next segment total honly => exact absurd honly (hnot segment total)
        · rfl
      refine sends_none h hnone ?_
      rw [hpaging, hsegments]
      refine hwhole.imp id fun hdisabled => ?_
      rw [ScanOptions.segments, hdisabled]

/-- The greatest numbers of 32 bits without a sign: the last of a million segments is asked for,
page after page. -/
theorem scan_segments_placed_beyond :
    let o : ScanOptions := { segmentation := .only 4294967295 4294967295 }
    let asked : Scan.Request :=
      { table := "t"
        segment := some (wireNumber 4294967295)
        totalSegments := some (wireNumber 4294967295) }
    let sent : Scan.Request :=
      { table := "t", segment := some 999999, totalSegments := some 1000000 }
    let item (id : String) : Item := .ofList [("id", .text id)]
    let first : PageReply :=
      { items := [item "a"], count := 1, scannedCount := 2, lastKey := item "a" }
    let last : PageReply := { items := [item "b"], count := 1, scannedCount := 1 }
    let es : List Exchange :=
      [⟨.scan, sent, .reply first⟩, ⟨.scan, { sent with startKey := item "a" }, .reply last⟩]
    let total : Aggregate Float Item Key :=
      { items := [item "a", item "b"], count := 2, scannedCount := 3 }
    o.finalize "t" 10 = .ok { request := asked } ∧
    (asked.run {} 2 {} none).run.Plays es (some (.ok total)) ∧
    SendsScans SegmentNumbers.ArePlaced es ∧ SendsScans (· = .part 999999 1000000) es := by
  intro o asked sent item first last es total
  have hfinal : o.finalize "t" 10 = .ok { request := asked } := rfl
  have hcursor : (Paged.scan.page first).cursor = some (item "a") :=
    StaticTable.cursor_eq_some_iff.2 ⟨KeyMap.single_ne_empty _ _, rfl⟩
  have hplayed : (asked.run {} 2 {} none).run.Plays es (some (.ok total)) := by
    have hwhole : asked.whole = sent := by decide
    rw [Scan.Request.run_whole, hwhole]
    exact plays_paginate_turned Paged.scan_overwrites (Paging.not_isDone rfl rfl hcursor) hcursor
      (.inr (.inr ⟨_, rfl, rfl⟩))
  obtain ⟨hplaced, honly, -⟩ :=
    scan_segments_placed.2 o "t" 10 { request := asked } {} 2 es _ hfinal hplayed
  exact ⟨hfinal, hplayed, hplaced, honly _ _ rfl rfl⟩

end TableClient
