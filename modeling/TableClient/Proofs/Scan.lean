import TableClient.Proofs.Paginate
import TableClient.Scan

/-! What a limited scan of a table delivers.

A `StaticTable` does not change while it is scanned; its items lie in segments, and a store serves
it in pages of any length within the limits of the requests (`StaticTable.Serves`). Fetching pages
with a limit then delivers the first items of a segment (`StaticTable.Serves.collected`). A scan
that is split gives every segment a quota of the limit, whatever lies in the segments, so it
delivers the limit only where no segment has more than its quota or the quotas that are used up
make up for it. A scan that is not split always delivers it (`scan_whole_limited`). -/
namespace TableClient

/-- The requests of a scan differ by their keys only. -/
theorem Paged.scan_overwrites : Paged.scan.Overwrites := fun _ _ => rfl

/-! ### Tables that do not change -/

/-- A table that stays the same, with the items that a scan is to find. -/
structure StaticTable where
  items : List Item
  /-- The items of a segment, by the number of segments and that of the segment, as a scan finds
  them. -/
  segment : (total i : Nat) → List Item
  /-- How many items of a segment a key lies behind. -/
  place : (total i : Nat) → Key → Nat
  /-- Every item lies in one segment. -/
  segments_perm (total : Nat) (h : 0 < total) :
    ((List.range total).flatMap (segment total)).Perm items

namespace StaticTable
variable (table : StaticTable)

/-- A number in a request, or a default. -/
def numberOf (n : Option Int32) (default : Nat) : Nat := (n.map fun n => n.toInt.toNat).getD default

/-- The items that a request is about, wherever it starts. -/
def part (request : Scan.Request) : List Item :=
  table.segment (numberOf request.totalSegments 1) (numberOf request.segment 0)

/-- How many items lie before the start of a request. -/
def start (request : Scan.Request) : Nat :=
  if request.startKey = ∅ then 0
  else table.place (numberOf request.totalSegments 1) (numberOf request.segment 0) request.startKey

/-- A reply holds the items from the start of the request on, as many as the store likes within the
limit of the request. Its last key is missing only where no items are left. -/
structure Serves (request : Scan.Request) (reply : PageReply) : Prop where
  items : reply.items <+: (table.part request).drop (table.start request)
  count : reply.count.toInt = reply.items.length
  limit : ∀ limit ∈ request.limit, (reply.items.length : Int) ≤ limit.toInt
  last : reply.lastKey = ∅ →
    (table.part request).length ≤ table.start request + reply.items.length
  key : reply.lastKey ≠ ∅ →
    table.start { request with startKey := reply.lastKey } =
      table.start request + reply.items.length

variable {table}

/-- Pages that hold the first items of a part, and count them. -/
structure Covers (part : List Item) (pages : List (Page Float Item Key)) (n : Nat) : Prop where
  items : pages.flatMap Page.items = part.take n
  length : (pages.flatMap Page.items).length = n
  count : (pages.map Page.count).sum = n

theorem Covers.nil (part : List Item) : Covers part [] 0 := ⟨by simp, rfl, rfl⟩

/-- A page from where others end holds the next items. -/
theorem Covers.append {pages : List (Page Float Item Key)} {request : Scan.Request}
    {reply : PageReply} (h : Covers (table.part request) pages (table.start request))
    (hreply : table.Serves request reply) :
    Covers (table.part request) (pages ++ [Paged.scan.page reply])
      (table.start request + reply.items.length) := by
  have hcount : (Paged.scan.page reply).count = reply.items.length := by
    show reply.count.toInt.toNat = _
    rw [hreply.count, Int.toNat_natCast]
  have hitems : (Paged.scan.page reply).items = reply.items := rfl
  refine ⟨?_, ?_, ?_⟩
  · rw [List.flatMap_append, List.flatMap_singleton, h.items, hitems, List.take_add,
      ← List.prefix_iff_eq_take.1 hreply.items]
  · rw [List.flatMap_append, List.flatMap_singleton, List.length_append, h.length, hitems]
  · rw [List.map_append, List.sum_append, h.count, List.map_singleton, List.sum_singleton, hcount]

/-- What is kept of pages that reach the limit or the end of a part. -/
theorem Covers.collected {part : List Item} {pages : List (Page Float Item Key)} {n limit : Nat}
    (h : Covers part pages n) (hdone : limit ≤ n ∨ part.length ≤ n) :
    (Paging.collected { limit := some limit } pages).items = part.take limit ∧
      (Paging.collected { limit := some limit } pages).count = (part.take limit).length := by
  have hkept : (pages.flatMap Page.items).take limit = part.take limit := by
    rw [h.items, List.take_take]
    rcases hdone with hdone | hdone
    · rw [Nat.min_eq_left hdone]
    · rw [List.take_eq_take_iff]
      omega
  refine ⟨hkept, ?_⟩
  simp only [Paging.collected, Option.any_some, Option.elim_some, decide_eq_true_eq, hkept]
  split
  · rfl
  · next hless =>
    rw [← hkept, List.take_of_length_le (by omega), h.count, h.length]

theorem cursor_eq_none_iff {reply : PageReply} :
    (Paged.scan.page reply).cursor = none ↔ reply.lastKey = ∅ := by
  show (if reply.lastKey.isEmpty then none else some reply.lastKey) = none ↔ _
  simp [← KeyMap.isEmpty_iff]

theorem cursor_eq_some_iff {reply : PageReply} {key : Key} :
    (Paged.scan.page reply).cursor = some key ↔ reply.lastKey ≠ ∅ ∧ reply.lastKey = key := by
  show (if reply.lastKey.isEmpty then none else some reply.lastKey) = some key ↔ _
  simp [← KeyMap.isEmpty_iff]

/-- Pages fetched with a limit from the first on are the first items, and count them. -/
theorem collected {limit rounds : Nat} {s : Settings} {request : Scan.Request}
    {sends : List (Sent s .scan)} {total : Aggregate Float Item Key}
    (hstart : request.startKey = ∅)
    (h : Paged.scan.Follows { limit := some limit } rounds [] request sends (some (.ok total)))
    (hserves : Answered .scan table.Serves (sends.flatMap Sent.exchanges)) :
    total.items = (table.part request).take limit ∧ total.count = total.items.length := by
  have hnone : Covers (table.part request) [] (table.start request) := by
    rw [start, if_pos hstart]
    exact .nil _
  -- every page starts where the items of those before it end
  obtain ⟨last, before, reply, ⟨hpart, hbefore⟩, hreply, hdone, rfl⟩ :=
    h.exists_last Paged.scan_overwrites
      (I := fun next pages => table.part next = table.part request ∧
        Covers (table.part next) pages (table.start next))
      hserves ⟨rfl, hnone⟩ fun {next pages reply key} hpages hreply hkey => by
        obtain ⟨hne, rfl⟩ := cursor_eq_some_iff.1 hkey
        have hstart := hreply.key hne
        exact ⟨hpages.1, hstart ▸ hpages.2.append hreply⟩
  have hcovers := hbefore.append hreply
  have hend := hdone.resolve_left (by simp)
  obtain ⟨hitems, hcount⟩ := hcovers.collected <| hend.imp
    (fun hlimit => hcovers.length ▸ of_decide_eq_true hlimit)
    (fun ⟨page, hpage, hnone⟩ => by
      obtain rfl : Paged.scan.page reply = page := by simpa using hpage
      exact hreply.last (cursor_eq_none_iff.1 hnone))
  rw [hpart] at hitems hcount
  exact ⟨hitems, by rw [hcount, hitems]⟩

/-- A call that fetches pages with a limit from the first on delivers the first items. -/
theorem fetched {limit rounds : Nat} {s : Settings} {request : Scan.Request} {es : List Exchange}
    {total : Aggregate Float Item Key} (hstart : request.startKey = ∅)
    (hserves : Answered .scan table.Serves es)
    (h : (paginate s Paged.scan rounds request { limit := some limit }).run.Plays es
      (some (.ok total))) :
    total.items = (table.part request).take limit ∧ total.count = total.items.length := by
  obtain ⟨sends, rfl, hsends⟩ :=
    (Paged.scan_overwrites.followsCursors s rounds request _ es _).1 h
  exact collected hstart hsends hserves

end StaticTable

/-! ### Segments -/

theorem toInt_wireNumber {n : Nat} (h : n ≤ Number.maxSigned32) : (wireNumber n).toInt = n := by
  have hlt : n < 2 ^ 31 := Nat.lt_of_le_of_lt h (by decide)
  rw [wireNumber, Nat.min_eq_left h, Int32.toInt_ofNat_of_lt hlt]

theorem toNat_wireNumber {n : Nat} (h : n ≤ Number.maxSigned32) :
    (wireNumber n).toInt.toNat = n := by
  rw [toInt_wireNumber h, Int.toNat_natCast]

namespace SegmentPlan

theorem total_pos (requested : Nat) (limit : Option Nat) : 0 < (make requested limit).total := by
  cases limit with
  | none =>
    simp only [make]
    omega
  | some limit =>
    simp only [make]
    omega

theorem total_le (requested : Nat) (limit : Option Nat) :
    (make requested limit).total ≤ mostSegments := by
  have hmost : 1 ≤ mostSegments := by decide
  cases limit with
  | none =>
    simp only [make]
    omega
  | some limit =>
    simp only [make]
    omega

/-- Every number of a plan can be sent. -/
theorem le_maxSigned32 {requested n : Nat} {limit : Option Nat}
    (h : n ≤ (make requested limit).total) : n ≤ Number.maxSigned32 := by
  have hle := total_le requested limit
  have hmost : mostSegments ≤ Number.maxSigned32 := by decide
  omega

/-- The request for one segment. -/
def part (plan : SegmentPlan) (request : Scan.Request) (i : Nat) : Scan.Request :=
  { request with
    limit := (plan.limit.map wireNumber).or request.limit
    segment := some (wireNumber i)
    totalSegments := some (wireNumber plan.total) }

theorem requests_eq (plan : SegmentPlan) (request : Scan.Request) :
    plan.requests request = (List.range plan.total).map (plan.part request) := rfl

end SegmentPlan

/-- A scan that is split: each segment is fetched on its own, and they are merged in order. -/
theorem Scan.Request.plays_run_split {request : Scan.Request} {s : Settings} {rounds : Nat}
    {paging : Paging} {segments : Option Nat} {plan : SegmentPlan} {es : List Exchange}
    {result : Option (Outcome (Aggregate Float Item Key))}
    (hplan : request.plan? paging segments = some plan) :
    (request.run s rounds paging segments).run.Plays es result ↔
      ∃ (tracks : Fin plan.total → List Exchange)
          (ends : Fin plan.total → Option (Outcome (Aggregate Float Item Key))),
        Interleaves tracks es ∧
        (∀ i : Fin plan.total, (paginate s Paged.scan rounds (plan.part request i)
          { limit := plan.limit }).run.Plays (tracks i) (ends i)) ∧
        result = (Call.together ends).map
          (Except.map fun parts => (parts.foldl Aggregate.merge ∅).truncate? paging.limit) := by
  have hcount : (((List.range plan.total).map (plan.part request)).map fun (part : Scan.Request) =>
      paginate s Paged.scan rounds part { limit := plan.limit }).length = plan.total := by
    rw [List.length_map, List.length_map, List.length_range]
  simp only [run, hplan, SegmentPlan.requests_eq]
  rw [Call.plays_map]
  constructor
  · rintro ⟨before, hbefore, rfl⟩
    obtain ⟨tracks, ends, hturns, hends, rfl⟩ := (Call.plays_all hcount).1 hbefore
    refine ⟨tracks, ends, hturns, fun i => ?_, rfl⟩
    simpa using hends i
  · rintro ⟨tracks, ends, hturns, hends, rfl⟩
    refine ⟨_, (Call.plays_all hcount).2 ⟨tracks, ends, hturns, fun i => ?_, rfl⟩, rfl⟩
    simpa using hends i

namespace Aggregate
variable {υ ι κ : Type}

/-- An aggregate that counts its items still does so when it is truncated. -/
theorem truncate_of_count {a : Aggregate υ ι κ} (h : a.count = a.items.length) (limit : Nat) :
    (a.truncate limit).items = a.items.take limit ∧
      (a.truncate limit).count = (a.truncate limit).items.length := by
  by_cases hlimit : limit ≤ a.items.length
  · rw [truncate, if_pos hlimit]
    exact ⟨rfl, rfl⟩
  · rw [truncate, if_neg hlimit]
    exact ⟨(List.take_of_length_le (by omega)).symm, h⟩

end Aggregate

/-- A sum is not changed by a cap on its members only if none of them is beyond the cap. -/
theorem sum_min_eq_iff (quota : Nat) (l : List Nat) :
    (l.map (min quota)).sum ≤ l.sum ∧
      ((l.map (min quota)).sum = l.sum ↔ ∀ n ∈ l, n ≤ quota) := by
  induction l with
  | nil => simp
  | cons n rest ih =>
    simp only [List.map_cons, List.sum_cons, List.forall_mem_cons, ← ih.2]
    have hle := ih.1
    omega

namespace StaticTable
variable {table : StaticTable}

/-- How many items of some segments are within a quota for each. -/
def within (table : StaticTable) (parts quota : Nat) : Nat :=
  ((List.range parts).map fun i => min quota (table.segment parts i).length).sum

/-- The segments of a table hold as many items as the table. -/
theorem sum_length_segment {parts : Nat} (h : 0 < parts) :
    ((List.range parts).map fun i => (table.segment parts i).length).sum = table.items.length := by
  rw [← (table.segments_perm parts h).length_eq, List.length_flatMap]

/-- A part of a split scan is about one segment. -/
theorem part_part {requested i : Nat} {limit : Option Nat} {request : Scan.Request}
    (hi : i < (SegmentPlan.make requested limit).total) :
    table.part ((SegmentPlan.make requested limit).part request i) =
      table.segment (SegmentPlan.make requested limit).total i := by
  show table.segment (wireNumber _).toInt.toNat (wireNumber _).toInt.toNat = _
  rw [toNat_wireNumber (SegmentPlan.le_maxSigned32 le_rfl),
    toNat_wireNumber (SegmentPlan.le_maxSigned32 hi.le)]

end StaticTable

section Split
variable {table : StaticTable} {request : Scan.Request} {s : Settings}
  {rounds limit requested : Nat} {es : List Exchange} {total : Aggregate Float Item Key}

/-- A scan that is split delivers of every segment what its quota lets through. -/
theorem StaticTable.fetched_split
    (hstart : request.startKey = ∅) (hsegment : request.segment = none)
    (hserves : Answered .scan table.Serves es)
    (h : (request.run s rounds { limit := some limit } (some requested)).run.Plays es
      (some (.ok total))) :
    let parts := (SegmentPlan.make requested (some limit)).total
    let quota := SegmentPlan.ceilDiv limit parts
    total.items =
        ((List.range parts).flatMap fun i => (table.segment parts i).take quota).take limit ∧
      total.count = total.items.length := by
  intro parts quota
  have hplan : request.plan? { limit := some limit } (some requested) =
      some (SegmentPlan.make requested (some limit)) := by
    simp [Scan.Request.plan?, hstart, hsegment]
  obtain ⟨tracks, ends, hturns, hends, hresult⟩ := (Scan.Request.plays_run_split hplan).1 h
  obtain ⟨values, hvalues, rfl⟩ := Call.map_together_eq_ok_iff.1 hresult.symm
  have hsegments (i : Fin parts) :
      (values i).items = (table.segment parts i).take quota ∧
        (values i).count = (values i).items.length := by
    have hfresh : ((SegmentPlan.make requested (some limit)).part request i).startKey = ∅ := hstart
    have hfetched := fetched hfresh (hserves.track hturns i) (hvalues i ▸ hends i)
    rwa [part_part i.isLt] at hfetched
  have hitems : ((List.ofFn values).foldl Aggregate.merge ∅).items =
      (List.range parts).flatMap fun i => (table.segment parts i).take quota := by
    rw [Aggregate.foldl_merge_eq, List.ofFn_eq_map, List.flatMap_map,
      ← List.map_coe_finRange_eq_range, List.flatMap_map]
    exact List.flatMap_congr fun i _ => (hsegments i).1
  have hcounts : ((List.ofFn values).foldl Aggregate.merge ∅).count =
      ((List.ofFn values).foldl Aggregate.merge ∅).items.length := by
    rw [Aggregate.foldl_merge_eq, List.length_flatMap]
    refine congrArg List.sum (List.map_congr_left fun value hvalue => ?_)
    obtain ⟨i, rfl⟩ := List.mem_ofFn.1 hvalue
    exact (hsegments i).2
  obtain ⟨hkept, hcounted⟩ := Aggregate.truncate_of_count hcounts limit
  exact ⟨hitems ▸ hkept, hcounted⟩

/-- Quotas let through as much as there is up to a limit only if no segment has more than its
quota or the segments fill the limit within their quotas. -/
theorem StaticTable.length_quota_iff {parts : Nat} (hparts : 0 < parts) (quota limit : Nat) :
    (((List.range parts).flatMap fun i => (table.segment parts i).take quota).take limit).length =
        min limit table.items.length ↔
      (∀ i < parts, (table.segment parts i).length ≤ quota) ∨
        limit ≤ table.within parts quota := by
  obtain ⟨hle, heq⟩ :=
    sum_min_eq_iff quota ((List.range parts).map fun i => (table.segment parts i).length)
  rw [sum_length_segment hparts, List.map_map] at hle heq
  have hall : (∀ n ∈ (List.range parts).map fun i => (table.segment parts i).length, n ≤ quota) ↔
      ∀ i < parts, (table.segment parts i).length ≤ quota := by
    simp
  have hcapped : (min quota ∘ fun i => (table.segment parts i).length) =
      fun i => min quota (table.segment parts i).length := rfl
  rw [hall] at heq
  rw [hcapped] at hle heq
  rw [List.length_take, List.length_flatMap, ← heq]
  simp only [List.length_take, within]
  omega

end Split

/-! ### Scans that are not split -/

section Whole
variable {request : Scan.Request}

/-- A scan for which no segments are asked is one sequence of pages. -/
theorem Scan.Request.run_whole (s : Settings) (rounds : Nat) (paging : Paging) :
    request.run s rounds paging none = paginate s Paged.scan rounds request.whole paging := by
  have hplan : request.plan? paging none = none := by simp [plan?]
  simp only [run, hplan]

theorem Scan.Request.startKey_whole : request.whole.startKey = request.startKey := by
  unfold whole
  split
  · rfl
  · split <;> rfl

/-- A scan from the start that is about no segment is about the whole table. -/
theorem StaticTable.part_whole {table : StaticTable} (hstart : request.startKey = ∅)
    (hsegment : request.segment = none) : table.part request.whole = table.segment 1 0 := by
  simp [part, numberOf, Scan.Request.whole, hstart, hsegment]

/-- A limited scan that is not split delivers its limit, or all there is. -/
theorem scan_whole_limited (table : StaticTable) {s : Settings} {rounds limit : Nat}
    {es : List Exchange} {total : Aggregate Float Item Key}
    (hstart : request.startKey = ∅) (hsegment : request.segment = none)
    (hserves : Answered .scan table.Serves es)
    (h : (request.run s rounds { limit := some limit } none).run.Plays es (some (.ok total))) :
    total.items.length = min limit table.items.length ∧ total.count = total.items.length := by
  have hlength : (table.segment 1 0).length = table.items.length := by
    simpa using table.sum_length_segment Nat.one_pos
  have hfresh : request.whole.startKey = ∅ := Scan.Request.startKey_whole.trans hstart
  rw [Scan.Request.run_whole] at h
  obtain ⟨hitems, hcount⟩ := StaticTable.fetched hfresh hserves h
  rw [StaticTable.part_whole hstart hsegment] at hitems
  exact ⟨by rw [hitems, List.length_take, hlength], hcount⟩

end Whole

/-- **A limited scan that is split delivers of every segment what its quota lets through, and of
that as many items as the limit. So it delivers the limit, or all there is, only where no segment
has more than its quota, or where the segments fill the limit within their quotas.** -/
theorem scan_limited (table : StaticTable) {request : Scan.Request} {s : Settings}
    {rounds limit requested : Nat} {es : List Exchange} {total : Aggregate Float Item Key}
    (hstart : request.startKey = ∅) (hsegment : request.segment = none)
    (hserves : Answered .scan table.Serves es)
    (h : (request.run s rounds { limit := some limit } (some requested)).run.Plays es
      (some (.ok total))) :
    let parts := (SegmentPlan.make requested (some limit)).total
    let quota := SegmentPlan.ceilDiv limit parts
    total.items =
        ((List.range parts).flatMap fun i => (table.segment parts i).take quota).take limit ∧
      total.count = total.items.length ∧
      (total.items.length = min limit table.items.length ↔
        (∀ i < parts, (table.segment parts i).length ≤ quota) ∨
          limit ≤ table.within parts quota) := by
  intro parts quota
  obtain ⟨hitems, hcount⟩ := table.fetched_split hstart hsegment hserves h
  refine ⟨hitems, hcount, ?_⟩
  rw [hitems]
  exact table.length_quota_iff (SegmentPlan.total_pos requested (some limit)) quota limit

/-! ### A lopsided table -/

namespace StaticTable

/-- A table with all items in the first segment, and keys that lie behind so many of them. -/
def lopsided (items : List Item) (behind : Nat) : StaticTable where
  items := items
  segment _ i := if i = 0 then items else []
  place _ _ _ := behind
  segments_perm total h := by
    obtain ⟨more, rfl⟩ := Nat.exists_eq_succ_of_ne_zero h.ne'
    have hothers : (List.range more).flatMap (fun _ => ([] : List Item)) = [] :=
      List.flatMap_eq_nil_iff.2 fun _ _ => rfl
    rw [List.range_succ_eq_map, List.flatMap_cons, if_pos rfl, List.flatMap_map]
    simp [hothers]

/-- Some items that differ. -/
def numbered (first count : Nat) : List Item :=
  (List.range' first count).map fun n => .ofList [("id", .number (Nat.repr n))]

/-- The request for a segment of two, with a limit of three. -/
def halfRequest (i : Nat) : Scan.Request :=
  { table := "t"
    limit := some (wireNumber 3)
    segment := some (wireNumber i)
    totalSegments := some (wireNumber 2) }

/-- The first three items of seven, with a key from which the others follow. -/
def halfReply : PageReply :=
  { items := numbered 0 3, count := 3, lastKey := .ofList [("id", .number "2")] }

/-- What is asked and answered when the seven items are scanned in two segments with a limit of
six. -/
def halfExchanges : List Exchange :=
  [⟨.scan, halfRequest 0, .reply halfReply⟩, ⟨.scan, halfRequest 1, .reply ({} : PageReply)⟩]

theorem halfExchanges_served :
    Answered .scan (lopsided (numbered 0 7) 3).Serves halfExchanges := by
  refine .cons ?_ (.cons ?_ .nil)
  · have hkey : halfReply.lastKey ≠ ∅ := KeyMap.single_ne_empty _ _
    have hpart : (lopsided (numbered 0 7) 3).part (halfRequest 0) = numbered 0 7 := rfl
    have hstart : (lopsided (numbered 0 7) 3).start (halfRequest 0) = 0 := if_pos rfl
    refine ⟨?_, by decide, ?_, fun h => absurd h hkey, fun _ => ?_⟩
    · rw [hpart, hstart]
      exact ⟨numbered 3 4, rfl⟩
    · rintro limit ⟨rfl⟩
      decide
    · rw [hstart, start, if_neg hkey]
      rfl
  · have hpart : (lopsided (numbered 0 7) 3).part (halfRequest 1) = [] := rfl
    refine ⟨List.nil_prefix, rfl, ?_, fun _ => ?_, fun h => absurd rfl h⟩
    · rintro limit ⟨rfl⟩
      decide
    · rw [hpart]
      exact Nat.zero_le _

theorem halfExchanges_played :
    (({ table := "t" } : Scan.Request).run {} 1 { limit := some 6 } (some 2)).run.Plays
      halfExchanges (some (.ok { items := numbered 0 3, count := 3 })) := by
  let replies (i : Fin 2) : PageReply := if i = 0 then halfReply else {}
  let tracks (i : Fin 2) : List Exchange := [⟨.scan, halfRequest i, .reply (replies i)⟩]
  let ends (i : Fin 2) : Aggregate Float Item Key :=
    Paging.collected { limit := some 3 } [Paged.scan.page (replies i)]
  have hends (i : Fin 2) : (paginate {} Paged.scan 1 (halfRequest i) { limit := some 3 }).run.Plays
      (tracks i) (some (.ok (ends i))) := by
    match i with
    | 0 => exact plays_paginate_done (.inr (.inl rfl))
    | 1 => exact plays_paginate_done (.inr (.inr ⟨_, rfl, rfl⟩))
  have hplan : ({ table := "t" } : Scan.Request).plan? { limit := some 6 } (some 2) =
      some ⟨2, some 3⟩ := by decide
  refine (Scan.Request.plays_run_split hplan).2 ⟨tracks, _, .of_flatMap tracks, hends, ?_⟩
  rw [Call.together_some]
  rfl

end StaticTable

/-- Seven items in the first of two segments, scanned with a limit of six: three of them arrive. -/
theorem scan_limited_lopsided :
    let table := StaticTable.lopsided (StaticTable.numbered 0 7) 3
    let total : Aggregate Float Item Key := { items := StaticTable.numbered 0 3, count := 3 }
    Answered .scan table.Serves StaticTable.halfExchanges ∧
    (({ table := "t" } : Scan.Request).run {} 1 { limit := some 6 } (some 2)).run.Plays
      StaticTable.halfExchanges (some (.ok total)) ∧
    (total.items.length = min 6 table.items.length ↔
      (∀ i < 2, (table.segment 2 i).length ≤ 3) ∨ 6 ≤ table.within 2 3) := by
  intro table total
  have hserved := StaticTable.halfExchanges_served
  have hplayed := StaticTable.halfExchanges_played
  exact ⟨hserved, hplayed, (scan_limited table rfl rfl hserved hplayed).2.2⟩

/-- A limited scan does not deliver its limit, however many items there are. -/
theorem scan_limited_short :
    ¬∀ (table : StaticTable) (request : Scan.Request) (s : Settings)
        (rounds limit requested : Nat) (es : List Exchange) (total : Aggregate Float Item Key),
      0 < limit → request.startKey = ∅ → request.segment = none →
      Answered .scan table.Serves es →
      (request.run s rounds { limit := some limit } (some requested)).run.Plays es
        (some (.ok total)) →
      total.items.length = min limit table.items.length ∧ total.count = total.items.length := by
  intro hall
  have hdelivered := hall _ { table := "t" } {} 1 6 2 StaticTable.halfExchanges _ (by decide)
    rfl rfl StaticTable.halfExchanges_served StaticTable.halfExchanges_played
  exact absurd hdelivered.1 (by decide)

end TableClient
