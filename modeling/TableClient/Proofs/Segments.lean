import TableClient.Proofs.Scan

/-! Scans without a limit, in segments and whole.

A scan makes something of every row that it passes: it counts the row, and where the row matches,
counts it once more and returns what is to be shown of it (`View`). Pages that report so add up to
what is made of the rows that they cover, and merged segments to what is made of all their rows
(`View.Sums`). As every row lies in one segment, a scan in segments comes to the items and counts of
a scan that is not split, whatever the pages and in whatever order they arrive
(`scan_segmented`). -/
namespace TableClient

/-! ### What is made of rows -/

/-- Which rows a scan finds, and what it returns of one that it finds, if anything. -/
structure View where
  matching : Item → Bool
  shown : Item → Option Item

namespace View
variable {view : View}

/-- What is returned of rows, in their order. -/
def items (view : View) (rows : List Item) : List Item :=
  (rows.filter view.matching).filterMap view.shown

/-- How many rows are found. -/
def count (view : View) (rows : List Item) : Nat := rows.countP view.matching

/-- Items and counts are those of some rows. -/
structure Accounts (view : View) (rows items : List Item) (count scannedCount : Nat) : Prop where
  items : items = view.items rows
  count : count = view.count rows
  scannedCount : scannedCount = rows.length

theorem Accounts.append {rows more items items' : List Item} {count count' scanned scanned' : Nat}
    (h : view.Accounts rows items count scanned)
    (hmore : view.Accounts more items' count' scanned') :
    view.Accounts (rows ++ more) (items ++ items') (count + count') (scanned + scanned') := by
  refine ⟨?_, ?_, ?_⟩
  · rw [h.items, hmore.items, View.items, View.items, View.items, List.filter_append,
      List.filterMap_append]
  · rw [h.count, hmore.count, View.count, View.count, View.count, List.countP_append]
  · rw [h.scannedCount, hmore.scannedCount, List.length_append]

/-- An aggregate is that of some rows. -/
def Sums (view : View) (rows : List Item) (total : Aggregate Float Item Key) : Prop :=
  view.Accounts rows total.items total.count total.scannedCount

namespace Sums
variable {rows more : List Item} {total other : Aggregate Float Item Key}

theorem empty (view : View) : view.Sums [] ∅ := ⟨rfl, rfl, rfl⟩

/-- One more page covers more rows. -/
theorem absorb {page : Page Float Item Key} (h : view.Sums rows total)
    (hpage : view.Accounts more page.items page.count page.scannedCount) :
    view.Sums (rows ++ more) (total.absorb page) := Accounts.append h hpage

theorem merge (h : view.Sums rows total) (hother : view.Sums more other) :
    view.Sums (rows ++ more) (total.merge other) := Accounts.append h hother

/-- Aggregates that are merged are those of their rows one after the other. -/
theorem foldl_merge {κ : Type} {part : κ → List Item} {values : κ → Aggregate Float Item Key}
    (hvalues : ∀ i, view.Sums (part i) (values i)) (l : List κ) (h : view.Sums rows total) :
    view.Sums (rows ++ l.flatMap part) ((l.map values).foldl Aggregate.merge total) := by
  induction l generalizing rows total with
  | nil => simpa using h
  | cons i rest ih =>
    rw [List.flatMap_cons, ← List.append_assoc]
    exact ih (h.merge (hvalues i))

/-- The order of the rows changes nothing but the order of the items. -/
theorem perm (h : view.Sums rows total) (hother : view.Sums more other) (hrows : rows.Perm more) :
    total.items.Perm other.items ∧ total.count = other.count ∧
      total.scannedCount = other.scannedCount := by
  refine ⟨?_, ?_, ?_⟩
  · rw [h.items, hother.items]
    exact (hrows.filter view.matching).filterMap view.shown
  · rw [h.count, hother.count]
    exact hrows.countP_eq view.matching
  · rw [h.scannedCount, hother.scannedCount]
    exact hrows.length_eq

end Sums

end View

/-! ### Fetching all pages of a part -/

namespace Scan.Request

/-- Requests from the start of a part to its end: one starts there, and the others differ from it
by where they start. -/
structure Exhausts {s : Settings} (request : Scan.Request) (sends : List (Sent s .scan)) :
    Prop where
  once : sends.countP (fun sent => sent.request.startKey.isEmpty) = 1
  same : ∀ sent ∈ sends, ∃ key, sent.request = { request with startKey := key }

/-- Requests that follow cursors start at a key, except for the first. -/
theorem exhausts_of_follows {s : Settings} {paging : Paging} {rounds : Nat}
    {earlier : List (Page Float Item Key)} {request : Scan.Request} {sends : List (Sent s .scan)}
    {result : Option (Outcome (Aggregate Float Item Key))} (hstart : request.startKey = ∅)
    (h : Paged.scan.Follows paging rounds earlier request sends result) (hne : sends ≠ []) :
    request.Exhausts sends := by
  obtain ⟨sent, rest, rfl⟩ := List.exists_cons_of_ne_nil hne
  have hfirst : sent.request = request := h.first sent rfl
  have hrest (after : Sent s .scan) (hafter : after ∈ rest) :
      ∃ key, key ≠ ∅ ∧ after.request = { request with startKey := key } := by
    obtain ⟨before, reply, key, -, hkey, hrequest⟩ := exists_before h.next hafter
    obtain ⟨hne, rfl⟩ := StaticTable.cursor_eq_some_iff.1 hkey
    exact ⟨reply.lastKey, hne, hrequest⟩
  constructor
  · have hfresh : sent.request.startKey.isEmpty = true := by
      rw [hfirst, hstart]
      rfl
    have hothers : rest.countP (fun after => after.request.startKey.isEmpty) = 0 := by
      refine List.countP_eq_zero.2 fun after hafter hempty => ?_
      obtain ⟨key, hkey, hrequest⟩ := hrest after hafter
      rw [hrequest] at hempty
      exact hkey (KeyMap.isEmpty_iff.1 hempty)
    rw [List.countP_cons, hothers, if_pos hfresh]
  · intro after hafter
    rcases List.mem_cons.1 hafter with rfl | hafter
    · exact ⟨∅, by rw [hfirst, ← hstart]⟩
    · obtain ⟨key, -, hrequest⟩ := hrest after hafter
      exact ⟨key, hrequest⟩

end Scan.Request

namespace StaticTable
variable {table : StaticTable} {view : View}

/-- A reply covers rows from the start of the request on, as many as the store likes: it returns
what is shown of those that match, and counts those and all. Its last key is missing only where no
rows are left. -/
structure Reported (table : StaticTable) (view : View) (request : Scan.Request) (reply : PageReply)
    (rows : List Item) : Prop where
  next : rows <+: (table.part request).drop (table.start request)
  items : reply.items = view.items rows
  count : reply.count.toInt = view.count rows
  scannedCount : reply.scannedCount.toInt = rows.length
  last : reply.lastKey = ∅ → (table.part request).length ≤ table.start request + rows.length
  key : reply.lastKey ≠ ∅ →
    table.start { request with startKey := reply.lastKey } = table.start request + rows.length

/-- A reply reports on some rows. -/
def Reports (table : StaticTable) (view : View) (request : Scan.Request) (reply : PageReply) :
    Prop :=
  ∃ rows, table.Reported view request reply rows

/-- A page from where others end covers the next rows. -/
theorem Reported.append {pages : List (Page Float Item Key)} {request : Scan.Request}
    {reply : PageReply} {rows : List Item}
    (h : view.Sums ((table.part request).take (table.start request)) (.ofPages pages))
    (hreply : table.Reported view request reply rows) :
    view.Sums ((table.part request).take (table.start request + rows.length))
      (.ofPages (pages ++ [Paged.scan.page reply])) := by
  rw [Aggregate.ofPages_append, List.take_add, ← List.prefix_iff_eq_take.1 hreply.next]
  refine h.absorb ⟨hreply.items, ?_, ?_⟩
  · show reply.count.toInt.toNat = _
    rw [hreply.count, Int.toNat_natCast]
  · show reply.scannedCount.toInt.toNat = _
    rw [hreply.scannedCount, Int.toNat_natCast]

/-- Pages fetched without a limit from the first on cover all rows. -/
theorem summed {s : Settings} {rounds : Nat} {request : Scan.Request} {sends : List (Sent s .scan)}
    {total : Aggregate Float Item Key} (hstart : request.startKey = ∅)
    (h : Paged.scan.Follows {} rounds [] request sends (some (.ok total)))
    (hreports : Answered .scan (table.Reports view) (sends.flatMap Sent.exchanges)) :
    view.Sums (table.part request) total := by
  have hnone : view.Sums ((table.part request).take (table.start request)) (.ofPages []) := by
    rw [start, if_pos hstart]
    exact .empty view
  -- every page starts where the rows of those before it end
  obtain ⟨last, before, reply, ⟨hpart, hbefore⟩, ⟨rows, hreply⟩, hdone, rfl⟩ :=
    h.exists_last Paged.scan_overwrites
      (I := fun next pages => table.part next = table.part request ∧
        view.Sums ((table.part next).take (table.start next)) (.ofPages pages))
      hreports ⟨rfl, hnone⟩ fun {next pages reply key} hpages hreply hkey => by
        obtain ⟨rows, hreply⟩ := hreply
        obtain ⟨hne, rfl⟩ := cursor_eq_some_iff.1 hkey
        have hstart := hreply.key hne
        exact ⟨hpages.1, hstart ▸ hreply.append hpages.2⟩
  have hcovers := hreply.append hbefore
  obtain ⟨page, hpage, hnone⟩ := (hdone.resolve_left (by simp)).resolve_left (by simp)
  obtain rfl : Paged.scan.page reply = page := by simpa using hpage
  rw [List.take_of_length_le (hreply.last (cursor_eq_none_iff.1 hnone)), hpart] at hcovers
  rwa [Paging.collected_of_not_singlePage (by simp)]

/-- A call that fetches pages without a limit from the start of a part returns what its pages hold,
and comes to what is made of the part. -/
theorem exhausted {s : Settings} {rounds : Nat} {request : Scan.Request} {es : List Exchange}
    {total : Aggregate Float Item Key} (hstart : request.startKey = ∅)
    (hreports : Answered .scan (table.Reports view) es)
    (h : (paginate s Paged.scan rounds request {}).run.Plays es (some (.ok total))) :
    ∃ sends : List (Sent s .scan), es = sends.flatMap Sent.exchanges ∧ request.Exhausts sends ∧
      total.items = (Paged.scan.pages sends).flatMap Page.items ∧
      view.Sums (table.part request) total := by
  obtain ⟨sends, rfl, hsends⟩ :=
    (Paged.scan_overwrites.followsCursors s rounds request {} es _).1 h
  obtain ⟨hne, htotal⟩ := hsends.eq_collected
  refine ⟨sends, rfl, Scan.Request.exhausts_of_follows hstart hsends hne, ?_,
    summed hstart hsends hreports⟩
  rw [htotal]
  rfl

end StaticTable

/-! ### Scans that end -/

/-- Whether a call meets no failure: all that arrives are replies, or what else arrives does not
make it fail. -/
def MeetsNoFailure {α : Type} (es : List Exchange) (result : Option (Outcome α)) : Prop :=
  (∀ x ∈ es, ¬x.arrival.IsMiss) ∨ ∀ e, result ≠ some (.error e)

section Ends
variable {request : Scan.Request} {s : Settings} {rounds : Nat} {paging : Paging}
  {segments : Option Nat} {es : List Exchange}

/-- A scan is cut only where it has used up its rounds. -/
theorem Scan.Request.rounds_le (h : (request.run s rounds paging segments).run.Plays es none) :
    rounds ≤ es.length := by
  cases hplan : request.plan? paging segments with
  | none =>
    simp only [run, hplan] at h
    exact Paged.scan_overwrites.followsCursors.rounds_le h
  | some plan =>
    obtain ⟨tracks, ends, hturns, hends, hresult⟩ := (plays_run_split hplan).1 h
    obtain ⟨i, hi⟩ := Call.together_eq_none_iff.1 (Option.map_eq_none_iff.1 hresult.symm)
    exact (Paged.scan_overwrites.followsCursors.rounds_le (hi ▸ hends i)).trans (hturns.length_le i)

/-- A scan fails only where something else than a reply arrived. -/
theorem Scan.Request.exists_miss {e : Failure}
    (h : (request.run s rounds paging segments).run.Plays es (some (.error e))) :
    ∃ x ∈ es, x.arrival.IsMiss := by
  cases hplan : request.plan? paging segments with
  | none =>
    simp only [run, hplan] at h
    exact Paged.scan_overwrites.followsCursors.exists_miss h
  | some plan =>
    obtain ⟨tracks, ends, hturns, hends, hresult⟩ := (plays_run_split hplan).1 h
    obtain ⟨outcome, htogether, houtcome⟩ := Option.map_eq_some_iff.1 hresult.symm
    cases outcome with
    | ok parts => cases houtcome
    | error e' =>
      obtain ⟨i, hi⟩ := Call.exists_of_together_eq_error htogether
      obtain ⟨x, hx, hmiss⟩ := Paged.scan_overwrites.followsCursors.exists_miss (hi ▸ hends i)
      exact ⟨x, hturns.mem_of_track hx, hmiss⟩

/-- A scan that has rounds left and meets no failure has a value. -/
theorem Scan.Request.exists_total {result : Option (Outcome (Aggregate Float Item Key))}
    (h : (request.run s rounds paging segments).run.Plays es result) (hrounds : es.length < rounds)
    (hmet : MeetsNoFailure es result) : ∃ total, result = some (.ok total) := by
  rcases result with _ | e | total
  · exact absurd (rounds_le h) (by omega)
  · rcases hmet with hreplies | hresult
    · obtain ⟨x, hx, hmiss⟩ := exists_miss h
      exact absurd hmiss (hreplies x hx)
    · exact absurd rfl (hresult e)
  · exact ⟨total, rfl⟩

end Ends

/-! ### Segments against the whole -/

/-- What a scan sends for its segments, and what it returns of it. -/
structure Scan.Request.Segmented {s : Settings} {parts : Nat} (request : Scan.Request)
    (sends : Fin parts → List (Sent s .scan)) (es : List Exchange) (items : List Item) : Prop where
  /-- The numbers of the segments are sent as they are. -/
  numbered : ∀ n ≤ parts, (wireNumber n).toInt = n
  /-- Every segment is asked for from its start once, and else from where a page of it ended. -/
  exhausts (i : Fin parts) :
    { request with
      segment := some (wireNumber i)
      totalSegments := some (wireNumber parts) }.Exhausts (sends i)
  /-- Nothing else is sent, and the segments take turns in any way. -/
  turns : Interleaves (fun i => (sends i).flatMap Sent.exchanges) es
  /-- The pages of a segment stay together, in their order and in that of the segments. -/
  ordered : items =
    (List.finRange parts).flatMap fun i => (Paged.scan.pages (sends i)).flatMap Page.items

namespace StaticTable
variable {table : StaticTable} {view : View} {request : Scan.Request} {s : Settings}
  {rounds requested : Nat} {es : List Exchange} {total : Aggregate Float Item Key}

/-- A scan that is not split comes to what is made of all rows. -/
theorem summed_whole (hstart : request.startKey = ∅) (hsegment : request.segment = none)
    (hreports : Answered .scan (table.Reports view) es)
    (h : (request.run s rounds {} none).run.Plays es (some (.ok total))) :
    view.Sums (table.segment 1 0) total := by
  have hfresh : request.whole.startKey = ∅ := Scan.Request.startKey_whole.trans hstart
  rw [Scan.Request.run_whole] at h
  obtain ⟨sends, -, -, -, hsums⟩ := exhausted hfresh hreports h
  rwa [part_whole hstart hsegment] at hsums

/-- A scan that is split comes to what is made of the rows of its segments. -/
theorem summed_split (hstart : request.startKey = ∅) (hsegment : request.segment = none)
    (hreports : Answered .scan (table.Reports view) es)
    (h : (request.run s rounds {} (some requested)).run.Plays es (some (.ok total))) :
    let parts := max 1 (min requested SegmentPlan.mostSegments)
    ∃ sends : Fin parts → List (Sent s .scan), request.Segmented sends es total.items ∧
      (∀ i, (Paged.scan.pages (sends i)).flatMap Page.items =
        view.items (table.segment parts i)) ∧
      view.Sums ((List.range parts).flatMap (table.segment parts)) total := by
  intro parts
  have hplan : request.plan? {} (some requested) = some (SegmentPlan.make requested none) := by
    simp [Scan.Request.plan?, hstart, hsegment]
  obtain ⟨tracks, ends, hturns, hends, hresult⟩ := (Scan.Request.plays_run_split hplan).1 h
  obtain ⟨values, hvalues, rfl⟩ := Call.map_together_eq_ok_iff.1 hresult.symm
  have hsegments (i : Fin parts) :
      ∃ sends : List (Sent s .scan), tracks i = sends.flatMap Sent.exchanges ∧
        ((SegmentPlan.make requested none).part request i).Exhausts sends ∧
        (values i).items = (Paged.scan.pages sends).flatMap Page.items ∧
        view.Sums (table.segment parts i) (values i) := by
    have hfresh : ((SegmentPlan.make requested none).part request i).startKey = ∅ := hstart
    have hexhausted := exhausted hfresh (hreports.track hturns i) (hvalues i ▸ hends i)
    rwa [part_part i.isLt] at hexhausted
  choose sends htracks hexhausts hitems hsums using hsegments
  refine ⟨sends, ⟨?_, hexhausts, ?_, ?_⟩, fun i => (hitems i).symm.trans (hsums i).items, ?_⟩
  · intro n hn
    have hsent : n ≤ (SegmentPlan.make requested none).total := hn
    exact toInt_wireNumber (SegmentPlan.le_maxSigned32 hsent)
  · rwa [← funext htracks]
  · show ((List.ofFn values).foldl Aggregate.merge ∅).items = _
    rw [Aggregate.foldl_merge_eq, List.ofFn_eq_map, List.flatMap_map]
    exact List.flatMap_congr fun i _ => hitems i
  · show view.Sums _ ((List.ofFn values).foldl Aggregate.merge ∅)
    rw [List.ofFn_eq_map, ← List.map_coe_finRange_eq_range, List.flatMap_map]
    exact View.Sums.foldl_merge hsums (List.finRange parts) (.empty view)

end StaticTable

/-- A scan of a table without a limit, played to its end without a failure. -/
structure StaticTable.Scanned (table : StaticTable) (view : View) (request : Scan.Request)
    (s : Settings) (rounds : Nat) (segments : Option Nat) (es : List Exchange)
    (result : Option (Outcome (Aggregate Float Item Key))) : Prop where
  reports : Answered .scan (table.Reports view) es
  plays : (request.run s rounds {} segments).run.Plays es result
  going : es.length < rounds
  met : MeetsNoFailure es result

/-- **A scan in segments comes to the items of a scan that is not split, in some order, and to the
same counts, whatever the pages and in whatever order the segments are served. Its segments are
numbered from zero on, and what is shown of the rows of each stays together.** -/
theorem scan_segmented (table : StaticTable) (view : View) {request : Scan.Request}
    {s s' : Settings} {rounds rounds' requested : Nat} {es es' : List Exchange}
    {result result' : Option (Outcome (Aggregate Float Item Key))}
    (hstart : request.startKey = ∅) (hsegment : request.segment = none)
    (hsplit : table.Scanned view request s rounds (some requested) es result)
    (hwhole : table.Scanned view request s' rounds' none es' result') :
    let parts := max 1 (min requested SegmentPlan.mostSegments)
    ∃ (total total' : Aggregate Float Item Key) (sends : Fin parts → List (Sent s .scan)),
      result = some (.ok total) ∧ result' = some (.ok total') ∧
      total.items.Perm total'.items ∧ total.count = total'.count ∧
      total.scannedCount = total'.scannedCount ∧
      request.Segmented sends es total.items ∧
      ∀ i, (Paged.scan.pages (sends i)).flatMap Page.items =
        view.items (table.segment parts i) := by
  intro parts
  obtain ⟨total, rfl⟩ := Scan.Request.exists_total hsplit.plays hsplit.going hsplit.met
  obtain ⟨total', rfl⟩ := Scan.Request.exists_total hwhole.plays hwhole.going hwhole.met
  obtain ⟨sends, hsegmented, hpages, hsums⟩ :=
    StaticTable.summed_split hstart hsegment hsplit.reports hsplit.plays
  have hsums' := StaticTable.summed_whole hstart hsegment hwhole.reports hwhole.plays
  have hsegments := table.segments_perm parts (SegmentPlan.total_pos requested none)
  have honly : (table.segment 1 0).Perm table.items := by
    simpa using table.segments_perm 1 Nat.one_pos
  obtain ⟨hitems, hcount, hscanned⟩ := hsums.perm hsums' (hsegments.trans honly.symm)
  exact ⟨total, total', sends, rfl, rfl, hitems, hcount, hscanned, hsegmented, hpages⟩

/-! ### A table in two orders -/

namespace StaticTable

/-- A table with its first rows in the last segment and the others in the first. -/
def crossed (first others : List Item) (behind : Nat) : StaticTable where
  items := first ++ others
  segment total i := (if i + 1 = total then first else []) ++ if i = 0 then others else []
  place _ _ _ := behind
  segments_perm total h := by
    have hfirst : ((List.range total).flatMap fun i => if i + 1 = total then first else []) =
        first := by
      have hlast (i : Nat) : i + 1 = total ↔ i = total - 1 := by omega
      simp only [hlast]
      exact Interleaves.flatMap_only List.nodup_range (List.mem_range.2 (by omega)) first
    have hothers : ((List.range total).flatMap fun i => if i = 0 then others else []) = others :=
      Interleaves.flatMap_only List.nodup_range (List.mem_range.2 h) others
    refine (List.flatMap_append_perm _ _ _).symm.trans ?_
    rw [hfirst, hothers]

/-- The rows that match are in both segments, and are returned as they are. -/
def threeMatch : View where
  matching item := item ∈ numbered 2 3
  shown := some

/-- A request for a segment of two, from some key on. -/
def sliceRequest (i : Nat) (key : Key) : Scan.Request :=
  { table := "t"
    startKey := key
    segment := some (wireNumber i)
    totalSegments := some (wireNumber 2) }

/-- The first two rows of the first segment, one of which matches. -/
def firstSlice : PageReply :=
  { items := numbered 4 1, count := 1, scannedCount := 2, lastKey := .ofList [("id", .number "5")] }

/-- The last row of the first segment, which does not match. -/
def lastSlice : PageReply := { scannedCount := 1 }

/-- The four rows of the second segment, two of which match. -/
def otherSlice : PageReply := { items := numbered 2 2, count := 2, scannedCount := 4 }

def wholeReply : PageReply := { items := numbered 2 3, count := 3, scannedCount := 7 }

/-- The second segment answers between the two pages of the first. -/
def sliceExchanges : List Exchange :=
  [⟨.scan, sliceRequest 0 ∅, .reply firstSlice⟩,
    ⟨.scan, sliceRequest 1 ∅, .reply otherSlice⟩,
    ⟨.scan, sliceRequest 0 firstSlice.lastKey, .reply lastSlice⟩]

def wholeExchanges : List Exchange :=
  [⟨.scan, { table := "t" : Scan.Request }, .reply wholeReply⟩]

def sliceTotal : Aggregate Float Item Key :=
  { items := numbered 4 1 ++ numbered 2 2, count := 3, scannedCount := 7 }

def wholeTotal : Aggregate Float Item Key :=
  { items := numbered 2 3, count := 3, scannedCount := 7 }

theorem firstSlice_key : firstSlice.lastKey ≠ ∅ := KeyMap.single_ne_empty _ _

theorem sliceExchanges_reported :
    Answered .scan ((crossed (numbered 0 4) (numbered 4 3) 2).Reports threeMatch)
      sliceExchanges := by
  have hfresh (i : Nat) : (crossed (numbered 0 4) (numbered 4 3) 2).start (sliceRequest i ∅) = 0 :=
    if_pos rfl
  have hresumed : (crossed (numbered 0 4) (numbered 4 3) 2).start
      (sliceRequest 0 firstSlice.lastKey) = 2 := if_neg firstSlice_key
  refine .cons ⟨numbered 4 2, ?_⟩ (.cons ⟨numbered 0 4, ?_⟩ (.cons ⟨numbered 6 1, ?_⟩ .nil))
  · refine ⟨?_, by decide, by decide, by decide, fun h => absurd h firstSlice_key, fun _ => ?_⟩
    · rw [hfresh]
      exact ⟨numbered 6 1, rfl⟩
    · rw [hfresh]
      exact hresumed
  · refine ⟨?_, by decide, by decide, by decide, fun _ => ?_, fun h => absurd rfl h⟩
    · rw [hfresh]
      exact ⟨[], rfl⟩
    · rw [hfresh]
      decide
  · refine ⟨?_, by decide, by decide, by decide, fun _ => ?_, fun h => absurd rfl h⟩
    · rw [hresumed]
      exact ⟨[], rfl⟩
    · rw [hresumed]
      decide

theorem wholeExchanges_reported :
    Answered .scan ((crossed (numbered 0 4) (numbered 4 3) 2).Reports threeMatch)
      wholeExchanges := by
  refine .cons ⟨numbered 0 7, ?_, by decide, by decide, by decide, ?_, fun h => absurd rfl h⟩ .nil
  · exact ⟨[], rfl⟩
  · intro _
    decide

theorem sliceExchanges_played :
    (({ table := "t" } : Scan.Request).run {} 4 {} (some 2)).run.Plays sliceExchanges
      (some (.ok sliceTotal)) := by
  let sends (i : Fin 2) : List (Sent {} .scan) :=
    if i = 0 then
      [.answered {} .scan (sliceRequest 0 ∅) firstSlice,
        .answered {} .scan (sliceRequest 0 firstSlice.lastKey) lastSlice]
    else [.answered {} .scan (sliceRequest 1 ∅) otherSlice]
  let ends (i : Fin 2) : Aggregate Float Item Key :=
    Paging.collected {} (Paged.scan.pages (sends i))
  have hends (i : Fin 2) : (paginate {} Paged.scan 4 (sliceRequest i ∅) {}).run.Plays
      ((sends i).flatMap Sent.exchanges) (some (.ok (ends i))) := by
    apply (Paged.scan_overwrites.followsCursors {} 4 _ {} _ _).2
    refine ⟨sends i, rfl, ?_⟩
    match i with
    | 0 =>
      have hgoing : ¬Paging.IsDone {} [Paged.scan.page firstSlice] := by
        rintro (h | h | ⟨last, hlast, hnone⟩)
        · cases h
        · cases h
        · obtain rfl := Option.some.inj hlast
          exact firstSlice_key (cursor_eq_none_iff.1 hnone)
      have hcursor := cursor_eq_some_iff.2 ⟨firstSlice_key, rfl⟩
      apply (Paged.Follows.turned Paged.scan_overwrites rfl hgoing hcursor).2
      refine ⟨rfl, (Paged.Follows.done rfl ?_).2 ⟨rfl, rfl, rfl⟩⟩
      exact .inr (.inr ⟨_, rfl, rfl⟩)
    | 1 => exact (Paged.Follows.done rfl (.inr (.inr ⟨_, rfl, rfl⟩))).2 ⟨rfl, rfl, rfl⟩
  have hturns : Interleaves (fun i => (sends i).flatMap Sent.exchanges) sliceExchanges := by
    refine ⟨[0, 1, 0].zip sliceExchanges, rfl, fun i => ?_⟩
    match i with
    | 0 => rfl
    | 1 => rfl
  have hplan : ({ table := "t" } : Scan.Request).plan? {} (some 2) = some ⟨2, none⟩ := by decide
  refine (Scan.Request.plays_run_split hplan).2 ⟨_, _, hturns, hends, ?_⟩
  rw [Call.together_some]
  rfl

theorem wholeExchanges_played :
    (({ table := "t" } : Scan.Request).run {} 2 {} none).run.Plays wholeExchanges
      (some (.ok wholeTotal)) := by
  rw [Scan.Request.run_whole]
  exact plays_paginate_done (.inr (.inr ⟨_, rfl, rfl⟩))

end StaticTable

/-- Three of seven rows match. A scan in two segments passes the first segment in two pages, with
the answer of the other in between, and returns its row first. -/
theorem scan_segmented_crossed :
    let table := StaticTable.crossed (StaticTable.numbered 0 4) (StaticTable.numbered 4 3) 2
    let request : Scan.Request := { table := "t" }
    table.Scanned StaticTable.threeMatch request {} 4 (some 2) StaticTable.sliceExchanges
      (some (.ok StaticTable.sliceTotal)) ∧
    table.Scanned StaticTable.threeMatch request {} 2 none StaticTable.wholeExchanges
      (some (.ok StaticTable.wholeTotal)) ∧
    (StaticTable.numbered 4 1 ++ StaticTable.numbered 2 2).Perm (StaticTable.numbered 2 3) ∧
    ∃ sends : Fin 2 → List (Sent {} .scan),
      request.Segmented sends StaticTable.sliceExchanges StaticTable.sliceTotal.items ∧
      ∀ i, (Paged.scan.pages (sends i)).flatMap Page.items =
        StaticTable.threeMatch.items (table.segment 2 i) := by
  intro table request
  have hsplit : table.Scanned StaticTable.threeMatch request {} 4 (some 2)
      StaticTable.sliceExchanges (some (.ok StaticTable.sliceTotal)) :=
    ⟨StaticTable.sliceExchanges_reported, StaticTable.sliceExchanges_played, by decide,
      .inr fun e h => by cases h⟩
  have hwhole : table.Scanned StaticTable.threeMatch request {} 2 none
      StaticTable.wholeExchanges (some (.ok StaticTable.wholeTotal)) :=
    ⟨StaticTable.wholeExchanges_reported, StaticTable.wholeExchanges_played, by decide,
      .inr fun e h => by cases h⟩
  obtain ⟨total, total', sends, htotal, htotal', hitems, -, -, hsegmented, hpages⟩ :=
    scan_segmented table StaticTable.threeMatch rfl rfl hsplit hwhole
  cases htotal
  cases htotal'
  exact ⟨hsplit, hwhole, hitems, sends, hsegmented, hpages⟩

end TableClient
