import TableClient.Proofs.Walk

/-! Scans of one segment that resume.

A key says all about where a scan is, so a scan that resumes from one is a scan of the whole table,
whatever its options say of segments (`Client.scanPages_resumed`). A scan of one segment that
fetches all pages in one call keeps to the segment, and comes to what is made of its rows. Where
the pages are fetched in calls of their own, only the first call asks for the segment: those that
resume pass the rows of the whole table that lie behind its last key (`segment_resumed_whole`). -/
namespace TableClient

/-! ### Calls for one page each -/

section Calls
variable {s : Settings} {op : Operation} {ι κ : Type} {paged : Paged op ι κ} {rounds calls : Nat}
  {limit : Option Nat} {es : List Exchange}

/-- A call for one page sends its request, and comes to what that does. -/
theorem plays_single {request : op.Request} {result : Option (Outcome (Aggregate Float ι κ))} :
    (paginate s paged (rounds + 1) request ⟨limit, true⟩).run.Plays es result ↔
      ∃ sent : Sent s op, sent.request = request ∧ es = sent.exchanges ∧
        result = some (sent.outcome.map fun reply =>
          (Paging.mk limit true).collected [paged.page reply]) := by
  have hdone (pages : List (Page Float ι κ)) : (Paging.mk limit true).IsDone pages := .inl rfl
  show (paginateFrom s paged _ (rounds + 1) request (.ofPages [])).run.Plays es result ↔ _
  rw [plays_paginateFrom_succ]
  refine exists_congr fun sent => and_congr_right fun _ => ?_
  cases houtcome : sent.outcome with
  | error e => simp [Except.map]
  | ok reply => simp [Except.map, hdone]

variable {call : κ → Call (Aggregate Float ι κ)} {ask : κ → op.Request} {start : κ}

/-- The next of several calls for one page each: it fails, or its page has no cursor, or there are
more calls, from the cursor on. -/
theorem plays_walk_succ {request : op.Request}
    {result : Option (Outcome (List (Aggregate Float ι κ)))}
    (hcall : call start = paginate s paged (rounds + 1) request ⟨limit, true⟩)
    (h : (walk call (calls + 1) start).run.Plays es result) :
    ∃ sent : Sent s op, sent.request = request ∧
      ((∃ e, sent.outcome = .error e ∧ es = sent.exchanges ∧ result = some (.error e)) ∨
        ∃ reply, sent.outcome = .ok reply ∧
          (((paged.page reply).cursor = none ∧ es = sent.exchanges ∧
              result = some (.ok [(Paging.mk limit true).collected [paged.page reply]])) ∨
            ∃ cursor after rest, (paged.page reply).cursor = some cursor ∧
              es = sent.exchanges ++ after ∧ (walk call calls cursor).run.Plays after rest ∧
              result = rest.map
                (Except.map ((Paging.mk limit true).collected [paged.page reply] :: ·)))) := by
  have hcursor (page : Page Float ι κ) :
      ((Paging.mk limit true).collected [page]).cursor = page.cursor := rfl
  rw [walk, hcall, Call.plays_bind] at h
  rcases h with ⟨hcut, -⟩ | ⟨e, hfailed, rfl⟩ | ⟨part, before, after, rfl, hpart, hafter⟩
  · obtain ⟨sent, -, -, hnone⟩ := plays_single.1 hcut
    cases hnone
  · obtain ⟨sent, hrequest, rfl, he⟩ := plays_single.1 hfailed
    refine ⟨sent, hrequest, .inl ⟨e, ?_, rfl, rfl⟩⟩
    cases houtcome : sent.outcome with
    | error e' =>
      rw [houtcome] at he
      cases he
      rfl
    | ok reply =>
      rw [houtcome] at he
      cases he
  · obtain ⟨sent, hrequest, rfl, hvalue⟩ := plays_single.1 hpart
    refine ⟨sent, hrequest, .inr ?_⟩
    cases houtcome : sent.outcome with
    | error e =>
      rw [houtcome] at hvalue
      cases hvalue
    | ok reply =>
      rw [houtcome] at hvalue
      obtain rfl := Except.ok.inj (Option.some.inj hvalue)
      refine ⟨reply, rfl, ?_⟩
      rw [hcursor] at hafter
      cases hnext : (paged.page reply).cursor with
      | none =>
        rw [hnext] at hafter
        obtain ⟨rfl, rfl⟩ := hafter
        exact .inl ⟨rfl, List.append_nil _, rfl⟩
      | some cursor =>
        rw [hnext] at hafter
        obtain ⟨rest, hrest, rfl⟩ := Call.plays_map.1 hafter
        exact .inr ⟨cursor, after, rest, rfl, rfl, hrest, rfl⟩

/-- The first of several calls for one page each that come to their pages. -/
theorem plays_walk_ok {request : op.Request} {parts : List (Aggregate Float ι κ)}
    (hcall : call start = paginate s paged (rounds + 1) request ⟨limit, true⟩)
    (h : (walk call (calls + 1) start).run.Plays es (some (.ok parts))) :
    ∃ (sent : Sent s op) (reply : op.Reply) (more : List (Aggregate Float ι κ)),
      sent.request = request ∧ sent.outcome = .ok reply ∧ sent.exchanges ⊆ es ∧
      parts = (Paging.mk limit true).collected [paged.page reply] :: more ∧
      (((paged.page reply).cursor = none ∧ more = []) ∨
        ∃ cursor after, (paged.page reply).cursor = some cursor ∧ after ⊆ es ∧
          (walk call calls cursor).run.Plays after (some (.ok more))) := by
  obtain ⟨sent, hrequest, ⟨e, -, -, hresult⟩ | ⟨reply, houtcome, ⟨hnone, rfl, hresult⟩ |
    ⟨cursor, after, rest, hcursor, rfl, hrest, hresult⟩⟩⟩ := plays_walk_succ hcall h
  · cases hresult
  · cases hresult
    exact ⟨sent, reply, [], hrequest, houtcome, List.Subset.refl _, rfl, .inl ⟨hnone, rfl⟩⟩
  · obtain ⟨outcome, rfl, hvalue⟩ := Option.map_eq_some_iff.1 hresult.symm
    cases outcome with
    | error e => cases hvalue
    | ok more =>
      cases hvalue
      exact ⟨sent, reply, more, hrequest, houtcome, List.subset_append_left _ _, rfl,
        .inr ⟨cursor, after, hcursor, List.subset_append_right _ _, hrest⟩⟩

/-- Calls for one page each send what they ask for, the later ones for the cursors of pages. -/
theorem walk_sends {I : κ → Prop} {result : Option (Outcome (List (Aggregate Float ι κ)))}
    (hcall : ∀ key, call key = paginate s paged (rounds + 1) (ask key) ⟨limit, true⟩)
    (hcursor : ∀ reply cursor, (paged.page reply).cursor = some cursor → I cursor)
    (h : (walk call calls start).run.Plays es result) :
    ∃ first later, es = first ++ later ∧
      (∀ x ∈ first, ∃ arrival, x = ⟨op, ask start, arrival⟩) ∧
      ∀ x ∈ later, ∃ key arrival, I key ∧ x = ⟨op, ask key, arrival⟩ := by
  have hsent {sent : Sent s op} {key : κ} (hrequest : sent.request = ask key) :
      ∀ x ∈ sent.exchanges, ∃ arrival, x = ⟨op, ask key, arrival⟩ := by
    intro x hx
    rw [← hrequest]
    exact sent.eq_of_mem hx
  induction calls generalizing start es result with
  | zero =>
    obtain ⟨rfl, -⟩ := h
    exact ⟨[], [], rfl, by simp, by simp⟩
  | succ calls ih =>
    obtain ⟨sent, hrequest, ⟨e, -, rfl, -⟩ | ⟨reply, -, ⟨-, rfl, -⟩ |
      ⟨cursor, after, rest, hnext, rfl, hrest, -⟩⟩⟩ := plays_walk_succ (hcall start) h
    · exact ⟨_, [], (List.append_nil _).symm, hsent hrequest, by simp⟩
    · exact ⟨_, [], (List.append_nil _).symm, hsent hrequest, by simp⟩
    · obtain ⟨first, later, rfl, hfirst, hlater⟩ := ih hrest
      refine ⟨_, first ++ later, rfl, hsent hrequest, List.forall_mem_append.2 ⟨?_, hlater⟩⟩
      intro x hx
      obtain ⟨arrival, rfl⟩ := hfirst x hx
      exact ⟨cursor, arrival, hcursor _ _ hnext, rfl⟩

/-- Calls for one page each that meet no failure come to their pages, if there are enough calls. -/
theorem exists_parts {result : Option (Outcome (List (Aggregate Float ι κ)))}
    (hcall : ∀ key, call key = paginate s paged (rounds + 1) (ask key) ⟨limit, true⟩)
    (h : (walk call calls start).run.Plays es result) (hcalls : es.length < calls)
    (hmet : MeetsNoFailure es result) : ∃ parts, result = some (.ok parts) := by
  induction calls generalizing start es result with
  | zero => exact absurd hcalls (Nat.not_lt_zero _)
  | succ calls ih =>
    obtain ⟨sent, -, ⟨e, houtcome, rfl, rfl⟩ | ⟨reply, -, ⟨-, -, rfl⟩ |
      ⟨cursor, after, rest, -, rfl, hrest, rfl⟩⟩⟩ := plays_walk_succ (hcall start) h
    · rcases hmet with hreplies | hresult
      · obtain ⟨x, hx, hmiss⟩ := sent.exists_miss houtcome
        exact absurd hmiss (hreplies x hx)
      · exact absurd rfl (hresult e)
    · exact ⟨_, rfl⟩
    · have hless : after.length < calls := by
        have := sent.length_pos
        rw [List.length_append] at hcalls
        omega
      have hmet : MeetsNoFailure after rest := by
        refine hmet.imp (fun hreplies x hx => hreplies x (List.mem_append_right _ hx)) ?_
        rintro hresult e rfl
        exact hresult e rfl
      obtain ⟨parts, rfl⟩ := ih hrest hless hmet
      exact ⟨_, rfl⟩

end Calls

/-! ### Options that resume -/

namespace ScanOptions

/-- The numbers of a segment are not part of any expression. -/
theorem assemble_oneSegment (o : ScanOptions) (p : Parameters) (e : ExpressionSet) :
    (o.oneSegment p).assemble e = (p.assemble e).map o.oneSegment := by
  refine Parameters.assemble_change (fun q => ?_) (fun q _ _ => ?_) (fun q _ => ?_) p e
  · unfold oneSegment Parameters.forIndex
    cases o.segmentation <;> cases hindex : q.index <;> simp [hindex]
  · unfold oneSegment
    cases o.segmentation <;> rfl
  · unfold oneSegment
    cases o.segmentation <;> rfl

end ScanOptions

namespace Scan.Request
variable {r : Scan.Request}

/-- The request without the numbers of a segment. -/
def unnumbered (r : Scan.Request) : Scan.Request :=
  { r with segment := none, totalSegments := none }

/-- A request that resumes from a key is about the whole table. -/
theorem whole_resumed (h : r.startKey ≠ ∅) : r.whole = r.unnumbered := by
  have hstart : r.startKey.isEmpty = false := by simpa [← KeyMap.isEmpty_iff] using h
  simp [whole, hstart, unnumbered]

theorem limit_whole : r.whole.limit = r.limit := by
  unfold whole
  split
  · rfl
  · split <;> rfl

/-- A scan that resumes from a key is not split. -/
theorem run_resumed (h : r.startKey ≠ ∅) (s : Settings) (rounds : Nat) (paging : Paging)
    (segments : Option Nat) :
    r.run s rounds paging segments = paginate s Paged.scan rounds r.unnumbered paging := by
  have hstart : r.startKey.isEmpty = false := by simpa [← KeyMap.isEmpty_iff] using h
  have hplan : r.plan? paging segments = none := by simp [plan?, hstart]
  simp only [run, hplan, whole_resumed h]

end Scan.Request

/-- A scan that resumes from a key is one of the whole table, whatever its options say of
segments. -/
theorem Client.scanPages_resumed (c : Client) (rounds : Nat) (o : ScanOptions)
    (h : o.startKey ≠ ∅) :
    c.scanPages rounds o = c.scanPages rounds { o with segmentation := .disabled } := by
  unfold scanPages ScanOptions.finalize
  cases hp : o.parameters c.table with
  | error e => rfl
  | ok p =>
    show (Call.ofOutcome ((o.oneSegment p).assemble _ >>= _) >>= _) =
      (Call.ofOutcome (p.assemble _ >>= _) >>= _)
    rw [ScanOptions.assemble_oneSegment]
    cases hq : p.assemble { projection := o.projection, filters := o.filters } with
    | error e => rfl
    | ok q =>
      have hstart : q.toScan.startKey ≠ ∅ := by
        obtain ⟨limit, -, hp⟩ := exists_of_bind_eq_ok hp
        obtain ⟨r, -, rfl⟩ := Parameters.assemble_ok hq
        cases hp
        rwa [Parameters.forIndex_eq]
      have hsame : (o.oneSegment q).toScan.unnumbered = q.toScan.unnumbered := by
        unfold ScanOptions.oneSegment
        split <;> rfl
      have hkey : (o.oneSegment q).toScan.startKey = q.toScan.startKey := by
        show (o.oneSegment q).toScan.unnumbered.startKey = _
        rw [hsame]
        rfl
      show (o.oneSegment q).toScan.run _ _ _ _ = q.toScan.run _ _ _ _
      rw [Scan.Request.run_resumed (hkey ▸ hstart), Scan.Request.run_resumed hstart, hsame]

/-! ### Pages of a table -/

/-- Several results are those of some rows. -/
def View.SumsAll (view : View) (rows : List Item) (parts : List (Aggregate Float Item Key)) :
    Prop :=
  view.Accounts rows (parts.flatMap Aggregate.items) (parts.map Aggregate.count).sum
    (parts.map Aggregate.scannedCount).sum

namespace View.SumsAll
variable {view : View} {rows more : List Item} {part : Aggregate Float Item Key}
  {parts : List (Aggregate Float Item Key)}

theorem nil (view : View) : view.SumsAll [] [] := ⟨rfl, rfl, rfl⟩

theorem cons (h : view.Sums rows part) (hmore : view.SumsAll more parts) :
    view.SumsAll (rows ++ more) (part :: parts) := Accounts.append h hmore

theorem singleton (h : view.Sums rows part) : view.SumsAll rows [part] := by
  have hcons := cons h (nil view)
  rwa [List.append_nil] at hcons

end View.SumsAll

/-- What is returned of rows is no more than is found of them. -/
theorem View.length_items_le (view : View) (rows : List Item) :
    (view.items rows).length ≤ view.count rows := by
  unfold items count
  rw [List.countP_eq_length_filter]
  exact List.length_filterMap_le _ _

namespace StaticTable
variable {table : StaticTable} {view : View} {r : Scan.Request}

theorem numberOf_eq (n : Option Int32) (default : Nat) :
    numberOf n default = ((n.map Int32.toInt).map Int.toNat).getD default := by
  cases n <;> rfl

/-- The numbers of a request are those of the segment that it is about. -/
theorem part_of_numbers {segment total : Nat} (h : r.numbers = .part segment total) :
    table.part r = table.segment total segment := by
  obtain ⟨hsegment, htotal⟩ := Prod.ext_iff.1 h
  simp only [Scan.Request.numbers, SegmentNumbers.part] at hsegment htotal
  rw [part, numberOf_eq, numberOf_eq, hsegment, htotal]
  rfl

/-- A request for a segment from a key on starts at the place of the key in the segment. -/
theorem start_of_numbers {segment total : Nat} {key : Key} (h : r.numbers = .part segment total)
    (hkey : key ≠ ∅) :
    table.start { r with startKey := key } = table.place total segment key := by
  obtain ⟨hsegment, htotal⟩ := Prod.ext_iff.1 h
  simp only [Scan.Request.numbers, SegmentNumbers.part] at hsegment htotal
  rw [start, if_neg hkey, numberOf_eq, numberOf_eq, hsegment, htotal]
  rfl

/-- A reply reports on no more rows than the limit of its request. -/
def ReportsWithin (table : StaticTable) (view : View) (request : Scan.Request)
    (reply : PageReply) : Prop :=
  ∃ rows, table.Reported view request reply rows ∧
    ∀ n ∈ request.limit, rows.length ≤ n.toInt.toNat

theorem ReportsWithin.reports {reply : PageReply} (h : table.ReportsWithin view r reply) :
    table.Reports view r reply :=
  h.imp fun _ => And.left

/-- Of a page within the limit that was sent, the limit that was asked for cuts nothing off. -/
theorem Reported.collected {reply : PageReply} {rows : List Item} {limit : Option Nat}
    (h : table.Reported view r reply rows) (hwire : wireLimit limit = .ok r.limit)
    (hwithin : ∀ n ∈ r.limit, rows.length ≤ n.toInt.toNat) :
    (Paging.mk limit true).collected [Paged.scan.page reply] = (Paged.scan.page reply).alone := by
  have hitems : reply.items.length ≤ view.count rows := h.items ▸ view.length_items_le rows
  have hrows : view.count rows ≤ rows.length := List.countP_le_length
  have hcount : reply.count.toInt.toNat = view.count rows := by rw [h.count, Int.toNat_natCast]
  have hlimit := wireLimit_within hwire hwithin
  rw [Paging.collected_single]
  refine Aggregate.truncate?_of_within (fun n hn => ?_) fun n hn hfull => ?_
  · exact (hitems.trans hrows).trans (hlimit n hn)
  · have hmost := hlimit n hn
    show reply.count.toInt.toNat = reply.items.length
    have hfull : n ≤ reply.items.length := hfull
    omega

/-- A page within the limit is kept as that of the rows that it reports on. -/
theorem ReportsWithin.exists_rows {reply : PageReply} {limit : Option Nat}
    (h : table.ReportsWithin view r reply) (hwire : wireLimit limit = .ok r.limit) :
    ∃ rows, table.Reported view r reply rows ∧
      view.Sums rows ((Paging.mk limit true).collected [Paged.scan.page reply]) := by
  obtain ⟨rows, hreported, hwithin⟩ := h
  refine ⟨rows, hreported, ?_⟩
  rw [hreported.collected hwire hwithin]
  refine ⟨hreported.items, ?_, ?_⟩
  · show reply.count.toInt.toNat = _
    rw [hreported.count, Int.toNat_natCast]
  · show reply.scannedCount.toInt.toNat = _
    rw [hreported.scannedCount, Int.toNat_natCast]

/-- A page without a key reports on all rows from the start of its request on. -/
theorem Reported.rows_of_last {reply : PageReply} {rows : List Item}
    (h : table.Reported view r reply rows) (hlast : reply.lastKey = ∅) :
    rows = (table.part r).drop (table.start r) := by
  refine h.next.eq_of_length_le ?_
  have := h.last hlast
  rw [List.length_drop]
  omega

/-- After the rows of a page come those behind its key. -/
theorem Reported.rows_append {reply : PageReply} {rows : List Item}
    (h : table.Reported view r reply rows) (hkey : reply.lastKey ≠ ∅) :
    rows ++ (table.part r).drop (table.start { r with startKey := reply.lastKey }) =
      (table.part r).drop (table.start r) := by
  rw [h.key hkey, ← List.drop_drop]
  obtain ⟨behind, hbehind⟩ := h.next
  rw [← hbehind, List.drop_left]

/-- Calls for one page each from a key on come to the rows behind the key. -/
theorem sumsAll_behind {s : Settings} {rounds calls : Nat} {limit : Option Nat} {key : Key}
    {call : Key → Call (Aggregate Float Item Key)} {es : List Exchange}
    {parts : List (Aggregate Float Item Key)} (hwire : wireLimit limit = .ok r.limit)
    (hcall : ∀ key, key ≠ ∅ →
      call key = paginate s Paged.scan (rounds + 1) (Paged.scan.resume r key) ⟨limit, true⟩)
    (hkey : key ≠ ∅) (hreports : Answered .scan (table.ReportsWithin view) es)
    (h : (walk call calls key).run.Plays es (some (.ok parts))) :
    view.SumsAll ((table.part r).drop (table.start (Paged.scan.resume r key))) parts := by
  induction calls generalizing key es parts with
  | zero => cases h.2
  | succ calls ih =>
    obtain ⟨sent, reply, more, hrequest, houtcome, hsent, rfl, hnext⟩ :=
      plays_walk_ok (hcall key hkey) h
    have hreply := sent.replied hreports hsent houtcome
    rw [hrequest] at hreply
    obtain ⟨rows, hreported, hpage⟩ := hreply.exists_rows hwire
    rcases hnext with ⟨hnone, rfl⟩ | ⟨cursor, after, hcursor, hafter, hmore⟩
    · have hrows := hreported.rows_of_last (cursor_eq_none_iff.1 hnone)
      exact .singleton (hrows ▸ hpage)
    · obtain ⟨hne, rfl⟩ := cursor_eq_some_iff.1 hcursor
      have hbehind := View.SumsAll.cons hpage (ih hne (hreports.mono hafter) hmore)
      have hrows : rows ++ (table.part r).drop (table.start (Paged.scan.resume r reply.lastKey)) =
          (table.part r).drop (table.start (Paged.scan.resume r key)) := hreported.rows_append hne
      exact hrows ▸ hbehind

/-- What calls for one page each come to, of which only the first is about a segment: its page is
all of the segment, or it has a key, and the others come to all rows behind the key in the whole
table. -/
inductive LeavesSegment (table : StaticTable) (view : View) (segment total : Nat) :
    List (Aggregate Float Item Key) → Prop
  | within {part : Aggregate Float Item Key}
    (hpart : view.Sums (table.segment total segment) part) :
    LeavesSegment table view segment total [part]
  | beyond {part : Aggregate Float Item Key} {rest : List (Aggregate Float Item Key)}
    {rows : List Item} {key : Key} (hcursor : part.cursor = some key)
    (hrows : rows <+: table.segment total segment)
    (hplace : table.place total segment key = rows.length) (hpart : view.Sums rows part)
    (hrest : view.SumsAll ((table.segment 1 0).drop (table.place 1 0 key)) rest) :
    LeavesSegment table view segment total (part :: rest)

end StaticTable

/-! ### Scans of one segment -/

section Only
variable {c : Client} {o : ScanOptions} {pending : Pending Scan.Request} {segment total : Nat}

/-- A request for a segment that there is asks for it where it starts at no key. -/
theorem ScanOptions.numbers_of_only
    (hfinal : o.finalize c.table c.settings.scanSegments = .ok pending)
    (honly : o.segmentation = .only segment total) (hsegment : segment < total)
    (htotal : total ≤ 1000000) :
    (Scan.Request.whole (Paged.scan.resume pending.request ∅)).numbers = .part segment total := by
  obtain ⟨hsent, hall, hclamped⟩ := clamped_of_only hfinal honly
  have hfresh : Scan.Request.startKey (Paged.scan.resume pending.request ∅) = ∅ := rfl
  have hnumber : Scan.Request.segment (Paged.scan.resume pending.request ∅) =
      some (wireNumber segment) := hsent
  have hsame : Scan.Request.clampedTotal (Paged.scan.resume pending.request ∅) =
      pending.request.clampedTotal := rfl
  rw [Scan.Request.whole_of_segment hfresh hnumber, Scan.Request.numbers_inRange, hsame, hclamped,
    hall]
  congr 1 <;> omega

/-- A scan of a segment from its start is one sequence of pages. -/
theorem Client.scanPages_only (hfinal : o.finalize c.table c.settings.scanSegments = .ok pending)
    (honly : o.segmentation = .only segment total) (hstart : o.startKey = ∅) (rounds : Nat) :
    c.scanPages rounds o =
      paginate c.settings Paged.scan rounds
        (Scan.Request.whole (Paged.scan.resume pending.request ∅)) o.paging := by
  obtain ⟨hkey, -, -, hpaging, hsegments⟩ := ScanOptions.finalize_ok hfinal
  have hnone : pending.segments = none := by rw [hsegments, ScanOptions.segments, honly]
  have hrequest : Paged.scan.resume pending.request ∅ = pending.request := by
    rw [← hstart, ← hkey]
    rfl
  rw [scanPages, hfinal, hrequest, ← hpaging]
  show pending.request.run _ _ _ pending.segments = _
  rw [hnone, Scan.Request.run_whole]

/-- Calls for one page each come to a page of the segment, and to what lies behind it. -/
theorem StaticTable.leavesSegment {table : StaticTable} {view : View} {rounds calls : Nat}
    {es : List Exchange} {parts : List (Aggregate Float Item Key)}
    (hfinal : o.finalize c.table c.settings.scanSegments = .ok pending)
    (hnumbers : (Scan.Request.whole (Paged.scan.resume pending.request ∅)).numbers =
      .part segment total)
    (hreports : Answered .scan (table.ReportsWithin view) es)
    (h : (walk (fun key => c.scanPages (rounds + 1) { o with singlePage := true, startKey := key })
      calls ∅).run.Plays es (some (.ok parts))) :
    table.LeavesSegment view segment total parts := by
  have hcall := Client.scanPages_single hfinal (rounds + 1)
  have hwire := ScanOptions.wireLimit_of_finalize hfinal
  have hlimit : Scan.Request.limit (Scan.Request.whole (Paged.scan.resume pending.request ∅)) =
      pending.request.limit := Scan.Request.limit_whole
  cases calls with
  | zero => cases h.2
  | succ calls =>
    obtain ⟨sent, reply, more, hrequest, houtcome, hsent, rfl, hnext⟩ := plays_walk_ok (hcall ∅) h
    have hreply := sent.replied hreports hsent houtcome
    rw [hrequest] at hreply
    obtain ⟨rows, hreported, hpage⟩ := hreply.exists_rows (hlimit ▸ hwire)
    have hfresh : table.start (Scan.Request.whole (Paged.scan.resume pending.request ∅)) = 0 :=
      if_pos Scan.Request.startKey_whole
    rcases hnext with ⟨hnone, rfl⟩ | ⟨cursor, after, hcursor, hafter, hmore⟩
    · have hrows := hreported.rows_of_last (cursor_eq_none_iff.1 hnone)
      rw [hfresh, List.drop_zero, part_of_numbers hnumbers] at hrows
      exact .within (hrows ▸ hpage)
    · obtain ⟨hne, rfl⟩ := cursor_eq_some_iff.1 hcursor
      have hrows := hreported.next
      have hplace := hreported.key hne
      rw [hfresh, List.drop_zero, part_of_numbers hnumbers] at hrows
      rw [start_of_numbers hnumbers hne, hfresh, Nat.zero_add] at hplace
      have hbehind := sumsAll_behind (r := pending.request.unnumbered) hwire
        (fun key hkey => (hcall key).trans
          (congrArg (paginate _ _ _ · _) (Scan.Request.whole_resumed hkey)))
        hne (hreports.mono hafter) hmore
      rw [show table.start (Paged.scan.resume _ _) = _ from if_neg hne] at hbehind
      exact .beyond hcursor hrows hplace hpage hbehind

end Only

/-- **A scan keeps to a segment for one call.** Where its options ask for a segment that there is,
from the start on, a scan asks for nothing else, and without a limit it comes to what is made of the
rows of the segment. A scan that resumes from a key is one of the whole table, whatever its options
say of segments. So where the pages are fetched in calls of their own, the first call asks for the
segment, the others for no segment, and those come to all rows behind its key in the whole table. -/
theorem segment_resumed_whole (c : Client) (rounds : Nat) (o : ScanOptions)
    {pending : Pending Scan.Request} {segment total : Nat}
    (hfinal : o.finalize c.table c.settings.scanSegments = .ok pending)
    (honly : o.segmentation = .only segment total) (hsegment : segment < total)
    (htotal : total ≤ 1000000) (hstart : o.startKey = ∅) (table : StaticTable) (view : View) :
    (∀ {es : List Exchange} {result : Option (Outcome (Aggregate Float Item Key))},
      (c.scanPages rounds o).run.Plays es result →
      SendsScans (· = .part segment total) es ∧
      (o.limit = none → o.singlePage = false → Answered .scan (table.Reports view) es →
        es.length < rounds → MeetsNoFailure es result →
        ∃ all, result = some (.ok all) ∧ view.Sums (table.segment total segment) all)) ∧
    (∀ {key : Key} (single : Bool), key ≠ ∅ →
      c.scanPages rounds { o with singlePage := single, startKey := key } =
        c.scanPages rounds
          { o with singlePage := single, startKey := key, segmentation := .disabled }) ∧
    ∀ {calls : Nat} {es : List Exchange}
      {result : Option (Outcome (List (Aggregate Float Item Key)))},
      (walk (fun key => c.scanPages (rounds + 1) { o with singlePage := true, startKey := key })
        calls ∅).run.Plays es result →
      (∃ first later, es = first ++ later ∧ SendsScans (· = .part segment total) first ∧
        ∀ x ∈ later, ∃ key arrival, key ≠ ∅ ∧
          x = ⟨.scan, Scan.Request.unnumbered (Paged.scan.resume pending.request key), arrival⟩) ∧
      (Answered .scan (table.ReportsWithin view) es → es.length < calls →
        MeetsNoFailure es result →
        ∃ parts, result = some (.ok parts) ∧ table.LeavesSegment view segment total parts) := by
  have hnumbers := ScanOptions.numbers_of_only hfinal honly hsegment htotal
  have hwhole (key : Key) (hkey : key ≠ ∅) :
      Scan.Request.whole (Paged.scan.resume pending.request key) =
        Scan.Request.unnumbered (Paged.scan.resume pending.request key) :=
    Scan.Request.whole_resumed hkey
  have hcall := Client.scanPages_single hfinal (rounds + 1)
  refine ⟨?_, fun single hkey => Client.scanPages_resumed c rounds _ hkey, ?_⟩
  · intro es result h
    have hrun : c.scanPages rounds o =
        pending.request.run c.settings rounds pending.paging pending.segments := by
      rw [Client.scanPages, hfinal]
      rfl
    have hpages := Client.scanPages_only hfinal honly hstart rounds ▸ h
    refine ⟨sends_paginate hpages hnumbers, fun hlimit hmany hreports hrounds hmet => ?_⟩
    obtain ⟨all, rfl⟩ := Scan.Request.exists_total (hrun ▸ h) hrounds hmet
    have hpaging : o.paging = {} := by rw [ReadOptions.paging, hlimit, hmany]
    rw [hpaging] at hpages
    obtain ⟨-, -, -, -, hsums⟩ :=
      StaticTable.exhausted Scan.Request.startKey_whole hreports hpages
    rw [StaticTable.part_of_numbers hnumbers] at hsums
    exact ⟨all, rfl, hsums⟩
  · intro calls es result h
    constructor
    · obtain ⟨first, later, rfl, hfirst, hlater⟩ := walk_sends (I := (· ≠ ∅)) hcall
        (fun _ _ hcursor => (StaticTable.cursor_eq_some_iff.1 hcursor).2 ▸
          (StaticTable.cursor_eq_some_iff.1 hcursor).1) h
      refine ⟨first, later, rfl, fun x hx => ?_, fun x hx => ?_⟩
      · obtain ⟨arrival, rfl⟩ := hfirst x hx
        exact ⟨_, arrival, rfl, hnumbers⟩
      · obtain ⟨key, arrival, hkey, rfl⟩ := hlater x hx
        rw [hwhole key hkey]
        exact ⟨key, arrival, hkey, rfl⟩
    · intro hreports hcalls hmet
      obtain ⟨parts, rfl⟩ := exists_parts hcall h hcalls hmet
      exact ⟨parts, rfl, StaticTable.leavesSegment hfinal hnumbers hreports h⟩

/-! ### Two rows of three -/

/-- All rows match, and are returned as they are. -/
def View.all : View where
  matching _ := true
  shown := some

namespace StaticTable

/-- Three rows, of which the first two are the second of two segments. -/
def threeRows : StaticTable := crossed (numbered 0 2) (numbered 2 1) 1

/-- A scan of the second segment. -/
def secondOfTwo : ScanOptions := { segmentation := .only 1 2 }

def firstKey : Key := .ofList [("id", .number "0")]

/-- The first row is on a page of its own, and the two behind it are on the next. -/
def rowThenRows (request : Scan.Request) : PageReply :=
  if request.startKey = ∅ then
    { items := numbered 0 1, count := 1, scannedCount := 1, lastKey := firstKey }
  else { items := numbered 1 2, count := 2, scannedCount := 2 }

/-- The requests of two calls for one page each. -/
def strayRequests : List Scan.Request :=
  [{ table := "t", segment := some 1, totalSegments := some 2 },
    { table := "t", startKey := firstKey }]

def strayExchanges : List Exchange :=
  strayRequests.map fun r => ⟨.scan, r, .reply (rowThenRows r)⟩

def strayParts : List (Aggregate Float Item Key) :=
  strayRequests.map fun r => (Paged.scan.page (rowThenRows r)).alone

theorem firstKey_ne : firstKey ≠ ∅ := KeyMap.single_ne_empty _ _

theorem secondOfTwo_finalize :
    secondOfTwo.finalize "t" 10 =
      .ok { request := { table := "t", segment := some 1, totalSegments := some 2 } } := rfl

theorem rowThenRows_first {r : Scan.Request} (h : r.startKey = ∅) :
    rowThenRows r =
      { items := numbered 0 1, count := 1, scannedCount := 1, lastKey := firstKey } := if_pos h

theorem rowThenRows_next {r : Scan.Request} (h : r.startKey ≠ ∅) :
    rowThenRows r = { items := numbered 1 2, count := 2, scannedCount := 2 } := if_neg h

/-- Calls for one page each, of which two are made. -/
def strayWalk : Call (List (Aggregate Float Item Key)) :=
  walk (fun key => Client.scanPages ⟨"t", {}, rfl⟩ 1
    { secondOfTwo with singlePage := true, startKey := key }) 3 ∅

theorem strayExchanges_played : strayWalk.run.Plays strayExchanges (some (.ok strayParts)) := by
  let ask (key : Key) : Scan.Request :=
    Scan.Request.whole
      { table := "t", startKey := key, segment := some 1, totalSegments := some 2 }
  have hresumed : ask firstKey = { table := "t", startKey := firstKey } :=
    Scan.Request.whole_resumed firstKey_ne
  have htrail : Paged.scan.Trail rowThenRows ask ∅ strayRequests := by
    have hlast : Paged.scan.Trail rowThenRows ask firstKey [ask firstKey] :=
      .last (by rw [hresumed, rowThenRows_next firstKey_ne]; rfl)
    rw [hresumed] at hlast
    have hcursor : (Paged.scan.page (rowThenRows (ask ∅))).cursor = some firstKey :=
      cursor_eq_some_iff.2 ⟨firstKey_ne, rfl⟩
    exact .next hcursor hlast
  have hvisits : Visits {} .scan rowThenRows strayRequests strayWalk strayParts := by
    refine visits_walk (fun key => ?_) htrail (by decide)
    rw [Client.scanPages_single secondOfTwo_finalize]
    exact visits_page 0 (Paging.collected_single none _)
  exact hvisits.plays

theorem strayExchanges_reported :
    Answered .scan (threeRows.ReportsWithin .all) strayExchanges := by
  have hplace : threeRows.start { table := "t", startKey := firstKey } = 1 := if_neg firstKey_ne
  refine .cons ⟨numbered 0 1, ?_, by simp⟩ (.cons ⟨numbered 1 2, ?_, by simp⟩ .nil)
  · rw [rowThenRows_first rfl]
    refine ⟨⟨numbered 1 1, rfl⟩, by decide, by decide, by decide, fun h => absurd h firstKey_ne,
      fun _ => if_neg firstKey_ne⟩
  · rw [rowThenRows_next firstKey_ne]
    refine ⟨?_, by decide, by decide, by decide, fun _ => ?_, fun h => absurd rfl h⟩
    · rw [hplace]
      exact ⟨[], rfl⟩
    · rw [hplace]
      decide

theorem strayParts_items : strayParts.flatMap Aggregate.items = numbered 0 3 := by
  show (rowThenRows { table := "t", segment := some 1, totalSegments := some 2 }).items ++
    ((rowThenRows { table := "t", startKey := firstKey }).items ++ []) = _
  rw [rowThenRows_first rfl, rowThenRows_next firstKey_ne]
  rfl

/-- The second segment on one page. -/
def secondReply : PageReply := { items := numbered 0 2, count := 2, scannedCount := 2 }

def secondExchanges : List Exchange :=
  [⟨.scan, { table := "t", segment := some 1, totalSegments := some 2 : Scan.Request },
    .reply secondReply⟩]

def secondTotal : Aggregate Float Item Key := Paging.collected {} [Paged.scan.page secondReply]

theorem secondExchanges_played :
    (Client.scanPages ⟨"t", {}, rfl⟩ 2 secondOfTwo).run.Plays secondExchanges
      (some (.ok secondTotal)) := by
  rw [Client.scanPages_only secondOfTwo_finalize rfl rfl]
  exact plays_paginate_done (.inr (.inr ⟨_, rfl, rfl⟩))

theorem secondExchanges_reported :
    Answered .scan (threeRows.Reports .all) secondExchanges := by
  refine .cons ⟨numbered 0 2, ⟨[], rfl⟩, by decide, by decide, by decide, fun _ => ?_,
    fun h => absurd rfl h⟩ .nil
  decide

end StaticTable

/-- The two calls ask for the second segment and then for no segment, and so they come to the row of
the first segment as well. -/
theorem segment_left_on_resumption :
    StaticTable.secondOfTwo.segmentation = .only 1 2 ∧
    StaticTable.strayWalk.run.Plays StaticTable.strayExchanges
      (some (.ok StaticTable.strayParts)) ∧
    Answered .scan (StaticTable.threeRows.ReportsWithin .all) StaticTable.strayExchanges ∧
    ¬SendsScans (· = .part 1 2) StaticTable.strayExchanges ∧
    StaticTable.strayParts.flatMap Aggregate.items = StaticTable.numbered 0 3 ∧
    ¬(StaticTable.strayParts.flatMap Aggregate.items).Perm
      (StaticTable.threeRows.segment 2 1) := by
  refine ⟨rfl, StaticTable.strayExchanges_played, StaticTable.strayExchanges_reported, ?_,
    StaticTable.strayParts_items, ?_⟩
  · intro h
    obtain ⟨request, arrival, hsame, hnumbers⟩ := h _ (List.mem_of_getElem? (i := 1) rfl)
    cases hsame
    cases hnumbers
  · intro h
    have hlength := h.length_eq
    rw [StaticTable.strayParts_items] at hlength
    cases hlength

/-- A scan of the second segment in one call, and in two. -/
theorem segment_resumed_whole_rows :
    let c : Client := ⟨"t", {}, rfl⟩
    let o := StaticTable.secondOfTwo
    (c.scanPages 2 o).run.Plays StaticTable.secondExchanges
      (some (.ok StaticTable.secondTotal)) ∧
    SendsScans (· = .part 1 2) StaticTable.secondExchanges ∧
    View.all.Sums (StaticTable.threeRows.segment 2 1) StaticTable.secondTotal ∧
    c.scanPages 2 { o with singlePage := true, startKey := StaticTable.firstKey } =
      c.scanPages 2 { o with
        singlePage := true
        startKey := StaticTable.firstKey
        segmentation := .disabled } ∧
    StaticTable.strayWalk.run.Plays StaticTable.strayExchanges
      (some (.ok StaticTable.strayParts)) ∧
    StaticTable.threeRows.LeavesSegment .all 1 2 StaticTable.strayParts := by
  intro c o
  have hone := segment_resumed_whole c 2 o StaticTable.secondOfTwo_finalize rfl (by decide)
    (by decide) rfl StaticTable.threeRows .all
  have htwo := segment_resumed_whole c 0 o StaticTable.secondOfTwo_finalize rfl (by decide)
    (by decide) rfl StaticTable.threeRows .all
  obtain ⟨hsends, hall⟩ := hone.1 StaticTable.secondExchanges_played
  obtain ⟨_, heq, hsums⟩ := hall rfl rfl StaticTable.secondExchanges_reported (by decide)
    (.inr fun e h => by cases h)
  obtain ⟨_, heq', hleaves⟩ := (htwo.2.2 StaticTable.strayExchanges_played).2
    StaticTable.strayExchanges_reported (by decide) (.inr fun e h => by cases h)
  cases heq
  cases heq'
  exact ⟨StaticTable.secondExchanges_played, hsends, hsums, hone.2.1 true StaticTable.firstKey_ne,
    StaticTable.strayExchanges_played, hleaves⟩

end TableClient
