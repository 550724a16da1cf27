import TableClient.Client
import TableClient.Proofs.SegmentNumbers

/-! Reading page by page.

A caller may fetch one page at a time and call again from the cursor of each, until one has none
(`walk`). Where every request always has the same reply, a call visits certain requests in a certain
order, whatever fails on the way (`Visits`), and calls that are made one after the other visit what
each of them visits (`Visits.bind`). The requests that follow from a key are its trail
(`Paged.Trail`): a call for all pages visits it (`visits_paginateFrom`), and so do calls for one
page each (`visits_walk`). So they come to the same items and counts, for queries and for scans that
are not split, with a limit for each page or without (`walk_complete`). -/
namespace TableClient

/-! ### Calls against fixed replies -/

/-- Whether a call, where every request always has the same reply, sends some requests one after the
other and comes to a value. -/
structure Visits {α : Type} (s : Settings) (op : Operation) (served : op.Request → op.Reply)
    (requests : List op.Request) (call : Call α) (a : α) : Prop where
  /-- Where every attempt is answered, each request is sent once. -/
  plays : call.run.Plays (requests.map fun r => ⟨op, r, .reply (served r)⟩) (some (.ok a))
  /-- Whatever attempts come to, the requests are sent in order. The call comes to no other value,
  and to no failure and no cut where all that arrives are replies. -/
  sends : ∀ {es : List Exchange} {result : Option (Outcome α)}, call.run.Plays es result →
    Answered op (fun r reply => reply = served r) es →
    ∃ sends : List (Sent s op), es = sends.flatMap Sent.exchanges ∧
      sends.map Sent.request <+: requests ∧
      (∀ b, result = some (.ok b) → sends.map Sent.request = requests ∧ b = a) ∧
      ((∀ x ∈ es, ¬x.arrival.IsMiss) → result = some (.ok a))

namespace Visits
variable {α β : Type} {s : Settings} {op : Operation} {served : op.Request → op.Reply}

theorem pure (a : α) : Visits s op served [] (Pure.pure a) a where
  plays := ⟨rfl, rfl⟩
  sends := by
    rintro es result ⟨rfl, rfl⟩ -
    refine ⟨[], rfl, List.nil_prefix, fun b hb => ⟨rfl, ?_⟩, fun _ => rfl⟩
    cases hb
    rfl

/-- Sending a request visits it. -/
theorem send (request : op.Request) :
    Visits s op served [request] (TableClient.send s op request) (served request) where
  plays := (Sent.answered s op request (served request)).plays
  sends := by
    intro es result h hanswered
    obtain ⟨earlier, last, deadline, -, -, rfl⟩ := plays_attempts h
    let sent : Sent s op := ⟨request, es, last.outcome deadline, h⟩
    refine ⟨[sent], (List.flatMap_singleton Sent.exchanges sent).symm, List.prefix_rfl,
      fun b hb => ⟨rfl, ?_⟩, fun hreplies => ?_⟩
    · exact sent.replied hanswered (List.Subset.refl _) (Option.some.inj hb)
    · cases houtcome : last.outcome deadline with
      | error e =>
        obtain ⟨x, hx, hmiss⟩ := sent.exists_miss houtcome
        exact absurd hmiss (hreplies x hx)
      | ok reply => rw [sent.replied hanswered (List.Subset.refl _) houtcome]

/-- A call and what comes after it visit one after the other. -/
theorem bind {first later : List op.Request} {x : Call α} {f : α → Call β} {a : α} {b : β}
    (hx : Visits s op served first x a) (hf : Visits s op served later (f a) b) :
    Visits s op served (first ++ later) (x >>= f) b where
  plays := by
    rw [List.map_append]
    exact Call.plays_bind.2 (.inr (.inr ⟨a, _, _, rfl, hx.plays, hf.plays⟩))
  sends := by
    intro es result h hanswered
    rcases Call.plays_bind.1 h with ⟨hcut, rfl⟩ | ⟨e, herror, rfl⟩ |
      ⟨a', before, after, rfl, hbefore, hafter⟩
    · obtain ⟨sends, hes, hfirst, -, hreplies⟩ := hx.sends hcut hanswered
      refine ⟨sends, hes, hfirst.trans (List.prefix_append _ _), by simp, fun h => ?_⟩
      cases hreplies h
    · obtain ⟨sends, hes, hfirst, -, hreplies⟩ := hx.sends herror hanswered
      refine ⟨sends, hes, hfirst.trans (List.prefix_append _ _), by simp, fun h => ?_⟩
      cases hreplies h
    · obtain ⟨sends, rfl, -, hvalue, -⟩ :=
        hx.sends hbefore (hanswered.mono (List.subset_append_left _ _))
      obtain ⟨hall, rfl⟩ := hvalue a' rfl
      obtain ⟨sends', rfl, hlater, hvalue', hreplies⟩ :=
        hf.sends hafter (hanswered.mono (List.subset_append_right _ _))
      refine ⟨sends ++ sends', List.flatMap_append.symm, ?_, fun b' hb' => ?_, fun h => ?_⟩
      · rw [List.map_append, hall]
        exact List.prefix_append_right_inj _ |>.2 hlater
      · rw [List.map_append, hall, (hvalue' b' hb').1]
        exact ⟨rfl, (hvalue' b' hb').2⟩
      · exact hreplies fun x hx => h x (List.mem_append_right _ hx)

/-- A call that starts by sending a request visits it first. -/
theorem send_bind {request : op.Request} {later : List op.Request} {f : op.Reply → Call α} {a : α}
    (hf : Visits s op served later (f (served request)) a) :
    Visits s op served (request :: later) (TableClient.send s op request >>= f) a :=
  (send request).bind hf

/-- A call whose value is changed visits what it visits. -/
theorem map {requests : List op.Request} {x : Call α} {a : α} (hx : Visits s op served requests x a)
    (g : α → β) : Visits s op served requests (x >>= fun a => Pure.pure (g a)) (g a) := by
  have hbind := hx.bind (f := fun a => Pure.pure (g a)) (pure (g a))
  rwa [List.append_nil] at hbind

end Visits

/-! ### Trails -/

section Trails
variable {op : Operation} {ι κ : Type}

/-- The requests that follow from a key, if a request for a key always has the same reply: the
request for the key, and those that follow from the cursor of its page, up to a page without. -/
inductive Paged.Trail (paged : Paged op ι κ) (served : op.Request → op.Reply)
    (ask : κ → op.Request) : κ → List op.Request → Prop
  | last {start : κ} (h : (paged.page (served (ask start))).cursor = none) :
    Trail paged served ask start [ask start]
  | next {start cursor : κ} {rest : List op.Request}
    (h : (paged.page (served (ask start))).cursor = some cursor)
    (hrest : Trail paged served ask cursor rest) :
    Trail paged served ask start (ask start :: rest)

/-- A page as the result of a call for it alone. -/
def Page.alone {υ : Type} (page : Page υ ι κ) : Aggregate υ ι κ := { page with }

@[simp] theorem Page.cursor_alone {υ : Type} (page : Page υ ι κ) :
    page.alone.cursor = page.cursor := rfl

/-- Calls from a key on, and again from the cursor of each result, until one has none. -/
def walk {υ : Type} (call : κ → Call (Aggregate υ ι κ)) :
    (calls : Nat) → κ → Call (List (Aggregate υ ι κ))
  | 0, _ => ExceptT.mk .cut
  | calls + 1, start => do
    let part ← call start
    match part.cursor with
    | none => return [part]
    | some cursor => return part :: (← walk call calls cursor)

variable {s : Settings} {paged : Paged op ι κ} {served : op.Request → op.Reply}
  {ask : κ → op.Request} {start : κ} {trail : List op.Request}

theorem Paged.Trail.length_pos (h : paged.Trail served ask start trail) : 0 < trail.length := by
  cases h <;> simp

/-- A call for all pages visits the trail of its request. -/
theorem visits_paginateFrom (hask : ∀ key cursor, paged.resume (ask key) cursor = ask cursor)
    (h : paged.Trail served ask start trail) {rounds : Nat} (hrounds : trail.length ≤ rounds)
    (before : Aggregate Float ι κ) :
    Visits s op served trail (paginateFrom s paged {} rounds (ask start) before)
      ((trail.map fun r => paged.page (served r)).foldl Aggregate.absorb before) := by
  induction h generalizing rounds before with
  | @last start hcursor =>
    obtain ⟨rounds, rfl⟩ := Nat.exists_eq_add_of_le' hrounds
    refine .send_bind ?_
    simp only [hcursor]
    exact .pure _
  | @next start cursor rest hcursor hrest ih =>
    obtain ⟨rounds, rfl⟩ := Nat.exists_eq_add_of_le' (Nat.lt_of_lt_of_le (Nat.succ_pos _) hrounds)
    refine .send_bind ?_
    simp only [hcursor, hask]
    exact ih (Nat.le_of_succ_le_succ hrounds) _

/-- Calls for one page each visit the trail from where they start. -/
theorem visits_walk {call : κ → Call (Aggregate Float ι κ)}
    (hcall : ∀ key, Visits s op served [ask key] (call key) (paged.page (served (ask key))).alone)
    (h : paged.Trail served ask start trail) {calls : Nat} (hcalls : trail.length ≤ calls) :
    Visits s op served trail (walk call calls start)
      (trail.map fun r => (paged.page (served r)).alone) := by
  induction h generalizing calls with
  | @last start hcursor =>
    obtain ⟨calls, rfl⟩ := Nat.exists_eq_add_of_le' hcalls
    refine (hcall start).bind ?_
    simp only [Page.cursor_alone, hcursor]
    exact .pure _
  | @next start cursor rest hcursor hrest ih =>
    obtain ⟨calls, rfl⟩ := Nat.exists_eq_add_of_le' (Nat.lt_of_lt_of_le (Nat.succ_pos _) hcalls)
    refine (hcall start).bind ?_
    simp only [Page.cursor_alone, hcursor]
    exact (ih (Nat.le_of_succ_le_succ hcalls)).map _

/-- A call for one page visits its request. It returns the page where nothing of it is cut off. -/
theorem visits_page {request : op.Request} {limit : Option Nat} (rounds : Nat)
    (hkept : (Paging.mk limit true).collected [paged.page (served request)] =
      (paged.page (served request)).alone) :
    Visits s op served [request] (paginate s paged (rounds + 1) request ⟨limit, true⟩)
      (paged.page (served request)).alone := by
  refine .send_bind ?_
  rw [← hkept, Paging.collected_eq]
  exact .pure _

/-- Whether calls for one page each come to what a call for all pages does: both visit the same
requests, and the items and counts of the pages add up to those of all. -/
def ComeToSame (s : Settings) (op : Operation) (served : op.Request → op.Reply)
    (trail : List op.Request) (single : Call (List (Aggregate Float ι κ)))
    (whole : Call (Aggregate Float ι κ)) : Prop :=
  ∃ (parts : List (Aggregate Float ι κ)) (total : Aggregate Float ι κ),
    Visits s op served trail single parts ∧ Visits s op served trail whole total ∧
      parts.flatMap Aggregate.items = total.items ∧
      (parts.map Aggregate.count).sum = total.count ∧
      (parts.map Aggregate.scannedCount).sum = total.scannedCount

theorem comeToSame_of_trail {call : κ → Call (Aggregate Float ι κ)}
    (hask : ∀ key cursor, paged.resume (ask key) cursor = ask cursor)
    (hcall : ∀ key, Visits s op served [ask key] (call key) (paged.page (served (ask key))).alone)
    (h : paged.Trail served ask start trail) {rounds calls : Nat} (hrounds : trail.length ≤ rounds)
    (hcalls : trail.length ≤ calls) :
    ComeToSame s op served trail (walk call calls start)
      (paginate s paged rounds (ask start) {}) := by
  refine ⟨_, _, visits_walk hcall h hcalls, visits_paginateFrom hask h hrounds ∅, ?_⟩
  show _ = (Aggregate.ofPages _).items ∧ _ = (Aggregate.ofPages _).count ∧
    _ = (Aggregate.ofPages _).scannedCount
  rw [Aggregate.ofPages_eq]
  refine ⟨?_, ?_, ?_⟩
  · simp only [List.flatMap_map]
    rfl
  · simp only [List.map_map]
    rfl
  · simp only [List.map_map]
    rfl

end Trails

/-! ### Pages within a limit -/

section Limits
variable {υ ι κ : Type}

/-- Where only one page is fetched, it is kept up to the limit. -/
theorem Paging.collected_single [Add υ] [Zero υ] (limit : Option Nat) (page : Page υ ι κ) :
    (Paging.mk limit true).collected [page] = page.alone.truncate? limit := by
  rw [collected_eq, Aggregate.ofPages_eq]
  cases hcapacity : page.capacity <;> simp [Page.alone, hcapacity, ConsumedCapacity.total]

/-- What holds no more than a limit, and counts all of it where it reaches the limit, is not
truncated. -/
theorem Aggregate.truncate?_of_within {a : Aggregate υ ι κ} {limit : Option Nat}
    (hwithin : ∀ n ∈ limit, a.items.length ≤ n)
    (hcount : ∀ n ∈ limit, n ≤ a.items.length → a.count = a.items.length) :
    a.truncate? limit = a := by
  cases limit with
  | none => rfl
  | some n =>
    have htake : a.items.take n = a.items := List.take_of_length_le (hwithin n rfl)
    show a.truncate n = a
    unfold truncate
    split
    · next hfull => rw [htake, ← hcount n rfl hfull]
    · rfl

end Limits

/-- What is within a limit that is sent is within the one that was asked for. -/
theorem wireLimit_within {limit : Option Nat} {wire : Option Int32} {length : Nat}
    (hwire : wireLimit limit = .ok wire) (hwithin : ∀ n ∈ wire, length ≤ n.toInt.toNat) :
    ∀ n ∈ limit, length ≤ n := by
  rintro n rfl
  cases n with
  | zero => cases hwire
  | succ n =>
    cases hwire
    refine (hwithin _ rfl).trans ?_
    rw [toInt_wireNumber_eq_min, Int.toNat_natCast]
    exact Nat.min_le_left _ _

/-- Whether a reply holds no more items than a limit, and counts them. -/
structure PageReply.Fits (reply : PageReply) (limit : Option Int32) : Prop where
  within : ∀ n ∈ limit, reply.items.length ≤ n.toInt.toNat
  count : reply.count.toInt = reply.items.length

/-- Of a page within the limit that was sent, the limit that was asked for cuts nothing off. -/
theorem PageReply.Fits.collected {reply : PageReply} {limit : Option Nat} {wire : Option Int32}
    (h : reply.Fits wire) (hwire : wireLimit limit = .ok wire) :
    (Paging.mk limit true).collected [reply.page] = reply.page.alone := by
  rw [Paging.collected_single]
  refine Aggregate.truncate?_of_within (wireLimit_within hwire h.within) fun _ _ _ => ?_
  show reply.count.toInt.toNat = reply.items.length
  rw [h.count, Int.toNat_natCast]

/-! ### Options that resume -/

/-- What has nothing to do with expressions can be changed before they are put in or after. -/
theorem Parameters.assemble_change {g : Parameters → Parameters}
    (hindex : ∀ p, (g p).forIndex = g p.forIndex)
    (htexts : ∀ p substitute e, (g p).setTexts substitute e = g (p.setTexts substitute e))
    (hbind : ∀ p bindings, (g p).bind bindings = g (p.bind bindings)) (p : Parameters)
    (e : ExpressionSet) : (g p).assemble e = (p.assemble e).map g := by
  unfold assemble
  cases e.compile with
  | error fault => rfl
  | ok rendered =>
    rw [hindex]
    exact congrArg Except.ok ((congrArg (Parameters.bind · _) (htexts _ _ _)).trans (hbind _ _))

/-- The key to start from is not part of any expression. -/
theorem Parameters.assemble_startKey (p : Parameters) (e : ExpressionSet) (key : Key) :
    { p with startKey := key }.assemble e =
      (p.assemble e).map fun q => { q with startKey := key } := by
  refine assemble_change (g := fun q => { q with startKey := key }) (fun q => ?_)
    (fun _ _ _ => rfl) (fun _ _ => rfl) p e
  unfold forIndex
  split <;> rfl

/-- The parameters of a read from a key on are those of the read but for the key. -/
theorem ReadOptions.parameters_from (o : ReadOptions) (table : String) (key : Key) :
    { o with singlePage := true, startKey := key }.parameters table =
      (o.parameters table).map fun p => { p with startKey := key } := by
  unfold parameters
  cases wireLimit o.limit <;> rfl

namespace QueryOptions

/-- Options for one page from a key on come to the same request but for the key. -/
theorem finalize_from (o : QueryOptions) (table : String) (partition key : Key) :
    { o with singlePage := true, startKey := key }.finalize table partition =
      (o.finalize table partition).map fun pending =>
        { pending with
          request := Paged.query.resume pending.request key
          paging := ⟨o.limit, true⟩ } := by
  unfold finalize
  cases partition.partitionCondition with
  | error e => rfl
  | ok condition =>
    simp only [ReadOptions.parameters_from, bind, Except.bind, Except.map]
    cases o.parameters table with
    | error e => rfl
    | ok p =>
      dsimp only
      have hassemble := Parameters.assemble_startKey
        { p with forward := if o.descending then some false else none }
        { projection := o.projection
          keyConditions := condition :: o.keyConditions
          filters := o.filters } key
      rw [hassemble]
      cases Parameters.assemble _ _ <;> rfl

/-- A query starts where its options say, and sends their limit. -/
theorem finalize_ok {o : QueryOptions} {table : String} {partition : Key}
    {pending : Pending Query.Request} (h : o.finalize table partition = .ok pending) :
    pending.request.startKey = o.startKey ∧ wireLimit o.limit = .ok pending.request.limit := by
  obtain ⟨condition, -, h⟩ := exists_of_bind_eq_ok h
  obtain ⟨p, hp, h⟩ := exists_of_bind_eq_ok h
  obtain ⟨q, hq, h⟩ := exists_of_bind_eq_ok h
  obtain ⟨limit, hlimit, hp⟩ := exists_of_bind_eq_ok hp
  obtain ⟨r, -, rfl⟩ := Parameters.assemble_ok hq
  cases hp
  cases h
  rw [Parameters.forIndex_eq]
  exact ⟨rfl, hlimit⟩

end QueryOptions

namespace ScanOptions

theorem oneSegment_from (o : ScanOptions) (p : Parameters) (key : Key) :
    { o with singlePage := true, startKey := key }.oneSegment { p with startKey := key } =
      { o.oneSegment p with startKey := key } := by
  unfold oneSegment
  cases o.segmentation <;> rfl

/-- Options for one page from a key on come to the same request but for the key. -/
theorem finalize_from (o : ScanOptions) (table : String) (defaultSegments : Nat) (key : Key) :
    { o with singlePage := true, startKey := key }.finalize table defaultSegments =
      (o.finalize table defaultSegments).map fun pending =>
        { pending with
          request := Paged.scan.resume pending.request key
          paging := ⟨o.limit, true⟩ } := by
  unfold finalize
  simp only [ReadOptions.parameters_from, bind, Except.bind, Except.map]
  cases o.parameters table with
  | error e => rfl
  | ok p =>
    dsimp only
    rw [oneSegment_from, Parameters.assemble_startKey]
    cases Parameters.assemble _ _ <;> rfl

/-- A scan sends the limit of its options. -/
theorem wireLimit_of_finalize {o : ScanOptions} {table : String} {defaultSegments : Nat}
    {pending : Pending Scan.Request} (h : o.finalize table defaultSegments = .ok pending) :
    wireLimit o.limit = .ok pending.request.limit := by
  obtain ⟨p, hp, h⟩ := exists_of_bind_eq_ok h
  obtain ⟨q, hq, h⟩ := exists_of_bind_eq_ok h
  obtain ⟨limit, hlimit, hp⟩ := exists_of_bind_eq_ok hp
  obtain ⟨r, -, rfl⟩ := Parameters.assemble_ok hq
  cases hp
  cases h
  rw [Parameters.forIndex_eq]
  unfold oneSegment
  split
  · exact hlimit
  · exact hlimit

end ScanOptions

/-! ### Scans that are not split -/

namespace Scan.Request
variable {r : Scan.Request}

/-- A scan of one page is not split. -/
theorem run_single (s : Settings) (rounds : Nat) (limit segments : Option Nat) :
    r.run s rounds ⟨limit, true⟩ segments = paginate s Paged.scan rounds r.whole ⟨limit, true⟩ := by
  have hplan : r.plan? ⟨limit, true⟩ segments = none := by simp [plan?]
  simp only [run, hplan]

/-- A request without the numbers of a segment is sent as it is. -/
theorem whole_of_none (hsegment : r.segment = none) (htotal : r.totalSegments = none) :
    r.whole = r := by
  cases r
  cases hsegment
  cases htotal
  unfold whole
  split <;> rfl

end Scan.Request

/-- A call for one page from a key on is one for the first page of the request that starts there. -/
theorem Client.scanPages_single {c : Client} {o : ScanOptions} {pending : Pending Scan.Request}
    (hfinal : o.finalize c.table c.settings.scanSegments = .ok pending) (rounds : Nat) (key : Key) :
    c.scanPages rounds { o with singlePage := true, startKey := key } =
      paginate c.settings Paged.scan rounds
        (Scan.Request.whole (Paged.scan.resume pending.request key)) ⟨o.limit, true⟩ := by
  rw [scanPages, ScanOptions.finalize_from, hfinal]
  exact Scan.Request.run_single _ _ _ _

/-- **Reading page by page is reading all pages.** Against a store that always has the same reply to
a request, with pages within the limits of their requests, a query visits the same requests if it is
called for one page at a time, from the cursor of each page on, as if it is called for all pages,
and the items and counts are the same. So does a scan, if it is for no segment and is not split when
it is called for all pages. The calls for one page may have a limit; that for all pages has none. -/
theorem walk_complete :
    (∀ (c : Client) (partition : Key) (o : QueryOptions) (pending : Pending Query.Request)
        (served : Query.Request → PageReply) (trail : List Query.Request) (rounds calls : Nat),
      o.finalize c.table partition = .ok pending →
      (∀ request, (served request).Fits request.limit) →
      Paged.query.Trail served (Paged.query.resume pending.request) o.startKey trail →
      trail.length ≤ rounds → trail.length ≤ calls →
      ComeToSame c.settings .query served trail
        (walk
          (fun key => c.queryPages rounds partition { o with singlePage := true, startKey := key })
          calls o.startKey)
        (paginate c.settings Paged.query rounds pending.request {})) ∧
    (∀ (c : Client) (o : ScanOptions) (pending : Pending Scan.Request)
        (served : Scan.Request → PageReply) (trail : List Scan.Request) (rounds calls : Nat),
      o.finalize c.table c.settings.scanSegments = .ok pending →
      (∀ segment total, o.segmentation ≠ .only segment total) →
      (∀ request, (served request).Fits request.limit) →
      Paged.scan.Trail served (Paged.scan.resume pending.request) o.startKey trail →
      trail.length ≤ rounds → trail.length ≤ calls →
      ComeToSame c.settings .scan served trail
        (walk (fun key => c.scanPages rounds { o with singlePage := true, startKey := key })
          calls o.startKey)
        (pending.request.run c.settings rounds {} none)) := by
  refine ⟨?_, ?_⟩
  · intro c partition o pending served trail rounds calls hfinal hfits htrail hrounds hcalls
    obtain ⟨hstart, hlimit⟩ := QueryOptions.finalize_ok hfinal
    have hrequest : Paged.query.resume pending.request o.startKey = pending.request := by
      rw [← hstart]
      rfl
    rw [← hrequest]
    refine comeToSame_of_trail (fun _ _ => rfl) (fun key => ?_) htrail hrounds hcalls
    obtain ⟨rounds, rfl⟩ :=
      Nat.exists_eq_add_of_le' (Nat.lt_of_lt_of_le htrail.length_pos hrounds)
    rw [Client.queryPages, QueryOptions.finalize_from, hfinal]
    exact visits_page rounds ((hfits _).collected hlimit)
  · intro c o pending served trail rounds calls hfinal hnot hfits htrail hrounds hcalls
    obtain ⟨hstart, hsegment, htotal, -⟩ := ScanOptions.finalize_ok hfinal
    have hlimit := ScanOptions.wireLimit_of_finalize hfinal
    have hrequest : Paged.scan.resume pending.request o.startKey = pending.request := by
      rw [← hstart]
      rfl
    have hnone : (o.oneSegment {}).segment = none ∧ (o.oneSegment {}).totalSegments = none := by
      unfold ScanOptions.oneSegment
      split
      · next segment total honly => exact absurd honly (hnot segment total)
      · exact ⟨rfl, rfl⟩
    rw [hnone.1] at hsegment
    rw [hnone.2] at htotal
    have hwhole (key : Key) : Scan.Request.whole (Paged.scan.resume pending.request key) =
        Paged.scan.resume pending.request key := Scan.Request.whole_of_none hsegment htotal
    rw [Scan.Request.run_whole, ← hrequest, hwhole]
    refine comeToSame_of_trail (fun _ _ => rfl) (fun key => ?_) htrail hrounds hcalls
    obtain ⟨rounds, rfl⟩ :=
      Nat.exists_eq_add_of_le' (Nat.lt_of_lt_of_le htrail.length_pos hrounds)
    rw [Client.scanPages_single hfinal, hwhole]
    exact visits_page rounds ((hfits _).collected hlimit)

/-! ### Two pages of one item -/

/-- The page for a key of two items: the first from the start, and the second from elsewhere. -/
def pairPage (limit : Option Int32) (key : Key) : PageReply :=
  let most := StaticTable.numberOf limit 1
  { items := (StaticTable.numbered (if key = ∅ then 0 else 1) 1).take most
    count := if most = 0 then 0 else 1
    scannedCount := 3
    lastKey := if key = ∅ then .ofList [("id", .number "0")] else ∅ }

theorem pairPage_fits (limit : Option Int32) (key : Key) : (pairPage limit key).Fits limit := by
  constructor
  · rintro n rfl
    exact List.length_take_le _ _
  · show Int32.toInt (if StaticTable.numberOf limit 1 = 0 then 0 else 1) =
      ((StaticTable.numbered _ 1).take (StaticTable.numberOf limit 1)).length
    cases StaticTable.numberOf limit 1 with
    | zero => rfl
    | succ n => simp [StaticTable.numbered]

/-- A query and a scan of two items, one on each page, with a limit of one. -/
theorem walk_complete_pair :
    let c : Client := ⟨"t", {}, rfl⟩
    let partition : Key := .ofList [("id", .text "a")]
    let second : Key := .ofList [("id", .number "0")]
    let query : Query.Request :=
      { table := "t"
        keyCondition := some "#n0 = :v0"
        names := .ofList [("#n0", "id")]
        values := .ofList [(":v0", .text "a")]
        limit := some (wireNumber 1) }
    let scan : Scan.Request := { table := "t", limit := some (wireNumber 1) }
    let queries : List Query.Request := [query, { query with startKey := second }]
    let scans : List Scan.Request := [scan, { scan with startKey := second }]
    let paging : Paging := { limit := some 1 }
    (({ limit := some 1 } : QueryOptions).finalize "t" partition =
        .ok { request := query, paging } ∧
      Paged.query.Trail (fun r : Query.Request => pairPage r.limit r.startKey)
        (Paged.query.resume query) ∅ queries ∧
      ComeToSame {} .query (fun r : Query.Request => pairPage r.limit r.startKey) queries
        (walk (fun key => c.queryPages 2 partition
          { limit := some 1, singlePage := true, startKey := key }) 2 ∅)
        (paginate {} Paged.query 2 query {})) ∧
    (({ limit := some 1 } : ScanOptions).finalize "t" 10 =
        .ok { request := scan, paging, segments := some 10 } ∧
      Paged.scan.Trail (fun r : Scan.Request => pairPage r.limit r.startKey)
        (Paged.scan.resume scan) ∅ scans ∧
      ComeToSame {} .scan (fun r : Scan.Request => pairPage r.limit r.startKey) scans
        (walk (fun key => c.scanPages 2
          { limit := some 1, singlePage := true, startKey := key }) 2 ∅)
        (scan.run {} 2 {} none)) := by
  intro c partition second query scan queries scans paging
  have hsecond : second ≠ ∅ := KeyMap.single_ne_empty _ _
  have hfirst (limit : Option Int32) : (pairPage limit ∅).page.cursor = some second := by
    simp [PageReply.page, pairPage, second]
  have hlast (limit : Option Int32) : (pairPage limit second).page.cursor = none := by
    simp [PageReply.page, pairPage, hsecond]
  constructor
  · have hassembled :
        ({ table := "t", limit := some (wireNumber 1) } : Parameters).assemble
          { keyConditions := [.equals ⟨[.name "id"]⟩ (.text "a")] } =
        .ok
          { table := "t"
            limit := some (wireNumber 1)
            keyCondition := some "#n0 = :v0"
            names := .ofList [("#n0", "id")]
            values := .ofList [(":v0", .text "a")] } := by
      decide +kernel
    have hfinal : ({ limit := some 1 } : QueryOptions).finalize "t" partition =
        .ok { request := query, paging } := by
      have hpending := congrArg
        (fun p => p >>= fun p => pure { request := p.toQuery, paging : Pending _ }) hassembled
      exact hpending
    have htrail : Paged.query.Trail (fun r : Query.Request => pairPage r.limit r.startKey)
        (Paged.query.resume query) ∅ queries :=
      .next (hfirst _) (.last (hlast _))
    exact ⟨hfinal, htrail, walk_complete.1 c partition _ _ _ _ 2 2 hfinal
      (fun _ => pairPage_fits _ _) htrail le_rfl le_rfl⟩
  · have hfinal : ({ limit := some 1 } : ScanOptions).finalize "t" 10 =
        .ok { request := scan, paging, segments := some 10 } := rfl
    have htrail : Paged.scan.Trail (fun r : Scan.Request => pairPage r.limit r.startKey)
        (Paged.scan.resume scan) ∅ scans :=
      .next (hfirst _) (.last (hlast _))
    exact ⟨hfinal, htrail, walk_complete.2 c _ _ _ _ 2 2 hfinal (fun _ _ h => by cases h)
      (fun _ => pairPage_fits _ _) htrail le_rfl le_rfl⟩

end TableClient
