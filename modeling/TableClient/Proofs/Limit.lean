import TableClient.Proofs.Segments
import Mathlib.Algebra.Order.BigOperators.Group.List
import Mathlib.Algebra.Order.Group.Nat

/-! What a limit does to a call that fetches pages.

The limit is one on items: fetching stops once the pages hold as many, and what they hold is cut to
them (`Paged.Follows.keepsLimit`). What the pages count is only added up. Where no page counts more
than it holds, the limit bounds the count as well. A read that asks for counts alone gets pages
without items, so it goes on to the end, and its count is that of all pages
(`paginate_limited_counting`). -/
namespace TableClient

section Pages
variable {υ ι κ : Type}

/-- How many items some pages hold. -/
def Page.received (pages : List (Page υ ι κ)) : Nat := (pages.flatMap Page.items).length

/-- How many items some pages count. -/
def Page.counted (pages : List (Page υ ι κ)) : Nat := (pages.map Page.count).sum

/-- Pages that count no more than they hold do so together. -/
theorem Page.counted_le_received {pages : List (Page υ ι κ)}
    (h : ∀ page ∈ pages, page.count ≤ page.items.length) : counted pages ≤ received pages := by
  rw [counted, received, List.length_flatMap]
  exact List.sum_le_sum h

end Pages

section Limit
variable {s : Settings} {op : Operation} {ι κ : Type} {paged : Paged op ι κ} {limit : Nat}

/-- Whether nothing is sent once the pages count as many items as a limit. -/
def Paged.StopsCounting (paged : Paged op ι κ) (limit : Nat) (sends : List (Sent s op)) : Prop :=
  ∀ n, 0 < n → n < sends.length → Page.counted (paged.pages (sends.take n)) < limit

/-- What is sent under a limit, and what is returned. -/
structure Paged.KeepsLimit (paged : Paged op ι κ) (limit : Nat) (sends : List (Sent s op))
    (total : Aggregate Float ι κ) : Prop where
  /-- Items are returned up to the limit. -/
  items : total.items = ((paged.pages sends).flatMap Page.items).take limit
  /-- The items that are returned are counted if they are as many as the limit. If not, the pages
  say how many there are. -/
  count : total.count =
    if limit ≤ Page.received (paged.pages sends) then total.items.length
    else Page.counted (paged.pages sends)
  /-- Nothing is sent once the pages hold as many items as the limit. -/
  stops : ∀ n, 0 < n → n < sends.length → Page.received (paged.pages (sends.take n)) < limit
  /-- Fetching ends where the pages hold as many items as the limit, or there are no more pages. -/
  ends : limit ≤ Page.received (paged.pages sends) ∨
    ∃ last ∈ (paged.pages sends).getLast?, last.cursor = none
  /-- Where no page counts more than it holds, the limit is one on what is counted. -/
  bounds : (∀ page ∈ paged.pages sends, page.count ≤ page.items.length) →
    total.count ≤ limit ∧ paged.StopsCounting limit sends

/-- Requests that follow cursors under a limit keep it. -/
theorem Paged.Follows.keepsLimit {rounds : Nat} {request : op.Request} {sends : List (Sent s op)}
    {total : Aggregate Float ι κ}
    (h : paged.Follows { limit := some limit } rounds [] request sends (some (.ok total))) :
    paged.KeepsLimit limit sends total := by
  obtain ⟨-, htotal⟩ := h.eq_collected
  rw [List.nil_append] at htotal
  have hitems : total.items = ((paged.pages sends).flatMap Page.items).take limit := by
    rw [htotal]
    rfl
  have hcount : total.count =
      if limit ≤ Page.received (paged.pages sends) then total.items.length
      else Page.counted (paged.pages sends) := by
    rw [hitems, htotal]
    simp only [Paging.collected, Option.any_some, Option.elim_some, decide_eq_true_eq]
    rfl
  have hstops (n : Nat) (hpos : 0 < n) (hn : n < sends.length) :
      Page.received (paged.pages (sends.take n)) < limit := by
    have hgoing := h.going n hpos hn
    simp only [Paging.IsDone, not_or, List.nil_append, Option.any_some, decide_eq_true_eq] at hgoing
    exact Nat.lt_of_not_le hgoing.2.1
  have hends : limit ≤ Page.received (paged.pages sends) ∨
      ∃ last ∈ (paged.pages sends).getLast?, last.cursor = none := by
    rcases h.ending with ⟨-, -, e, -, hresult⟩ | ⟨-, -, hdone, -⟩ | ⟨-, -, -, hresult⟩
    · cases hresult
    · rw [List.nil_append] at hdone
      exact (hdone.resolve_left (by simp)).imp_left of_decide_eq_true
    · cases hresult
  refine ⟨hitems, hcount, hstops, hends, fun hpages => ⟨?_, fun n hpos hn => ?_⟩⟩
  · rw [hcount, hitems, List.length_take]
    split
    · exact Nat.min_le_left _ _
    · next hfew => exact (Page.counted_le_received hpages).trans (Nat.le_of_not_le hfew)
  · -- the first pages are among all of them
    have hfirst (page : Page Float ι κ) (hpage : page ∈ paged.pages (sends.take n)) :
        page.count ≤ page.items.length :=
      hpages page (((List.take_sublist n sends).filterMap _).subset hpage)
    exact (Page.counted_le_received hfirst).trans_lt (hstops n hpos hn)

/-- A call that has rounds left and meets no failure has a value. -/
theorem Paged.FollowsCursors.exists_total (hpaged : paged.FollowsCursors) {rounds : Nat}
    {request : op.Request} {paging : Paging} {es : List Exchange}
    {result : Option (Outcome (Aggregate Float ι κ))}
    (h : (paginate s paged rounds request paging).run.Plays es result)
    (hrounds : es.length < rounds) (hmet : MeetsNoFailure es result) :
    ∃ total, result = some (.ok total) := by
  rcases result with _ | e | total
  · exact absurd (hpaged.rounds_le h) (by omega)
  · rcases hmet with hreplies | hresult
    · obtain ⟨x, hx, hmiss⟩ := hpaged.exists_miss h
      exact absurd hmiss (hreplies x hx)
    · exact absurd rfl (hresult e)
  · exact ⟨total, rfl⟩

/-- Whether a call that fetches pages under a limit returns something if it meets no failure, and
keeps the limit. -/
def Paged.IsLimited (paged : Paged op ι κ) : Prop :=
  ∀ (s : Settings) (rounds limit : Nat) (request : op.Request) (es : List Exchange)
    (result : Option (Outcome (Aggregate Float ι κ))),
    (paginate s paged rounds request { limit := some limit }).run.Plays es result →
    es.length < rounds → MeetsNoFailure es result →
    ∃ (total : Aggregate Float ι κ) (sends : List (Sent s op)),
      result = some (.ok total) ∧ es = sends.flatMap Sent.exchanges ∧
        paged.KeepsLimit limit sends total

theorem Paged.Overwrites.isLimited (hpaged : paged.Overwrites) : paged.IsLimited := by
  intro s rounds limit request es result h hrounds hmet
  obtain ⟨total, rfl⟩ := hpaged.followsCursors.exists_total h hrounds hmet
  obtain ⟨sends, rfl, hsends⟩ := (hpaged.followsCursors s rounds request _ es _).1 h
  exact ⟨total, sends, rfl, rfl, hsends.keepsLimit⟩

end Limit

/-- **A limit is one on items. A query or a scan that follows its pages under a limit returns
their items up to the limit, and asks for no page once they are as many. It counts what it returns
if that is as many as the limit, and adds up what the pages count if not; only where no page counts
more than it holds is that bounded by the limit too.** -/
theorem paginate_limited : Paged.query.IsLimited ∧ Paged.scan.IsLimited :=
  ⟨Paged.Overwrites.isLimited fun _ _ => rfl, Paged.scan_overwrites.isLimited⟩

/-! ### Pages with and without items -/

/-- A key from which a page follows. -/
def resumeKey : Key := .ofList [("id", .number "1")]

/-- A page of two items, with or without a key from which others follow. -/
def pairReply (lastKey : Key) : PageReply :=
  { items := StaticTable.numbered 0 2, count := 2, lastKey }

/-- A page that counts three items and holds none. -/
def countReply (lastKey : Key) : PageReply := { count := 3, lastKey }

def pairRequest (startKey : Key) : Scan.Request := { table := "t", startKey }

/-- A request for counts alone. -/
def countRequest (startKey : Key) : Query.Request :=
  { table := "t", startKey, selection := some .count }

/-- Two pages of two items each. -/
def pairExchanges : List Exchange :=
  [⟨.scan, pairRequest ∅, .reply (pairReply resumeKey)⟩,
    ⟨.scan, pairRequest resumeKey, .reply (pairReply ∅)⟩]

/-- Two pages that count three items each. -/
def countSends : List (Sent {} .query) :=
  [.answered {} .query (countRequest ∅) (countReply resumeKey),
    .answered {} .query (countRequest resumeKey) (countReply ∅)]

/-- A page that ends with a key goes on from there. -/
theorem cursor_resumeKey {reply : PageReply} (h : reply.lastKey = resumeKey) :
    reply.page.cursor = some resumeKey :=
  StaticTable.cursor_eq_some_iff.2 ⟨h ▸ KeyMap.single_ne_empty _ _, h⟩

theorem pairExchanges_played :
    (paginate {} Paged.scan 3 (pairRequest ∅) { limit := some 3 }).run.Plays pairExchanges
      (some (.ok { items := StaticTable.numbered 0 2 ++ StaticTable.numbered 0 1, count := 3 })) :=
  plays_paginate_turned Paged.scan_overwrites
    (Paging.not_isDone rfl rfl (cursor_resumeKey rfl)) (cursor_resumeKey rfl)
    (.inr (.inl rfl))

theorem countSends_played :
    (paginate {} Paged.query 3 (countRequest ∅) { limit := some 2 }).run.Plays
      (countSends.flatMap Sent.exchanges) (some (.ok { count := 6 })) :=
  plays_paginate_turned (fun _ _ => rfl)
    (Paging.not_isDone rfl rfl (cursor_resumeKey rfl)) (cursor_resumeKey rfl)
    (.inr (.inr ⟨_, rfl, rfl⟩))

/-- Two pages of two items under a limit of three: three items are returned and counted. -/
theorem paginate_limited_pair :
    let total : Aggregate Float Item Key :=
      { items := StaticTable.numbered 0 2 ++ StaticTable.numbered 0 1, count := 3 }
    (paginate {} Paged.scan 3 (pairRequest ∅) { limit := some 3 }).run.Plays pairExchanges
      (some (.ok total)) ∧
    ∃ sends : List (Sent {} .scan), pairExchanges = sends.flatMap Sent.exchanges ∧
      Paged.scan.KeepsLimit 3 sends total := by
  intro total
  have hplayed := pairExchanges_played
  obtain ⟨total', sends, htotal, hsends, hkeeps⟩ :=
    paginate_limited.2 {} 3 3 (pairRequest ∅) pairExchanges _ hplayed (by decide)
      (.inr fun e h => by cases h)
  cases htotal
  exact ⟨hplayed, sends, hsends, hkeeps⟩

/-- Where pages count more than they hold, a limit bounds neither the count that is returned nor
the requests. -/
theorem paginate_limited_counting :
    ¬(∀ (s : Settings) (rounds limit : Nat) (request : Query.Request) (sends : List (Sent s .query))
        (total : Aggregate Float Item Key), 0 < limit →
      Answered .query (fun _ (reply : PageReply) => 0 ≤ reply.count.toInt)
        (sends.flatMap Sent.exchanges) →
      (paginate s Paged.query rounds request { limit := some limit }).run.Plays
        (sends.flatMap Sent.exchanges) (some (.ok total)) →
      total.count ≤ limit) ∧
    ¬(∀ (s : Settings) (rounds limit : Nat) (request : Query.Request) (sends : List (Sent s .query))
        (total : Aggregate Float Item Key), 0 < limit →
      Answered .query (fun _ (reply : PageReply) => 0 ≤ reply.count.toInt)
        (sends.flatMap Sent.exchanges) →
      (paginate s Paged.query rounds request { limit := some limit }).run.Plays
        (sends.flatMap Sent.exchanges) (some (.ok total)) →
      Paged.query.StopsCounting limit sends) := by
  have hcounts : Answered .query (fun _ (reply : PageReply) => 0 ≤ reply.count.toInt)
      (countSends.flatMap Sent.exchanges) := .cons (by decide) (.cons (by decide) .nil)
  refine ⟨fun hall => ?_, fun hall => ?_⟩
  · have hbound := hall {} 3 2 (countRequest ∅) countSends _ (by decide) hcounts countSends_played
    exact absurd hbound (by decide)
  · have hstops := hall {} 3 2 (countRequest ∅) countSends _ (by decide) hcounts countSends_played
    exact absurd (hstops 1 (by decide) (by decide)) (by decide)

end TableClient
