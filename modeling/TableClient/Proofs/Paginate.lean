import TableClient.Paginate
import TableClient.Proofs.Aggregation
import TableClient.Proofs.KeyMap
import TableClient.Proofs.Send
import Mathlib.Data.List.Chain
import Mathlib.Data.List.Induction

/-! What fetching pages comes to.

Pages are fetched until one has no cursor, the items are as many as asked for, or one page was
all that was asked for (`Paging.IsDone`). Every request but the first is the first with the
cursor of the page before it, and the pages together hold their items, cut at the limit, their
counts and their capacity (`Paging.collected`). A request that fails ends the fetching with its
failure. `paginate_follows` says that the plays of a call are exactly those that go this way,
for queries, scans and lists of tables. -/
namespace TableClient

/-! ### What pages hold together -/

section Pages
variable {υ ι κ : Type}

/-- Whether some pages are enough. -/
def Paging.IsDone (paging : Paging) (pages : List (Page υ ι κ)) : Prop :=
  paging.singlePage ∨ paging.limit.any (· ≤ (pages.flatMap Page.items).length) ∨
    ∃ last ∈ pages.getLast?, last.cursor = none

/-- What is kept of pages: their items up to the limit, the number of the items kept if there are
as many as the limit and else what the pages count, and the cursor of the last if one page was all
that was asked for. -/
def Paging.collected [Add υ] [Zero υ] (paging : Paging) (pages : List (Page υ ι κ)) :
    Aggregate υ ι κ :=
  let items := pages.flatMap Page.items
  let kept := paging.limit.elim items items.take
  { items := kept
    count := if paging.limit.any (· ≤ items.length) then kept.length else (pages.map Page.count).sum
    scannedCount := (pages.map Page.scannedCount).sum
    capacity := ConsumedCapacity.total (pages.filterMap Page.capacity)
    cursor := if paging.singlePage then pages.getLast?.bind Page.cursor else none }

theorem Aggregate.truncate?_of_not_any {a : Aggregate υ ι κ} {limit : Option Nat}
    (h : ¬limit.any (· ≤ a.items.length)) : a.truncate? limit = a := by
  cases limit with
  | none => rfl
  | some limit => exact if_neg (by simpa using h)

variable [Add υ] [Zero υ]

/-- What is kept of pages is their sum, truncated. -/
theorem Paging.collected_eq (paging : Paging) (pages : List (Page υ ι κ)) :
    paging.collected pages =
      Aggregate.truncate?
        { Aggregate.ofPages pages with
          cursor := if paging.singlePage then pages.getLast?.bind Page.cursor else none }
        paging.limit := by
  rw [Aggregate.ofPages_eq]
  obtain ⟨limit, singlePage⟩ := paging
  cases limit with
  | none => rfl
  | some limit =>
    by_cases h : limit ≤ (pages.flatMap Page.items).length
    · simp only [collected, Aggregate.truncate?, Aggregate.truncate, Option.elim_some,
        Option.any_some, decide_eq_true h, if_true, if_pos h]
    · have htake : (pages.flatMap Page.items).take limit = pages.flatMap Page.items :=
        List.take_of_length_le (by omega)
      simp only [collected, Aggregate.truncate?, Aggregate.truncate, Option.elim_some,
        Option.any_some, decide_eq_false h, if_neg h, htake, Bool.false_eq_true, if_false]

/-- Where more than one page may be fetched, no cursor is kept. -/
theorem Paging.collected_of_not_singlePage {paging : Paging} (h : ¬paging.singlePage)
    (pages : List (Page υ ι κ)) :
    paging.collected pages = (Aggregate.ofPages pages).truncate? paging.limit := by
  rw [collected_eq, if_neg h, Aggregate.ofPages_eq]

end Pages

/-! ### Following cursors -/

/-- Of a chain, all but the first come after some member. -/
theorem exists_before {ε : Type} {R : ε → ε → Prop} {first : ε} {rest : List ε}
    (h : (first :: rest).IsChain R) {after : ε} (hafter : after ∈ rest) :
    ∃ before, R before after := by
  induction rest generalizing first with
  | nil => cases hafter
  | cons second rest ih =>
    obtain ⟨hsecond, hrest⟩ := List.isChain_cons_cons.1 h
    rcases List.mem_cons.1 hafter with rfl | hafter
    · exact ⟨first, hsecond⟩
    · exact ih hrest hafter

section Following
variable {s : Settings} {op : Operation} {ι κ : Type} {paged : Paged op ι κ} {paging : Paging}

/-- The pages that requests brought. -/
def Paged.pages (paged : Paged op ι κ) (sends : List (Sent s op)) : List (Page Float ι κ) :=
  sends.filterMap fun sent => sent.outcome.toOption.map paged.page

/-- Whether a request starts at the cursor of the page that another brought, and else is the first
request. -/
def Paged.Continues (paged : Paged op ι κ) (request : op.Request) (before after : Sent s op) :
    Prop :=
  ∃ reply cursor, before.outcome = .ok reply ∧ (paged.page reply).cursor = some cursor ∧
    after.request = paged.resume request cursor

/-- Whether requests, sent after some pages were there, follow the cursors of their pages in no
more than a number of rounds, and come to a result. -/
structure Paged.Follows (paged : Paged op ι κ) (paging : Paging) (rounds : Nat)
    (earlier : List (Page Float ι κ)) (request : op.Request) (sends : List (Sent s op))
    (result : Option (Outcome (Aggregate Float ι κ))) : Prop where
  first : ∀ sent ∈ sends.head?, sent.request = request
  next : sends.IsChain (paged.Continues request)
  /-- Nothing is sent once the pages are enough. -/
  going : ∀ n, 0 < n → n < sends.length → ¬paging.IsDone (earlier ++ paged.pages (sends.take n))
  within : sends.length ≤ rounds
  /-- The last request fails, or the pages are enough, or there are no rounds left. -/
  ending :
    (∃ last ∈ sends.getLast?, ∃ e, last.outcome = .error e ∧ result = some (.error e)) ∨
    (sends ≠ [] ∧ (∀ sent ∈ sends, ∃ reply, sent.outcome = .ok reply) ∧
      paging.IsDone (earlier ++ paged.pages sends) ∧
      result = some (.ok (paging.collected (earlier ++ paged.pages sends)))) ∨
    (sends.length = rounds ∧ (∀ sent ∈ sends, ∃ reply, sent.outcome = .ok reply) ∧
      (sends ≠ [] → ¬paging.IsDone (earlier ++ paged.pages sends)) ∧ result = none)

/-- A cursor replaces the one before. -/
def Paged.Overwrites (paged : Paged op ι κ) : Prop :=
  ∀ request cursor, paged.resume (paged.resume request cursor) = paged.resume request

/-- Where there is not enough yet, the last page has a cursor. -/
theorem Paging.exists_cursor {earlier : List (Page Float ι κ)} {page : Page Float ι κ}
    (h : ¬paging.IsDone (earlier ++ [page])) : ∃ cursor, page.cursor = some cursor := by
  refine Option.ne_none_iff_exists'.1 fun hnone => h (.inr (.inr ⟨page, ?_, hnone⟩))
  simp

/-- A round asks for a page. It fails, or the page is enough, or the next round starts at the
cursor of the page. -/
theorem plays_paginateFrom_succ {rounds : Nat} {request : op.Request}
    {earlier : List (Page Float ι κ)} {es : List Exchange}
    {result : Option (Outcome (Aggregate Float ι κ))} :
    (paginateFrom s paged paging (rounds + 1) request (.ofPages earlier)).run.Plays es result ↔
      ∃ sent : Sent s op, sent.request = request ∧
        ((∃ e, sent.outcome = .error e ∧ es = sent.exchanges ∧ result = some (.error e)) ∨
          ∃ reply, sent.outcome = .ok reply ∧
            ((paging.IsDone (earlier ++ [paged.page reply]) ∧ es = sent.exchanges ∧
                result = some (.ok (paging.collected (earlier ++ [paged.page reply])))) ∨
              (¬paging.IsDone (earlier ++ [paged.page reply]) ∧
                ∃ cursor rest, (paged.page reply).cursor = some cursor ∧
                  es = sent.exchanges ++ rest ∧
                  (paginateFrom s paged paging rounds (paged.resume request cursor)
                    (.ofPages (earlier ++ [paged.page reply]))).run.Plays rest result))) := by
  rw [paginateFrom, plays_send_bind]
  refine exists_congr fun sent => and_congr_right fun _ =>
    or_congr_right (exists_congr fun reply => ?_)
  simp only [← Aggregate.ofPages_append]
  generalize hpages : earlier ++ [paged.page reply] = pages
  have hlast : pages.getLast? = some (paged.page reply) := by simp [← hpages]
  generalize hcall : (if paging.singlePage = true then _ else _ : Call (Aggregate Float ι κ)) = call
  have hdone (h : paging.IsDone pages) : call = pure (paging.collected pages) := by
    rw [← hcall]
    by_cases hsingle : paging.singlePage = true
    · rw [if_pos hsingle, Paging.collected_eq, if_pos hsingle, hlast]
      rfl
    · rw [if_neg hsingle, Paging.collected_of_not_singlePage hsingle]
      by_cases hlimit : paging.limit.any (· ≤ (Aggregate.ofPages pages).items.length) = true
      · rw [if_pos hlimit]
      · have hnone : (paged.page reply).cursor = none := by
          rw [Aggregate.ofPages_eq] at hlimit
          obtain ⟨last, hmem, hcursor⟩ := (h.resolve_left hsingle).resolve_left hlimit
          obtain rfl := Option.some.inj (hlast.symm.trans hmem)
          exact hcursor
        rw [if_neg hlimit, hnone, Aggregate.truncate?_of_not_any hlimit]
  have hgoing {cursor : κ} (h : ¬paging.IsDone pages)
      (hcursor : (paged.page reply).cursor = some cursor) :
      call = paginateFrom s paged paging rounds (paged.resume request cursor) (.ofPages pages) := by
    simp only [Paging.IsDone, not_or] at h
    rw [← hcall, if_neg h.1, if_neg ?_, hcursor]
    rw [Aggregate.ofPages_eq]
    exact h.2.1
  constructor
  · rintro ⟨rest, houtcome, rfl, hrest⟩
    refine ⟨houtcome, ?_⟩
    by_cases h : paging.IsDone pages
    · rw [hdone h] at hrest
      obtain ⟨rfl, rfl⟩ := hrest
      exact .inl ⟨h, by simp, rfl⟩
    · obtain ⟨cursor, hcursor⟩ := Paging.exists_cursor (hpages ▸ h)
      rw [hgoing h hcursor] at hrest
      exact .inr ⟨h, cursor, rest, hcursor, rfl, hrest⟩
  · rintro ⟨houtcome, ⟨h, rfl, rfl⟩ | ⟨h, cursor, rest, hcursor, rfl, hrest⟩⟩
    · refine ⟨[], houtcome, by simp, ?_⟩
      rw [hdone h]
      exact ⟨rfl, rfl⟩
    · refine ⟨rest, houtcome, rfl, ?_⟩
      rw [hgoing h hcursor]
      exact hrest

theorem Paged.pages_cons {sent : Sent s op} {reply : op.Reply} (h : sent.outcome = .ok reply)
    (rest : List (Sent s op)) :
    paged.pages (sent :: rest) = paged.page reply :: paged.pages rest := by
  simp [pages, h, Except.toOption]

theorem Paged.continues_iff {sent after : Sent s op} {request : op.Request} {reply : op.Reply}
    {cursor : κ} (houtcome : sent.outcome = .ok reply)
    (hcursor : (paged.page reply).cursor = some cursor) :
    paged.Continues request sent after ↔ after.request = paged.resume request cursor := by
  simp [Continues, houtcome, hcursor]

namespace Paged.Follows
variable {rounds : Nat} {earlier : List (Page Float ι κ)} {request : op.Request}
  {result : Option (Outcome (Aggregate Float ι κ))}

theorem zero {sends : List (Sent s op)} :
    paged.Follows paging 0 earlier request sends result ↔ sends = [] ∧ result = none := by
  constructor
  · intro h
    obtain rfl : sends = [] := List.eq_nil_of_length_eq_zero (Nat.le_zero.1 h.within)
    rcases h.ending with ⟨last, hlast, -⟩ | ⟨hne, -⟩ | ⟨-, -, -, hresult⟩
    · cases hlast
    · exact absurd rfl hne
    · exact ⟨rfl, hresult⟩
  · rintro ⟨rfl, rfl⟩
    exact ⟨by simp, .nil, by simp, by simp, .inr (.inr ⟨rfl, by simp, by simp, rfl⟩)⟩

/-- Where there are rounds left, something is sent. -/
theorem ne_nil {sends : List (Sent s op)}
    (h : paged.Follows paging (rounds + 1) earlier request sends result) : sends ≠ [] := by
  rintro rfl
  rcases h.ending with ⟨last, hlast, -⟩ | ⟨hne, -⟩ | ⟨hlength, -⟩
  · cases hlast
  · exact hne rfl
  · cases hlength

/-- Requests that come to a value were enough, and the value is what their pages hold. -/
theorem eq_collected {sends : List (Sent s op)} {total : Aggregate Float ι κ}
    (h : paged.Follows paging rounds earlier request sends (some (.ok total))) :
    sends ≠ [] ∧ total = paging.collected (earlier ++ paged.pages sends) := by
  rcases h.ending with ⟨last, -, e, -, hresult⟩ | ⟨hne, -, -, hresult⟩ | ⟨-, -, -, hresult⟩
  · cases hresult
  · cases hresult
    exact ⟨hne, rfl⟩
  · cases hresult

/-- Every request is the first one, from there or from some cursor on. -/
theorem eq_or_resumed {sends : List (Sent s op)}
    (h : paged.Follows paging rounds earlier request sends result) :
    ∀ sent ∈ sends,
      sent.request = request ∨ ∃ cursor, sent.request = paged.resume request cursor := by
  cases sends with
  | nil => simp
  | cons first rest =>
    refine List.forall_mem_cons.2 ⟨.inl (h.first first rfl), fun after hafter => .inr ?_⟩
    obtain ⟨before, reply, cursor, -, -, hrequest⟩ := exists_before h.next hafter
    exact ⟨cursor, hrequest⟩

/-- Requests that come to nothing are as many as there are rounds. -/
theorem length_of_cut {sends : List (Sent s op)}
    (h : paged.Follows paging rounds earlier request sends none) : sends.length = rounds := by
  rcases h.ending with ⟨last, -, e, -, hresult⟩ | ⟨-, -, -, hresult⟩ | ⟨hlength, -⟩
  · cases hresult
  · cases hresult
  · exact hlength

/-- If requests come to a failure, something else than a reply arrived. -/
theorem exists_miss {sends : List (Sent s op)} {e : Failure}
    (h : paged.Follows paging rounds earlier request sends (some (.error e))) :
    ∃ x ∈ sends.flatMap Sent.exchanges, x.arrival.IsMiss := by
  rcases h.ending with ⟨last, hlast, e', he, -⟩ | ⟨-, -, -, hresult⟩ | ⟨-, -, -, hresult⟩
  · obtain ⟨x, hx, hmiss⟩ := last.exists_miss he
    exact ⟨x, List.mem_flatMap.2 ⟨last, List.mem_of_getLast? hlast, hx⟩, hmiss⟩
  · cases hresult
  · cases hresult

/-- A request that failed is the only one. -/
theorem failed {sent : Sent s op} {rest : List (Sent s op)} {e : Failure}
    (houtcome : sent.outcome = .error e) :
    paged.Follows paging (rounds + 1) earlier request (sent :: rest) result ↔
      sent.request = request ∧ rest = [] ∧ result = some (.error e) := by
  constructor
  · intro h
    obtain rfl : rest = [] := by
      cases rest with
      | nil => rfl
      | cons after rest =>
        obtain ⟨reply, cursor, hreply, -⟩ := (List.isChain_cons_cons.1 h.next).1
        simp [houtcome] at hreply
    refine ⟨h.first sent rfl, rfl, ?_⟩
    rcases h.ending with ⟨last, hlast, e', he', hresult⟩ | ⟨-, hok, -⟩ | ⟨-, hok, -⟩
    · obtain rfl : sent = last := by simpa using hlast
      rw [houtcome] at he'
      cases he'
      exact hresult
    all_goals
      obtain ⟨reply, hreply⟩ := hok sent (by simp)
      simp [houtcome] at hreply
  · rintro ⟨hrequest, rfl, rfl⟩
    refine ⟨by simpa using hrequest, .singleton _, ?_, by simp, .inl ⟨sent, rfl, e, houtcome, rfl⟩⟩
    intro n hpos hn
    simp only [List.length_singleton] at hn
    omega

/-- A request whose page is enough is the only one. -/
theorem done {sent : Sent s op} {rest : List (Sent s op)} {reply : op.Reply}
    (houtcome : sent.outcome = .ok reply)
    (hdone : paging.IsDone (earlier ++ [paged.page reply])) :
    paged.Follows paging (rounds + 1) earlier request (sent :: rest) result ↔
      sent.request = request ∧ rest = [] ∧
        result = some (.ok (paging.collected (earlier ++ [paged.page reply]))) := by
  have hpages : paged.pages [sent] = [paged.page reply] := pages_cons houtcome []
  constructor
  · intro h
    obtain rfl : rest = [] := by
      cases rest with
      | nil => rfl
      | cons after rest =>
        refine absurd ?_ (h.going 1 (by simp) (by simp))
        simpa [hpages] using hdone
    refine ⟨h.first sent rfl, rfl, ?_⟩
    rcases h.ending with ⟨last, hlast, e, he, -⟩ | ⟨-, -, -, hresult⟩ | ⟨-, -, hnot, -⟩
    · obtain rfl : sent = last := by simpa using hlast
      simp [houtcome] at he
    · rw [hresult, hpages]
    · exact absurd (hpages ▸ hdone) (hnot (by simp))
  · rintro ⟨hrequest, rfl, rfl⟩
    refine ⟨by simpa using hrequest, .singleton _, ?_, by simp, .inr (.inl ?_)⟩
    · intro n hpos hn
      simp only [List.length_singleton] at hn
      omega
    · rw [hpages]
      exact ⟨by simp, by simp [houtcome], hdone, rfl⟩

/-- A request whose page is not enough is followed by those from its cursor on. -/
theorem turned (hpaged : paged.Overwrites) {sent : Sent s op} {rest : List (Sent s op)}
    {reply : op.Reply} {cursor : κ} (houtcome : sent.outcome = .ok reply)
    (hgoing : ¬paging.IsDone (earlier ++ [paged.page reply]))
    (hcursor : (paged.page reply).cursor = some cursor) :
    paged.Follows paging (rounds + 1) earlier request (sent :: rest) result ↔
      sent.request = request ∧
        paged.Follows paging rounds (earlier ++ [paged.page reply]) (paged.resume request cursor)
          rest result := by
  have hpages (l : List (Sent s op)) :
      earlier ++ [paged.page reply] ++ paged.pages l = earlier ++ paged.pages (sent :: l) := by
    rw [pages_cons houtcome, List.append_assoc, List.singleton_append]
  -- the rest continues the resumed request just as it continues the first one
  have hresumed :
      paged.Continues (s := s) (paged.resume request cursor) = paged.Continues request := by
    unfold Continues
    rw [hpaged]
  constructor
  · intro h
    obtain ⟨hafter, hnext⟩ := List.isChain_cons.1 h.next
    refine ⟨h.first sent rfl, fun after h => (continues_iff houtcome hcursor).1 (hafter after h),
      hresumed ▸ hnext, ?_, ?_, ?_⟩
    · intro n hpos hn
      rw [hpages, ← List.take_succ_cons]
      exact h.going (n + 1) (by omega) (by simpa using hn)
    · simpa using h.within
    · rcases h.ending with ⟨last, hlast, e, he, hresult⟩ | ⟨-, hok, hdone, hresult⟩ |
        ⟨hlength, hok, hnot, hresult⟩
      · refine .inl ⟨last, ?_, e, he, hresult⟩
        cases rest with
        | nil =>
          obtain rfl : sent = last := by simpa using hlast
          simp [houtcome] at he
        | cons after rest => rwa [List.getLast?_cons_cons] at hlast
      · rw [← hpages] at hdone hresult
        refine .inr (.inl ⟨?_, fun m hm => hok m (List.mem_cons_of_mem _ hm), hdone, hresult⟩)
        rintro rfl
        exact hgoing (by simpa [pages] using hdone)
      · refine .inr (.inr ⟨by simpa using hlength,
          fun m hm => hok m (List.mem_cons_of_mem _ hm), fun _ => ?_, hresult⟩)
        rw [hpages]
        exact hnot (by simp)
  · rintro ⟨hrequest, h⟩
    refine ⟨by simpa using hrequest, ?_, ?_, ?_, ?_⟩
    · refine List.isChain_cons.2 ⟨fun after hafter => ?_, hresumed ▸ h.next⟩
      exact (continues_iff houtcome hcursor).2 (h.first after hafter)
    · intro n hpos hn
      obtain ⟨n, rfl⟩ := Nat.exists_eq_add_of_lt hpos
      rw [Nat.zero_add, List.take_succ_cons, ← hpages]
      cases n with
      | zero => simpa [pages] using hgoing
      | succ n => exact h.going (n + 1) (by omega) (by simpa using hn)
    · simpa using h.within
    · rcases h.ending with ⟨last, hlast, e, he, hresult⟩ | ⟨hne, hok, hdone, hresult⟩ |
        ⟨hlength, hok, hnot, hresult⟩
      · refine .inl ⟨last, ?_, e, he, hresult⟩
        rw [Option.mem_def] at hlast
        simp [List.getLast?_cons, hlast]
      · rw [hpages] at hdone hresult
        exact .inr (.inl ⟨by simp, List.forall_mem_cons.2 ⟨⟨reply, houtcome⟩, hok⟩, hdone, hresult⟩)
      · refine .inr (.inr ⟨by simpa using hlength,
          List.forall_mem_cons.2 ⟨⟨reply, houtcome⟩, hok⟩, fun _ => ?_, hresult⟩)
        rw [← hpages]
        cases rest with
        | nil => simpa [pages] using hgoing
        | cons after rest => exact hnot (by simp)

/-- What holds of the first request and the pages before it, and of the next request and its pages
where it held of the one before, holds of the request whose page is the last. -/
theorem exists_last (hpaged : paged.Overwrites) {I : op.Request → List (Page Float ι κ) → Prop}
    {R : op.Request → op.Reply → Prop} {sends : List (Sent s op)} {total : Aggregate Float ι κ}
    (h : paged.Follows paging rounds earlier request sends (some (.ok total)))
    (hanswered : Answered op R (sends.flatMap Sent.exchanges)) (hfirst : I request earlier)
    (hnext : ∀ {request pages reply cursor}, I request pages → R request reply →
      (paged.page reply).cursor = some cursor →
      I (paged.resume request cursor) (pages ++ [paged.page reply])) :
    ∃ (last : op.Request) (before : List (Page Float ι κ)) (reply : op.Reply),
      I last before ∧ R last reply ∧ paging.IsDone (before ++ [paged.page reply]) ∧
        total = paging.collected (before ++ [paged.page reply]) := by
  induction sends generalizing rounds earlier request with
  | nil => exact absurd rfl h.eq_collected.1
  | cons sent rest ih =>
    obtain ⟨rounds, rfl⟩ : ∃ more, rounds = more + 1 :=
      Nat.exists_eq_succ_of_ne_zero (Nat.pos_iff_ne_zero.1 (Nat.lt_of_lt_of_le (by simp) h.within))
    cases houtcome : sent.outcome with
    | error e => cases ((failed houtcome).1 h).2.2
    | ok reply =>
      have hreply : R request reply :=
        h.first sent rfl ▸ sent.replied hanswered (List.subset_append_left _ _) houtcome
      by_cases hdone : paging.IsDone (earlier ++ [paged.page reply])
      · cases ((done houtcome hdone).1 h).2.2
        exact ⟨request, earlier, reply, hfirst, hreply, hdone, rfl⟩
      · obtain ⟨cursor, hcursor⟩ := Paging.exists_cursor hdone
        obtain ⟨-, hrest⟩ := (turned hpaged houtcome hdone hcursor).1 h
        exact ih hrest (hanswered.mono (List.subset_append_right _ _))
          (hnext hfirst hreply hcursor)

end Paged.Follows

/-- The plays of a call that fetches pages after some others are those that follow the cursors. -/
theorem plays_paginateFrom (hpaged : paged.Overwrites) {rounds : Nat} {request : op.Request}
    {earlier : List (Page Float ι κ)} {es : List Exchange}
    {result : Option (Outcome (Aggregate Float ι κ))} :
    (paginateFrom s paged paging rounds request (.ofPages earlier)).run.Plays es result ↔
      ∃ sends : List (Sent s op), es = sends.flatMap Sent.exchanges ∧
        paged.Follows paging rounds earlier request sends result := by
  induction rounds generalizing request earlier es with
  | zero =>
    simp only [Paged.Follows.zero]
    constructor
    · rintro ⟨rfl, rfl⟩
      exact ⟨[], rfl, rfl, rfl⟩
    · rintro ⟨_, rfl, rfl, rfl⟩
      exact ⟨rfl, rfl⟩
  | succ rounds ih =>
    rw [plays_paginateFrom_succ]
    constructor
    · rintro ⟨sent, hrequest, ⟨e, houtcome, rfl, rfl⟩ | ⟨reply, houtcome, ⟨hdone, rfl, rfl⟩ |
        ⟨hgoing, cursor, rest, hcursor, rfl, hrest⟩⟩⟩
      · exact ⟨[sent], by simp, (Paged.Follows.failed houtcome).2 ⟨hrequest, rfl, rfl⟩⟩
      · exact ⟨[sent], by simp, (Paged.Follows.done houtcome hdone).2 ⟨hrequest, rfl, rfl⟩⟩
      · obtain ⟨sends, rfl, hsends⟩ := ih.1 hrest
        exact ⟨sent :: sends, by simp,
          (Paged.Follows.turned hpaged houtcome hgoing hcursor).2 ⟨hrequest, hsends⟩⟩
    · rintro ⟨sends, rfl, h⟩
      cases sends with
      | nil => exact absurd rfl h.ne_nil
      | cons sent rest =>
        refine ⟨sent, h.first sent rfl, ?_⟩
        cases houtcome : sent.outcome with
        | error e =>
          obtain ⟨-, rfl, rfl⟩ := (Paged.Follows.failed houtcome).1 h
          exact .inl ⟨e, rfl, by simp, rfl⟩
        | ok reply =>
          refine .inr ⟨reply, rfl, ?_⟩
          by_cases hdone : paging.IsDone (earlier ++ [paged.page reply])
          · obtain ⟨-, rfl, rfl⟩ := (Paged.Follows.done houtcome hdone).1 h
            exact .inl ⟨hdone, by simp, rfl⟩
          · obtain ⟨cursor, hcursor⟩ := Paging.exists_cursor hdone
            obtain ⟨-, hrest⟩ := (Paged.Follows.turned hpaged houtcome hdone hcursor).1 h
            exact .inr ⟨hdone, cursor, _, hcursor, rfl, ih.2 ⟨rest, rfl, hrest⟩⟩

/-- The plays of a call that fetches pages are those in which requests follow cursors. -/
def Paged.FollowsCursors (paged : Paged op ι κ) : Prop :=
  ∀ (s : Settings) (rounds : Nat) (request : op.Request) (paging : Paging) (es : List Exchange)
    (result : Option (Outcome (Aggregate Float ι κ))),
    (paginate s paged rounds request paging).run.Plays es result ↔
      ∃ sends : List (Sent s op), es = sends.flatMap Sent.exchanges ∧
        paged.Follows paging rounds [] request sends result

theorem Paged.Overwrites.followsCursors (hpaged : paged.Overwrites) : paged.FollowsCursors := by
  intro s rounds request paging es result
  show (paginateFrom s paged paging rounds request (.ofPages [])).run.Plays es result ↔ _
  exact plays_paginateFrom hpaged

/-- A call is cut only where it has used up its rounds. -/
theorem Paged.FollowsCursors.rounds_le (hpaged : paged.FollowsCursors) {rounds : Nat}
    {request : op.Request} {es : List Exchange}
    (h : (paginate s paged rounds request paging).run.Plays es none) : rounds ≤ es.length := by
  obtain ⟨sends, rfl, hsends⟩ := (hpaged s rounds request paging es none).1 h
  rw [← hsends.length_of_cut, List.length_flatMap]
  refine (List.length_map _).symm.trans_le (List.length_le_sum_of_one_le _ ?_)
  intro n hn
  obtain ⟨sent, -, rfl⟩ := List.mem_map.1 hn
  exact sent.length_pos

/-- A call fails only where something else than a reply arrived. -/
theorem Paged.FollowsCursors.exists_miss (hpaged : paged.FollowsCursors) {rounds : Nat}
    {request : op.Request} {es : List Exchange} {e : Failure}
    (h : (paginate s paged rounds request paging).run.Plays es (some (.error e))) :
    ∃ x ∈ es, x.arrival.IsMiss := by
  obtain ⟨sends, rfl, hsends⟩ := (hpaged s rounds request paging es _).1 h
  exact hsends.exists_miss

/-- A call whose first page is enough. -/
theorem plays_paginate_done {rounds : Nat} {request : op.Request} {reply : op.Reply}
    (h : paging.IsDone [paged.page reply]) :
    (paginate s paged (rounds + 1) request paging).run.Plays [⟨op, request, .reply reply⟩]
      (some (.ok (paging.collected [paged.page reply]))) := by
  show (paginateFrom s paged paging (rounds + 1) request (.ofPages [])).run.Plays _ _
  rw [plays_paginateFrom_succ]
  exact ⟨.answered s op request reply, rfl, .inr ⟨reply, rfl, .inl ⟨h, rfl, rfl⟩⟩⟩

/-- A page that goes on is not enough while the items are fewer than the limit. -/
theorem Paging.not_isDone {page : Page Float ι κ} {cursor : κ}
    (hsingle : paging.singlePage = false)
    (hfew : paging.limit.any (· ≤ page.items.length) = false)
    (hcursor : page.cursor = some cursor) : ¬paging.IsDone [page] := by
  rintro (h | h | ⟨last, hlast, hnone⟩)
  · simp [hsingle] at h
  · simp [hfew] at h
  · obtain rfl := Option.some.inj hlast
    cases hcursor.symm.trans hnone

/-- Two pages, the first of which is not enough and the second of which is. -/
theorem plays_paginate_turned {s : Settings} {paging : Paging} (hpaged : paged.Overwrites)
    {rounds : Nat} {request : op.Request} {first last : op.Reply} {cursor : κ}
    (hgoing : ¬paging.IsDone [paged.page first]) (hcursor : (paged.page first).cursor = some cursor)
    (hdone : paging.IsDone [paged.page first, paged.page last]) :
    (paginate s paged (rounds + 2) request paging).run.Plays
      [⟨op, request, .reply first⟩, ⟨op, paged.resume request cursor, .reply last⟩]
      (some (.ok (paging.collected [paged.page first, paged.page last]))) := by
  refine (hpaged.followsCursors s (rounds + 2) request paging _ _).2
    ⟨[.answered s op request first, .answered s op (paged.resume request cursor) last], rfl, ?_⟩
  refine (Paged.Follows.turned hpaged rfl hgoing hcursor).2 ⟨rfl, ?_⟩
  exact (Paged.Follows.done rfl hdone).2 ⟨rfl, rfl, rfl⟩

/-! ### Where requests start -/

end Following

/-! ### What pages hold -/

end TableClient
