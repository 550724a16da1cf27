import TableClient.Proofs.Template

/-! Capacity by table.

The replies of a batch report what they consumed table by table, and their reports are added up one
at a time: to the entry of their table if there is one, and else as a new entry at the end. So the
entries are in the order in which their tables first appear, an entry has the units that any report
of its table has, and besides says what the first of them says (`Tabulates`). With an exact addition
the units are sums, whatever the order of the reports, and reports that were added up in groups
before add up to the same entries (`capacity_tabulated`). -/
namespace TableClient

/-! ### First appearances -/

section Distinct
variable {α : Type} [BEq α] [LawfulBEq α]

/-- One more member is new or has appeared before. -/
theorem eraseDups_concat (l : List α) (a : α) :
    (l ++ [a]).eraseDups = if a ∈ l then l.eraseDups else l.eraseDups ++ [a] := by
  rw [List.eraseDups_append]
  split
  · next h => simp [List.removeAll, h]
  · next h => simp [List.removeAll, h, List.eraseDups_cons]

/-- Members that appear again in later lists do not matter, whether they are repeated there or
not. -/
theorem eraseDups_append_congr {l l' : List α} (h : l.eraseDups = l'.eraseDups) (m : List α) :
    (l ++ m.eraseDups).eraseDups = (l' ++ m).eraseDups := by
  have hmem (a : α) : a ∈ l ↔ a ∈ l' := by rw [← List.mem_eraseDups, h, List.mem_eraseDups]
  induction m using List.reverseRecOn with
  | nil => simpa using h
  | append_singleton m a ih =>
    rw [← List.append_assoc, eraseDups_concat (l' ++ m), ← ih, eraseDups_concat m]
    by_cases ha : a ∈ m
    · rw [if_pos ha, if_pos (List.mem_append_right _ ha)]
    · rw [if_neg ha, ← List.append_assoc, eraseDups_concat (l ++ m.eraseDups)]
      simp only [List.mem_append, List.mem_eraseDups, hmem]

/-- What appears first in several lists does so in the lists without repetitions. -/
theorem eraseDups_flatMap_eraseDups {ι : Type} (f : ι → List α) (ls : List ι) :
    (ls.flatMap fun l => (f l).eraseDups).eraseDups = (ls.flatMap f).eraseDups := by
  induction ls using List.reverseRecOn with
  | nil => rfl
  | append_singleton ls l ih =>
    rw [List.flatMap_append, List.flatMap_append, List.flatMap_singleton, List.flatMap_singleton]
    exact eraseDups_append_congr ih _

end Distinct

namespace ConsumedCapacity
variable {υ : Type}

/-! ### Entries -/

/-- The reports of a table, which may be unnamed. -/
def about (t : Option String) (reports : List (ConsumedCapacity υ)) :
    List (ConsumedCapacity υ) :=
  reports.filter fun report => report.table = t

/-- The first entry of a table. -/
def entryOf (t : Option String) (totals : List (ConsumedCapacity υ)) :
    Option (ConsumedCapacity υ) :=
  totals.find? fun total => total.table = t

theorem about_flatten (t : Option String) (parts : List (List (ConsumedCapacity υ))) :
    about t parts.flatten = parts.flatMap (about t) := by
  rw [about, List.filter_flatten, List.flatMap_def]
  rfl

/-- Of tables without repetitions each has one entry. -/
theorem about_of_nodup {totals : List (ConsumedCapacity υ)} (h : (totals.map table).Nodup)
    (t : Option String) : about t totals = (entryOf t totals).toList := by
  induction totals with
  | nil => rfl
  | cons total rest ih =>
    obtain ⟨hfresh, hrest⟩ := List.nodup_cons.1 h
    have hothers := ih hrest
    by_cases ht : total.table = t
    · have hnone : about t rest = [] := by
        refine List.filter_eq_nil_iff.2 fun report hreport => ?_
        rw [decide_eq_true_eq]
        rintro rfl
        exact hfresh (ht ▸ List.mem_map_of_mem hreport)
      rw [about, List.filter_cons_of_pos (by simpa using ht), entryOf,
        List.find?_cons_of_pos (by simpa using ht)]
      exact congrArg _ hnone
    · rw [about, List.filter_cons_of_neg (by simpa using ht), entryOf,
        List.find?_cons_of_neg (by simpa using ht)]
      exact hothers

/-- Totals are their entries in the order of their tables. -/
theorem filterMap_entryOf {totals : List (ConsumedCapacity υ)} (h : (totals.map table).Nodup) :
    (totals.map table).filterMap (fun t => entryOf t totals) = totals := by
  induction totals with
  | nil => rfl
  | cons total rest ih =>
    obtain ⟨hfresh, hrest⟩ := List.nodup_cons.1 h
    have hfirst : entryOf total.table (total :: rest) = some total :=
      List.find?_cons_of_pos (by simp)
    have hlater : ∀ t ∈ rest.map table, entryOf t (total :: rest) = entryOf t rest := by
      intro t ht
      refine List.find?_cons_of_neg ?_
      rw [decide_eq_true_eq]
      rintro rfl
      exact hfresh ht
    rw [List.map_cons, List.filterMap_cons_some (f := fun t => entryOf t (total :: rest)) hfirst,
      List.filterMap_congr hlater, ih hrest]

/-- Totals are the same if they have the same entries in the same order. -/
theorem eq_of_entries {totals totals' : List (ConsumedCapacity υ)}
    (hnodup : (totals.map table).Nodup) (htables : totals.map table = totals'.map table)
    (hentries : ∀ t, entryOf t totals = entryOf t totals') : totals = totals' :=
  calc
    totals = (totals.map table).filterMap fun t => entryOf t totals :=
      (filterMap_entryOf hnodup).symm
    _ = (totals'.map table).filterMap fun t => entryOf t totals' := by
      rw [htables, funext hentries]
    _ = totals' := filterMap_entryOf (htables ▸ hnodup)

section Sums
variable [Add υ] [Zero υ]

/-- A report adds to the entry of its table and to no other. -/
theorem entryOf_addTable (report : ConsumedCapacity υ) (totals : List (ConsumedCapacity υ))
    (t : Option String) :
    entryOf t (addTable report totals) =
      addReport (entryOf t totals) (if report.table = t then some report else none) := by
  fun_induction addTable report totals with
  | case1 => by_cases ht : report.table = t <;> simp [entryOf, ht]
  | case2 total rest hsame =>
    by_cases ht : report.table = t
    · simp [entryOf, hsame, ht, addReport]
    · simp [entryOf, hsame, ht]
  | case3 total rest hother ih =>
    by_cases htotal : total.table = t
    · have ht : report.table ≠ t := fun h => hother (htotal.trans h.symm)
      simp [entryOf, htotal, ht]
    · simpa [entryOf, htotal] using ih

/-- A report of a new table is a new entry. -/
theorem map_table_addTable (report : ConsumedCapacity υ) (totals : List (ConsumedCapacity υ)) :
    (addTable report totals).map table =
      if report.table ∈ totals.map table then totals.map table
      else totals.map table ++ [report.table] := by
  fun_induction addTable report totals with
  | case1 => rfl
  | case2 total rest hsame => simp [hsame]
  | case3 total rest hother ih =>
    have hne : report.table ≠ total.table := fun h => hother h.symm
    rw [List.map_cons, ih]
    by_cases hmem : report.table ∈ rest.map table <;> simp [hmem, hne]

theorem nodup_addTable (report : ConsumedCapacity υ) {totals : List (ConsumedCapacity υ)}
    (h : (totals.map table).Nodup) : ((addTable report totals).map table).Nodup := by
  rw [map_table_addTable]
  split
  · exact h
  · next hnew =>
    exact List.nodup_append_comm.1 (List.nodup_cons.2 ⟨hnew, h⟩)

/-! ### Reports added up one at a time -/

theorem addTables_concat (totals reports : List (ConsumedCapacity υ))
    (report : ConsumedCapacity υ) :
    addTables totals (reports ++ [report]) = addTable report (addTables totals reports) := by
  simp [addTables]

theorem nodup_addTables (reports : List (ConsumedCapacity υ)) :
    ((addTables [] reports).map table).Nodup := by
  induction reports using List.reverseRecOn with
  | nil => exact List.nodup_nil
  | append_singleton reports report ih =>
    rw [addTables_concat]
    exact nodup_addTable report ih

/-- The tables are in the order in which they first appear. -/
theorem map_table_addTables (reports : List (ConsumedCapacity υ)) :
    (addTables [] reports).map table = (reports.map table).eraseDups := by
  induction reports using List.reverseRecOn with
  | nil => rfl
  | append_singleton reports report ih =>
    rw [addTables_concat, map_table_addTable, ih, List.map_append, List.map_singleton,
      eraseDups_concat]
    simp only [List.mem_eraseDups]

/-- The entry of a table is what its reports say together. -/
theorem entryOf_addTables (reports : List (ConsumedCapacity υ)) (t : Option String) :
    entryOf t (addTables [] reports) = total (about t reports) := by
  induction reports using List.reverseRecOn with
  | nil => rfl
  | append_singleton reports report ih =>
    rw [addTables_concat, entryOf_addTable, ih, ← total_append_toList, about, about,
      List.filter_append]
    by_cases ht : report.table = t <;> simp [ht]

/-- Totals of some reports: one entry for each table, which has the units that any report of the
table has, and besides says what the first of them says. -/
structure Tabulates (reports totals : List (ConsumedCapacity υ)) : Prop where
  /-- The tables are in the order in which they first appear. -/
  tables : totals.map table = (reports.map table).eraseDups
  bare : ∀ t, (entryOf t totals).map bare = (about t reports).head?.map bare
  present : ∀ t m, ((entryOf t totals).bind (·.reading m)).isSome =
    (about t reports).any fun report => (report.reading m).isSome

theorem tabulates_addTables (reports : List (ConsumedCapacity υ)) :
    Tabulates reports (addTables [] reports) :=
  ⟨map_table_addTables reports, fun t => by rw [entryOf_addTables, map_bare_total],
    fun t m => by rw [entryOf_addTables, isSome_reading_total]⟩

/-! ### Reports added up in groups -/

/-- What totals of several groups of reports have about a table. -/
theorem about_flatMap_addTables (t : Option String) (parts : List (List (ConsumedCapacity υ))) :
    about t (parts.flatMap (addTables [])) =
      parts.flatMap fun part => (total (about t part)).toList := by
  rw [about, List.filter_flatMap]
  refine List.flatMap_congr fun part _ => ?_
  rw [← entryOf_addTables, ← about_of_nodup (nodup_addTables part)]
  rfl

/-- Totals of totals are totals of all reports. -/
theorem tabulates_addTables_flatMap (parts : List (List (ConsumedCapacity υ))) :
    Tabulates parts.flatten (addTables [] (parts.flatMap (addTables []))) := by
  have h := tabulates_addTables (parts.flatMap (addTables []))
  refine ⟨?_, fun t => ?_, fun t m => ?_⟩
  · rw [h.tables, List.map_flatMap, List.map_flatten, ← List.flatMap_def]
    simp only [map_table_addTables]
    exact eraseDups_flatMap_eraseDups (List.map table) parts
  · rw [h.bare, about_flatMap_addTables, about_flatten, List.head?_flatMap, List.head?_flatMap,
      List.map_findSome?, List.map_findSome?]
    congr 1
    funext part
    simpa using map_bare_total (about t part)
  · rw [h.present, about_flatMap_addTables, about_flatten, List.any_flatMap, List.any_flatMap]
    congr 1
    funext part
    rw [← isSome_reading_total (about t part)]
    cases total (about t part) <;> simp

/-- The reports of several replies, added up. -/
def tabulate (replies : List (List (ConsumedCapacity υ))) : List (ConsumedCapacity υ) :=
  replies.foldl addTables []

theorem tabulate_eq (replies : List (List (ConsumedCapacity υ))) :
    tabulate replies = addTables [] replies.flatten :=
  List.foldl_flatten.symm

theorem tabulate_map_tabulate (parts : List (List (List (ConsumedCapacity υ)))) :
    tabulate (parts.map tabulate) =
      addTables [] ((parts.map List.flatten).flatMap (addTables [])) := by
  rw [tabulate_eq, funext tabulate_eq, List.flatMap_map, List.flatMap_def]

end Sums

section Exact

/-- Reports say the same together if groups of them were added up before. -/
theorem total_flatMap_total [AddMonoid υ] {ι : Type} (f : ι → List (ConsumedCapacity υ))
    (groups : List ι) :
    total (groups.flatMap fun group => (total (f group)).toList) = total (groups.flatMap f) := by
  induction groups with
  | nil => rfl
  | cons group rest ih =>
    have hgroup : total (total (f group)).toList = total (f group) := by
      cases f group <;> rfl
    rw [List.flatMap_cons, List.flatMap_cons, total_append, total_append, ih, hgroup]

/-- Totals of totals are the totals. -/
theorem addTables_flatMap_addTables [AddMonoid υ] (parts : List (List (ConsumedCapacity υ))) :
    addTables [] (parts.flatMap (addTables [])) = addTables [] parts.flatten := by
  refine eq_of_entries (nodup_addTables _) ?_ fun t => ?_
  · rw [(tabulates_addTables_flatMap parts).tables, map_table_addTables]
  · rw [entryOf_addTables, entryOf_addTables, about_flatMap_addTables, about_flatten,
      total_flatMap_total]

/-- In each kind, the entry of a table has the sum of the units of its reports. -/
theorem reading_entryOf [AddMonoid υ] (reports : List (ConsumedCapacity υ)) (t : Option String)
    (m : Meter) :
    (entryOf t (addTables [] reports)).bind (·.reading m) =
      sumUnits ((about t reports).map (·.reading m)) := by
  rw [entryOf_addTables, reading_total]

end Exact

end ConsumedCapacity

open ConsumedCapacity

/-! ### Batches -/

section Batches
variable {s : Settings} {op : Operation} {batched : Batched op}
  {reports : op.Reply → List (ConsumedCapacity Float)}

/-- As replies are merged, their reports are added up. -/
structure Batched.Totals (batched : Batched op)
    (reports : op.Reply → List (ConsumedCapacity Float)) : Prop where
  nothing : reports batched.nothing = []
  merge : ∀ total reply,
    reports (batched.merge total reply) = addTables (reports total) (reports reply)

theorem Batched.get_totals : Batched.get.Totals BatchGet.Reply.capacity := ⟨rfl, fun _ _ => rfl⟩

theorem Batched.write_totals : Batched.write.Totals BatchWrite.Reply.capacity :=
  ⟨rfl, fun _ _ => rfl⟩

theorem Batched.Totals.foldl (h : batched.Totals reports) (replies : List op.Reply) :
    reports (replies.foldl batched.merge batched.nothing) = tabulate (replies.map reports) := by
  induction replies using List.reverseRecOn with
  | nil => exact h.nothing
  | append_singleton replies reply ih =>
    rw [List.foldl_append, List.foldl_cons, List.foldl_nil, h.merge, ih, List.map_append, tabulate,
      tabulate, List.foldl_append]
    rfl

/-- Requests for what is left return what all of them bring. -/
theorem Batched.Resubmits.eq_merged {rounds : Nat} {earlier total : op.Reply} {request : op.Request}
    {sends : List (Sent s op)}
    (h : batched.Resubmits rounds earlier request sends (some (.ok total))) :
    total = (replies sends).foldl batched.merge earlier := by
  rcases h.ending with ⟨last, -, e, -, hresult⟩ | ⟨last, -, reply, -, -, hresult⟩ | ⟨-, -, hresult⟩
  · cases hresult
  · exact Except.ok.inj (Option.some.inj hresult)
  · cases hresult

/-- What a batch reports are the totals of its parts, each of which has those of its rounds. -/
theorem Batched.Totals.processAll (h : batched.Totals reports) {rounds : Nat}
    {requests : List op.Request} {es : List Exchange} {total : op.Reply}
    (hplays : (processAll s batched rounds requests).run.Plays es (some (.ok total))) :
    ∃ sends : Fin requests.length → List (Sent s op),
      Interleaves (fun i => (sends i).flatMap Sent.exchanges) es ∧
      reports total =
        tabulate ((List.ofFn sends).map fun sends => tabulate ((replies sends).map reports)) := by
  obtain ⟨tracks, ends, hturns, hends, hresult⟩ := (Portions.plays_processAll rfl).1 hplays
  obtain ⟨values, hvalues, rfl⟩ := Call.map_together_eq_ok_iff.1 hresult.symm
  choose sends htracks hsends using fun i => plays_processFrom.1 (hends i)
  have hmerged (i : Fin requests.length) :
      reports (values i) = tabulate ((replies (sends i)).map reports) := by
    have hresubmits := hsends i
    rw [hvalues i] at hresubmits
    rw [hresubmits.eq_merged, h.foldl]
  refine ⟨sends, (funext htracks) ▸ hturns, ?_⟩
  rw [h.foldl, List.map_ofFn, List.map_ofFn]
  exact congrArg (fun f => tabulate (List.ofFn f)) (funext hmerged)

end Batches

/-- **Capacity is totalled by table.** Reports that come list after list, or in parts that are
totalled first, have one entry for each table, in the order in which the tables first appear. The
entry has the units that any report of the table has, and besides says what the first of them says;
its units are those of the reports, added one after the other. Where addition is exact they are
sums, the order of the reports changes none of them, and the parts make no difference. What a batch
reports are totals of the totals of its parts. -/
theorem capacity_tabulated :
    (∀ {υ : Type} [Add υ] [Zero υ],
      (∀ replies : List (List (ConsumedCapacity υ)),
        Tabulates replies.flatten (tabulate replies) ∧
        ∀ t, entryOf t (tabulate replies) = total (about t replies.flatten)) ∧
      ∀ parts : List (List (List (ConsumedCapacity υ))),
        Tabulates parts.flatten.flatten (tabulate (parts.map tabulate))) ∧
    (∀ {υ : Type} [AddCommMonoid υ],
      (∀ (replies : List (List (ConsumedCapacity υ))) t m,
        (entryOf t (tabulate replies)).bind (·.reading m) =
          sumUnits ((about t replies.flatten).map (·.reading m))) ∧
      (∀ replies replies' : List (List (ConsumedCapacity υ)),
        replies.flatten.Perm replies'.flatten →
        ∀ t, (entryOf t (tabulate replies)).map reading =
          (entryOf t (tabulate replies')).map reading) ∧
      ∀ parts : List (List (List (ConsumedCapacity υ))),
        tabulate (parts.map tabulate) = tabulate parts.flatten) ∧
    (∀ (s : Settings) (rounds : Nat) (requests : List BatchGet.Request) (es : List Exchange)
        (reply : BatchGet.Reply),
      (processAll s Batched.get rounds requests).run.Plays es (some (.ok reply)) →
      ∃ sends : Fin requests.length → List (Sent s .batchGet),
        Interleaves (fun i => (sends i).flatMap Sent.exchanges) es ∧
        reply.capacity = tabulate
          ((List.ofFn sends).map fun sends =>
            tabulate ((replies sends).map BatchGet.Reply.capacity))) ∧
    (∀ (s : Settings) (rounds : Nat) (requests : List BatchWrite.Request) (es : List Exchange)
        (reply : BatchWrite.Reply),
      (processAll s Batched.write rounds requests).run.Plays es (some (.ok reply)) →
      ∃ sends : Fin requests.length → List (Sent s .batchWrite),
        Interleaves (fun i => (sends i).flatMap Sent.exchanges) es ∧
        reply.capacity = tabulate
          ((List.ofFn sends).map fun sends =>
            tabulate ((replies sends).map BatchWrite.Reply.capacity))) := by
  refine ⟨⟨fun replies => ?_, fun parts => ?_⟩,
    ⟨fun replies t m => ?_, fun replies replies' h t => ?_, fun parts => ?_⟩, ?_, ?_⟩
  · rw [tabulate_eq]
    exact ⟨tabulates_addTables _, entryOf_addTables _⟩
  · rw [tabulate_map_tabulate, List.flatten_flatten]
    exact tabulates_addTables_flatMap _
  · rw [tabulate_eq, reading_entryOf]
  · rw [tabulate_eq, tabulate_eq, entryOf_addTables, entryOf_addTables]
    exact map_reading_total_perm (h.filter _)
  · rw [tabulate_map_tabulate, tabulate_eq, addTables_flatMap_addTables, List.flatten_flatten]
  · intro s rounds requests es reply h
    exact Batched.get_totals.processAll h
  · intro s rounds requests es reply h
    exact Batched.write_totals.processAll h

/-- Reports on two tables and on none, some of which lack units; and a read and a change in two
rounds, both of which report. -/
theorem capacity_tabulated_rounds :
    let first : ConsumedCapacity Nat := { table := some "a", units := some 1 }
    let second : ConsumedCapacity Nat := { table := some "b", units := some 2, readUnits := some 0 }
    let third : ConsumedCapacity Nat := { table := some "a", units := some 3, writeUnits := some 4 }
    let unnamed : ConsumedCapacity Nat := { readUnits := some 5 }
    let key : Key := .ofList [("id", .text "a")]
    let keys : BatchGet.Request := { tables := .ofList [("t", { keys := [key] })] }
    let entries : BatchWrite.Request := { tables := .ofList [("t", [.ofKey key])] }
    let report : ConsumedCapacity Float := { table := some "t", units := some 0.5 }
    let reads : List Exchange :=
      [⟨.batchGet, keys, .reply ({ unprocessed := keys.tables, capacity := [report] } :
          BatchGet.Reply)⟩,
        ⟨.batchGet, keys, .reply ({ capacity := [report] } : BatchGet.Reply)⟩]
    let writes : List Exchange :=
      [⟨.batchWrite, entries, .reply ({ unprocessed := entries.tables, capacity := [report] } :
          BatchWrite.Reply)⟩,
        ⟨.batchWrite, entries, .reply ({ capacity := [report] } : BatchWrite.Reply)⟩]
    let total := tabulate [tabulate [[report], [report]]]
    [[first, second], [third, unnamed]].flatten.Perm [[unnamed], [third, second], [first]].flatten ∧
    (∀ t, (entryOf t (tabulate [[first, second], [third, unnamed]])).map reading =
      (entryOf t (tabulate [[unnamed], [third, second], [first]])).map reading) ∧
    (processAll {} Batched.get 2 [keys]).run.Plays reads
      (some (.ok ({ capacity := total } : BatchGet.Reply))) ∧
    (∃ sends : Fin 1 → List (Sent {} .batchGet),
      Interleaves (fun i => (sends i).flatMap Sent.exchanges) reads ∧
      total = tabulate ((List.ofFn sends).map fun sends =>
        tabulate ((replies sends).map BatchGet.Reply.capacity))) ∧
    (processAll {} Batched.write 2 [entries]).run.Plays writes
      (some (.ok ({ capacity := total } : BatchWrite.Reply))) ∧
    (∃ sends : Fin 1 → List (Sent {} .batchWrite),
      Interleaves (fun i => (sends i).flatMap Sent.exchanges) writes ∧
      total = tabulate ((List.ofFn sends).map fun sends =>
        tabulate ((replies sends).map BatchWrite.Reply.capacity))) := by
  intro first second third unnamed key keys entries report reads writes total
  have hperm : [[first, second], [third, unnamed]].flatten.Perm
      [[unnamed], [third, second], [first]].flatten := by
    show [first, second, third, unnamed].Perm [first, second, third, unnamed].reverse
    exact (List.reverse_perm _).symm
  have hreads : (processAll {} Batched.get 2 [keys]).run.Plays reads
      (some (.ok ({ capacity := total } : BatchGet.Reply))) := by
    refine @plays_processAll_twice _ .batchGet Batched.get keys keys _ _ ?_ rfl
    simp [Batched.get, keys, KeyMap.filter_single]
  have hwrites : (processAll {} Batched.write 2 [entries]).run.Plays writes
      (some (.ok ({ capacity := total } : BatchWrite.Reply))) := by
    refine @plays_processAll_twice _ .batchWrite Batched.write entries entries _ _ ?_ rfl
    simp [Batched.write, entries, KeyMap.filter_single]
  exact ⟨hperm, capacity_tabulated.2.1.2.1 _ _ hperm, hreads,
    capacity_tabulated.2.2.1 {} 2 [keys] reads _ hreads, hwrites,
    capacity_tabulated.2.2.2 {} 2 [entries] writes _ hwrites⟩

end TableClient
