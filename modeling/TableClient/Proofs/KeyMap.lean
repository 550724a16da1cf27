import TableClient.KeyMap
import Mathlib.Data.List.Nodup

/-! What a map answers for a key.

A list of entries read as a map answers with the last entry under a key; where every key
stands once, the answers are exactly the entries, and the map holds them all. -/
namespace TableClient

theorem lookup_cons_of_ne {α : Type} {k key : String} (h : k ≠ key) (value : α)
    (rest : List (String × α)) : ((key, value) :: rest).lookup k = rest.lookup k := by
  have differs : (k == key) = false := beq_eq_false_iff_ne.2 h
  simp only [List.lookup_cons, differs]

namespace Sorted
variable {α β : Type}

/-! ### Looking up after a change -/

theorem lookup_put_self (key : String) (value : α) (l : List (String × α)) :
    (put key value l).lookup key = some value := by
  induction l with
  | nil => simp [put]
  | cons entry rest ih =>
    obtain ⟨k, v⟩ := entry
    unfold put
    split
    · simp
    · next lower =>
      split
      · next upper =>
        have hne : key ≠ k := by
          intro same
          subst same
          exact lower upper
        rw [lookup_cons_of_ne hne]
        exact ih
      · simp

theorem lookup_put_of_ne {key k : String} (h : k ≠ key) (value : α) (l : List (String × α)) :
    (put key value l).lookup k = l.lookup k := by
  induction l with
  | nil => exact lookup_cons_of_ne h value []
  | cons entry rest ih =>
    obtain ⟨k', v⟩ := entry
    unfold put
    split
    · exact lookup_cons_of_ne h value _
    · next lower =>
      split
      · simp only [List.lookup_cons, ih]
      · next upper =>
        obtain rfl := eq_of_not_lt lower upper
        rw [lookup_cons_of_ne h, lookup_cons_of_ne h]

/-- The last entry under a key counts, and one put in counts more than one at hand. -/
theorem lookup_putAll (start entries : List (String × α)) (k : String) :
    (putAll start entries).lookup k = (entries.reverse.lookup k).or (start.lookup k) := by
  unfold putAll
  induction entries generalizing start with
  | nil => simp
  | cons entry rest ih =>
    obtain ⟨key, value⟩ := entry
    rw [List.foldl_cons, ih, List.reverse_cons, List.lookup_append, Option.or_assoc]
    congr 1
    by_cases h : k = key
    · subst h
      simp [lookup_put_self]
    · rw [lookup_put_of_ne h, lookup_cons_of_ne h]
      simp

/-! ### Putting in order -/

theorem map_fst_map (f : α → β) (l : List (String × α)) :
    (l.map (Prod.map id f)).map Prod.fst = l.map Prod.fst := by
  rw [List.map_map]
  rfl

theorem map_put (f : α → β) (key : String) (value : α) (l : List (String × α)) :
    (put key value l).map (Prod.map id f) = put key (f value) (l.map (Prod.map id f)) := by
  induction l with
  | nil => rfl
  | cons entry rest ih =>
    obtain ⟨k, v⟩ := entry
    simp only [put, List.map_cons, Prod.map_apply, id_eq]
    split
    · rfl
    split
    · rw [List.map_cons, ih]
      rfl
    · rfl

/-- Values may be changed before entries are put in order, or after. -/
theorem map_putAll (f : α → β) (start entries : List (String × α)) :
    (putAll start entries).map (Prod.map id f) =
      putAll (start.map (Prod.map id f)) (entries.map (Prod.map id f)) := by
  unfold putAll
  induction entries generalizing start with
  | nil => rfl
  | cons entry rest ih =>
    rw [List.foldl_cons, ih, map_put]
    rfl

theorem put_perm {key : String} {value : α} {l : List (String × α)}
    (new : key ∉ l.map Prod.fst) : (put key value l).Perm ((key, value) :: l) := by
  induction l with
  | nil => exact .refl _
  | cons entry rest ih =>
    obtain ⟨k, v⟩ := entry
    simp only [List.map_cons, List.mem_cons, not_or] at new
    unfold put
    split
    · exact .refl _
    split
    · exact ((ih new.2).cons (k, v)).trans (.swap ..)
    · next lower upper => exact absurd (eq_of_not_lt lower upper) new.1

/-- Entries of different keys are all kept. -/
theorem putAll_perm {start entries : List (String × α)}
    (distinct : ((start ++ entries).map Prod.fst).Nodup) :
    (putAll start entries).Perm (start ++ entries) := by
  unfold putAll
  induction entries generalizing start with
  | nil => simp
  | cons entry rest ih =>
    obtain ⟨key, value⟩ := entry
    have hmiddle : (start ++ (key, value) :: rest).Perm ((key, value) :: (start ++ rest)) :=
      List.perm_middle
    have hdistinct := (hmiddle.map Prod.fst).nodup_iff.1 distinct
    rw [List.map_cons, List.nodup_cons, List.map_append, List.mem_append, not_or] at hdistinct
    have hput : (put key value start ++ rest).Perm ((key, value) :: (start ++ rest)) :=
      (put_perm hdistinct.1.1).append_right rest
    have hlater := (hput.trans hmiddle.symm).map Prod.fst
    exact (ih (hlater.nodup_iff.2 distinct)).trans (hput.trans hmiddle.symm)

end Sorted

/-- In a list without repeated keys, looking up a key finds its entry. -/
theorem lookup_of_mem {α : Type} {entries : List (String × α)}
    (distinct : (entries.map Prod.fst).Nodup) {k : String} {v : α} (member : (k, v) ∈ entries) :
    entries.lookup k = some v := by
  induction entries with
  | nil => cases member
  | cons entry rest ih =>
    obtain ⟨k', v'⟩ := entry
    simp only [List.map_cons, List.nodup_cons] at distinct
    rcases List.mem_cons.1 member with h | h
    · cases h
      simp
    · have hne : k ≠ k' := by
        intro same
        subst same
        exact distinct.1 (List.mem_map_of_mem h)
      rw [lookup_cons_of_ne hne]
      exact ih distinct.2 h

theorem lookup_eq_none {α : Type} {entries : List (String × α)} {k : String}
    (absent : k ∉ entries.map Prod.fst) : entries.lookup k = none := by
  rw [List.lookup_eq_none_iff]
  intro entry member
  rw [bne_iff_ne]
  intro same
  subst same
  exact absent (List.mem_map_of_mem member)

theorem mem_of_lookup {α : Type} {entries : List (String × α)} {k : String} {v : α}
    (h : entries.lookup k = some v) : (k, v) ∈ entries := by
  obtain ⟨before, after, rfl, -⟩ := List.lookup_eq_some_iff.1 h
  simp

theorem isSome_lookup {α : Type} {entries : List (String × α)} {k : String} :
    (entries.lookup k).isSome = true ↔ k ∈ entries.map Prod.fst := by
  induction entries with
  | nil => simp
  | cons entry rest ih =>
    obtain ⟨key, value⟩ := entry
    by_cases h : k = key
    · subst h
      simp
    · rw [lookup_cons_of_ne h, ih]
      simp [h]

namespace KeyMap
variable {α β : Type}

theorem get?_ofList (entries : List (String × α)) (k : String) :
    (ofList entries).get? k = entries.reverse.lookup k := by
  simp [get?, Sorted.lookup_putAll]

/-- Entries set in the map without entries are all there is. -/
theorem toList_eq_nil_iff {m : KeyMap α} : m.toList = [] ↔ m = ∅ := by
  constructor
  · intro h
    exact toList_injective (h.trans toList_empty.symm)
  · rintro rfl
    exact toList_empty

theorem isEmpty_iff {m : KeyMap α} : m.isEmpty ↔ m = ∅ := by
  rw [isEmpty_eq, List.isEmpty_iff, toList_eq_nil_iff]

theorem insertAll_empty (entries : List (String × α)) :
    (∅ : KeyMap α).insertAll entries = ofList entries := by
  apply toList_injective
  rw [toList_insertAll, toList_ofList]
  show Sorted.putAll (empty : KeyMap α).toList entries = _
  rw [toList_empty]

theorem nodup_keys (m : KeyMap α) : (m.toList.map Prod.fst).Nodup :=
  m.ascending_toList.imp String.ne_of_lt

/-- A map that entries of distinct keys become has each of them. -/
theorem toList_ofList_perm {entries : List (String × α)}
    (distinct : (entries.map Prod.fst).Nodup) : (ofList entries).toList.Perm entries := by
  rw [toList_ofList]
  exact Sorted.putAll_perm distinct

/-- The order of entries is that of their keys, so their order does not tell two maps apart. -/
theorem eq_of_perm {m n : KeyMap α} (h : m.toList.Perm n.toList) : m = n := by
  apply toList_injective
  refine h.eq_of_pairwise (fun a b _ _ hab hba => ?_) (List.pairwise_map.1 m.ascending_toList)
    (List.pairwise_map.1 n.ascending_toList)
  exact absurd hba (String.lt_asymm hab)

/-- The entries of a map in any order are those of the map. -/
theorem ofList_of_perm {m : KeyMap α} {entries : List (String × α)}
    (h : entries.Perm m.toList) : ofList entries = m :=
  eq_of_perm ((toList_ofList_perm ((h.map Prod.fst).nodup_iff.2 m.nodup_keys)).trans h)

/-- A map is the map of its entries. -/
theorem ofList_toList (m : KeyMap α) : ofList m.toList = m := ofList_of_perm (.refl _)

theorem mem_toList {m : KeyMap α} {key : String} {v : α} :
    (key, v) ∈ m.toList ↔ m.get? key = some v :=
  ⟨lookup_of_mem m.nodup_keys, mem_of_lookup⟩

/-- Two maps with the same answers are equal. -/
theorem ext_get? {m n : KeyMap α} (h : ∀ key, m.get? key = n.get? key) : m = n := by
  have distinct (m : KeyMap α) : m.toList.Nodup := m.nodup_keys.of_map
  refine eq_of_perm ((List.perm_ext_iff_of_nodup (distinct m) (distinct n)).2 ?_)
  rintro ⟨key, v⟩
  rw [mem_toList, mem_toList, h]

theorem toList_map (f : α → β) (m : KeyMap α) :
    (m.map f).toList = m.toList.map (Prod.map id f) := by
  obtain ⟨keys, value⟩ := m
  rw [toList, toList, ← List.zip_map_right, List.map_ofFn]
  rfl

theorem get?_map (f : α → β) (m : KeyMap α) (key : String) :
    (m.map f).get? key = (m.get? key).map f := by
  ext w
  simp [← mem_toList, toList_map]

theorem map_ofList (f : α → β) (entries : List (String × α)) :
    (ofList entries).map f = ofList (entries.map (Prod.map id f)) := by
  apply toList_injective
  rw [toList_map, toList_ofList, toList_ofList, Sorted.map_putAll]
  rfl

theorem map_empty (f : α → β) : (∅ : KeyMap α).map f = ∅ := by
  rw [← toList_eq_nil_iff, toList_map, toList_eq_nil_iff.2 rfl, List.map_nil]

theorem map_insertAll (f : α → β) (m : KeyMap α) (entries : List (String × α)) :
    (m.insertAll entries).map f = (m.map f).insertAll (entries.map (Prod.map id f)) := by
  apply toList_injective
  rw [toList_map, toList_insertAll, toList_insertAll, Sorted.map_putAll, toList_map]

theorem mem_of_get?_ofList {entries : List (String × α)} {k : String} {v : α}
    (h : (ofList entries).get? k = some v) : (k, v) ∈ entries := by
  rw [get?_ofList] at h
  exact List.mem_reverse.1 (mem_of_lookup h)

/-- Where no key is repeated, first and last entry under a key are one. -/
theorem get?_ofList_of_nodup {entries : List (String × α)}
    (distinct : (entries.map Prod.fst).Nodup) (k : String) :
    (ofList entries).get? k = entries.lookup k := by
  rw [get?_ofList]
  cases h : entries.reverse.lookup k with
  | some v => exact (lookup_of_mem distinct (List.mem_reverse.1 (mem_of_lookup h))).symm
  | none =>
    rw [List.lookup_eq_none_iff] at h
    exact (List.lookup_eq_none_iff.2 fun entry member => h entry (List.mem_reverse.2 member)).symm

theorem get?_ofList_of_mem {entries : List (String × α)}
    (distinct : (entries.map Prod.fst).Nodup) {k : String} {v : α} (member : (k, v) ∈ entries) :
    (ofList entries).get? k = some v := by
  rw [get?_ofList_of_nodup distinct]
  exact lookup_of_mem distinct member

theorem get?_ofList_eq_none {entries : List (String × α)} {k : String}
    (absent : k ∉ entries.map Prod.fst) : (ofList entries).get? k = none := by
  cases h : (ofList entries).get? k with
  | none => rfl
  | some v => exact absurd (List.mem_map_of_mem (mem_of_get?_ofList h)) absent

/-- The entries set count more than those at hand. -/
theorem get?_insertAll (m : KeyMap α) (entries : List (String × α)) (k : String) :
    (m.insertAll entries).get? k = ((ofList entries).get? k).or (m.get? k) := by
  rw [get?_ofList, get?, toList_insertAll, Sorted.lookup_putAll]
  rfl

theorem mem_keyList {m : KeyMap α} {key : String} :
    key ∈ m.keyList ↔ (m.get? key).isSome = true := by
  rw [keyList, ← map_fst_toList, get?, isSome_lookup]

theorem mem_keyList_ofList {entries : List (String × α)} {key : String} :
    key ∈ (ofList entries).keyList ↔ key ∈ entries.map Prod.fst := by
  rw [mem_keyList, get?_ofList, isSome_lookup, List.map_reverse, List.mem_reverse]

/-! ### Maps with one entry -/

theorem toList_single (key : String) (value : α) :
    (ofList [(key, value)]).toList = [(key, value)] := by
  simp [Sorted.putAll, Sorted.put]

@[simp] theorem isEmpty_empty : (∅ : KeyMap α).isEmpty = true := isEmpty_iff.2 rfl

@[simp] theorem isEmpty_single (key : String) (value : α) :
    (ofList [(key, value)]).isEmpty = false := by
  rw [isEmpty_eq, toList_single, List.isEmpty_cons]

theorem single_ne_empty (key : String) (value : α) : ofList [(key, value)] ≠ ∅ := by
  rw [Ne, ← isEmpty_iff, isEmpty_single]
  exact Bool.false_ne_true

@[simp] theorem get?_empty (key : String) : (∅ : KeyMap α).get? key = none := by
  show (empty : KeyMap α).toList.lookup key = none
  simp

@[simp] theorem get?_single (key : String) (value : α) :
    (ofList [(key, value)]).get? key = some value := by
  rw [get?, toList_single, List.lookup_cons_self]

@[simp] theorem filter_empty (p : String → α → Bool) : (∅ : KeyMap α).filter p = ∅ := by
  rw [← toList_eq_nil_iff, toList_filter, toList_eq_nil_iff.2 rfl, List.filter_nil]

theorem filter_single (p : String → α → Bool) (key : String) (value : α) :
    (ofList [(key, value)]).filter p = if p key value then ofList [(key, value)] else ∅ := by
  apply toList_injective
  rw [toList_filter, toList_single]
  by_cases h : p key value
  · rw [if_pos h, toList_single]
    simp [h]
  · rw [if_neg h, toList_eq_nil_iff.2 rfl]
    simp [h]

/-- A map whose entries are all under one key has one entry at most. -/
theorem eq_empty_or_single {m : KeyMap α} {key : String} (h : ∀ entry ∈ m.toList, entry.1 = key) :
    m = ∅ ∨ ∃ value, m = ofList [(key, value)] := by
  have hascending := m.ascending_toList
  cases hm : m.toList with
  | nil => exact .inl (toList_eq_nil_iff.1 hm)
  | cons entry rest =>
    obtain ⟨k, value⟩ := entry
    rw [hm] at h hascending
    obtain rfl : k = key := h (k, value) (by simp)
    -- a second entry would have a greater key
    obtain rfl : rest = [] := by
      refine List.eq_nil_iff_forall_not_mem.2 fun entry hentry => ?_
      have hlt : k < entry.1 :=
        (List.pairwise_cons.1 hascending).1 entry.1 (List.mem_map_of_mem hentry)
      rw [h entry (List.mem_cons_of_mem _ hentry)] at hlt
      exact String.lt_irrefl _ hlt
    exact .inr ⟨value, toList_injective (by rw [hm, toList_single])⟩

/-! ### Lists under keys -/

theorem get?_insert_self (m : KeyMap α) (key : String) (value : α) :
    (m.insert key value).get? key = some value := by
  rw [get?, toList_insert, Sorted.lookup_put_self]

theorem get?_insert_of_ne (m : KeyMap α) {key k : String} (h : k ≠ key) (value : α) :
    (m.insert key value).get? k = m.get? k := by
  rw [get?, toList_insert, Sorted.lookup_put_of_ne h]
  rfl

/-- Lists are put after those under the same keys. -/
theorem getD_get?_extend (m n : KeyMap (List α)) (key : String) :
    ((m.extend n).get? key).getD [] = (m.get? key).getD [] ++ (n.get? key).getD [] := by
  have hnodup := n.nodup_keys
  unfold extend
  rw [show n.get? key = n.toList.lookup key from rfl]
  generalize n.toList = entries at hnodup
  induction entries generalizing m with
  | nil => simp
  | cons entry rest ih =>
    obtain ⟨k, value⟩ := entry
    obtain ⟨hk, hrest⟩ := List.nodup_cons.1 hnodup
    rw [List.foldl_cons, ih _ hrest]
    by_cases h : key = k
    · subst h
      rw [get?_insert_self, lookup_eq_none hk, List.lookup_cons_self]
      simp
    · rw [get?_insert_of_ne m h, lookup_cons_of_ne h]

/-- Lists under one key are put one after the other. -/
theorem single_extend_single (key : String) (a b : List α) :
    (ofList [(key, a)]).extend (ofList [(key, b)]) = ofList [(key, a ++ b)] := by
  apply toList_injective
  rw [extend, toList_single key b]
  simp [Sorted.putAll, Sorted.put]

theorem empty_extend_single (key : String) (b : List α) :
    (∅ : KeyMap (List α)).extend (ofList [(key, b)]) = ofList [(key, b)] := by
  apply toList_injective
  rw [extend, toList_single]
  simp [toList_eq_nil_iff.2 rfl, Sorted.put]

end KeyMap

end TableClient
