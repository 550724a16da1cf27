import TableClient.Page
import TableClient.Proofs.Capacity
import Mathlib.Algebra.BigOperators.Group.List.Basic
import Mathlib.Algebra.GroupWithZero.Nat

/-! Aggregates under merging.

To absorb a page is to merge what it holds, without its cursor (`absorb_eq_merge`), so what is true
of merging is true of all aggregation: aggregates hold the items of their parts in order, the sums
of their counts and of their capacity, and the first cursor (`foldl_merge_eq`). Where capacity is
added exactly, they are a monoid, and pages come to the same whether they are absorbed one by one or
in groups that are then merged. The order of what is merged moves the items and decides which cursor
and which report on capacity comes first; it changes no sum (`Alike`). `aggregation_lawful` says all
this. -/
namespace TableClient.Aggregate
variable {υ ι κ : Type}

/-- What a page holds. -/
def ofPage (page : Page υ ι κ) : Aggregate υ ι κ where
  items := page.items
  count := page.count
  scannedCount := page.scannedCount
  capacity := page.capacity

section Sums
variable [Add υ] [Zero υ]

/-- Pages added up one after the other. -/
def ofPages (pages : List (Page υ ι κ)) : Aggregate υ ι κ := pages.foldl absorb ∅

theorem ofPages_append (pages : List (Page υ ι κ)) (page : Page υ ι κ) :
    ofPages (pages ++ [page]) = (ofPages pages).absorb page := by
  simp [ofPages]

theorem empty_merge (a : Aggregate υ ι κ) : (∅ : Aggregate υ ι κ).merge a = a := by
  show merge ⟨[], 0, 0, none, none⟩ a = a
  simp [merge]

theorem merge_empty (a : Aggregate υ ι κ) : a.merge ∅ = a := by
  show merge a ⟨[], 0, 0, none, none⟩ = a
  simp [merge]

theorem absorb_eq_merge (a : Aggregate υ ι κ) (page : Page υ ι κ) :
    a.absorb page = a.merge (ofPage page) := by
  simp [absorb, merge, ofPage]

theorem ofPages_eq_foldl (pages : List (Page υ ι κ)) :
    ofPages pages = (pages.map ofPage).foldl merge ∅ := by
  rw [ofPages, List.foldl_map, funext₂ absorb_eq_merge]

/-- Merged aggregates hold the items of all in their order, what they count together, and the first
of their cursors. -/
theorem foldl_merge_eq (parts : List (Aggregate υ ι κ)) :
    parts.foldl merge ∅ =
      { items := parts.flatMap items
        count := (parts.map count).sum
        scannedCount := (parts.map scannedCount).sum
        capacity := ConsumedCapacity.total (parts.filterMap capacity)
        cursor := parts.findSome? cursor } := by
  induction parts using List.reverseRecOn with
  | nil => rfl
  | append_singleton parts part ih =>
    have hcapacity : (parts ++ [part]).filterMap capacity =
        parts.filterMap capacity ++ part.capacity.toList := by
      cases h : part.capacity <;> simp [h]
    rw [List.foldl_append, ih, hcapacity, ConsumedCapacity.total_append_toList]
    simp [merge, List.findSome?_append]

/-- Pages added up hold all their items, and no cursor. -/
theorem ofPages_eq (pages : List (Page υ ι κ)) :
    ofPages pages =
      { items := pages.flatMap Page.items
        count := (pages.map Page.count).sum
        scannedCount := (pages.map Page.scannedCount).sum
        capacity := ConsumedCapacity.total (pages.filterMap Page.capacity) } := by
  rw [ofPages_eq_foldl, foldl_merge_eq]
  simp [List.flatMap_map, List.filterMap_map, List.findSome?_map, Function.comp_def, ofPage]

end Sums

/-! ### Grouping -/

section AddMonoid
variable [AddMonoid υ]

theorem merge_assoc (a b c : Aggregate υ ι κ) : (a.merge b).merge c = a.merge (b.merge c) := by
  simp only [merge, List.append_assoc, Nat.add_assoc, ConsumedCapacity.addReport_assoc,
    Option.or_assoc]

/-- Aggregates are multiplied by merging them. -/
instance : Monoid (Aggregate υ ι κ) where
  mul := merge
  one := ∅
  mul_assoc := merge_assoc
  one_mul := empty_merge
  mul_one := merge_empty

theorem foldl_merge_eq_prod (parts : List (Aggregate υ ι κ)) : parts.foldl merge ∅ = parts.prod :=
  List.prod_eq_foldl.symm

theorem ofPages_eq_prod (pages : List (Page υ ι κ)) : ofPages pages = (pages.map ofPage).prod := by
  rw [ofPages_eq_foldl, foldl_merge_eq_prod]

/-- Groups of pages that are absorbed first come to the same together. -/
theorem foldl_merge_ofPages (groups : List (List (Page υ ι κ))) :
    (groups.map ofPages).foldl merge ∅ = ofPages groups.flatten :=
  calc
    (groups.map ofPages).foldl merge ∅ = (groups.map ofPages).prod := foldl_merge_eq_prod _
    _ = ((groups.map (List.map ofPage)).map List.prod).prod := by
      rw [List.map_map, funext ofPages_eq_prod]
      rfl
    _ = (groups.flatten.map ofPage).prod := by rw [← List.prod_flatten, List.map_flatten]
    _ = ofPages groups.flatten := (ofPages_eq_prod _).symm

end AddMonoid

/-! ### Order -/

/-- Two aggregates hold the same items, in whatever order, and the same sums. -/
structure Alike (a b : Aggregate υ ι κ) : Prop where
  items : a.items.Perm b.items
  count : a.count = b.count
  scannedCount : a.scannedCount = b.scannedCount
  reading : a.capacity.map ConsumedCapacity.reading = b.capacity.map ConsumedCapacity.reading

/-- The order of what is merged changes no sum. -/
theorem alike_of_perm [AddCommMonoid υ] {parts parts' : List (Aggregate υ ι κ)}
    (h : parts.Perm parts') : (parts.foldl merge ∅).Alike (parts'.foldl merge ∅) := by
  rw [foldl_merge_eq, foldl_merge_eq]
  exact ⟨h.flatMap_right _, (h.map _).sum_eq, (h.map _).sum_eq,
    ConsumedCapacity.map_reading_total_perm (h.filterMap _)⟩

/-- **Aggregation is lawful.** Where capacity is added exactly, the empty aggregate is an identity
of merging on both sides, and merging is associative. Pages absorbed one by one come to the same as
pages absorbed in consecutive groups that are merged in their order. Pages that come in another
order, and groups of pages or other parts that are merged in another order, make no difference but
to the order of the items: counts and units of capacity stay the same. -/
theorem aggregation_lawful [AddCommMonoid υ] :
    (∀ a : Aggregate υ ι κ, (∅ : Aggregate υ ι κ).merge a = a ∧ a.merge ∅ = a) ∧
    (∀ a b c : Aggregate υ ι κ, (a.merge b).merge c = a.merge (b.merge c)) ∧
    (∀ groups : List (List (Page υ ι κ)),
      (groups.map ofPages).foldl merge ∅ = ofPages groups.flatten) ∧
    (∀ pages pages' : List (Page υ ι κ), pages.Perm pages' →
      (ofPages pages).Alike (ofPages pages')) ∧
    (∀ groups groups' : List (List (Page υ ι κ)), groups.Perm groups' →
      ((groups.map ofPages).foldl merge ∅).Alike ((groups'.map ofPages).foldl merge ∅)) ∧
    (∀ parts parts' : List (Aggregate υ ι κ), parts.Perm parts' →
      (parts.foldl merge ∅).Alike (parts'.foldl merge ∅)) := by
  refine ⟨fun a => ⟨empty_merge a, merge_empty a⟩, merge_assoc, foldl_merge_ofPages,
    fun pages pages' h => ?_, fun groups groups' h => alike_of_perm (h.map ofPages),
    fun parts parts' h => alike_of_perm h⟩
  rw [ofPages_eq_foldl, ofPages_eq_foldl]
  exact alike_of_perm (h.map ofPage)

/-- Pages with and without reports and cursors, groups of them, and aggregates with cursors, each
the other way round. -/
theorem aggregation_lawful_reversed :
    let first : Page Nat String Nat :=
      ⟨["x", "y"], 2, 3, some { table := some "t", units := some 1 }, some 7⟩
    let second : Page Nat String Nat := ⟨["z"], 1, 1, none, some 8⟩
    let third : Page Nat String Nat :=
      ⟨[], 0, 4, some { units := some 2, readUnits := some 5 }, none⟩
    let parts : List (Aggregate Nat String Nat) :=
      [ofPages [first, second], { ofPage second with cursor := some 8 }, ofPage third]
    [first, second, third].Perm [third, second, first] ∧
    (ofPages [first, second, third]).Alike (ofPages [third, second, first]) ∧
    [[first, second], [third]].Perm [[third], [first, second]] ∧
    (([[first, second], [third]].map ofPages).foldl merge ∅).Alike
      (([[third], [first, second]].map ofPages).foldl merge ∅) ∧
    parts.Perm parts.reverse ∧
    (parts.foldl merge ∅).Alike (parts.reverse.foldl merge ∅) := by
  intro first second third parts
  have hpages : [first, second, third].Perm [third, second, first] :=
    (List.reverse_perm [first, second, third]).symm
  have hgroups : [[first, second], [third]].Perm [[third], [first, second]] := .swap _ _ _
  have hparts : parts.Perm parts.reverse := (List.reverse_perm parts).symm
  obtain ⟨-, -, -, hpagesAlike, hgroupsAlike, hpartsAlike⟩ :=
    aggregation_lawful (υ := Nat) (ι := String) (κ := Nat)
  exact ⟨hpages, hpagesAlike _ _ hpages, hgroups, hgroupsAlike _ _ hgroups, hparts,
    hpartsAlike _ _ hparts⟩

end TableClient.Aggregate
