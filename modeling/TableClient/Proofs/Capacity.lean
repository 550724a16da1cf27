import TableClient.Message.Capacity
import Mathlib.Algebra.BigOperators.Group.List.Basic
import Mathlib.Data.List.Induction
import Mathlib.Data.List.ReduceOption

/-! Adding up reports on capacity.

A report has units of three kinds (`reading`), each of which may be missing, and says more besides
(`bare`). Units that are missing count as zero; a sum is missing if all its parts are. So where
addition is exact, reports have in each kind the sum of their units (`reading_total`), and besides
say what the first of them says (`map_bare_total`). These two views of a report tell it from any
other, so all laws of adding reports up come from those of the views. -/
namespace TableClient.ConsumedCapacity
variable {υ : Type}

/-! ### Two views of a report -/

/-- The kinds of units. -/
inductive Meter where
  | all
  | read
  | write
deriving DecidableEq

/-- The units of a kind that a report has, if it has any. -/
def reading (report : ConsumedCapacity υ) : Meter → Option υ
  | .all => report.units
  | .read => report.readUnits
  | .write => report.writeUnits

/-- A report without its units. -/
def bare (report : ConsumedCapacity υ) : ConsumedCapacity υ :=
  { report with units := none, readUnits := none, writeUnits := none }

/-- A report is its units and the rest. -/
theorem ext_reading {a b : ConsumedCapacity υ} (hreading : ∀ m, a.reading m = b.reading m)
    (hbare : a.bare = b.bare) : a = b := by
  have hunits : a.units = b.units := hreading .all
  have hread : a.readUnits = b.readUnits := hreading .read
  have hwrite : a.writeUnits = b.writeUnits := hreading .write
  cases a
  cases b
  simp_all [bare]

/-- Reports that may be missing are the same if both views are. -/
theorem ext_readings {a b : Option (ConsumedCapacity υ)}
    (hreading : ∀ m, a.bind (·.reading m) = b.bind (·.reading m))
    (hbare : a.map bare = b.map bare) : a = b := by
  cases a with
  | none => exact (Option.map_eq_none_iff.1 hbare.symm).symm
  | some a =>
    cases b with
    | none => simp at hbare
    | some b => exact congrArg some (ext_reading hreading (Option.some.inj hbare))

section Sums
variable [Add υ] [Zero υ]

@[simp] theorem reading_add (first later : ConsumedCapacity υ) (m : Meter) :
    (first.add later).reading m = addUnits (first.reading m) (later.reading m) := by
  cases m <;> rfl

@[simp] theorem table_add (first later : ConsumedCapacity υ) :
    (first.add later).table = first.table := rfl

/-- A sum is there if any of its parts is. -/
theorem isSome_addUnits (a b : Option υ) : (addUnits a b).isSome = (a.isSome || b.isSome) := by
  cases a <;> cases b <;> rfl

/-! ### Reports that may be missing -/

@[simp] theorem addReport_none (total : Option (ConsumedCapacity υ)) :
    addReport total none = total := by
  cases total <;> rfl

@[simp] theorem none_addReport (report : Option (ConsumedCapacity υ)) :
    addReport none report = report := by
  cases report <;> rfl

/-- Besides its units, a sum says what the first report says. -/
@[simp] theorem map_bare_addReport (a b : Option (ConsumedCapacity υ)) :
    (addReport a b).map bare = (a.map bare).or (b.map bare) := by
  cases a <;> cases b <;> rfl

theorem isSome_reading_addReport (a b : Option (ConsumedCapacity υ)) (m : Meter) :
    ((addReport a b).bind (·.reading m)).isSome =
      ((a.bind (·.reading m)).isSome || (b.bind (·.reading m)).isSome) := by
  cases a with
  | none => simp
  | some a =>
    cases b with
    | none => simp
    | some b => simp [addReport, isSome_addUnits]

/-! ### Several reports -/

/-- What several reports say together: the first with the units of the others added. -/
def total : List (ConsumedCapacity υ) → Option (ConsumedCapacity υ)
  | [] => none
  | first :: later =>
    some { first with
      units := (later.map units).foldl addUnits first.units
      readUnits := (later.map readUnits).foldl addUnits first.readUnits
      writeUnits := (later.map writeUnits).foldl addUnits first.writeUnits }

theorem total_concat (reports : List (ConsumedCapacity υ)) (report : ConsumedCapacity υ) :
    total (reports ++ [report]) = addReport (total reports) (some report) := by
  cases reports with
  | nil => rfl
  | cons first later => simp [total, addReport, add]

/-- One more report that may be missing. -/
theorem total_append_toList (reports : List (ConsumedCapacity υ))
    (report : Option (ConsumedCapacity υ)) :
    total (reports ++ report.toList) = addReport (total reports) report := by
  cases report with
  | none => simp
  | some report => exact total_concat reports report

theorem map_bare_total (reports : List (ConsumedCapacity υ)) :
    (total reports).map bare = reports.head?.map bare := by
  cases reports <;> rfl

/-- Reports have units together if any of them has. -/
theorem isSome_reading_total (reports : List (ConsumedCapacity υ)) (m : Meter) :
    ((total reports).bind (·.reading m)).isSome = reports.any fun r => (r.reading m).isSome := by
  induction reports using List.reverseRecOn with
  | nil => rfl
  | append_singleton reports report ih =>
    rw [total_concat, isSome_reading_addReport, ih, List.any_append]
    simp

end Sums

/-! ### Exact sums -/

section Exact

/-- The sum of units, if any is there. -/
def sumUnits [Add υ] [Zero υ] (units : List (Option υ)) : Option υ :=
  if units.any Option.isSome then some units.reduceOption.sum else none

section AddMonoid
variable [AddMonoid υ]

@[simp] theorem none_addUnits (a : Option υ) : addUnits none a = a := by
  cases a <;> simp [addUnits]

@[simp] theorem addUnits_none (a : Option υ) : addUnits a none = a := by
  cases a <;> simp [addUnits]

theorem addUnits_assoc (a b c : Option υ) :
    addUnits (addUnits a b) c = addUnits a (addUnits b c) := by
  cases a <;> cases b <;> cases c <;> simp [addUnits, add_assoc]

@[simp] theorem reading_addReport (a b : Option (ConsumedCapacity υ)) (m : Meter) :
    (addReport a b).bind (·.reading m) =
      addUnits (a.bind (·.reading m)) (b.bind (·.reading m)) := by
  cases a with
  | none => simp
  | some a =>
    cases b with
    | none => simp
    | some b => simp [addReport]

/-- Reports can be added up in groups. -/
theorem addReport_assoc (a b c : Option (ConsumedCapacity υ)) :
    addReport (addReport a b) c = addReport a (addReport b c) :=
  ext_readings (fun m => by simp only [reading_addReport, addUnits_assoc])
    (by simp only [map_bare_addReport, Option.or_assoc])

theorem total_append (reports more : List (ConsumedCapacity υ)) :
    total (reports ++ more) = addReport (total reports) (total more) := by
  induction more using List.reverseRecOn with
  | nil => simp [total]
  | append_singleton more report ih =>
    rw [← List.append_assoc, total_concat, ih, total_concat, addReport_assoc]

theorem sumUnits_append (units : List (Option υ)) (a : Option υ) :
    sumUnits (units ++ [a]) = addUnits (sumUnits units) a := by
  cases a with
  | none => simp [sumUnits, List.reduceOption_append]
  | some a =>
    cases h : units.any Option.isSome with
    | true => simp [sumUnits, h, List.reduceOption_append, addUnits]
    | false =>
      have hnone : units.reduceOption = [] := by
        refine List.filterMap_eq_nil_iff.2 fun a ha => ?_
        simpa using List.any_eq_false.1 h a ha
      simp [sumUnits, h, hnone, List.reduceOption_append, addUnits]

/-- In each kind, reports have the sum of their units. -/
theorem reading_total (reports : List (ConsumedCapacity υ)) (m : Meter) :
    (total reports).bind (·.reading m) = sumUnits (reports.map (·.reading m)) := by
  induction reports using List.reverseRecOn with
  | nil => rfl
  | append_singleton reports report ih =>
    rw [total_concat, reading_addReport, ih, List.map_append, List.map_singleton, sumUnits_append]
    rfl

end AddMonoid

/-- The order of units does not change their sum. -/
theorem sumUnits_perm [AddCommMonoid υ] {units units' : List (Option υ)} (h : units.Perm units') :
    sumUnits units = sumUnits units' := by
  have hsum : units.reduceOption.sum = units'.reduceOption.sum := (h.filterMap id).sum_eq
  rw [sumUnits, sumUnits, h.any_eq, hsum]

/-- The order of reports does not change what units they have together. -/
theorem map_reading_total_perm [AddCommMonoid υ] {reports reports' : List (ConsumedCapacity υ)}
    (h : reports.Perm reports') : (total reports).map reading = (total reports').map reading := by
  have hreading (m : Meter) :
      (total reports).bind (·.reading m) = (total reports').bind (·.reading m) := by
    rw [reading_total, reading_total, sumUnits_perm (h.map _)]
  cases reports with
  | nil => rw [h.nil_eq]
  | cons first rest =>
    cases reports' with
    | nil => cases h.eq_nil
    | cons first' rest' => exact congrArg some (funext hreading)

end Exact

end TableClient.ConsumedCapacity
