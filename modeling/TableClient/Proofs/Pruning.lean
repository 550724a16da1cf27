import TableClient.Proofs.Grammar.Condition

/-! Pruning brings a condition with absent parts into normal form.

The verdict on a condition (`verdict`) is drawn from what its tests come to. A group ignores
members on which there is no verdict, and there is none on a group that has no others, nor on its
negation. Pruning leaves a condition of ordinary logic (`holds`) with the same verdict, or nothing
where there is no verdict (`map_holds_prune`). It keeps the tests in their order (`leaves_prune`)
and has nothing left to do the second time (`IsPruned.prune_eq`). `prune_normal` puts this
together. -/
namespace TableClient.Condition

/-! ### Tests -/

mutual
/-- The tests of a condition, from left to right. -/
def leaves : Condition → List Condition
  | .all conditions => leavesList conditions
  | .any conditions => leavesList conditions
  | .not condition => leaves condition
  | leaf => [leaf]

def leavesList : List Condition → List Condition
  | [] => []
  | condition :: rest => leaves condition ++ leavesList rest
end

/-- Regrouping keeps the tests, if the group has those of its members. -/
theorem leaves_regroup {group : List Condition → Condition}
    (members : ∀ conditions, (group conditions).leaves = leavesList conditions)
    (conditions : List Condition) :
    (regroup group conditions).elim [] leaves = leavesList conditions := by
  match conditions with
  | [] => rfl
  | [only] => exact (List.append_nil _).symm
  | first :: second :: rest => exact members (first :: second :: rest)

mutual
/-- Pruning keeps the tests. -/
theorem leaves_prune (t : Condition) : t.prune.elim [] leaves = t.leaves := by
  cases t with
  | all conditions | any conditions =>
    exact (leaves_regroup (fun _ => rfl) _).trans (leavesList_pruneList conditions)
  | not inner =>
    rw [leaves, ← leaves_prune inner, prune]
    cases inner.prune <;> rfl
  | _ => rfl

theorem leavesList_pruneList (ts : List Condition) : leavesList (pruneList ts) = leavesList ts := by
  cases ts with
  | nil => rfl
  | cons t rest =>
    rw [pruneList, leavesList, ← leaves_prune t, ← leavesList_pruneList rest]
    cases t.prune <;> rfl
end

/-- A pruned condition has a test. -/
theorem IsPruned.leaves_ne_nil {c : Condition} (h : c.IsPruned) : c.leaves ≠ [] := by
  -- the first member of a group has a test, and that is one of the group
  have first {conditions : List Condition} (several : 2 ≤ conditions.length)
      (ih : ∀ c ∈ conditions, c.leaves ≠ []) : leavesList conditions ≠ [] := by
    cases conditions with
    | nil => simp at several
    | cons c rest =>
      rw [leavesList, Ne, List.append_eq_nil_iff]
      exact fun nothing => ih c List.mem_cons_self nothing.1
  induction h with
  | @leaf c single => cases c <;> simp_all [leaves, isComposite]
  | all several _ ih => exact first several ih
  | any several _ ih => exact first several ih
  | not _ ih => exact ih

/-- Pruning leaves nothing exactly of a condition without tests. -/
theorem prune_eq_none_iff (t : Condition) : t.prune = none ↔ t.leaves = [] := by
  have kept := leaves_prune t
  cases pruned : t.prune with
  | none =>
    rw [pruned] at kept
    exact ⟨fun _ => kept.symm, fun _ => rfl⟩
  | some c =>
    rw [pruned] at kept
    refine ⟨nofun, fun nothing => ?_⟩
    exact absurd (kept.trans nothing) (isPruned_of_prune pruned).leaves_ne_nil

/-! ### Verdicts -/

/-- What the verdicts of the members that have one say together; nothing if there are none. -/
def amongPresent (join : List Bool → Bool) : List Bool → Option Bool
  | [] => none
  | present => some (join present)

section Verdicts
variable (ρ : Condition → Bool)

mutual
/-- The verdict on a condition, from what its tests come to. A group ignores members on which
there is none. -/
def verdict : Condition → Option Bool
  | .all conditions => amongPresent (·.all id) (verdicts conditions)
  | .any conditions => amongPresent (·.any id) (verdicts conditions)
  | .not condition => (verdict condition).map (!·)
  | leaf => some (ρ leaf)

/-- The verdicts on those of several conditions on which there is one. -/
def verdicts : List Condition → List Bool
  | [] => []
  | condition :: rest => (verdict condition).toList ++ verdicts rest
end

mutual
/-- Whether a condition holds, from what its tests come to. -/
def holds : Condition → Bool
  | .all conditions => (holdings conditions).all id
  | .any conditions => (holdings conditions).any id
  | .not condition => !holds condition
  | leaf => ρ leaf

def holdings : List Condition → List Bool
  | [] => []
  | condition :: rest => holds condition :: holdings rest
end

variable {ρ}

/-- Regrouping gives the verdict of the members, if the group of a single one says what it
says. -/
theorem map_holds_regroup {group : List Condition → Condition} {join : List Bool → Bool}
    (members : ∀ conditions, holds ρ (group conditions) = join (holdings ρ conditions))
    (single : ∀ b, join [b] = b) (conditions : List Condition) :
    (regroup group conditions).map (holds ρ) = amongPresent join (holdings ρ conditions) := by
  match conditions with
  | [] => rfl
  | [only] => exact congrArg some (single _).symm
  | first :: second :: rest => exact congrArg some (members (first :: second :: rest))

mutual
/-- What pruning leaves holds exactly if the verdict says so, and it leaves nothing exactly where
there is no verdict. -/
theorem map_holds_prune (t : Condition) : t.prune.map (holds ρ) = t.verdict ρ := by
  cases t with
  | all conditions =>
    rw [verdict, ← holdings_pruneList conditions]
    exact map_holds_regroup (fun _ => rfl) (by simp) _
  | any conditions =>
    rw [verdict, ← holdings_pruneList conditions]
    exact map_holds_regroup (fun _ => rfl) (by simp) _
  | not inner =>
    rw [verdict, ← map_holds_prune inner, prune]
    cases inner.prune <;> rfl
  | _ => rfl

theorem holdings_pruneList (ts : List Condition) :
    holdings ρ (pruneList ts) = verdicts ρ ts := by
  cases ts with
  | nil => rfl
  | cons t rest =>
    rw [pruneList, verdicts, ← map_holds_prune t, ← holdings_pruneList rest]
    cases t.prune <;> rfl
end

end Verdicts

/-! ### Pruning twice -/

/-- A group of several members that are as pruning leaves them stays as it is. -/
theorem regroup_pruneList {group : List Condition → Condition} {conditions : List Condition}
    (several : 2 ≤ conditions.length) (members : ∀ c ∈ conditions, c.prune = some c) :
    regroup group (pruneList conditions) = some (group conditions) := by
  have same : pruneList conditions = conditions := by
    clear several
    induction conditions with
    | nil => rfl
    | cons c rest ih =>
      obtain ⟨here, others⟩ := List.forall_mem_cons.1 members
      rw [pruneList, here, ih others]
  rw [same]
  match conditions, several with
  | _ :: _ :: _, _ => rfl

/-- Pruning leaves a pruned condition as it is. -/
theorem IsPruned.prune_eq {c : Condition} (h : c.IsPruned) : c.prune = some c := by
  induction h with
  | @leaf c single => cases c <;> simp_all [prune, isComposite]
  | all several _ ih => exact regroup_pruneList several ih
  | any several _ ih => exact regroup_pruneList several ih
  | not _ ih =>
    rw [prune, ih]
    rfl

/-- **Pruning is the normal form of a condition with absent parts.** Whatever the tests come to,
pruning leaves nothing exactly where there is no verdict, which is where there are no tests; and
otherwise it leaves a condition that holds exactly if the verdict says so. That condition has the
same tests in the same order, all its groups have two members or more, and pruning leaves it as it
is. -/
theorem prune_normal (t : Condition) :
    (∀ ρ, t.prune.map (holds ρ) = t.verdict ρ) ∧
    (∀ ρ, t.prune.bind (verdict ρ) = t.verdict ρ) ∧
    (∀ ρ, t.prune = none ↔ t.verdict ρ = none) ∧
    (t.prune = none ↔ t.leaves = []) ∧
    ∀ c, t.prune = some c → c.leaves = t.leaves ∧ c.IsPruned ∧ c.prune = some c := by
  refine ⟨fun ρ => map_holds_prune t, fun ρ => ?_, fun ρ => ?_, prune_eq_none_iff t, ?_⟩
  · rw [← map_holds_prune t]
    cases kept : t.prune with
    | none => rfl
    | some c =>
      have again := map_holds_prune (ρ := ρ) c
      rw [(isPruned_of_prune kept).prune_eq] at again
      exact again.symm
  · rw [← map_holds_prune t, Option.map_eq_none_iff]
  · intro c kept
    have tests := leaves_prune t
    rw [kept] at tests
    have pruned := isPruned_of_prune kept
    exact ⟨tests, pruned, pruned.prune_eq⟩

/-- A group of one is the member even under a negation, which itself stays. -/
theorem prune_normal_nested :
    let there := Condition.exists? ⟨[.name "a"]⟩
    let old := Condition.compare .lt ⟨[.name "b"]⟩ (.number "1")
    let t := Condition.any [.all [], .not (.all [.any [there], .not (.any [])]), .all [old]]
    t.prune = some (.any [.not there, old]) ∧
      Condition.leaves (.any [.not there, old]) = t.leaves ∧
      IsPruned (.any [.not there, old]) ∧
      Condition.prune (.any [.not there, old]) = some (.any [.not there, old]) := by
  intro there old t
  have kept : t.prune = some (.any [.not there, old]) := rfl
  exact ⟨kept, (prune_normal t).2.2.2.2 _ kept⟩

end TableClient.Condition
