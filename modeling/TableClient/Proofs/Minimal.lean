import TableClient.Proofs.Canonical

/-! The canonical form of bindings is minimal.

Folding keeps the first binding of every target and no two of the same one (`fold_first`), and
renumbering counts the tokens that stand for what the texts refer to. So the new bindings are
exactly the names and values that the texts refer to, each once and under the token of its place,
and the texts hold these tokens in this order and no others (`optimize_minimal`). -/
namespace TableClient.Bindings

/-! ### First occurrences -/

/-- Members that a partial map tells apart keep the order of their first occurrences. -/
theorem eraseDups_filterMap {α β : Type} [BEq α] [LawfulBEq α] [BEq β] [LawfulBEq β]
    {f : α → Option β} {l : List α}
    (apart : ∀ a ∈ l, ∀ a' ∈ l, ∀ c, f a = some c → f a' = some c → a = a') :
    (l.filterMap f).eraseDups = l.eraseDups.filterMap f := by
  induction h : l.length using Nat.strongRecOn generalizing l with
  | ind n ih =>
    cases l with
    | nil => simp
    | cons a rest =>
      have shorter : (rest.filter fun b => !b == a).length < n := by
        have := List.length_filter_le (fun b => !b == a) rest
        simp only [List.length_cons] at h
        omega
      have later : ((rest.filter fun b => !b == a).filterMap f).eraseDups =
          (rest.filter fun b => !b == a).eraseDups.filterMap f := by
        refine ih _ shorter ?_ rfl
        intro x hx y hy
        exact apart x (List.mem_cons_of_mem _ (List.mem_of_mem_filter hx)) y
          (List.mem_cons_of_mem _ (List.mem_of_mem_filter hy))
      rw [List.eraseDups_cons]
      cases fa : f a with
      | none =>
        rw [List.filterMap_cons_none fa, List.filterMap_cons_none fa, ← later]
        congr 1
        rw [List.filterMap_filter]
        refine List.filterMap_congr fun x _ => ?_
        by_cases same : x = a
        · subst same
          simp [fa]
        · simp [same]
      | some c =>
        rw [List.filterMap_cons_some fa, List.filterMap_cons_some fa, List.eraseDups_cons, ← later]
        congr 2
        rw [List.filter_filterMap, List.filterMap_filter]
        refine List.filterMap_congr fun x hx => ?_
        by_cases same : x = a
        · subst same
          simp [fa]
        · have other : f x ≠ some c := fun fx =>
            same (apart x (List.mem_cons_of_mem _ hx) a List.mem_cons_self c fx fa)
          cases fx : f x with
          | none => simp
          | some d =>
            have differs : d ≠ c := fun equal => other (equal ▸ fx)
            simp [same, differs]

theorem eraseDups_map {α β : Type} [BEq α] [LawfulBEq α] [BEq β] [LawfulBEq β] {f : α → β}
    {l : List α} (apart : ∀ a ∈ l, ∀ a' ∈ l, f a = f a' → a = a') :
    (l.map f).eraseDups = l.eraseDups.map f := by
  rw [← List.filterMap_eq_map]
  refine eraseDups_filterMap fun a ha a' ha' c fa fa' => apart a ha a' ha' ?_
  exact Option.some.inj (fa.trans fa'.symm)

theorem eraseDups_filter {α : Type} [BEq α] [LawfulBEq α] (p : α → Bool) (l : List α) :
    (l.filter p).eraseDups = l.eraseDups.filter p := by
  rw [← List.filterMap_eq_filter]
  refine eraseDups_filterMap fun a _ a' _ c fa fa' => ?_
  have first := (Option.guard_eq_some_iff.1 fa).1
  have second := (Option.guard_eq_some_iff.1 fa').1
  exact first.trans second.symm

/-! ### What folding keeps -/

section Folding
variable {α κ : Type} {same : α → α → Bool} {key : α → κ}
  (agrees : ∀ x y, same x y = true ↔ key x = key y)
include agrees

/-- Folding keeps the first binding of every target. -/
theorem fold_first {bindings : List (String × α)} (distinct : (bindings.map Prod.fst).Nodup)
    {entry : String × α} (kept : entry ∈ (fold same bindings).kept) :
    bindings.find? (fun first => same first.2 entry.2) = some entry := by
  have refl (x : α) : same x x = true := (agrees x x).2 rfl
  induction bindings using List.reverseRecOn with
  | nil => simp [fold] at kept
  | append_singleton bindings binding ih =>
    rw [List.map_append, List.nodup_append] at distinct
    have covers := fold_covers refl distinct.1
    have step : fold same (bindings ++ [binding]) = (fold same bindings).add same binding := by
      simp [fold]
    rw [step, Folded.add] at kept
    rw [List.find?_append]
    split at kept
    · rw [ih distinct.1 kept, Option.some_or]
    · next fresh =>
      rcases List.mem_append.1 kept with old | new
      · rw [ih distinct.1 old, Option.some_or]
      · obtain rfl : entry = binding := by simpa using new
        have missing : bindings.find? (fun first => same first.2 entry.2) = none := by
          rw [List.find?_eq_none]
          intro earlier member equal
          obtain ⟨first, standing, stands⟩ := covers.stands earlier.1 earlier.2 member
          have transitive : same first entry.2 = true :=
            (agrees _ _).2 (((agrees _ _).1 stands).trans ((agrees _ _).1 equal))
          exact List.find?_eq_none.1 fresh _ standing transitive
        rw [missing, Option.none_or]
        simp [refl]

/-- No two bindings that folding keeps have the same target. -/
theorem fold_apart {bindings : List (String × α)} (distinct : (bindings.map Prod.fst).Nodup)
    {entry other : String × α} (kept : entry ∈ (fold same bindings).kept)
    (kept' : other ∈ (fold same bindings).kept) (equal : key entry.2 = key other.2) :
    entry = other := by
  have first := fold_first agrees distinct kept
  have first' := fold_first agrees distinct kept'
  have tests : (fun first : String × α => same first.2 entry.2) =
      fun first => same first.2 other.2 := by
    funext first
    rw [Bool.eq_iff_iff, agrees, agrees, equal]
  rw [tests, first'] at first
  exact (Option.some.inj first).symm

end Folding

theorem sameAs_iff (v w : AttributeValue) : v.sameAs w = true ↔ v.normalized = w.normalized := by
  simp [AttributeValue.sameAs]

/-! ### What renumbering binds -/

section Numbering
variable {α κ : Type} [BEq κ] [LawfulBEq κ] {targets : KeyMap α} {canonical : Nat → String}
  {key : α → κ}

/-- What the numbered tokens stand for, in their order. -/
theorem map_snd_rebind_number (tokens : List String) :
    (rebind targets (number canonical tokens)).map Prod.snd = tokens.filterMap targets.get? := by
  have first : tokens.filterMap targets.get? =
      tokens.zipIdx.filterMap fun entry => targets.get? entry.1 := by
    conv_lhs => rw [← List.zipIdx_map_fst 0 tokens, List.filterMap_map]
    rfl
  rw [first, rebind, number, List.filterMap_map, List.map_filterMap]
  refine List.filterMap_congr fun entry _ => ?_
  cases h : targets.get? entry.1 <;> simp [h]

/-- Every numbered token that is bound gets its number. -/
theorem map_fst_rebind_number {tokens : List String}
    (bound : ∀ token ∈ tokens, (targets.get? token).isSome = true) :
    (rebind targets (number canonical tokens)).map Prod.fst =
      (List.range tokens.length).map canonical := by
  rw [← map_snd_number, rebind, List.map_filterMap, ← List.filterMap_eq_map]
  refine List.filterMap_congr fun entry member => ?_
  have member' : entry.1 ∈ (number canonical tokens).map Prod.fst := List.mem_map_of_mem member
  rw [map_fst_number] at member'
  obtain ⟨target, found⟩ := Option.isSome_iff_exists.1 (bound _ member')
  simp [found]

end Numbering

/-! ### The tokens of the canonical form -/

/-- The token that stands for a token after folding. -/
def stand (b : Bindings) (token : String) : String := (b.aliases.get? token).getD token

/-- The tokens that stand in texts after folding, each once, in the order in which they come. -/
def standing (b : Bindings) (texts : List String) : List String :=
  ((texts.flatMap Token.tokens).map b.stand).eraseDups

/-- Those of them that stand for names. -/
def standingNames (b : Bindings) (texts : List String) : List String :=
  (b.standing texts).filter fun token => (b.keep.nameMap.get? token).isSome

/-- Those of them that stand for values. -/
def standingValues (b : Bindings) (texts : List String) : List String :=
  (b.standing texts).filter fun token => (b.keep.valueMap.get? token).isSome

/-- The new token for one that stands in texts after folding. -/
def renamed (b : Bindings) (texts : List String) (token : String) : String :=
  ((number nameToken (b.standingNames texts) ++ number valueToken (b.standingValues texts)).lookup
    token).getD token

section Proper
variable {b : Bindings} (h : b.Proper)
include h

theorem Proper.flatMap_tokens_folded (texts : List String) :
    (texts.map (Token.substitute b.aliases.get?)).flatMap Token.tokens =
      (texts.flatMap Token.tokens).map b.stand := by
  rw [List.flatMap_map, List.map_flatMap]
  refine List.flatMap_congr fun text _ => ?_
  exact Token.tokens_substitute (fun _ _ => h.isWhole_of_get?_aliases) text

/-- A token that is kept for a value is none that is kept for a name. -/
theorem Proper.get?_nameMap_of_value {token : String}
    (value : (b.keep.valueMap.get? token).isSome = true) : b.keep.nameMap.get? token = none := by
  obtain ⟨v, found⟩ := Option.isSome_iff_exists.1 value
  refine KeyMap.get?_ofList_eq_none fun name => h.keep.disjoint name ?_
  exact List.mem_map_of_mem (KeyMap.mem_of_get?_ofList found)

theorem Proper.renumber_folded (texts : List String) :
    renumber (texts.map (Token.substitute b.aliases.get?)) b.keep.nameMap b.keep.valueMap =
      { substitute := Token.substitute fun token =>
          (number nameToken (b.standingNames texts) ++
            number valueToken (b.standingValues texts)).lookup token
        bindings :=
          ⟨rebind b.keep.nameMap (number nameToken (b.standingNames texts)),
            rebind b.keep.valueMap (number valueToken (b.standingValues texts))⟩ } := by
  have values : (b.standing texts).filter (fun token =>
        (b.keep.nameMap.get? token).isNone && (b.keep.valueMap.get? token).isSome) =
      b.standingValues texts := by
    refine List.filter_congr fun token _ => ?_
    cases value : (b.keep.valueMap.get? token).isSome with
    | false => simp
    | true => simp [h.get?_nameMap_of_value value]
  unfold renumber
  rw [h.flatMap_tokens_folded]
  show Canonical.mk _ _ = Canonical.mk _ _
  rw [← values]
  rfl

theorem Proper.bindings_canonical (texts : List String) :
    (canonical texts b).bindings =
      ⟨rebind b.keep.nameMap (number nameToken (b.standingNames texts)),
        rebind b.keep.valueMap (number valueToken (b.standingValues texts))⟩ :=
  congrArg Canonical.bindings (h.renumber_folded texts)

theorem Proper.tokens_canonical (texts : List String) :
    (texts.map (canonical texts b).substitute).flatMap Token.tokens =
      ((texts.flatMap Token.tokens).map b.stand).map (b.renamed texts) := by
  rw [← h.flatMap_tokens_folded, List.flatMap_map, List.flatMap_map, List.map_flatMap]
  refine List.flatMap_congr fun text _ => ?_
  have form : (canonical texts b).substitute text =
      (renumber (texts.map (Token.substitute b.aliases.get?)) b.keep.nameMap
        b.keep.valueMap).substitute (Token.substitute b.aliases.get? text) := rfl
  rw [form, h.renumber_folded]
  exact Token.tokens_substitute (fun _ _ => isWhole_of_lookup_number) _

/-- A token that is not bound stands for nothing after folding. -/
theorem Proper.get?_stand_of_unbound {token : String} (unbound : ¬b.Binds token) :
    b.keep.nameMap.get? (b.stand token) = none ∧ b.nameMap.get? token = none ∧
      b.keep.valueMap.get? (b.stand token) = none ∧ b.valueMap.get? token = none := by
  have left : ¬b.keep.Binds token := fun kept => unbound (h.binds_of_keep kept)
  rw [stand, h.get?_aliases_eq_none unbound, Option.getD_none]
  exact ⟨KeyMap.get?_ofList_eq_none fun name => left (.inl name),
    KeyMap.get?_ofList_eq_none fun name => unbound (.inl name),
    KeyMap.get?_ofList_eq_none fun value => left (.inr value),
    KeyMap.get?_ofList_eq_none fun value => unbound (.inr value)⟩

/-- A token stands, after folding, for the name that it stood for. -/
theorem Proper.get?_stand_name (token : String) :
    b.keep.nameMap.get? (b.stand token) = b.nameMap.get? token := by
  by_cases bound : b.Binds token
  rotate_left
  · obtain ⟨after, before, -⟩ := h.get?_stand_of_unbound bound
    rw [after, before]
  rcases bound with name | value
  · obtain ⟨⟨token, target⟩, entry, rfl⟩ := List.mem_map.1 name
    have before : b.nameMap.get? token = some target :=
      KeyMap.get?_ofList_of_mem h.names_distinct entry
    rw [before]
    exact KeyMap.get?_ofList_of_mem h.keep.names_distinct (h.stands_name entry)
  · have before : b.nameMap.get? token = none :=
      KeyMap.get?_ofList_eq_none fun name => h.disjoint name value
    obtain ⟨⟨token, target⟩, entry, rfl⟩ := List.mem_map.1 value
    obtain ⟨first, kept, -⟩ := h.stands_value entry
    have after : b.keep.valueMap.get? (b.stand token) = some first :=
      KeyMap.get?_ofList_of_mem h.keep.values_distinct kept
    rw [before]
    exact h.get?_nameMap_of_value (by rw [after]; rfl)

/-- A token stands, after folding, for the same value, but for the order and repetition of set
members. -/
theorem Proper.get?_stand_value (token : String) :
    (b.keep.valueMap.get? (b.stand token)).map AttributeValue.normalized =
      (b.valueMap.get? token).map AttributeValue.normalized := by
  by_cases bound : b.Binds token
  rotate_left
  · obtain ⟨-, -, after, before⟩ := h.get?_stand_of_unbound bound
    rw [after, before]
  rcases bound with name | value
  · have before : b.valueMap.get? token = none :=
      KeyMap.get?_ofList_eq_none (h.disjoint name)
    obtain ⟨⟨token, target⟩, entry, rfl⟩ := List.mem_map.1 name
    have after : b.stand token ∈ b.keep.names.map Prod.fst :=
      List.mem_map_of_mem (h.stands_name entry)
    have other : b.keep.valueMap.get? (b.stand token) = none :=
      KeyMap.get?_ofList_eq_none (h.keep.disjoint after)
    rw [before, other]
  · obtain ⟨⟨token, target⟩, entry, rfl⟩ := List.mem_map.1 value
    obtain ⟨first, kept, same⟩ := h.stands_value entry
    have before : b.valueMap.get? token = some target :=
      KeyMap.get?_ofList_of_mem h.values_distinct entry
    have after : b.keep.valueMap.get? (b.stand token) = some first :=
      KeyMap.get?_ofList_of_mem h.keep.values_distinct kept
    rw [before, after, Option.map_some, Option.map_some, (sameAs_iff _ _).1 same]

theorem Proper.keep_names_apart {token token' name : String}
    (bound : b.keep.nameMap.get? token = some name)
    (bound' : b.keep.nameMap.get? token' = some name) : token = token' := by
  have agrees (x y : String) : decide (x = y) = true ↔ id x = id y := by simp
  have equal := fold_apart agrees h.names_distinct (KeyMap.mem_of_get?_ofList bound)
    (KeyMap.mem_of_get?_ofList bound') rfl
  exact (Prod.mk.inj equal).1

theorem Proper.keep_values_apart {token token' : String} {v w : AttributeValue}
    (bound : b.keep.valueMap.get? token = some v) (bound' : b.keep.valueMap.get? token' = some w)
    (same : v.normalized = w.normalized) : token = token' := by
  have equal := fold_apart sameAs_iff h.values_distinct (KeyMap.mem_of_get?_ofList bound)
    (KeyMap.mem_of_get?_ofList bound') same
  exact (Prod.mk.inj equal).1

/-! ### What the canonical form binds -/

theorem Proper.map_fst_names (texts : List String) :
    (canonical texts b).bindings.names.map Prod.fst =
      (List.range (b.standingNames texts).length).map nameToken := by
  rw [h.bindings_canonical]
  exact map_fst_rebind_number fun token member => (List.mem_filter.1 member).2

theorem Proper.map_fst_values (texts : List String) :
    (canonical texts b).bindings.values.map Prod.fst =
      (List.range (b.standingValues texts).length).map valueToken := by
  rw [h.bindings_canonical]
  exact map_fst_rebind_number fun token member => (List.mem_filter.1 member).2

/-- The new names are those that the texts referred to, in the order in which they came. -/
theorem Proper.map_snd_names (texts : List String) :
    (canonical texts b).bindings.names.map Prod.snd =
      ((texts.flatMap Token.tokens).filterMap b.nameMap.get?).eraseDups := by
  have kept : (b.standingNames texts).filterMap b.keep.nameMap.get? =
      (b.standing texts).filterMap b.keep.nameMap.get? := by
    rw [standingNames, List.filterMap_filter]
    refine List.filterMap_congr fun token _ => ?_
    cases b.keep.nameMap.get? token <;> rfl
  have meant : (texts.flatMap Token.tokens).filterMap b.nameMap.get? =
      ((texts.flatMap Token.tokens).map b.stand).filterMap b.keep.nameMap.get? := by
    rw [List.filterMap_map]
    exact List.filterMap_congr fun token _ => (h.get?_stand_name token).symm
  rw [h.bindings_canonical, map_snd_rebind_number, kept, meant, standing, eraseDups_filterMap]
  exact fun _ _ _ _ _ first second => h.keep_names_apart first second

/-- The new values are those that the texts referred to, one of each class, in the order in which
they came. -/
theorem Proper.map_normalized_values (texts : List String) :
    (canonical texts b).bindings.values.map (fun entry => entry.2.normalized) =
      (((texts.flatMap Token.tokens).filterMap b.valueMap.get?).map
        AttributeValue.normalized).eraseDups := by
  have kept : (b.standingValues texts).filterMap b.keep.valueMap.get? =
      (b.standing texts).filterMap b.keep.valueMap.get? := by
    rw [standingValues, List.filterMap_filter]
    refine List.filterMap_congr fun token _ => ?_
    cases b.keep.valueMap.get? token <;> rfl
  have meant : ((texts.flatMap Token.tokens).filterMap b.valueMap.get?).map
        AttributeValue.normalized =
      ((texts.flatMap Token.tokens).map b.stand).filterMap fun token =>
        (b.keep.valueMap.get? token).map AttributeValue.normalized := by
    rw [List.map_filterMap, List.filterMap_map]
    exact List.filterMap_congr fun token _ => (h.get?_stand_value token).symm
  have values : (canonical texts b).bindings.values.map (fun entry => entry.2.normalized) =
      ((canonical texts b).bindings.values.map Prod.snd).map AttributeValue.normalized := by
    rw [List.map_map]
    rfl
  rw [values, h.bindings_canonical, map_snd_rebind_number, kept, List.map_filterMap, meant,
    standing, eraseDups_filterMap]
  intro token _ token' _ v first second
  obtain ⟨x, found, rfl⟩ := Option.map_eq_some_iff.1 first
  obtain ⟨y, found', same⟩ := Option.map_eq_some_iff.1 second
  exact h.keep_values_apart found found' same.symm

/-! ### The order in which texts use the new tokens -/

omit h in
theorem nodup_standingNames (texts : List String) : (b.standingNames texts).Nodup :=
  (nodup_eraseDups _).filter _

omit h in
theorem nodup_standingValues (texts : List String) : (b.standingValues texts).Nodup :=
  (nodup_eraseDups _).filter _

omit h in
theorem renamed_name {texts : List String} {token : String}
    (member : token ∈ b.standingNames texts) :
    (token, b.renamed texts token) ∈ number nameToken (b.standingNames texts) := by
  obtain ⟨position, numbered⟩ := exists_mem_number nameToken member
  have found := lookup_number (nodup_standingNames texts) numbered
  rwa [renamed, List.lookup_append, found, Option.some_or, Option.getD_some]

theorem Proper.renamed_value {texts : List String} {token : String}
    (member : token ∈ b.standingValues texts) :
    (token, b.renamed texts token) ∈ number valueToken (b.standingValues texts) := by
  have other : token ∉ b.standingNames texts := by
    intro name
    have unnamed := h.get?_nameMap_of_value (List.mem_filter.1 member).2
    simpa [unnamed] using (List.mem_filter.1 name).2
  obtain ⟨position, numbered⟩ := exists_mem_number valueToken member
  have found := lookup_number (nodup_standingValues texts) numbered
  rwa [renamed, List.lookup_append, lookup_number_eq_none other, Option.none_or, found,
    Option.getD_some]

omit h in
/-- A renaming that gives each token its number gives all of them, in order, the numbers. -/
theorem map_eq_of_mem_number {canonical : Nat → String} {rename : String → String}
    {tokens : List String} (distinct : tokens.Nodup)
    (numbered : ∀ token ∈ tokens, (token, rename token) ∈ number canonical tokens) :
    tokens.map rename = (List.range tokens.length).map canonical := by
  have entries : ∀ entry ∈ number canonical tokens, rename entry.1 = entry.2 := by
    intro entry member
    have first : entry.1 ∈ tokens := by
      have := List.mem_map_of_mem (f := Prod.fst) member
      rwa [map_fst_number] at this
    have named := lookup_number distinct (numbered _ first)
    have given := lookup_number distinct (show (entry.1, entry.2) ∈ _ from member)
    exact Option.some.inj (named.symm.trans given)
  calc
    tokens.map rename = ((number canonical tokens).map Prod.fst).map rename := by
      rw [map_fst_number]
    _ = (number canonical tokens).map Prod.snd := by
      rw [List.map_map]
      exact List.map_congr_left entries
    _ = (List.range tokens.length).map canonical := map_snd_number

omit h in
/-- Tokens that are numbered in the order in which they come first are, renamed, the numbered
tokens in order. -/
theorem eraseDups_filter_map_number {canonical : Nat → String}
    (injective : Function.Injective canonical) {l : List String} {p q : String → Bool}
    {rename : String → String} (tests : ∀ token ∈ l, q (rename token) = p token)
    (numbered : ∀ token ∈ l.eraseDups.filter p,
      (token, rename token) ∈ number canonical (l.eraseDups.filter p)) :
    (l.map rename).eraseDups.filter q =
      (List.range (l.eraseDups.filter p).length).map canonical := by
  have numbers := map_eq_of_mem_number ((nodup_eraseDups l).filter p) numbered
  have apart : ∀ token ∈ l.filter p, ∀ token' ∈ l.filter p,
      rename token = rename token' → token = token' := by
    have nodup : ((l.eraseDups.filter p).map rename).Nodup := by
      rw [numbers]
      exact List.nodup_range.map injective
    intro token member token' member' equal
    rw [← List.mem_eraseDups, eraseDups_filter] at member member'
    exact List.inj_on_of_nodup_map nodup member member' equal
  have tested : (l.map rename).filter q = (l.filter p).map rename := by
    rw [List.filter_map]
    exact congrArg _ (List.filter_congr tests)
  rw [← eraseDups_filter, tested, eraseDups_map apart, eraseDups_filter, numbers]

/-- A token that stands in bound texts is kept for a name or for a value. -/
theorem Proper.mem_standing {texts : List String}
    (bound : ∀ token ∈ texts.flatMap Token.tokens, b.Binds token) {token : String}
    (used : token ∈ (texts.flatMap Token.tokens).map b.stand) :
    token ∈ b.standingNames texts ∨ token ∈ b.standingValues texts := by
  have standing : token ∈ b.standing texts := List.mem_eraseDups.2 used
  obtain ⟨origin, occurs, rfl⟩ := List.mem_map.1 used
  rcases bound origin occurs with name | value
  · obtain ⟨⟨_, target⟩, entry, rfl⟩ := List.mem_map.1 name
    have kept := KeyMap.get?_ofList_of_mem h.keep.names_distinct (h.stands_name entry)
    exact .inl (List.mem_filter.2 ⟨standing, Option.isSome_iff_exists.2 ⟨_, kept⟩⟩)
  · obtain ⟨⟨_, target⟩, entry, rfl⟩ := List.mem_map.1 value
    obtain ⟨first, member, -⟩ := h.stands_value entry
    have kept := KeyMap.get?_ofList_of_mem h.keep.values_distinct member
    exact .inr (List.mem_filter.2 ⟨standing, Option.isSome_iff_exists.2 ⟨_, kept⟩⟩)

omit h in
theorem isToken_renamed_name {texts : List String} {token : String}
    (member : token ∈ b.standingNames texts) :
    Token.isToken Token.nameSigil (b.renamed texts token) = true ∧
      Token.isToken Token.valueSigil (b.renamed texts token) = false := by
  obtain ⟨position, equal⟩ := mem_number (renamed_name member)
  have name := isToken_nameToken position
  rw [equal]
  refine ⟨name, Bool.eq_false_iff.2 fun value => ?_⟩
  exact absurd (Token.isToken_sigil name value) (by decide)

theorem Proper.isToken_renamed_value {texts : List String} {token : String}
    (member : token ∈ b.standingValues texts) :
    Token.isToken Token.nameSigil (b.renamed texts token) = false ∧
      Token.isToken Token.valueSigil (b.renamed texts token) = true := by
  obtain ⟨position, equal⟩ := mem_number (h.renamed_value member)
  have value := isToken_valueToken position
  rw [equal]
  refine ⟨Bool.eq_false_iff.2 fun name => ?_, value⟩
  exact absurd (Token.isToken_sigil name value) (by decide)

/-- The texts use the new name tokens in the order in which these are bound. -/
theorem Proper.filter_names {texts : List String}
    (bound : ∀ token ∈ texts.flatMap Token.tokens, b.Binds token) :
    ((texts.map (canonical texts b).substitute).flatMap Token.tokens).eraseDups.filter
        (Token.isToken Token.nameSigil) =
      (canonical texts b).bindings.names.map Prod.fst := by
  rw [h.tokens_canonical, h.map_fst_names]
  refine eraseDups_filter_map_number nameToken_injective (fun token used => ?_)
    fun _ => renamed_name
  rcases h.mem_standing bound used with name | value
  · rw [(isToken_renamed_name name).1, (List.mem_filter.1 name).2]
  · rw [(h.isToken_renamed_value value).1,
      h.get?_nameMap_of_value (List.mem_filter.1 value).2, Option.isSome_none]

/-- The texts use the new value tokens in the order in which these are bound. -/
theorem Proper.filter_values {texts : List String}
    (bound : ∀ token ∈ texts.flatMap Token.tokens, b.Binds token) :
    ((texts.map (canonical texts b).substitute).flatMap Token.tokens).eraseDups.filter
        (Token.isToken Token.valueSigil) =
      (canonical texts b).bindings.values.map Prod.fst := by
  rw [h.tokens_canonical, h.map_fst_values]
  refine eraseDups_filter_map_number valueToken_injective (fun token used => ?_) fun _ =>
    h.renamed_value
  rcases h.mem_standing bound used with name | value
  · rw [(isToken_renamed_name name).2]
    cases found : (b.keep.valueMap.get? token).isSome with
    | false => rfl
    | true =>
      have named := (List.mem_filter.1 name).2
      rw [h.get?_nameMap_of_value found] at named
      exact absurd named (by simp)
  · rw [(h.isToken_renamed_value value).2, (List.mem_filter.1 value).2]

/-- A new value is the first of its class that was bound. -/
theorem Proper.exists_find?_values {texts : List String} {entry : String × AttributeValue}
    (member : entry ∈ (canonical texts b).bindings.values) :
    ∃ token, b.values.find? (fun first => first.2.sameAs entry.2) = some (token, entry.2) := by
  have listed : (canonical texts b).bindings.values.map Prod.snd =
      (b.standingValues texts).filterMap b.keep.valueMap.get? := by
    rw [h.bindings_canonical]
    exact map_snd_rebind_number _
  have value : entry.2 ∈ (b.standingValues texts).filterMap b.keep.valueMap.get? :=
    listed ▸ List.mem_map_of_mem member
  obtain ⟨token, -, found⟩ := List.mem_filterMap.1 value
  exact ⟨token, fold_first sameAs_iff h.values_distinct (KeyMap.mem_of_get?_ofList found)⟩

/-- The texts use the new tokens and no others. -/
theorem Proper.mem_tokens_canonical {texts : List String}
    (bound : ∀ token ∈ texts.flatMap Token.tokens, b.Binds token) (token : String) :
    token ∈ (texts.map (canonical texts b).substitute).flatMap Token.tokens ↔
      (canonical texts b).bindings.Binds token := by
  rw [Binds, ← h.filter_names bound, ← h.filter_values bound, List.mem_filter, List.mem_filter,
    List.mem_eraseDups]
  constructor
  · intro used
    have renamed := used
    rw [h.tokens_canonical] at renamed
    obtain ⟨stood, occurs, rfl⟩ := List.mem_map.1 renamed
    rcases h.mem_standing bound occurs with name | value
    · exact .inl ⟨used, (isToken_renamed_name name).1⟩
    · exact .inr ⟨used, (h.isToken_renamed_value value).2⟩
  · rintro (name | value)
    · exact name.1
    · exact value.1

end Proper

/-! ### Minimality -/

/-- Bindings `c` of the texts `after` bind, each once, what the texts `before` referred to in
bindings `b`. -/
structure Minimal (before : List String) (b : Bindings) (after : List String) (c : Bindings) :
    Prop where
  /-- The tokens of names are numbered from zero on, and so are those of values. -/
  name_tokens : c.names.map Prod.fst = (List.range c.names.length).map nameToken
  value_tokens : c.values.map Prod.fst = (List.range c.values.length).map valueToken
  /-- The new texts, read in sequence, use the tokens first in the order of the bindings. -/
  name_order : (after.flatMap Token.tokens).eraseDups.filter (Token.isToken Token.nameSigil) =
    c.names.map Prod.fst
  value_order : (after.flatMap Token.tokens).eraseDups.filter (Token.isToken Token.valueSigil) =
    c.values.map Prod.fst
  /-- What is bound are the different names that the old texts referred to, and one value of each
  class of the same values. -/
  names : c.names.map Prod.snd =
    ((before.flatMap Token.tokens).filterMap b.nameMap.get?).eraseDups
  values : c.values.map (fun entry => entry.2.normalized) =
    (((before.flatMap Token.tokens).filterMap b.valueMap.get?).map
      AttributeValue.normalized).eraseDups
  names_differ : (c.names.map Prod.snd).Nodup
  values_differ : c.values.Pairwise fun v w => v.2.sameAs w.2 = false
  /-- Of the values of a class, the one that was bound first is bound. -/
  values_first : ∀ entry ∈ c.values,
    ∃ token, b.values.find? (fun first => first.2.sameAs entry.2) = some (token, entry.2)
  /-- No binding is unused and no token is unbound. -/
  used_iff_bound : ∀ token, token ∈ after.flatMap Token.tokens ↔ c.Binds token

/-- **The canonical form is minimal.** If every token of the texts is bound, the new bindings are
those that the texts need, in the order in which the new texts use them. -/
theorem optimize_minimal (texts : List String) (b : Bindings) (h : b.Proper)
    (bound : ∀ text ∈ texts, ∀ token ∈ Token.tokens text, b.Binds token) :
    Minimal texts b (optimize texts b).1 (optimize texts b).2 := by
  have bound' : ∀ token ∈ texts.flatMap Token.tokens, b.Binds token := by
    intro token used
    obtain ⟨text, member, occurs⟩ := List.mem_flatMap.1 used
    exact bound text member token occurs
  have names := h.map_snd_names texts
  have values := h.map_normalized_values texts
  have classes :
      ((canonical texts b).bindings.values.map fun entry => entry.2.normalized).Nodup := by
    rw [values]
    exact nodup_eraseDups _
  exact
    { name_tokens := by
        have tokens := h.map_fst_names texts
        have count := congrArg List.length tokens
        simp only [List.length_map, List.length_range] at count
        rwa [← count] at tokens
      value_tokens := by
        have tokens := h.map_fst_values texts
        have count := congrArg List.length tokens
        simp only [List.length_map, List.length_range] at count
        rwa [← count] at tokens
      name_order := h.filter_names bound'
      value_order := h.filter_values bound'
      names := names
      values := values
      names_differ := (show _ = _ from names) ▸ nodup_eraseDups _
      values_differ := by
        refine (List.pairwise_map.1 classes).imp fun differ => ?_
        exact Bool.eq_false_iff.2 fun same => differ ((sameAs_iff _ _).1 same)
      values_first := fun _ => h.exists_find?_values
      used_iff_bound := h.mem_tokens_canonical bound' }

/-- Two of the names are equal, two of the values are the same set, and one binding is unused. -/
theorem optimize_minimal_shared :
    Minimal ["#b = :y AND #c < :x", "#a"]
      ⟨[("#a", "p"), ("#b", "q"), ("#c", "p"), ("#d", "r")],
        [(":x", .numberSet ["1", "2"]), (":y", .numberSet ["2", "1"])]⟩
      ["#n0 = :v0 AND #n1 < :v0", "#n1"]
      ⟨[("#n0", "q"), ("#n1", "p")], [(":v0", .numberSet ["1", "2"])]⟩ := by
  have optimized : optimize ["#b = :y AND #c < :x", "#a"]
      ⟨[("#a", "p"), ("#b", "q"), ("#c", "p"), ("#d", "r")],
        [(":x", .numberSet ["1", "2"]), (":y", .numberSet ["2", "1"])]⟩ =
      (["#n0 = :v0 AND #n1 < :v0", "#n1"],
        ⟨[("#n0", "q"), ("#n1", "p")], [(":v0", .numberSet ["1", "2"])]⟩) := by
    decide +kernel
  have minimal := optimize_minimal ["#b = :y AND #c < :x", "#a"]
    ⟨[("#a", "p"), ("#b", "q"), ("#c", "p"), ("#d", "r")],
      [(":x", .numberSet ["1", "2"]), (":y", .numberSet ["2", "1"])]⟩
    (by decide) (by decide +kernel)
  rwa [optimized] at minimal

end TableClient.Bindings
