import YieldEngine.RegistryRuns

/-! # What the registry shows as active

A strategy and its parameters live in two maps that several entrypoints write, some of them
open to anybody.  `Listing` is everything about a strategy that its creator decides.

`registry_spec`: in every state of every run, an active strategy has the listing that the
admin's latest approval of it found, and it has been neither updated nor deactivated since
(`ApprovedSince`).  Every stored strategy is well formed and has parameters, and no id is
handed out twice. -/

namespace YieldEngine.Registry

open CheckedArith Transact

/-- What the creator of a strategy decides. -/
structure Listing where
  name : String
  description : String
  creator : Address
  riskLevel : ℕ
  minInvestment : ℤ
  maxInvestment : ℤ
  feeStructure : FeeStructure
  parameters : Option StrategyParameters
deriving DecidableEq

/-- The stored listing of a strategy. -/
def RegistryStore.listing (s : RegistryStore) (id : ℕ) : Option Listing :=
  (s.strategyMap.get id).map fun strategy =>
    { name := strategy.name
      description := strategy.description
      creator := strategy.creator
      riskLevel := strategy.riskLevel
      minInvestment := strategy.minInvestment
      maxInvestment := strategy.maxInvestment
      feeStructure := strategy.feeStructure
      parameters := s.paramMap.get id }

/-- The strategy `id` is stored and active. -/
def RegistryStore.Active (s : RegistryStore) (id : ℕ) : Prop :=
  ∃ strategy, s.strategyMap.get id = some strategy ∧ strategy.isActive = true

/-- The call is an approval of `id` that the admin authorised. -/
def Approves (admin : Address) (id : ℕ) (c : Invocation) : Prop :=
  (∃ comments, c.action = .approveStrategy admin id comments) ∧ c.env.Authorized admin

/-- In the run from `s` an approval of `id` by `admin` found `listing`, and no approval, update
or deactivation of `id` returned after it. -/
def ApprovedSince (admin : Address) (id : ℕ) (listing : Option Listing) (s : RegistryStore)
    (calls : List Invocation) : Prop :=
  Since exec (fun before c => Approves admin id c ∧ before.listing id = listing)
    (fun _ c => ¬ Decides id c) s calls

/-! ### One call -/

section effects
variable {s s' : RegistryStore} {id k : ℕ} {old new : YieldStrategy}
  {parameters : StrategyParameters}

theorem listing_congr (hstrategy : s'.strategyMap.get id = s.strategyMap.get id)
    (hparams : s'.paramMap.get id = s.paramMap.get id) : s'.listing id = s.listing id := by
  rw [RegistryStore.listing, RegistryStore.listing, hstrategy, hparams]

theorem active_congr (hstrategy : s'.strategyMap.get id = s.strategyMap.get id) :
    s'.Active id ↔ s.Active id := by rw [RegistryStore.Active, RegistryStore.Active, hstrategy]

theorem Lists.get_other (h : Lists s s' k new parameters) (hne : id ≠ k) :
    s'.strategyMap.get id = s.strategyMap.get id ∧ s'.paramMap.get id = s.paramMap.get id := by
  rw [h.strategies, h.params]
  exact ⟨SortedMap.get_set_ne _ _ hne, SortedMap.get_set_ne _ _ hne⟩

theorem Lists.not_active (h : Lists s s' id new parameters) : ¬ s'.Active id := by
  rintro ⟨strategy, hget, hactive⟩
  rw [h.strategies, SortedMap.get_set_self] at hget
  obtain rfl := Option.some.inj hget
  rw [h.inactive] at hactive
  cases hactive

theorem Marks.get_self (h : Marks s s' id old new) : s'.strategyMap.get id = some new := by
  rw [h.strategies, SortedMap.get_set_self]

theorem Marks.get_other (h : Marks s s' k old new) (hne : id ≠ k) :
    s'.strategyMap.get id = s.strategyMap.get id ∧ s'.paramMap.get id = s.paramMap.get id := by
  rw [h.strategies, h.params]
  exact ⟨SortedMap.get_set_ne _ _ hne, rfl⟩

/-- Approving, deactivating and recording leave the listing alone. -/
theorem Marks.listing (h : Marks s s' id old new) : s'.listing id = s.listing id := by
  have hsame : SameListing old new := h.same
  rw [RegistryStore.listing, RegistryStore.listing, h.get_self, h.stored, h.params]
  rw [SameListing] at hsame
  rw [← hsame]
  rfl

theorem exec_admin {c : Invocation} (h : exec s c = .ok s') : s'.admin = s.admin := by
  cases exec_effect h with
  | registered _ lists => exact lists.admin
  | updated _ lists => exact lists.admin
  | approved _ _ marks => exact marks.admin
  | recorded marks => exact marks.admin
  | deactivated marks => exact marks.admin
  | other _ _ admin => exact admin

/-- The strategy `id` is shown as active with this listing, in a registry of `admin`. -/
structure ShownAs (admin : Address) (id : ℕ) (listing : Option Listing) (s : RegistryStore) :
    Prop where
  active : s.Active id
  listed : s.listing id = listing
  admin : s.admin = some admin

/-- A strategy is shown as active after a call because the call approved it, or because it was
shown so before a call that decides nothing about it. -/
theorem shownAs_step {admin : Address} {listing : Option Listing} {c : Invocation}
    (h : exec s c = .ok s') (hshown : ShownAs admin id listing s') :
    (Approves admin id c ∧ s.listing id = listing) ∨
      (ShownAs admin id listing s ∧ ¬ Decides id c) := by
  obtain ⟨hactive, hlisted, hadmin⟩ := hshown
  rw [exec_admin h] at hadmin
  -- a call that leaves both entries of `id` alone leaves it shown
  have hkept (hget : s'.strategyMap.get id = s.strategyMap.get id ∧
      s'.paramMap.get id = s.paramMap.get id) : ShownAs admin id listing s :=
    ⟨(active_congr hget.1).mp hactive, (listing_congr hget.1 hget.2).symm.trans hlisted, hadmin⟩
  cases exec_effect h with
  | @registered _ _ _ _ _ _ _ _ _ k _ _ lists =>
      by_cases hk : id = k
      · subst hk
        exact absurd hactive lists.not_active
      · exact .inr ⟨hkept (lists.get_other hk), not_false⟩
  | @updated _ _ k _ _ _ _ _ _ _ _ _ _ lists =>
      by_cases hk : id = k
      · subst hk
        exact absurd hactive lists.not_active
      · exact .inr ⟨hkept (lists.get_other hk), fun heq => hk heq.symm⟩
  | @approved e a k comments _ _ isAdmin authorized marks =>
      by_cases hk : id = k
      · subst hk
        obtain rfl : a = admin := Option.some.inj (isAdmin.symm.trans hadmin)
        exact .inl ⟨⟨⟨comments, rfl⟩, authorized⟩, marks.listing.symm.trans hlisted⟩
      · exact .inr ⟨hkept (marks.get_other hk), fun heq => hk heq.symm⟩
  | @recorded _ k _ _ _ _ _ _ marks activity =>
      refine .inr ⟨?_, not_false⟩
      by_cases hk : id = k
      · subst hk
        obtain ⟨strategy, hget, hstrategy⟩ := hactive
        obtain rfl := Option.some.inj (marks.get_self.symm.trans hget)
        exact ⟨⟨_, marks.stored, activity.symm.trans hstrategy⟩, marks.listing.symm.trans hlisted,
          hadmin⟩
      · exact hkept (marks.get_other hk)
  | @deactivated _ _ k _ _ marks inactive =>
      by_cases hk : id = k
      · subst hk
        obtain ⟨strategy, hget, hstrategy⟩ := hactive
        obtain rfl := Option.some.inj (marks.get_self.symm.trans hget)
        rw [inactive] at hstrategy
        cases hstrategy
      · exact .inr ⟨hkept (marks.get_other hk), fun heq => hk heq.symm⟩
  | other strategies params _ _ quiet =>
      exact .inr ⟨hkept ⟨by rw [strategies], by rw [params]⟩, quiet id⟩

/-! ### The stored strategies -/

/-- Every stored strategy is well formed, and exactly the stored strategies have parameters. -/
structure Consistent (s : RegistryStore) : Prop where
  wellFormed : ∀ id strategy, s.strategyMap.get id = some strategy → WellFormed id strategy
  keys : ∀ id, (s.strategyMap.get id).isSome = (s.paramMap.get id).isSome

theorem SameListing.wellFormed (h : SameListing old new) (hold : WellFormed id old) :
    WellFormed id new := by
  rw [SameListing] at h
  rw [← h] at hold
  exact ⟨hold.key, hold.minPositive, hold.ordered, hold.risk⟩

theorem Lists.consistent (h : Lists s s' k new parameters) (hs : Consistent s) :
    Consistent s' := by
  constructor
  · intro id strategy hget
    by_cases hk : id = k
    · subst hk
      rw [h.strategies, SortedMap.get_set_self] at hget
      obtain rfl := Option.some.inj hget
      exact h.wellFormed
    · rw [(h.get_other hk).1] at hget
      exact hs.wellFormed id strategy hget
  · intro id
    by_cases hk : id = k
    · subst hk
      rw [h.strategies, h.params, SortedMap.get_set_self, SortedMap.get_set_self]
      rfl
    · rw [(h.get_other hk).1, (h.get_other hk).2]
      exact hs.keys id

theorem Marks.consistent (h : Marks s s' k old new) (hs : Consistent s) : Consistent s' := by
  constructor
  · intro id strategy hget
    by_cases hk : id = k
    · subst hk
      obtain rfl := Option.some.inj (h.get_self.symm.trans hget)
      exact h.same.wellFormed (hs.wellFormed id old h.stored)
    · rw [(h.get_other hk).1] at hget
      exact hs.wellFormed id strategy hget
  · intro id
    by_cases hk : id = k
    · subst hk
      rw [h.get_self, h.params, ← hs.keys id, h.stored]
      rfl
    · rw [(h.get_other hk).1, h.params]
      exact hs.keys id

theorem consistent_step {c : Invocation} (hs : Consistent s) (h : exec s c = .ok s') :
    Consistent s' := by
  cases exec_effect h with
  | registered _ lists => exact lists.consistent hs
  | updated _ lists => exact lists.consistent hs
  | approved _ _ marks => exact marks.consistent hs
  | recorded marks => exact marks.consistent hs
  | deactivated marks => exact marks.consistent hs
  | other strategies params =>
      constructor
      · rw [strategies]
        exact hs.wellFormed
      · rw [strategies, params]
        exact hs.keys

/-! ### The ids handed out -/

/-- The ids handed out so far are distinct, and they are the ids of the stored strategies. -/
structure Allocated (ids : List ℕ) (s : RegistryStore) : Prop where
  nodup : ids.Nodup
  stored : ∀ id, id ∈ ids ↔ (s.strategyMap.get id).isSome

/-- A strategy is never removed, and nothing but a registration adds one. -/
theorem allocated_of_set {ids : List ℕ} (hs : Allocated ids s)
    (hstored : s.strategyMap.get k = some old)
    (hset : s'.strategyMap = s.strategyMap.set k new) : Allocated (ids ++ []) s' := by
  rw [List.append_nil]
  refine ⟨hs.nodup, fun id => ?_⟩
  rw [hs.stored id, hset, SortedMap.get_set]
  by_cases hk : id = k
  · rw [if_pos hk, hk, hstored]
    rfl
  · rw [if_neg hk]

theorem allocated_step {ids : List ℕ} {c : Invocation} (hs : Allocated ids s)
    (h : exec s c = .ok s') : Allocated (ids ++ registeredId s c) s' := by
  cases exec_effect h with
  | @registered _ _ _ _ _ _ _ _ _ k new unused lists returned =>
      rw [returned]
      have hnew : k ∉ ids := by
        rw [hs.stored, unused]
        exact Bool.false_ne_true
      constructor
      · exact hs.nodup.append (List.nodup_singleton k) (List.disjoint_singleton.mpr hnew)
      · intro id
        rw [List.mem_append, List.mem_singleton, hs.stored id, lists.strategies,
          SortedMap.get_set]
        by_cases hk : id = k
        · simp [hk]
        · simp [hk]
  | updated stored lists => exact allocated_of_set hs stored lists.strategies
  | approved _ _ marks => exact allocated_of_set hs marks.stored marks.strategies
  | recorded marks => exact allocated_of_set hs marks.stored marks.strategies
  | deactivated marks => exact allocated_of_set hs marks.stored marks.strategies
  | other strategies _ _ returned =>
      rw [returned, List.append_nil]
      refine ⟨hs.nodup, fun id => ?_⟩
      rw [hs.stored id, strategies]

end effects

/-! ### Runs -/

section runs
variable (admin : Address) (calls : List Invocation)

theorem run_admin : (run exec (initializeRegistry admin) calls).admin = some admin := by
  apply run_invariant (I := fun s : RegistryStore => s.admin = some admin)
  · intro s c s' hs h
    exact (exec_admin h).trans hs
  · rfl

theorem run_consistent : Consistent (run exec (initializeRegistry admin) calls) := by
  apply run_invariant
  · intro s c s' hs h
    exact consistent_step hs h
  · constructor
    · intro id strategy hget
      cases hget
    · intro id
      rfl

theorem run_allocated : Allocated (ghostLog exec registeredId (initializeRegistry admin) calls)
    (run exec (initializeRegistry admin) calls) := by
  have hinitial : Allocated [] (initializeRegistry admin) :=
    ⟨List.nodup_nil, fun id => iff_of_false List.not_mem_nil Bool.false_ne_true⟩
  exact run_log_invariant (Q := fun _ _ => True) (fun ids s c s' hs _ h => allocated_step hs h)
    calls _ [] hinitial (along_true calls _)

variable {admin calls}

theorem approvedSince_of_active {id : ℕ}
    (hactive : (run exec (initializeRegistry admin) calls).Active id) :
    ApprovedSince admin id ((run exec (initializeRegistry admin) calls).listing id)
      (initializeRegistry admin) calls := by
  apply since_of_step (A := ShownAs admin id _)
  · rintro ⟨⟨strategy, hget, -⟩, -, -⟩
    cases hget
  · intro s c s' h hshown
    exact shownAs_step h hshown
  · exact ⟨hactive, rfl, run_admin admin calls⟩

/-- What `get_active_strategies` returns are the active strategies. -/
theorem mem_getActiveStrategies {s : RegistryStore} {shown : List YieldStrategy}
    (h : getActiveStrategies s = .ok shown) (strategy : YieldStrategy) :
    strategy ∈ shown ↔ ∃ id, s.strategyMap.get id = some strategy ∧ strategy.isActive = true := by
  simp only [getActiveStrategies, getStrategies, RegistryStore.getStrategiesMap, map_eq_ok,
    orRaise_eq_ok] at h
  obtain ⟨_, ⟨strategies, hstrategies, rfl⟩, rfl⟩ := h
  rw [strategyMap_of_stored hstrategies, List.mem_filter, SortedMap.values]
  constructor
  · rintro ⟨hmem, hactive⟩
    obtain ⟨⟨id, _⟩, hentry, rfl⟩ := List.mem_map.mp hmem
    exact ⟨id, (strategies.get_eq_some_iff id _).mpr hentry, hactive⟩
  · rintro ⟨id, hget, hactive⟩
    exact ⟨List.mem_map.mpr ⟨_, (strategies.get_eq_some_iff id strategy).mp hget, rfl⟩, hactive⟩

/-- A reader of the active strategies sees approved ones only. -/
theorem getActiveStrategies_approved {shown : List YieldStrategy}
    (h : getActiveStrategies (run exec (initializeRegistry admin) calls) = .ok shown)
    {strategy : YieldStrategy} (hmem : strategy ∈ shown) :
    ApprovedSince admin strategy.strategyId
      ((run exec (initializeRegistry admin) calls).listing strategy.strategyId)
      (initializeRegistry admin) calls := by
  obtain ⟨id, hget, hactive⟩ := (mem_getActiveStrategies h strategy).mp hmem
  rw [((run_consistent admin calls).wellFormed id strategy hget).key]
  exact approvedSince_of_active ⟨strategy, hget, hactive⟩

end runs

/-- In every state of every run after `initialize`: an active strategy is as the admin's latest
approval found it, with no update or deactivation since; every stored strategy is well formed;
the strategies and the parameters have the same ids; and no id is handed out twice. -/
theorem registry_spec (admin : Address) (calls : List Invocation) :
    (∀ id, (run exec (initializeRegistry admin) calls).Active id →
        ApprovedSince admin id ((run exec (initializeRegistry admin) calls).listing id)
          (initializeRegistry admin) calls) ∧
      Consistent (run exec (initializeRegistry admin) calls) ∧
      Allocated (ghostLog exec registeredId (initializeRegistry admin) calls)
        (run exec (initializeRegistry admin) calls) :=
  ⟨fun _ => approvedSince_of_active, run_consistent admin calls, run_allocated admin calls⟩

/-- A strategy that its creator, or anybody naming the creator, updates is no longer shown. -/
example :
    let fees : FeeStructure := ⟨0, 0, 0, 0⟩
    let parameters : StrategyParameters := ⟨[], [], 0, 0, 0⟩
    let register : Invocation :=
      ⟨⟨9, [], 0⟩, .registerStrategy 5 "s" "d" 2 1 10 fees parameters⟩
    let approve : Invocation := ⟨⟨9, [7], 1⟩, .approveStrategy 7 1 "ok"⟩
    let update : Invocation :=
      ⟨⟨9, [], 2⟩, .updateStrategy 5 1 "s" "d" 3 1 10 fees parameters⟩
    let active (calls : List Invocation) := ((run exec (initializeRegistry 7) calls).strategyMap.get
      1).map fun strategy => strategy.isActive
    active [register] = some false ∧ active [register, approve] = some true ∧
      active [register, approve, update] = some false := by decide

end YieldEngine.Registry
