import YieldEngine.PacedWindows
import YieldEngine.RebalanceWrites

/-! # Pacing the moves out of a pool

While pacing is enabled a rebalance is charged to a window of the pool it moves out of.  The
check before the move and the charge after it each work out whether the stored window has
expired; `currentUsage` is the window both of them mean.

`moveRecord` is the history of a run: its successful moves, with the legs each has performed.
The windows of a pool are those of the split `PacedWindows.windows` of its charges, continuing
the window the state may start with.  `pool_pacing_spec` says, for every run of rebalances of
both kinds from any state, that the stored usage is that of the newest window, that no window is
charged above the budget, and that the charges of a window cover what its moves have taken out
of the pool. -/

namespace YieldEngine.Rebalance

open CheckedArith PacedWindows

/-! ### Histories -/

/-- A successful move out of a pool, with the legs performed. -/
structure Move where
  pool : Address
  time : ℕ
  charged : ℤ
  legs : List RebalanceProposal

/-- What the legs of a move have taken out of their source pools. -/
def Move.taken (m : Move) : ℤ := (m.legs.map RebalanceProposal.amountA).sum

def Move.charge (m : Move) : Charge := ⟨m.time, m.charged, 0⟩

/-- A leg of a flash rebalance. -/
def flashLeg (e : Env) (opportunity : ArbitrageOpportunity) (amount : ℤ)
    (fromPool toPool : Address) : RebalanceProposal :=
  ⟨fromPool, toPool, amount, amount, opportunity.apyDelta, 30000, e.timestamp, amount⟩

/-- The successful move of an event. -/
def moveRecord (w : World) : RebalanceEvent → List Move
  | .call ⟨e, _, .executeRebalance proposal⟩ =>
      match executeRebalance e w proposal with
      | .ok (_, true) =>
          [⟨proposal.fromPool, e.timestamp, proposal.amountA + proposal.amountB, [proposal]⟩]
      | _ => []
  | .call ⟨e, vaultPool, .executeFlashRebalance vaultId opportunity amount⟩ =>
      match executeFlashRebalance e vaultPool w vaultId opportunity amount, vaultPool vaultId with
      | .ok (_, true), some pool =>
          [⟨pool, e.timestamp, amount * 2, [flashLeg e opportunity amount pool pool,
            flashLeg e opportunity amount pool opportunity.poolId]⟩]
      | _, _ => []
  | _ => []

/-- The successful moves of a run. -/
def moveLog : World → List RebalanceEvent → List Move :=
  Transact.ghostLog rebalanceStep moveRecord

/-- The moves out of one pool. -/
def movesFrom (pool : Address) (log : List Move) : List Move := log.filter (fun m => m.pool = pool)

/-- The legs have been performed one after the other. -/
def Performed (e : Env) : Ledger → List RebalanceProposal → Ledger → Prop
  | l, [], l' => l' = l
  | l, leg :: legs, l' => ∃ l₁, Moved e l l₁ leg ∧ Performed e l₁ legs l'

/-- Pacing limits something. -/
def RebalancePacing.Enabled (p : RebalancePacing) : Prop :=
  0 < p.maxAmountPerWindow ∧ 0 < p.windowSeconds

instance (p : RebalancePacing) : Decidable p.Enabled := inferInstanceAs (Decidable (_ ∧ _))

/-! ### The stored window -/

/-- The window a move at time `now` is charged to, before the charge. -/
def currentUsage (p : RebalancePacing) (now : ℕ) (usage : PoolWindowUsage) : PoolWindowUsage :=
  if usage.windowActive = false ∨ p.windowSeconds ≤ now - usage.windowStartedAt then
    ⟨true, now, 0⟩
  else usage

/-- The usage after charging `amount`. -/
def chargeUsage (p : RebalancePacing) (now : ℕ) (usage : PoolWindowUsage) (amount : ℤ) :
    PoolWindowUsage :=
  { currentUsage p now usage with amountMoved := (currentUsage p now usage).amountMoved + amount }

/-- The window a stored usage stands for. -/
def priorWindow (usage : PoolWindowUsage) : List Window :=
  if usage.windowActive = false then []
  else [⟨usage.windowStartedAt, 0, usage.amountMoved, []⟩]

/-- The stored usage is that of the newest window. -/
def Records (usage : PoolWindowUsage) : List Window → Prop
  | [] => usage.windowActive = false
  | w :: _ => usage = ⟨true, w.openedAt, w.total⟩

theorem records_priorWindow (usage : PoolWindowUsage) : Records usage (priorWindow usage) := by
  unfold priorWindow
  split_ifs with hactive
  · exact hactive
  · obtain ⟨active, startedAt, moved⟩ := usage
    obtain rfl : active = true := eq_true_of_ne_false hactive
    simp [Records, Window.total]

theorem isSplit_priorWindow (length : ℕ) (usage : PoolWindowUsage) :
    IsSplit length [] (priorWindow usage) := by
  unfold priorWindow
  split_ifs
  · exact ⟨rfl, .nil, fun w hw => by simp at hw⟩
  · refine ⟨rfl, List.pairwise_singleton _ _, fun w hw c hc => ?_⟩
    obtain rfl := List.mem_singleton.mp hw
    simp at hc

theorem within_priorWindow (budget : ℤ → ℤ) (usage : PoolWindowUsage) :
    Within budget (priorWindow usage) := by
  unfold priorWindow
  split_ifs
  · exact fun w hw => by simp at hw
  · intro w hw hcharges
    obtain rfl := List.mem_singleton.mp hw
    exact absurd rfl hcharges

/-- Charging the stored usage is placing the charge into the windows. -/
theorem Records.place {p : RebalancePacing} (hp : 0 < p.windowSeconds) {usage : PoolWindowUsage}
    {ws : List Window} (h : Records usage ws) (c : Charge) :
    Records (chargeUsage p c.time usage c.amount) (place p.windowSeconds c ws) := by
  have hopens : (usage.windowActive = false ∨ p.windowSeconds ≤ c.time - usage.windowStartedAt) →
      chargeUsage p c.time usage c.amount = ⟨true, c.time, c.opens.total⟩ := by
    intro hexpired
    simp only [chargeUsage, currentUsage, if_pos hexpired, Charge.total_opens, zero_add]
  cases ws with
  | nil => exact hopens (.inl h)
  | cons v ws =>
      obtain rfl : usage = ⟨true, v.openedAt, v.total⟩ := h
      rw [place_cons]
      split_ifs with hover
      · exact hopens (.inr (by simp only; omega))
      · have hlive : ¬ ((⟨true, v.openedAt, v.total⟩ : PoolWindowUsage).windowActive = false ∨
            p.windowSeconds ≤ c.time - v.openedAt) := by
          simp only [Bool.true_eq_false, false_or]
          omega
        simp only [Records, chargeUsage, currentUsage, if_neg hlive, Window.total_add]
        rfl

/-! ### One call -/

section call
variable {e : Env} {s s' : RebalanceStore} {pool : Address} {amount : ℤ}

/-- A passed budget check covers the amount in the current window. -/
theorem pacingAllows_true (henabled : s.getRebalancePacing.Enabled)
    (h : pacingAllows e s pool amount = .ok true) :
    (currentUsage s.getRebalancePacing e.timestamp (s.getPoolWindowUsage pool)).amountMoved +
      amount ≤ s.getRebalancePacing.maxAmountPerWindow := by
  obtain ⟨hmax, hseconds⟩ := henabled
  have hon : ¬ (s.getRebalancePacing.maxAmountPerWindow ≤ 0 ∨
      s.getRebalancePacing.windowSeconds = 0) := by omega
  simp only [pacingAllows, if_neg hon, bind_eq_ok, I128.add_eq_ok, pure_eq_ok,
    decide_eq_true_eq] at h
  obtain ⟨_, ⟨-, rfl⟩, hle⟩ := h
  unfold currentUsage
  by_cases hexpired : (s.getPoolWindowUsage pool).windowActive = false ∨
      s.getRebalancePacing.windowSeconds ≤
        e.timestamp - (s.getPoolWindowUsage pool).windowStartedAt
  · rw [if_pos hexpired]
    rwa [if_neg] at hle
    rintro ⟨hactive, hyoung⟩
    rcases hexpired with hinactive | hold
    · exact absurd (hactive.symm.trans hinactive) Bool.noConfusion
    · omega
  · rw [if_neg hexpired]
    push Not at hexpired
    rwa [if_pos ⟨eq_true_of_ne_false hexpired.1, hexpired.2⟩] at hle

/-- The charge goes into the current window. -/
theorem recordPacing_enabled (henabled : s.getRebalancePacing.Enabled)
    (h : recordPacing e s pool amount = .ok s') :
    s'.getPoolWindows = s.getPoolWindows.set pool
      (chargeUsage s.getRebalancePacing e.timestamp (s.getPoolWindowUsage pool) amount) := by
  obtain ⟨hmax, hseconds⟩ := henabled
  have hon : ¬ (s.getRebalancePacing.maxAmountPerWindow ≤ 0 ∨
      s.getRebalancePacing.windowSeconds = 0) := by omega
  simp only [recordPacing, if_neg hon, bind_eq_ok, I128.add_eq_ok, pure_eq_ok] at h
  obtain ⟨_, ⟨-, rfl⟩, rfl⟩ := h
  rfl

end call

/-- A returning rebalance is a move that was checked and charged, or leaves every window
alone. -/
inductive MoveEffect (w : World) (event : RebalanceEvent) (w' : World) : Prop
  | moved (e : Env) (m : Move) (charged : RebalanceStore) (hrecord : moveRecord w event = [m])
      (htime : m.time = e.timestamp) (hpaced : Paced e w.store m.pool m.charged)
      (hcharged : recordPacing e w.store m.pool m.charged = .ok charged)
      (hpositive : 0 < m.charged) (htaken : m.taken ≤ m.charged)
      (hsource : ∀ leg ∈ m.legs, leg.fromPool = m.pool)
      (hperformed : Performed e w.ledger m.legs w'.ledger)
      (hwindows : w'.store.rebalancePoolWindows = charged.rebalancePoolWindows)
      (hconfig : w'.store.rebalancePacing = w.store.rebalancePacing)
  | idle (hrecord : moveRecord w event = [])
      (hwindows : w'.store.rebalancePoolWindows = w.store.rebalancePoolWindows)
      (hconfig : w'.store.rebalancePacing = w.store.rebalancePacing)

theorem executed_effect {e : Env} {vaultPool : Address → Option Address} {w w' : World}
    {p : RebalanceProposal} {b : Bool} (h : executeRebalance e w p = .ok (w', b)) :
    MoveEffect w (.call ⟨e, vaultPool, .executeRebalance p⟩) w' := by
  cases (executeRebalance_executed h).2 with
  | overBudget => exact .idle (by simp only [moveRecord, h]) rfl rfl
  | unbounded => exact .idle (by simp only [moveRecord, h]) rfl rfl
  | malformed => exact .idle (by simp only [moveRecord, h]) rfl rfl
  | moved hpaced hbound hmoved hrecord hhistory =>
      obtain ⟨windows, rfl⟩ := recordPacing_ok hrecord
      refine .moved e ⟨p.fromPool, e.timestamp, p.amountA + p.amountB, [p]⟩ _
        (by simp only [moveRecord, h]) rfl hpaced hrecord (Int.add_pos hmoved.1 hmoved.2.1) ?_ ?_
        ⟨_, hmoved, rfl⟩ rfl rfl
      · have hamount : 0 < p.amountB := hmoved.2.1
        simp only [Move.taken, List.map_cons, List.map_nil, List.sum_cons, List.sum_nil]
        omega
      · intro leg hleg
        rw [List.mem_singleton.mp hleg]

theorem flashed_effect {e : Env} {vaultPool : Address → Option Address} {w w' : World}
    {vaultId : Address} {opportunity : ArbitrageOpportunity} {amount : ℤ} {b : Bool}
    (h : executeFlashRebalance e vaultPool w vaultId opportunity amount = .ok (w', b)) :
    MoveEffect w (.call ⟨e, vaultPool, .executeFlashRebalance vaultId opportunity amount⟩) w' := by
  cases (executeFlashRebalance_flashed h).2 with
  | refused => exact .idle (by simp only [moveRecord, h]) rfl rfl
  | @moved currentPool _ _ _ hfeed hcooldown hpool hpaced hexit henter hrecord =>
      obtain ⟨windows, rfl⟩ := recordPacing_ok hrecord
      have hcharge : 0 < amount * 2 := Int.mul_pos hexit.1 (by decide)
      refine .moved e ⟨currentPool, e.timestamp, amount * 2,
        [flashLeg e opportunity amount currentPool currentPool,
          flashLeg e opportunity amount currentPool opportunity.poolId]⟩ _
        (by simp only [moveRecord, h, hpool]) rfl hpaced hrecord hcharge ?_ ?_
        ⟨_, hexit, _, henter, rfl⟩ rfl rfl
      · simp only [Move.taken, flashLeg, List.map_cons, List.map_nil, List.sum_cons, List.sum_nil]
        omega
      · intro leg hleg
        rcases List.mem_cons.mp hleg with rfl | hleg
        · rfl
        · rw [List.mem_singleton.mp hleg]
          rfl

theorem rebalanceStep_effect {w w' : World} {event : RebalanceEvent} (hevent : event.Rebalances)
    (h : rebalanceStep w event = .ok w') : MoveEffect w event w' := by
  cases event with
  | tokens ledger =>
      obtain rfl := pure_eq_ok.mp h
      exact .idle rfl rfl rfl
  | call c =>
      obtain ⟨e, vaultPool, action⟩ := c
      cases action with
      | executeRebalance p =>
          obtain ⟨⟨w₁, b⟩, hreturned, rfl⟩ := map_eq_ok.mp h
          exact executed_effect hreturned
      | executeFlashRebalance vaultId opportunity amount =>
          obtain ⟨⟨w₁, b⟩, hreturned, rfl⟩ := map_eq_ok.mp h
          exact flashed_effect hreturned
      | _ => exact hevent.elim

/-! ### Runs -/

/-- The windows of one pool in a run from `s₀` with the log `log`. -/
def poolWindows (p : RebalancePacing) (s₀ : RebalanceStore) (pool : Address) (log : List Move) :
    List Window :=
  windows p.windowSeconds (priorWindow (s₀.getPoolWindowUsage pool))
    ((movesFrom pool log).map Move.charge)

theorem poolWindows_snoc (p : RebalancePacing) (s₀ : RebalanceStore) (pool : Address)
    (log : List Move) (m : Move) : poolWindows p s₀ pool (log ++ [m]) =
      if m.pool = pool then place p.windowSeconds m.charge (poolWindows p s₀ pool log)
      else poolWindows p s₀ pool log := by
  unfold poolWindows movesFrom
  split_ifs with hpool
  · rw [← windows_snoc, List.filter_append, List.map_append]
    simp [hpool]
  · rw [List.filter_append, List.map_append]
    simp [hpool]

/-- The stored usages follow the log, and the log keeps to the budget. -/
structure Metered (p : RebalancePacing) (s₀ : RebalanceStore) (log : List Move) (w : World) :
    Prop where
  config : w.store.getRebalancePacing = p
  recorded : ∀ pool, Records (w.store.getPoolWindowUsage pool) (poolWindows p s₀ pool log)
  within : ∀ pool, Within (fun _ => p.maxAmountPerWindow) (poolWindows p s₀ pool log)
  covered : ∀ m ∈ log, m.taken ≤ m.charged

theorem Metered.start {p : RebalancePacing} {w : World}
    (hconfig : w.store.getRebalancePacing = p) : Metered p w.store [] w where
  config := hconfig
  recorded := fun _ => records_priorWindow _
  within := fun _ => within_priorWindow _ _
  covered := fun _ h => by cases h

/-- The newest window is within the budget when the stored usage is. -/
theorem Records.within_head {usage : PoolWindowUsage} {ws : List Window} {budget : ℤ}
    (h : Records usage ws) (hbudget : usage.amountMoved ≤ budget) :
    ∀ w ∈ ws.head?, w.total ≤ budget := by
  cases ws with
  | nil => exact fun w hw => by simp at hw
  | cons v ws =>
      obtain rfl : usage = ⟨true, v.openedAt, v.total⟩ := h
      intro w hw
      obtain rfl := Option.some.inj hw
      exact hbudget

/-- A charged move is placed into the windows of its pool and of no other. -/
theorem Metered.charge {p : RebalancePacing} (henabled : p.Enabled) {s₀ : RebalanceStore}
    {log : List Move} {w w' : World} {e : Env} {m : Move} {charged : RebalanceStore}
    (h : Metered p s₀ log w) (htime : m.time = e.timestamp)
    (hpaced : Paced e w.store m.pool m.charged)
    (hcharged : recordPacing e w.store m.pool m.charged = .ok charged)
    (hpositive : 0 < m.charged) (htaken : m.taken ≤ m.charged)
    (hwindows : w'.store.rebalancePoolWindows = charged.rebalancePoolWindows)
    (hconfig : w'.store.getRebalancePacing = p) : Metered p s₀ (log ++ [m]) w' := by
  have hon : w.store.getRebalancePacing.Enabled := h.config.symm ▸ henabled
  have hallowed := pacingAllows_true hon (hpaced hpositive)
  have hstored := recordPacing_enabled hon hcharged
  rw [h.config, ← htime] at hallowed hstored
  have husage : ∀ pool, w'.store.getPoolWindowUsage pool = if pool = m.pool then
      chargeUsage p m.time (w.store.getPoolWindowUsage m.pool) m.charged
      else w.store.getPoolWindowUsage pool := by
    intro pool
    rw [RebalanceStore.getPoolWindowUsage, RebalanceStore.getPoolWindows, hwindows,
      ← RebalanceStore.getPoolWindows, hstored, SortedMap.get_set]
    split_ifs <;> rfl
  have hrecorded : ∀ pool, Records (w'.store.getPoolWindowUsage pool)
      (poolWindows p s₀ pool (log ++ [m])) := by
    intro pool
    rw [poolWindows_snoc, husage]
    by_cases hpool : pool = m.pool
    · subst hpool
      rw [if_pos rfl, if_pos rfl]
      exact (h.recorded m.pool).place henabled.2 m.charge
    · rw [if_neg hpool, if_neg (Ne.symm hpool)]
      exact h.recorded pool
  refine ⟨hconfig, hrecorded, fun pool => ?_, fun m' hm' => ?_⟩
  · have hnew := hrecorded pool
    rw [poolWindows_snoc] at hnew ⊢
    by_cases hpool : m.pool = pool
    · rw [if_pos hpool] at hnew ⊢
      apply (h.within pool).place
      apply hnew.within_head
      rw [husage, if_pos hpool.symm]
      exact hallowed
    · rw [if_neg hpool]
      exact h.within pool
  · rcases List.mem_append.mp hm' with hold | hnew
    · exact h.covered m' hold
    · rw [List.mem_singleton.mp hnew]
      exact htaken

theorem Metered.step {p : RebalancePacing} (henabled : p.Enabled) {s₀ : RebalanceStore}
    {log : List Move} {w w' : World} {event : RebalanceEvent} (h : Metered p s₀ log w)
    (hevent : event.Rebalances) (hstep : rebalanceStep w event = .ok w') :
    Metered p s₀ (log ++ moveRecord w event) w' := by
  have hkept : w'.store.rebalancePacing = w.store.rebalancePacing →
      w'.store.getRebalancePacing = p := by
    intro hcell
    rw [← h.config, RebalanceStore.getRebalancePacing, RebalanceStore.getRebalancePacing, hcell]
  cases rebalanceStep_effect hevent hstep with
  | moved e m charged hrecord htime hpaced hcharged hpositive htaken _ _ hwindows hconfig =>
      rw [hrecord]
      exact h.charge henabled htime hpaced hcharged hpositive htaken hwindows (hkept hconfig)
  | idle hrecord hwindows hconfig =>
      rw [hrecord, List.append_nil]
      have husage : ∀ pool, w'.store.getPoolWindowUsage pool =
          w.store.getPoolWindowUsage pool := by
        intro pool
        rw [RebalanceStore.getPoolWindowUsage, RebalanceStore.getPoolWindowUsage,
          RebalanceStore.getPoolWindows, RebalanceStore.getPoolWindows, hwindows]
      exact ⟨hkept hconfig, fun pool => (husage pool).symm ▸ h.recorded pool, h.within,
        h.covered⟩

/-- What pacing promises about one pool after a run from `s₀` to `w` with the log `log`. -/
structure PoolPacing (p : RebalancePacing) (s₀ : RebalanceStore) (log : List Move) (w : World)
    (pool : Address) : Prop where
  /-- The windows of the pool split the moves out of it. -/
  split : IsSplit p.windowSeconds ((movesFrom pool log).map Move.charge)
    (poolWindows p s₀ pool log)
  within : Within (fun _ => p.maxAmountPerWindow) (poolWindows p s₀ pool log)
  /-- The stored usage is that of the newest window, with its sum. -/
  recorded : Records (w.store.getPoolWindowUsage pool) (poolWindows p s₀ pool log)
  /-- The charges of each window cover what its moves have taken out of the pool. -/
  covered : ∃ blocks : List (List Move), blocks.flatten = movesFrom pool log ∧
    List.Forall₂ (fun block window => window.charges = block.map Move.charge ∧
      (block.map Move.taken).sum ≤ (window.charges.map Charge.amount).sum)
      blocks (poolWindows p s₀ pool log).reverse

/-- What one call from `w` does: a successful move performs its legs, all of them out of its
pool, and a call that returns `false` or traps changes no usage. -/
structure CallPacing (w : World) : Prop where
  performed : ∀ event w', event.Rebalances → rebalanceStep w event = .ok w' →
    ∀ m ∈ moveRecord w event, ∃ e, Performed e w.ledger m.legs w'.ledger ∧
      ∀ leg ∈ m.legs, leg.fromPool = m.pool
  refused : ∀ e proposal w', executeRebalance e w proposal = .ok (w', false) →
    w'.store.rebalancePoolWindows = w.store.rebalancePoolWindows
  flashRefused : ∀ e vaultPool vaultId opportunity amount w',
    executeFlashRebalance e vaultPool w vaultId opportunity amount = .ok (w', false) →
    w'.store.rebalancePoolWindows = w.store.rebalancePoolWindows
  trapped : ∀ event fault, rebalanceStep w event = .error fault →
    (Transact.commit rebalanceStep w event).store.rebalancePoolWindows =
      w.store.rebalancePoolWindows

theorem callPacing (w : World) : CallPacing w where
  performed := by
    intro event w' hevent h m hm
    cases rebalanceStep_effect hevent h with
    | moved e m' _ hrecord _ _ _ _ _ hsource hperformed _ _ =>
        rw [hrecord] at hm
        obtain rfl := List.mem_singleton.mp hm
        exact ⟨e, hperformed, hsource⟩
    | idle hrecord _ _ =>
        rw [hrecord] at hm
        cases hm
  refused := by
    intro e proposal w' h
    cases (executeRebalance_executed h).2 with
    | overBudget => rfl
    | unbounded => rfl
    | malformed => rfl
  flashRefused := by
    intro e vaultPool vaultId opportunity amount w' h
    cases (executeFlashRebalance_flashed h).2 with
    | refused => rfl
  trapped := by
    intro event fault h
    rw [Transact.commit_of_error h]

/-- Where every move is covered by its charge, so is every block of moves. -/
theorem covered_blocks {log : List Move} (h : ∀ m ∈ log, m.taken ≤ m.charged) :
    ∀ {blocks : List (List Move)} {ws : List Window}, (∀ block ∈ blocks, ∀ m ∈ block, m ∈ log) →
      List.Forall₂ (fun block window => window.charges = block.map Move.charge) blocks ws →
      List.Forall₂ (fun block window => window.charges = block.map Move.charge ∧
        (block.map Move.taken).sum ≤ (window.charges.map Charge.amount).sum) blocks ws := by
  intro blocks ws hmem hblocks
  induction hblocks with
  | nil => exact .nil
  | @cons block window blocks ws hcharges hrest ih =>
      refine .cons ⟨hcharges, ?_⟩ (ih fun b hb => hmem b (List.mem_cons_of_mem _ hb))
      rw [hcharges, List.map_map]
      exact List.sum_le_sum fun m hm => h m (hmem block List.mem_cons_self m hm)

/-- Pacing over every run of rebalances of both kinds, from any state with an enabled
configuration. -/
theorem pool_pacing_spec {w₀ : World} (henabled : w₀.store.getRebalancePacing.Enabled)
    (events : List RebalanceEvent) (hevents : ∀ event ∈ events, event.Rebalances) :
    (∀ pool, PoolPacing w₀.store.getRebalancePacing w₀.store (moveLog w₀ events)
      (Transact.run rebalanceStep w₀ events) pool) ∧
    CallPacing (Transact.run rebalanceStep w₀ events) := by
  have hstep : ∀ log w event w', Metered w₀.store.getRebalancePacing w₀.store log w →
      event.Rebalances → rebalanceStep w event = .ok w' →
      Metered w₀.store.getRebalancePacing w₀.store (log ++ moveRecord w event) w' :=
    fun log w event w' h hevent hok => h.step henabled hevent hok
  have hmetered := Transact.run_log_invariant hstep events w₀ [] (.start rfl)
    (Transact.along_of_forall events w₀ hevents)
  rw [List.nil_append] at hmetered
  refine ⟨fun pool => ?_, callPacing _⟩
  have hsplit : IsSplit w₀.store.getRebalancePacing.windowSeconds
      ((movesFrom pool (moveLog w₀ events)).map Move.charge)
      (poolWindows w₀.store.getRebalancePacing w₀.store pool (moveLog w₀ events)) :=
    windows_isSplit henabled.2 (isSplit_priorWindow _ _) _
  refine ⟨hsplit, hmetered.within pool, hmetered.recorded pool, ?_⟩
  obtain ⟨blocks, hblocks, hwindows⟩ := exists_blocks Move.charge hsplit.charges
  refine ⟨blocks, hblocks, covered_blocks hmetered.covered ?_ hwindows⟩
  intro block hblock m hm
  have hm : m ∈ movesFrom pool (moveLog w₀ events) := by
    rw [← hblocks]
    exact List.mem_flatten.mpr ⟨block, hblock, hm⟩
  exact (List.mem_filter.mp hm).1

/-- At most 100 may leave a pool within a minute; everybody holds plenty. -/
def pacedEngine : World :=
  ⟨{ initialRebalance 7 with rebalancePacing := some ⟨100, 60⟩ }, fun _ _ => 1000⟩

/-- Pool 1 authorises a move of 30 and 30 to pool 2. -/
def movingAt (time : ℕ) : RebalanceEvent :=
  .call ⟨⟨9, [1], time⟩, fun _ => none, .executeRebalance ⟨1, 2, 30, 30, 0, 50000, time, 30⟩⟩

/-- The second of three moves is over the budget of the first one's window. -/
theorem pool_pacing_spec_pacedEngine :
    (∀ pool, PoolPacing ⟨100, 60⟩ pacedEngine.store
      [⟨1, 5, 60, [⟨1, 2, 30, 30, 0, 50000, 5, 30⟩]⟩,
        ⟨1, 65, 60, [⟨1, 2, 30, 30, 0, 50000, 65, 30⟩]⟩]
      (Transact.run rebalanceStep pacedEngine [movingAt 5, movingAt 64, movingAt 65]) pool) ∧
    CallPacing (Transact.run rebalanceStep pacedEngine
      [movingAt 5, movingAt 64, movingAt 65]) := by
  have henabled : pacedEngine.store.getRebalancePacing.Enabled := by decide
  refine pool_pacing_spec henabled [movingAt 5, movingAt 64, movingAt 65] ?_
  intro event hevent
  simp only [List.mem_cons, List.not_mem_nil, or_false] at hevent
  rcases hevent with rfl | rfl | rfl <;> trivial

end YieldEngine.Rebalance
