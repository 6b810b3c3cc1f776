import YieldEngine.VaultEffects
import YieldEngine.PacedWindows

/-! # Withdrawal pacing over whole runs

While pacing is enabled every withdrawal is charged to two windows, the user's and the
vault's, each opened by a withdrawal and sized by what its party held at that moment.
`withdrawalLog` is the history of a run: its successful withdrawals, with the holdings before
each.  The windows of a party are those of the split `PacedWindows.windows` of its charges,
continuing the window the state may start with (`priorWindow`).

`pacing_spec` says, for every run from a reachable state during which the enabled pacing
configuration does not change, that the stored counters are those of the newest windows and
that no window charged in the run exceeds its limit, rounded up. -/

namespace YieldEngine.Vault

open CheckedArith Rounding PacedWindows

/-! ### Histories -/

/-- A successful withdrawal, with the holdings before it. -/
structure Withdrawal where
  user : Address
  time : ℕ
  shares : ℤ
  positionShares : ℤ
  totalShares : ℤ

def withdrawalRecord (w : World) : VaultEvent → List Withdrawal
  | .call e (.withdraw user shares _ _) =>
      [⟨user, e.timestamp, shares, (w.store.getUserPosition user).shares,
        w.store.storedMetrics.totalShares⟩]
  | _ => []

/-- The successful withdrawals of a run. -/
def withdrawalLog : World → List VaultEvent → List Withdrawal :=
  Transact.ghostLog vaultStep withdrawalRecord

/-- The charges to the windows of one user. -/
def userCharges (user : Address) (log : List Withdrawal) : List Charge :=
  (log.filter (fun x => x.user = user)).map fun x => ⟨x.time, x.shares, x.positionShares⟩

/-- The charges to the windows of the vault. -/
def vaultCharges (log : List Withdrawal) : List Charge :=
  log.map fun x => ⟨x.time, x.shares, x.totalShares⟩

/-- The window a stored record stands for; none is open while its start shares are zero. -/
def priorWindow (window : WithdrawWindow) : List Window :=
  if window.windowStartShares = 0 then []
  else [⟨window.windowStartedAt, window.windowStartShares, window.sharesWithdrawn, []⟩]

/-- The stored record holds the counters of the newest window. -/
def Records (window : WithdrawWindow) : List Window → Prop
  | [] => window.windowStartShares = 0
  | w :: _ => w.held ≠ 0 ∧ window = ⟨w.openedAt, w.total, w.held⟩

/-- A limit in basis points of the shares held at opening, rounded up. -/
def pacingBudget (maxBps : ℕ) (held : ℤ) : ℤ := ceilDiv (held * maxBps) bps

/-- Pacing limits something. -/
def WithdrawPacing.Enabled (p : WithdrawPacing) : Prop :=
  0 < p.windowSeconds ∧ (0 < p.userMaxBps ∨ 0 < p.vaultMaxBps)

instance (p : WithdrawPacing) : Decidable p.Enabled := inferInstanceAs (Decidable (_ ∧ _))

/-! ### One charge -/

/-- The record after charging `shares` to the current window. -/
def chargeWindow (p : WithdrawPacing) (now : ℕ) (startShares shares : ℤ)
    (window : WithdrawWindow) : WithdrawWindow :=
  { currentWindow p now startShares window with
    sharesWithdrawn := (currentWindow p now startShares window).sharesWithdrawn + shares }

theorem records_priorWindow (window : WithdrawWindow) : Records window (priorWindow window) := by
  unfold priorWindow
  split_ifs with h
  · exact h
  · refine ⟨h, ?_⟩
    simp [Window.total]

theorem isSplit_priorWindow (length : ℕ) (window : WithdrawWindow) :
    IsSplit length [] (priorWindow window) := by
  unfold priorWindow
  split_ifs
  · exact ⟨rfl, .nil, fun w hw => by simp at hw⟩
  · refine ⟨rfl, List.pairwise_singleton _ _, fun w hw c hc => ?_⟩
    obtain rfl := List.mem_singleton.mp hw
    simp at hc

theorem within_priorWindow (budget : ℤ → ℤ) (window : WithdrawWindow) :
    Within budget (priorWindow window) := by
  unfold priorWindow
  split_ifs
  · exact fun w hw => by simp at hw
  · intro w hw hcharges
    obtain rfl := List.mem_singleton.mp hw
    exact absurd rfl hcharges

theorem windowExpired_iff {p : WithdrawPacing} (hp : 0 < p.windowSeconds) (now : ℕ)
    (window : WithdrawWindow) : windowExpired p now window = true ↔
      window.windowStartShares = 0 ∨ window.windowStartedAt + p.windowSeconds ≤ now := by
  simp only [windowExpired, Bool.or_eq_true, decide_eq_true_eq]
  omega

/-- Charging the stored record is placing the charge into the windows. -/
theorem Records.place {p : WithdrawPacing} (hp : 0 < p.windowSeconds) {window : WithdrawWindow}
    {ws : List Window} (h : Records window ws) {c : Charge} (hheld : c.held ≠ 0) :
    Records (chargeWindow p c.time c.held c.amount window) (place p.windowSeconds c ws) := by
  have hopens : windowExpired p c.time window = true →
      chargeWindow p c.time c.held c.amount window = ⟨c.time, c.opens.total, c.held⟩ := by
    intro hexp
    simp [chargeWindow, currentWindow, hexp, Charge.total_opens]
  cases ws with
  | nil => exact ⟨hheld, hopens ((windowExpired_iff hp _ _).mpr (.inl h))⟩
  | cons v ws =>
      obtain ⟨hv, rfl⟩ := h
      have hexp := windowExpired_iff hp c.time ⟨v.openedAt, v.total, v.held⟩
      rw [place_cons]
      split_ifs with hover
      · exact ⟨hheld, hopens (hexp.mpr (.inr hover))⟩
      · have hlive : windowExpired p c.time ⟨v.openedAt, v.total, v.held⟩ = false := by
          rw [← Bool.not_eq_true, hexp, not_or]
          exact ⟨hv, hover⟩
        refine ⟨hv, ?_⟩
        rw [Window.total_add]
        simp [chargeWindow, currentWindow, hlive, Window.add]

/-- A passed limit, in exact arithmetic. -/
theorem requireAllowance_ok {maxBps : ℕ} {window : WithdrawWindow} {shares : ℤ} {msg : String}
    {u : Unit} (h : requireAllowance maxBps window shares msg = .ok u) (hmax : 0 < maxBps)
    (hheld : 0 ≤ window.windowStartShares) :
    window.sharesWithdrawn + shares ≤ pacingBudget maxBps window.windowStartShares := by
  rw [requireAllowance, if_pos hmax] at h
  simp only [bind_eq_ok, I128.mul_eq_ok, I128.add_eq_ok, I128.div_eq_ok, require_eq_ok] at h
  obtain ⟨_, ⟨-, rfl⟩, _, ⟨-, rfl⟩, _, ⟨-, -, rfl⟩, _, ⟨-, rfl⟩, hle⟩ := h
  have hscaled : 0 ≤ window.windowStartShares * (maxBps : ℤ) :=
    mul_nonneg hheld (Int.natCast_nonneg _)
  obtain ⟨-, hlo, -⟩ := tdiv_bounds (by omega : 0 ≤ window.windowStartShares * (maxBps : ℤ) + 9999)
    bps_pos
  refine hle.trans ?_
  by_contra hgt
  have hceil := (ceilDiv_le_iff (x := pacingBudget maxBps window.windowStartShares) bps_pos).mp
    le_rfl
  have hstep : (pacingBudget maxBps window.windowStartShares + 1) * bps ≤
      (window.windowStartShares * (maxBps : ℤ) + 9999).tdiv bps * bps :=
    mul_le_mul_of_nonneg_right (by omega) bps_pos.le
  simp only [bps] at hlo hceil hstep
  omega

/-- What an enabled pacing check has checked and written. -/
structure PacingFacts (e : Env) (s : VaultStore) (user : Address)
    (shares positionShares totalShares : ℤ) (s' : VaultStore) : Prop where
  user_allowed : 0 < s.getWithdrawPacing.userMaxBps →
    ∃ u, requireAllowance s.getWithdrawPacing.userMaxBps
      (currentWindow s.getWithdrawPacing e.timestamp positionShares (s.getUserWithdrawWindow user))
      shares "withdrawal exceeds per-user pacing limit" = .ok u
  vault_allowed : 0 < s.getWithdrawPacing.vaultMaxBps →
    ∃ u, requireAllowance s.getWithdrawPacing.vaultMaxBps
      (currentWindow s.getWithdrawPacing e.timestamp totalShares s.getVaultWithdrawWindow)
      shares "withdrawal exceeds vault pacing limit" = .ok u
  userWindow : ∀ u, s'.getUserWithdrawWindow u = if u = user then
    chargeWindow s.getWithdrawPacing e.timestamp positionShares shares (s.getUserWithdrawWindow user)
    else s.getUserWithdrawWindow u
  vaultWindow : s'.getVaultWithdrawWindow =
    chargeWindow s.getWithdrawPacing e.timestamp totalShares shares s.getVaultWithdrawWindow

theorem consumeWithdrawPacing_facts {e : Env} {s s' : VaultStore} {user : Address}
    {shares positionShares totalShares : ℤ} (henabled : s.getWithdrawPacing.Enabled)
    (h : consumeWithdrawPacing e s user shares positionShares totalShares = .ok s') :
    PacingFacts e s user shares positionShares totalShares s' := by
  have hon : ¬ (s.getWithdrawPacing.windowSeconds = 0 ∨
      s.getWithdrawPacing.userMaxBps = 0 ∧ s.getWithdrawPacing.vaultMaxBps = 0) := by
    obtain ⟨hw, hmax⟩ := henabled
    omega
  simp only [consumeWithdrawPacing, if_neg hon, bind_eq_ok, I128.add_eq_ok, pure_eq_ok] at h
  obtain ⟨u₁, huser, u₂, hvault, _, ⟨-, rfl⟩, _, ⟨-, rfl⟩, rfl⟩ := h
  refine ⟨fun _ => ⟨u₁, huser⟩, fun _ => ⟨u₂, hvault⟩, fun u => ?_, rfl⟩
  rw [VaultStore.getUserWithdrawWindow, VaultStore.getWithdrawWindows, Option.getD_some,
    SortedMap.get_set]
  split_ifs <;> rfl

/-- A current window is sized by a holding or was open before. -/
theorem currentWindow_nonneg {p : WithdrawPacing} {now : ℕ} {startShares : ℤ}
    {window : WithdrawWindow} (hstart : 0 ≤ startShares) (hwindow : 0 ≤ window.windowStartShares) :
    0 ≤ (currentWindow p now startShares window).windowStartShares := by
  unfold currentWindow
  split_ifs
  · exact hstart
  · exact hwindow

/-- No stored window was opened on a negative holding. -/
def WindowsNonneg (s : VaultStore) : Prop :=
  (∀ user, 0 ≤ (s.getUserWithdrawWindow user).windowStartShares) ∧
    0 ≤ s.getVaultWithdrawWindow.windowStartShares

/-- Two stores agree on the windows. -/
def SameWindows (s s' : VaultStore) : Prop :=
  s'.withdrawWindows = s.withdrawWindows ∧ s'.vaultWithdrawWindow = s.vaultWithdrawWindow

/-! ### One event -/

/-- A returning event charges the windows of a withdrawal, or leaves every window alone. -/
inductive WindowEffect (w : World) (event : VaultEvent) (w' : World) : Prop
  | charged (e : Env) (user : Address) (shares minA minB : ℤ) (paced : VaultStore)
      (hevent : event = .call e (.withdraw user shares minA minB))
      (hposition : 0 < (w.store.getUserPosition user).shares)
      (htotal : 0 < w.store.storedMetrics.totalShares)
      (hpaced : consumeWithdrawPacing e w.store user shares (w.store.getUserPosition user).shares
        w.store.storedMetrics.totalShares = .ok paced)
      (hsame : SameWindows paced w'.store)
  | other (hrecord : withdrawalRecord w event = []) (hsame : SameWindows w.store w'.store)

theorem vaultStep_windows {w w' : World} {event : VaultEvent} (h : vaultStep w event = .ok w') :
    WindowEffect w event w' := by
  cases event with
  | tokens ledger =>
      obtain rfl := pure_eq_ok.mp h
      exact .other rfl ⟨rfl, rfl⟩
  | call e action =>
      have h : exec w (e, action) = .ok w' := h
      by_cases hkind : action.MovesValue
      · cases action with
        | deposit user amountA amountB minShares =>
            obtain ⟨⟨w₁, shares⟩, hd, rfl⟩ := map_eq_ok.mp h
            obtain ⟨positions, metrics, hs⟩ := deposit_writes hd
            exact .other rfl ⟨by rw [hs], by rw [hs]⟩
        | withdraw user q minA minB =>
            obtain ⟨⟨w₁, plan⟩, hw, rfl⟩ := map_eq_ok.mp h
            obtain ⟨paced, hpaced, positions, metrics, hs⟩ := withdraw_writes hw
            have hplan := (withdraw_facts hw).1.amounts
            have hposition : 0 < (w.store.getUserPosition user).shares :=
              hplan.position ▸ hplan.shares_pos.trans_le hplan.shares_le
            exact .charged e user q minA minB paced rfl hposition
              (hplan.totalShares ▸ hplan.total_pos) hpaced ⟨by rw [hs], by rw [hs]⟩
        | harvest caller =>
            obtain ⟨positions, metrics, snapshot, hs⟩ := harvest_writes h
            exact .other rfl ⟨by rw [hs], by rw [hs]⟩
        | _ => exact hkind.elim
      · obtain ⟨s, hs, rfl⟩ := exec_admin hkind h
        have hrecord : withdrawalRecord w (.call e action) = [] := by
          cases action <;> first | rfl | exact absurd trivial hkind
        cases execAdmin_written hkind hs with
        | @execute _ _ entry _ _ _ _ _ =>
            exact .other hrecord (by cases entry.action <;> exact ⟨rfl, rfl⟩)
        | _ => exact .other hrecord ⟨rfl, rfl⟩

theorem SameWindows.user {s s' : VaultStore} (h : SameWindows s s') (user : Address) :
    s'.getUserWithdrawWindow user = s.getUserWithdrawWindow user := by
  rw [VaultStore.getUserWithdrawWindow, VaultStore.getWithdrawWindows, h.1]
  rfl

theorem SameWindows.vault {s s' : VaultStore} (h : SameWindows s s') :
    s'.getVaultWithdrawWindow = s.getVaultWithdrawWindow := by
  rw [VaultStore.getVaultWithdrawWindow, h.2]
  rfl

theorem SameWindows.nonneg {s s' : VaultStore} (h : SameWindows s s') (hs : WindowsNonneg s) :
    WindowsNonneg s' :=
  ⟨fun user => (h.user user).symm ▸ hs.1 user, h.vault.symm ▸ hs.2⟩

/-- Pacing that is not enabled charges nothing. -/
theorem consumeWithdrawPacing_disabled {e : Env} {s s' : VaultStore} {user : Address}
    {shares positionShares totalShares : ℤ} (hdisabled : ¬ s.getWithdrawPacing.Enabled)
    (h : consumeWithdrawPacing e s user shares positionShares totalShares = .ok s') : s' = s := by
  have hoff : s.getWithdrawPacing.windowSeconds = 0 ∨
      s.getWithdrawPacing.userMaxBps = 0 ∧ s.getWithdrawPacing.vaultMaxBps = 0 := by
    by_contra hon
    exact hdisabled ⟨by omega, by omega⟩
  simp only [consumeWithdrawPacing, if_pos hoff] at h
  exact (pure_eq_ok.mp h).symm

theorem PacingFacts.nonneg {e : Env} {s s' : VaultStore} {user : Address}
    {shares positionShares totalShares : ℤ}
    (h : PacingFacts e s user shares positionShares totalShares s') (hs : WindowsNonneg s)
    (hposition : 0 < positionShares) (htotal : 0 < totalShares) : WindowsNonneg s' := by
  refine ⟨fun u => ?_, ?_⟩
  · rw [h.userWindow u]
    split_ifs
    · exact currentWindow_nonneg hposition.le (hs.1 user)
    · exact hs.1 u
  · rw [h.vaultWindow]
    exact currentWindow_nonneg htotal.le hs.2

theorem windowsNonneg_step (w : World) (event : VaultEvent) (w' : World)
    (hs : WindowsNonneg w.store) (h : vaultStep w event = .ok w') : WindowsNonneg w'.store := by
  cases vaultStep_windows h with
  | charged e user shares minA minB paced hevent hposition htotal hpaced hsame =>
      by_cases henabled : w.store.getWithdrawPacing.Enabled
      · have hfacts := consumeWithdrawPacing_facts henabled hpaced
        exact hsame.nonneg (hfacts.nonneg hs hposition htotal)
      · obtain rfl := consumeWithdrawPacing_disabled henabled hpaced
        exact hsame.nonneg hs
  | other hrecord hsame => exact hsame.nonneg hs

theorem Reachable.windowsNonneg {info : VaultInfo} {w : World} (h : Reachable info w) :
    WindowsNonneg w.store := by
  obtain ⟨e, admin, treasury, ledger, events, rfl⟩ := h
  refine Transact.run_invariant windowsNonneg_step events ⟨fun user => ?_, le_rfl⟩
  exact le_rfl

/-! ### Runs -/

/-- The windows of one user in a run from `s₀` with the log `log`. -/
def userWindows (p : WithdrawPacing) (s₀ : VaultStore) (user : Address) (log : List Withdrawal) :
    List Window :=
  windows p.windowSeconds (priorWindow (s₀.getUserWithdrawWindow user)) (userCharges user log)

/-- The windows of the vault in a run from `s₀` with the log `log`. -/
def vaultWindows (p : WithdrawPacing) (s₀ : VaultStore) (log : List Withdrawal) : List Window :=
  windows p.windowSeconds (priorWindow s₀.getVaultWithdrawWindow) (vaultCharges log)

/-- The stored counters follow the log, and the log respects the limits. -/
structure Paced (p : WithdrawPacing) (s₀ : VaultStore) (log : List Withdrawal) (w : World) :
    Prop where
  config : w.store.getWithdrawPacing = p
  nonneg : WindowsNonneg w.store
  userRecorded : ∀ user,
    Records (w.store.getUserWithdrawWindow user) (userWindows p s₀ user log)
  userWithin : 0 < p.userMaxBps → ∀ user,
    Within (pacingBudget p.userMaxBps) (userWindows p s₀ user log)
  vaultRecorded : Records w.store.getVaultWithdrawWindow (vaultWindows p s₀ log)
  vaultWithin : 0 < p.vaultMaxBps → Within (pacingBudget p.vaultMaxBps) (vaultWindows p s₀ log)

/-- The newest window is within the budget when the record of it is. -/
theorem Records.within_head {window : WithdrawWindow} {ws : List Window} {budget : ℤ → ℤ}
    (h : Records window ws)
    (hbudget : window.sharesWithdrawn ≤ budget window.windowStartShares) :
    ∀ w ∈ ws.head?, w.total ≤ budget w.held := by
  cases ws with
  | nil => exact fun w hw => by simp at hw
  | cons v ws =>
      obtain ⟨-, rfl⟩ := h
      intro w hw
      obtain rfl := Option.some.inj hw
      exact hbudget

theorem userWindows_snoc (p : WithdrawPacing) (s₀ : VaultStore) (user : Address)
    (log : List Withdrawal) (x : Withdrawal) :
    userWindows p s₀ user (log ++ [x]) =
      if user = x.user then
        place p.windowSeconds ⟨x.time, x.shares, x.positionShares⟩ (userWindows p s₀ user log)
      else userWindows p s₀ user log := by
  unfold userWindows userCharges
  split_ifs with hu
  · rw [← windows_snoc, List.filter_append, List.map_append]
    simp [hu]
  · rw [List.filter_append, List.map_append]
    simp [Ne.symm hu]

theorem vaultWindows_snoc (p : WithdrawPacing) (s₀ : VaultStore) (log : List Withdrawal)
    (x : Withdrawal) : vaultWindows p s₀ (log ++ [x]) =
      place p.windowSeconds ⟨x.time, x.shares, x.totalShares⟩ (vaultWindows p s₀ log) := by
  rw [vaultWindows, vaultCharges, List.map_append, List.map_cons, List.map_nil, windows_snoc]
  rfl

theorem Paced.charge {p : WithdrawPacing} (henabled : p.Enabled) {s₀ : VaultStore}
    {log : List Withdrawal} {w : World} (h : Paced p s₀ log w) {e : Env} {user : Address}
    {shares : ℤ} {s' : VaultStore} (hposition : 0 < (w.store.getUserPosition user).shares)
    (htotal : 0 < w.store.storedMetrics.totalShares)
    (hfacts : PacingFacts e w.store user shares (w.store.getUserPosition user).shares
      w.store.storedMetrics.totalShares s') (ledger : Ledger)
    (hconfig : s'.getWithdrawPacing = p) :
    Paced p s₀ (log ++ [⟨user, e.timestamp, shares, (w.store.getUserPosition user).shares,
      w.store.storedMetrics.totalShares⟩]) ⟨s', ledger⟩ := by
  have hrecord : ∀ u, Records (s'.getUserWithdrawWindow u) (userWindows p s₀ u (log ++
      [⟨user, e.timestamp, shares, (w.store.getUserPosition user).shares,
        w.store.storedMetrics.totalShares⟩])) := by
    intro u
    rw [userWindows_snoc, hfacts.userWindow u, h.config]
    split_ifs with hu
    · subst hu
      exact (h.userRecorded u).place henabled.1 hposition.ne'
    · exact h.userRecorded u
  have hvault : Records s'.getVaultWithdrawWindow (vaultWindows p s₀ (log ++
      [⟨user, e.timestamp, shares, (w.store.getUserPosition user).shares,
        w.store.storedMetrics.totalShares⟩])) := by
    rw [vaultWindows_snoc, hfacts.vaultWindow, h.config]
    exact h.vaultRecorded.place henabled.1 htotal.ne'
  refine ⟨hconfig, hfacts.nonneg h.nonneg hposition htotal, hrecord, fun hmax u => ?_, hvault,
    fun hmax => ?_⟩
  · have hu := hrecord u
    rw [userWindows_snoc] at hu ⊢
    split_ifs at hu ⊢ with heq
    · refine (h.userWithin hmax u).place (hu.within_head ?_)
      obtain rfl : u = user := heq
      obtain ⟨_, hallowed⟩ := hfacts.user_allowed (h.config ▸ hmax)
      rw [hfacts.userWindow, if_pos rfl, h.config]
      rw [h.config] at hallowed
      exact requireAllowance_ok hallowed hmax
        (currentWindow_nonneg hposition.le (h.nonneg.1 u))
    · exact h.userWithin hmax u
  · rw [vaultWindows_snoc] at hvault ⊢
    refine (h.vaultWithin hmax).place (hvault.within_head ?_)
    obtain ⟨_, hallowed⟩ := hfacts.vault_allowed (h.config ▸ hmax)
    rw [hfacts.vaultWindow, h.config]
    rw [h.config] at hallowed
    exact requireAllowance_ok hallowed hmax (currentWindow_nonneg htotal.le h.nonneg.2)

theorem Paced.same {p : WithdrawPacing} {s₀ : VaultStore} {log : List Withdrawal} {w w' : World}
    (h : Paced p s₀ log w) (hsame : SameWindows w.store w'.store)
    (hconfig : w'.store.getWithdrawPacing = p) : Paced p s₀ log w' where
  config := hconfig
  nonneg := hsame.nonneg h.nonneg
  userRecorded := fun user => (hsame.user user).symm ▸ h.userRecorded user
  userWithin := h.userWithin
  vaultRecorded := hsame.vault.symm ▸ h.vaultRecorded
  vaultWithin := h.vaultWithin

theorem Paced.start {p : WithdrawPacing} {w : World} (hconfig : w.store.getWithdrawPacing = p)
    (hnonneg : WindowsNonneg w.store) : Paced p w.store [] w where
  config := hconfig
  nonneg := hnonneg
  userRecorded := fun _ => records_priorWindow _
  userWithin := fun _ _ => within_priorWindow _ _
  vaultRecorded := records_priorWindow _
  vaultWithin := fun _ => within_priorWindow _ _

/-- Every returning event that keeps the configuration keeps the windows in line with the
log. -/
theorem Paced.step {p : WithdrawPacing} (henabled : p.Enabled) {s₀ : VaultStore}
    {log : List Withdrawal} {w w' : World} {event : VaultEvent} (h : Paced p s₀ log w)
    (hkeeps : w'.store.getWithdrawPacing = w.store.getWithdrawPacing)
    (hstep : vaultStep w event = .ok w') :
    Paced p s₀ (log ++ withdrawalRecord w event) w' := by
  have hconfig := hkeeps.trans h.config
  cases vaultStep_windows hstep with
  | charged e user shares minA minB paced hevent hposition htotal hpaced hsame =>
      subst hevent
      have hkept : paced.getWithdrawPacing = p := by
        obtain ⟨windows, vaultWindow, rfl⟩ := consumeWithdrawPacing_writes hpaced
        exact h.config
      have hfacts := consumeWithdrawPacing_facts (h.config.symm ▸ henabled) hpaced
      exact (h.charge henabled hposition htotal hfacts w.ledger hkept).same hsame hconfig
  | other hrecord hsame =>
      rw [hrecord, List.append_nil]
      exact h.same hsame hconfig

/-- What pacing promises about a run from `s₀` to `w` with the log `log`. -/
structure PacingKept (p : WithdrawPacing) (s₀ : VaultStore) (log : List Withdrawal) (w : World) :
    Prop where
  /-- The windows of a user split the user's withdrawals. -/
  userSplit : ∀ user, IsSplit p.windowSeconds (userCharges user log) (userWindows p s₀ user log)
  /-- Within a window of a user, at most the user limit of the shares held at its opening. -/
  userWithin : 0 < p.userMaxBps → ∀ user,
    Within (pacingBudget p.userMaxBps) (userWindows p s₀ user log)
  /-- The stored window of a user is the newest one, with its sum. -/
  userRecorded : ∀ user,
    Records (w.store.getUserWithdrawWindow user) (userWindows p s₀ user log)
  vaultSplit : IsSplit p.windowSeconds (vaultCharges log) (vaultWindows p s₀ log)
  vaultWithin : 0 < p.vaultMaxBps → Within (pacingBudget p.vaultMaxBps) (vaultWindows p s₀ log)
  vaultRecorded : Records w.store.getVaultWithdrawWindow (vaultWindows p s₀ log)
  /-- A rejected call changes no window. -/
  rejected : ∀ event fault, vaultStep w event = .error fault →
    SameWindows w.store (Transact.commit vaultStep w event).store

/-- Pacing over every run, from a reachable state, that leaves the enabled configuration as it
is. -/
theorem pacing_spec {info : VaultInfo} {w₀ : World} (hreach : Reachable info w₀)
    (henabled : w₀.store.getWithdrawPacing.Enabled) (events : List VaultEvent)
    (hfixed : Transact.Along vaultStep (fun w event =>
      (Transact.commit vaultStep w event).store.getWithdrawPacing = w.store.getWithdrawPacing)
      w₀ events) :
    PacingKept w₀.store.getWithdrawPacing w₀.store (withdrawalLog w₀ events)
      (Transact.run vaultStep w₀ events) := by
  have hstep : ∀ log w event w', Paced w₀.store.getWithdrawPacing w₀.store log w →
      (Transact.commit vaultStep w event).store.getWithdrawPacing = w.store.getWithdrawPacing →
      vaultStep w event = .ok w' →
      Paced w₀.store.getWithdrawPacing w₀.store (log ++ withdrawalRecord w event) w' := by
    intro log w event w' h hkeeps hok
    rw [Transact.commit_of_ok hok] at hkeeps
    exact h.step henabled hkeeps hok
  have hpaced := Transact.run_log_invariant hstep events w₀ []
    (.start rfl hreach.windowsNonneg) hfixed
  rw [List.nil_append] at hpaced
  exact {
    userSplit := fun user => windows_isSplit henabled.1 (isSplit_priorWindow _ _) _
    userWithin := hpaced.userWithin
    userRecorded := hpaced.userRecorded
    vaultSplit := windows_isSplit henabled.1 (isSplit_priorWindow _ _) _
    vaultWithin := hpaced.vaultWithin
    vaultRecorded := hpaced.vaultRecorded
    rejected := fun event fault h => by
      rw [Transact.commit_of_error h]
      exact ⟨rfl, rfl⟩ }

/-- Half of a position, and three quarters of the vault, may leave within a day. -/
def pacedWorld : World :=
  Transact.run vaultStep openedVault [.call ⟨9, [5], 1⟩ (.deposit 5 10 10 0),
    .call ⟨9, [7], 2⟩ (.setWithdrawPacing 7 5000 7500 86400)]

/-- Ten of the holder's twenty shares leave; one more within the day is refused. -/
theorem pacing_spec_pacedWorld :
    PacingKept ⟨5000, 7500, 86400⟩ pacedWorld.store [⟨5, 3, 10, 20, 20⟩]
      (Transact.run vaultStep pacedWorld [.call ⟨9, [5], 3⟩ (.withdraw 5 10 0 0),
        .call ⟨9, [5], 86402⟩ (.withdraw 5 1 0 0)]) := by
  have hreach : Reachable (twoTokenVault 0) pacedWorld := ⟨_, _, _, _, _, rfl⟩
  exact pacing_spec hreach (by decide) [.call ⟨9, [5], 3⟩ (.withdraw 5 10 0 0),
    .call ⟨9, [5], 86402⟩ (.withdraw 5 1 0 0)] ⟨rfl, rfl, trivial⟩

end YieldEngine.Vault
