import YieldEngine.VaultEffects

/-! # Whose authorisation an invocation of the vault needs

The vault compares the `admin` argument of an administrative entrypoint with the stored admin
and never asks the host whether that address authorised the call; `withdraw` does not ask
for the user's authorisation either, and `initialize` asks for nothing.  So anyone who
passes the right address as an argument acts with its rights.

`AuthRespected` says what authorisation should protect: the administrative data
(`VaultStore.adminData`) and the pause flag against calls the stored admin has not
authorised, and the shares of a user against calls the user has not authorised.
`authRespected_iff` decides it for every returning invocation in every state. -/

namespace YieldEngine.Vault

open CheckedArith

/-! ### What authorisation protects -/

/-- The data that only the admin may change. -/
structure AdminData where
  admin : Option Address
  prices : ℤ × ℤ
  pacing : WithdrawPacing
  queue : SortedMap ℕ PendingAction
  treasury : Option Address
  timelockDelay : ℕ
  signers : List Address
  threshold : ℕ

def VaultStore.adminData (s : VaultStore) : AdminData where
  admin := s.admin
  prices := s.getPrices
  pacing := s.getWithdrawPacing
  queue := s.getPendingActions
  treasury := s.treasury
  timelockDelay := s.getTimelockDelay
  signers := s.getEmergencySigners
  threshold := s.getEmergencyThreshold

/-- The emergency calls may move the pause flag on their own rule. -/
def VaultInvocation.IsEmergency : VaultInvocation → Prop
  | .entrypoint (.emergencyPause _) | .entrypoint (.emergencyUnpause _) => True
  | _ => False

/-- The administrative data is kept, and so is the pause flag outside an emergency call. -/
def KeepsAdminData (c : VaultInvocation) (s s' : VaultStore) : Prop :=
  s'.adminData = s.adminData ∧ (¬ c.IsEmergency → s'.isPaused = s.isPaused)

/-- Whoever has not authorised the call loses nothing by it. -/
structure AuthRespected (e : Env) (c : VaultInvocation) (s s' : VaultStore) : Prop where
  admin : ∀ admin, s.admin = some admin → admin ∉ e.auths → KeepsAdminData c s s'
  shares : ∀ user, user ∉ e.auths →
    (s.getUserPosition user).shares ≤ (s'.getUserPosition user).shares

/-! ### When it is respected -/

/-- What the call would write to the administrative data and the pause flag is there already. -/
def VaultInvocation.Repeats (e : Env) (s : VaultStore) : VaultInvocation → Prop
  | .initializeVault _ admin treasury =>
      s.admin = some admin ∧ s.treasury = some treasury ∧ s.isPaused = false ∧
        s.getTimelockDelay = defaultTimelockDelay ∧ s.getEmergencySigners = [] ∧
        s.getEmergencyThreshold = 3
  | .entrypoint (.executePendingAction _ _) | .entrypoint (.cancelPendingAction _ _) => False
  | .entrypoint (.setPrices _ priceA priceB) => s.getPrices = (priceA, priceB)
  | .entrypoint (.setWithdrawPacing _ userMaxBps vaultMaxBps windowSeconds) =>
      s.getWithdrawPacing = ⟨userMaxBps, vaultMaxBps, windowSeconds⟩
  | .entrypoint (.pause _) => s.isPaused = true
  | .entrypoint (.unpause _) => s.isPaused = false
  | .entrypoint (.setEmergencySigners _ signers) => s.getEmergencySigners = signers
  | .entrypoint (.setEmergencyThreshold _ threshold) => s.getEmergencyThreshold = threshold
  | .entrypoint action => ∀ admin payload, action.proposal = some (admin, payload) →
      s.getPendingActions.get s.nextId = some (s.nextEntry e admin payload)

/-- The user whose shares the call burns. -/
def VaultInvocation.burnsFor : VaultInvocation → Option Address
  | .entrypoint (.withdraw user _ _ _) => some user
  | _ => none

theorem adminData_movedOnly {s s' : VaultStore} (h : MovedOnly s s') :
    s'.adminData = s.adminData ∧ s'.isPaused = s.isPaused := by
  obtain ⟨_, _, _, _, _, rfl⟩ := h
  exact ⟨rfl, rfl⟩

/-- The data a call keeps, from the data `d` and the pause flag `p` it leaves. -/
theorem keepsAdminData_iff {c : VaultInvocation} {s s' : VaultStore} {d : AdminData} {p : Bool}
    (hdata : s'.adminData = d) (hpaused : s'.isPaused = p) :
    KeepsAdminData c s s' ↔ d = s.adminData ∧ (¬ c.IsEmergency → p = s.isPaused) := by
  rw [KeepsAdminData, hdata, hpaused]

theorem keepsAdminData_initialized {e : Env} {s : VaultStore} {info : VaultInfo}
    {admin treasury : Address} :
    KeepsAdminData (.initializeVault info admin treasury) s (s.initialized e info admin treasury) ↔
      VaultInvocation.Repeats e s (.initializeVault info admin treasury) := by
  refine Iff.trans (keepsAdminData_iff (d := { s.adminData with
    admin := some admin, treasury := some treasury, timelockDelay := defaultTimelockDelay
    signers := [], threshold := 3 }) (p := false) rfl rfl) ?_
  simp only [VaultInvocation.IsEmergency, VaultInvocation.Repeats, VaultStore.adminData,
    AdminData.mk.injEq, not_false_eq_true, true_and, forall_const]
  constructor
  · rintro ⟨⟨hadmin, htreasury, hdelay, hsigners, hthreshold⟩, hp⟩
    exact ⟨hadmin.symm, htreasury.symm, hp.symm, hdelay.symm, hsigners.symm, hthreshold.symm⟩
  · rintro ⟨hadmin, htreasury, hp, hdelay, hsigners, hthreshold⟩
    exact ⟨⟨hadmin.symm, htreasury.symm, hdelay.symm, hsigners.symm, hthreshold.symm⟩, hp.symm⟩

/-- Taking an action out of the queue changes the administrative data. -/
theorem not_keeps_of_queue {c : VaultInvocation} {s s' : VaultStore} {actionId : ℕ}
    {entry : PendingAction} (hentry : s.getPendingActions.get actionId = some entry)
    (hqueue : s'.getPendingActions = s.getPendingActions.remove actionId) :
    ¬ KeepsAdminData c s s' := by
  rintro ⟨hdata, -⟩
  have h : s'.getPendingActions = s.getPendingActions := congrArg AdminData.queue hdata
  exact SortedMap.remove_ne_self hentry (hqueue ▸ h)

theorem keepsAdminData_queued {e : Env} {s : VaultStore} {c : VaultInvocation} {admin : Address}
    {payload : PendingAdminAction} :
    KeepsAdminData c s (s.queued e admin payload) ↔
      s.getPendingActions.get s.nextId = some (s.nextEntry e admin payload) := by
  refine Iff.trans (keepsAdminData_iff (d := { s.adminData with
    queue := s.getPendingActions.set s.nextId (s.nextEntry e admin payload) })
    (p := s.isPaused) rfl rfl) ?_
  rw [← SortedMap.set_eq_self_iff]
  simp [VaultStore.adminData]

theorem keepsAdminData_written {e : Env} {s s' : VaultStore} {action : VaultAction}
    (h : Written e s action s') :
    KeepsAdminData (.entrypoint action) s s' ↔ VaultInvocation.Repeats e s (.entrypoint action) := by
  cases h with
  | propose hproposal hadmin =>
      rw [keepsAdminData_queued]
      cases action <;> simp_all [VaultAction.proposal, VaultInvocation.Repeats]
  | @execute admin actionId entry metrics hadmin hentry hdue hmetrics =>
      refine iff_of_false (not_keeps_of_queue hentry ?_) id
      cases entry.action <;> rfl
  | cancel hadmin hentry => exact iff_of_false (not_keeps_of_queue hentry rfl) id
  | @setPrices admin priceA priceB metrics hadmin hmetrics =>
      refine Iff.trans (keepsAdminData_iff (d := { s.adminData with prices := (priceA, priceB) })
        (p := s.isPaused) rfl rfl) ?_
      simp [VaultStore.adminData, VaultInvocation.Repeats, eq_comm]
  | @setWithdrawPacing admin userMaxBps vaultMaxBps windowSeconds hadmin =>
      refine Iff.trans (keepsAdminData_iff (d := { s.adminData with
        pacing := ⟨userMaxBps, vaultMaxBps, windowSeconds⟩ }) (p := s.isPaused) rfl rfl) ?_
      simp [VaultStore.adminData, VaultInvocation.Repeats, eq_comm]
  | pause hadmin =>
      refine Iff.trans (keepsAdminData_iff (d := s.adminData) (p := true) rfl rfl) ?_
      exact ⟨fun h => (h.2 id).symm, fun h => ⟨rfl, fun _ => Eq.symm h⟩⟩
  | unpause hadmin =>
      refine Iff.trans (keepsAdminData_iff (d := s.adminData) (p := false) rfl rfl) ?_
      exact ⟨fun h => (h.2 id).symm, fun h => ⟨rfl, fun _ => Eq.symm h⟩⟩
  | @setEmergencySigners admin signers hadmin =>
      refine Iff.trans (keepsAdminData_iff (d := { s.adminData with signers := signers })
        (p := s.isPaused) rfl rfl) ?_
      simp [VaultStore.adminData, VaultInvocation.Repeats, eq_comm]
  | @setEmergencyThreshold admin threshold hadmin =>
      refine Iff.trans (keepsAdminData_iff (d := { s.adminData with threshold := threshold })
        (p := s.isPaused) rfl rfl) ?_
      simp [VaultStore.adminData, VaultInvocation.Repeats, eq_comm]
  | upgrade hadmin =>
      exact iff_of_true ⟨rfl, fun _ => rfl⟩ (fun _ _ h => by cases h)
  | migrate hadmin =>
      exact iff_of_true ⟨rfl, fun _ => rfl⟩ (fun _ _ h => by cases h)
  | emergencyPause =>
      exact iff_of_true ⟨rfl, fun h => absurd trivial h⟩ (fun _ _ h => by cases h)
  | emergencyUnpause =>
      exact iff_of_true ⟨rfl, fun h => absurd trivial h⟩ (fun _ _ h => by cases h)

/-- A returning invocation keeps the administrative data exactly when it repeats it. -/
theorem keepsAdminData_invoke {e : Env} {w w' : World} {c : VaultInvocation}
    (h : invoke w (e, c) = .ok w') : KeepsAdminData c w.store w'.store ↔ c.Repeats e w.store := by
  cases c with
  | initializeVault info admin treasury =>
      obtain rfl := pure_eq_ok.mp h
      exact keepsAdminData_initialized
  | entrypoint action =>
      have h : exec w (e, action) = .ok w' := h
      by_cases hkind : action.MovesValue
      · obtain ⟨hdata, hpaused⟩ := adminData_movedOnly (exec_movedOnly hkind h)
        refine iff_of_true ⟨hdata, fun _ => hpaused⟩ ?_
        cases action <;> first | exact hkind.elim | exact fun _ _ h => by cases h
      · obtain ⟨s, hs, rfl⟩ := exec_admin hkind h
        exact keepsAdminData_written (execAdmin_written hkind hs)

/-! ### Shares -/

theorem getUserPosition_set {s s' : VaultStore} {u : Address} {p : UserPosition}
    (h : s'.positions = s.positions.set u p) (user : Address) :
    s'.getUserPosition user = if user = u then p else s.getUserPosition user := by
  rw [VaultStore.getUserPosition, h, SortedMap.get_set]
  split_ifs <;> rfl

theorem shares_deposit {e : Env} {w w' : World} {owner : Address} {amountA amountB shares : ℤ}
    (hd : DepositFacts e w owner amountA amountB w' shares) (user : Address) :
    (w.store.getUserPosition user).shares ≤ (w'.store.getUserPosition user).shares := by
  rw [getUserPosition_set hd.positions]
  have hpos := hd.shares_pos
  split_ifs with hu
  · subst hu
    simp only
    omega
  · exact le_rfl

/-- A withdrawal costs its owner shares and nobody else. -/
theorem shares_withdraw {e : Env} {s s' : VaultStore} {owner : Address} {q minA minB : ℤ}
    {plan : WithdrawPlan} (hs : SettleFacts e s owner q minA minB s' plan) (user : Address) :
    (s.getUserPosition user).shares ≤ (s'.getUserPosition user).shares ↔ owner ≠ user := by
  rw [getUserPosition_set hs.positions]
  have hpos := hs.amounts.shares_pos
  by_cases hu : user = owner
  · subst hu
    refine iff_of_false ?_ (fun hne => hne rfl)
    rw [if_pos rfl, hs.amounts.position]
    simp only
    omega
  · rw [if_neg hu]
    exact iff_of_true le_rfl fun heq => hu heq.symm

theorem shares_harvest {e : Env} {w w' : World} {caller : Address} {info : VaultInfo}
    (hh : HarvestFacts e w caller info w') (user : Address) :
    (w'.store.getUserPosition user).shares = (w.store.getUserPosition user).shares := by
  obtain hpos | ⟨-, hpos⟩ := hh.positions
  · rw [VaultStore.getUserPosition, VaultStore.getUserPosition, hpos]
  · rw [getUserPosition_set hpos]
    split_ifs with hu
    · rw [hu]
    · rfl

/-- A returning entrypoint costs a user shares exactly when it burns them for that user. -/
theorem shares_exec {e : Env} {w w' : World} {action : VaultAction}
    (h : exec w (e, action) = .ok w') (user : Address) :
    (w.store.getUserPosition user).shares ≤ (w'.store.getUserPosition user).shares ↔
      (VaultInvocation.entrypoint action).burnsFor ≠ some user := by
  by_cases hkind : action.MovesValue
  · cases action with
    | deposit owner amountA amountB minShares =>
        obtain ⟨⟨w₁, shares⟩, hd, rfl⟩ := map_eq_ok.mp h
        exact iff_of_true (shares_deposit (deposit_facts hd) user)
          (by simp [VaultInvocation.burnsFor])
    | withdraw owner q minA minB =>
        obtain ⟨⟨w₁, plan⟩, hw, rfl⟩ := map_eq_ok.mp h
        rw [shares_withdraw (withdraw_facts hw).1 user]
        simp [VaultInvocation.burnsFor]
    | harvest caller =>
        obtain ⟨info, hh⟩ := harvest_facts h
        exact iff_of_true (shares_harvest hh user).ge (by simp [VaultInvocation.burnsFor])
    | _ => exact hkind.elim
  · obtain ⟨s, hs, rfl⟩ := exec_admin hkind h
    have hsame := (execAdmin_written hkind hs).sameAccounts
    refine iff_of_true ?_ ?_
    · rw [VaultStore.getUserPosition, VaultStore.getUserPosition, hsame.positions]
    · cases action <;> first | exact absurd trivial hkind | simp [VaultInvocation.burnsFor]

/-- A returning invocation costs a user shares exactly when it burns them for that user. -/
theorem shares_invoke {e : Env} {w w' : World} {c : VaultInvocation}
    (h : invoke w (e, c) = .ok w') (user : Address) :
    (w.store.getUserPosition user).shares ≤ (w'.store.getUserPosition user).shares ↔
      c.burnsFor ≠ some user := by
  cases c with
  | initializeVault info admin treasury =>
      obtain rfl := pure_eq_ok.mp h
      exact iff_of_true le_rfl (by simp [VaultInvocation.burnsFor])
  | entrypoint action => exact shares_exec h user

/-! ### The decision -/

/-- An invocation respects authorisation exactly when the stored admin has authorised it or it
repeats the administrative data, and the user whose shares it burns has authorised it. -/
theorem authRespected_iff {e : Env} {w w' : World} {c : VaultInvocation}
    (h : invoke w (e, c) = .ok w') :
    AuthRespected e c w.store w'.store ↔
      (∀ admin, w.store.admin = some admin → admin ∈ e.auths ∨ c.Repeats e w.store) ∧
        ∀ user, c.burnsFor = some user → user ∈ e.auths := by
  have hkeeps := keepsAdminData_invoke h
  have hshares := shares_invoke h
  constructor
  · rintro ⟨hadmin, husers⟩
    refine ⟨fun admin ha => ?_, fun user hburns => ?_⟩
    · by_cases hauth : admin ∈ e.auths
      · exact .inl hauth
      · exact .inr (hkeeps.mp (hadmin admin ha hauth))
    · by_contra hauth
      exact (hshares user).mp (husers user hauth) hburns
  · rintro ⟨hadmin, husers⟩
    refine ⟨fun admin ha hauth => ?_, fun user hauth => ?_⟩
    · exact hkeeps.mpr ((hadmin admin ha).resolve_left hauth)
    · exact (hshares user).mpr fun hburns => hauth (husers user hburns)

/-- A vault of admin `7` in which holder `5` owns twenty shares. -/
def heldVault : World :=
  Transact.run vaultStep openedVault [.call ⟨9, [5], 1⟩ (.deposit 5 10 10 0)]

theorem authRespected_heldVault :
    ∃ w', invoke heldVault (⟨9, [5], 2⟩, .entrypoint (.withdraw 5 20 0 0)) = .ok w' ∧
      AuthRespected ⟨9, [5], 2⟩ (.entrypoint (.withdraw 5 20 0 0)) heldVault.store w'.store := by
  refine ⟨_, rfl, (authRespected_iff rfl).mpr ⟨fun _ _ => .inr ?_, ?_⟩⟩
  · intro _ _ h
    cases h
  · intro user h
    cases h
    decide

/-- A call nobody has authorised pauses the vault, and one takes the holder's shares. -/
theorem stranger_acts :
    Reachable (twoTokenVault 0) heldVault ∧
      (∃ w', invoke heldVault (⟨9, [], 2⟩, .entrypoint (.pause 7)) = .ok w' ∧
        ¬ AuthRespected ⟨9, [], 2⟩ (.entrypoint (.pause 7)) heldVault.store w'.store) ∧
      ∃ w', invoke heldVault (⟨9, [], 2⟩, .entrypoint (.withdraw 5 20 0 0)) = .ok w' ∧
        ¬ AuthRespected ⟨9, [], 2⟩ (.entrypoint (.withdraw 5 20 0 0)) heldVault.store w'.store := by
  refine ⟨⟨_, _, _, _, _, rfl⟩, ⟨_, rfl, fun h => ?_⟩, ⟨_, rfl, fun h => ?_⟩⟩
  · have hpaused := (h.admin 7 rfl (by decide)).2 id
    revert hpaused
    decide
  · have hshares := h.shares 5 (by decide)
    revert hshares
    decide

end YieldEngine.Vault
