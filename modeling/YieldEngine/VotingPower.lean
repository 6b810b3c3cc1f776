import YieldEngine.LockCommitments

/-! # Voting power

The voting power of a user is the decayed amount of his own lock and everything that was ever
delegated to him (`power_is_history`).  A delegation is checked against the power of the delegator
and takes nothing off it, and it has no end.

So power can be delegated again and again, also to oneself.  Delegating all of it to oneself doubles
it (`selfDelegations_doubled`), and an account with any power at all can reach any target that fits
(`any_power_reached`). -/

namespace YieldEngine.Governance

open CheckedArith Transact SortedMap

variable {d : Deployment} {w w' : World}

/-! ### The history of delegations -/

/-- A delegation of voting power. -/
structure Delegation where
  sender : Address
  recipient : Address
  amount : ℤ
  /-- The power of the sender at that time. -/
  power : ℤ
deriving DecidableEq, Repr

/-- The delegation a call makes. -/
def delegations (w : World) (c : GovEnv × Action) : List Delegation :=
  match c.2 with
  | .escrow (.delegate sender recipient amount) =>
      [⟨sender, recipient, amount, w.escrow.power c.1.timestamp sender⟩]
  | _ => []

/-- The delegations to a user. -/
def delegatedTo (user : Address) (log : List Delegation) : ℤ :=
  sumAt user (log.map fun g => (g.recipient, g.amount))

/-- The delegations of a user. -/
def delegatedBy (user : Address) (log : List Delegation) : ℤ :=
  sumAt user (log.map fun g => (g.sender, g.amount))

/-- The escrow has these delegations on its books, none of them beyond the power of its sender. -/
structure Delegated (log : List Delegation) (w : World) : Prop where
  recipients : ∀ user, w.escrow.delegatedTo.amount user = delegatedTo user log
  senders : ∀ user, w.escrow.delegatedFrom.amount user = delegatedBy user log
  within : ∀ g ∈ log, g.amount ≤ g.power

theorem delegatedTo_append (user : Address) (log more : List Delegation) :
    delegatedTo user (log ++ more) = delegatedTo user log + delegatedTo user more := by
  rw [delegatedTo, List.map_append, sumAt_append]
  rfl

theorem delegatedBy_append (user : Address) (log more : List Delegation) :
    delegatedBy user (log ++ more) = delegatedBy user log + delegatedBy user more := by
  rw [delegatedBy, List.map_append, sumAt_append]
  rfl

theorem step_delegated {log : List Delegation} {c : GovEnv × Action} (h : Step d w c.1 c.2 w')
    (hs : Delegated log w) : Delegated (log ++ delegations w c) w' := by
  obtain ⟨e, a⟩ := c
  have hkept : w'.escrow.delegatedTo = w.escrow.delegatedTo →
      w'.escrow.delegatedFrom = w.escrow.delegatedFrom → Delegated (log ++ []) w' := by
    intro hto hfrom
    rw [List.append_nil]
    exact ⟨by rw [hto]; exact hs.recipients, by rw [hfrom]; exact hs.senders, hs.within⟩
  cases h with
  | escrow h =>
      cases h with
      | @delegate sender recipient amount _ hpower =>
          refine ⟨fun user => ?_, fun user => ?_, fun g hg => ?_⟩
          · rw [delegatedTo_append, ← hs.recipients]
            refine (amount_credit_eq_add _ _ _ _).trans ?_
            exact congrArg _ (sumAt_singleton user recipient amount).symm
          · rw [delegatedBy_append, ← hs.senders]
            refine (amount_credit_eq_add _ _ _ _).trans ?_
            exact congrArg _ (sumAt_singleton user sender amount).symm
          · rcases List.mem_append.mp hg with hg | hg
            · exact hs.within g hg
            · obtain rfl := List.mem_singleton.mp hg
              exact hpower
      | _ => exact hkept rfl rfl
  | _ => exact hkept rfl rfl

/-- After every run, the voting power of a user whose lock runs is the decayed amount of the lock
and all that was ever delegated to him; each delegation was within the power of its sender at that
time, and is still counted. -/
theorem power_is_history {e : GovEnv} {p : Parties} {w : World} (d : Deployment)
    (h : deployed e d p = .ok w) (calls : List (GovEnv × Action)) :
    let s := (run (exec d) w calls).escrow
    let log := ghostLog (exec d) delegations w calls
    (∀ g ∈ log, g.amount ≤ g.power) ∧
      ∀ e' user power, s.getVotingPower e' user = .ok power →
        power = if s.lockEnd user ≤ e'.timestamp ∨ s.lockedAmount user = 0 then 0
          else (s.lockedAmount user * (s.lockEnd user - e'.timestamp : ℕ)).tdiv
            VotingEscrow.maxVoteDuration + delegatedTo user log := by
  have hstart : Delegated [] w := by
    obtain ⟨-, -, -, -, hescrow, -⟩ := deployed_ok h
    constructor
    · rw [hescrow]
      exact fun _ => rfl
    · rw [hescrow]
      exact fun _ => rfl
    · exact fun g hg => by cases hg
  have hrun : Delegated (ghostLog (exec d) delegations w calls) (run (exec d) w calls) :=
    run_log_invariant (Q := fun _ _ => True)
      (fun _ _ _ _ hs _ hcall => step_delegated (exec_step hcall) hs) calls w [] hstart
      (along_true calls w)
  refine ⟨hrun.within, fun e' user power hpower => ?_⟩
  rw [VotingEscrow.getVotingPower_ok hpower, VotingEscrow.Store.power, hrun.recipients]

/-- Wallet `2` locks and then delegates a part of its power to account `3`. -/
def delegationCalls : List (GovEnv × Action) :=
  [(⟨[2], 0, 0⟩, .escrow (.createLock 2 1000000000 604800)),
    (⟨[2], 9, 0⟩, .escrow (.delegate 2 3 4000000))]

theorem power_is_history_sample :
    let s := (run (exec sampleDeployment) sampleWorld delegationCalls).escrow
    let log := ghostLog (exec sampleDeployment) delegations sampleWorld delegationCalls
    log.map Delegation.amount = [4000000] ∧ (∀ g ∈ log, g.amount ≤ g.power) ∧
      ∀ e' user power, s.getVotingPower e' user = .ok power →
        power = if s.lockEnd user ≤ e'.timestamp ∨ s.lockedAmount user = 0 then 0
          else (s.lockedAmount user * (s.lockEnd user - e'.timestamp : ℕ)).tdiv
            VotingEscrow.maxVoteDuration + delegatedTo user log :=
  ⟨rfl, power_is_history sampleDeployment sampleWorld_deployed delegationCalls⟩

/-! ### Delegating to oneself -/

section
variable {s s' : VotingEscrow.Store} {e : GovEnv} {user : Address} {p : ℤ}

/-- The part of a positive power that comes from the lock. -/
theorem own_of_getVotingPower (h : s.getVotingPower e user = .ok p) (hp : 0 < p) :
    ∃ own : ℤ, p = own + s.delegatedTo.amount user ∧ Fits 128 own ∧
      (0 ≤ s.lockedAmount user → 0 ≤ own) ∧
        ∀ t : VotingEscrow.Store, t.lockedAmount user = s.lockedAmount user →
          t.lockEnd user = s.lockEnd user → Fits 128 (own + t.delegatedTo.amount user) →
            t.getVotingPower e user = .ok (own + t.delegatedTo.amount user) := by
  simp only [VotingEscrow.Store.getVotingPower, ite_eq_ok, bind_eq_ok, I128.mul_eq_ok,
    I128.div_eq_ok, I128.add_eq_ok, pure_eq_ok] at h
  obtain ⟨-, rfl⟩ | ⟨hlock, _, ⟨hscaled, rfl⟩, own, ⟨hdiv, hfits, rfl⟩, -, rfl⟩ := h
  · omega
  · refine ⟨_, rfl, hfits, fun hlocked => ?_, fun t hlocked hend ht => ?_⟩
    · exact Int.tdiv_nonneg (mul_nonneg hlocked (Int.natCast_nonneg _)) (by decide)
    · simp only [VotingEscrow.Store.getVotingPower, hlocked, hend, if_neg hlock]
      rw [I128.mul_of_fits hscaled, ok_bind, I128.div_of_fits hdiv hfits, ok_bind,
        I128.add_of_fits ht]

/-- A delegation of all power to oneself. -/
theorem exec_self_delegation (hauth : user ∈ e.auths)
    (hpower : w.escrow.getVotingPower e user = .ok p)
    (hfrom : Fits 128 (w.escrow.delegatedFrom.amount user + p))
    (hto : Fits 128 (w.escrow.delegatedTo.amount user + p)) :
    exec d w (e, .escrow (.delegate user user p)) =
      .ok { w with escrow := w.escrow.delegated user user p } := by
  have hcall : VotingEscrow.delegate e w.escrow user user p =
      .ok (w.escrow.delegated user user p) := by
    simp only [VotingEscrow.delegate, bind_eq_ok, GovEnv.requireAuth_eq_ok, require_eq_ok,
      exists_const]
    exact ⟨hauth, p, hpower, le_rfl, _, I128.add_of_fits hfrom, _, I128.add_of_fits hto, rfl⟩
  simp only [exec, VotingEscrow.exec, hcall]
  rfl

/-- Delegating all power to oneself, `n` times over, from the power `p` on. -/
def selfDelegations (e : GovEnv) (user : Address) (p : ℤ) (n : ℕ) : List (GovEnv × Action) :=
  (List.range n).map fun i => (e, .escrow (.delegate user user (2 ^ i * p)))

theorem selfDelegations_succ (e : GovEnv) (user : Address) (p : ℤ) (n : ℕ) :
    selfDelegations e user p (n + 1) =
      selfDelegations e user p n ++ [(e, .escrow (.delegate user user (2 ^ n * p)))] := by
  rw [selfDelegations, List.range_succ, List.map_append]
  rfl

/-- The books of the escrow when the power of `user` has been doubled `n` times. -/
structure Doubled (s : VotingEscrow.Store) (user : Address) (p : ℤ) (n : ℕ)
    (t : VotingEscrow.Store) : Prop where
  locked : t.lockedAmount user = s.lockedAmount user
  lockEnd : t.lockEnd user = s.lockEnd user
  delegatedTo : t.delegatedTo.amount user = s.delegatedTo.amount user + (2 ^ n * p - p)
  delegatedFrom : t.delegatedFrom.amount user = s.delegatedFrom.amount user + (2 ^ n * p - p)

theorem Doubled.succ {t : VotingEscrow.Store} {n : ℕ} (h : Doubled s user p n t) :
    Doubled s user p (n + 1) (t.delegated user user (2 ^ n * p)) where
  locked := h.locked
  lockEnd := h.lockEnd
  delegatedTo := by
    refine (amount_credit_self _ _ _).trans ?_
    rw [h.delegatedTo]
    ring
  delegatedFrom := by
    refine (amount_credit_self _ _ _).trans ?_
    rw [h.delegatedFrom]
    ring

/-- Whoever has voting power and signs for himself doubles it by each delegation of all of it to
himself, as long as the numbers fit. -/
theorem selfDelegations_doubled (hauth : user ∈ e.auths)
    (hpower : w.escrow.getVotingPower e user = .ok p) (hp : 0 < p)
    (hlocked : 0 ≤ w.escrow.lockedAmount user) (hfrom : 0 ≤ w.escrow.delegatedFrom.amount user)
    (n : ℕ) : w.escrow.delegatedFrom.amount user + 2 ^ n * p < 2 ^ 127 →
      Doubled w.escrow user p n (run (exec d) w (selfDelegations e user p n)).escrow ∧
        (run (exec d) w (selfDelegations e user p n)).escrow.getVotingPower e user =
          .ok (2 ^ n * p) := by
  obtain ⟨own, hsum, hown, hsign, hvalue⟩ := own_of_getVotingPower hpower hp
  have hown0 := hsign hlocked
  have hreach : ∀ n v, Doubled w.escrow user p n v →
      w.escrow.delegatedFrom.amount user + 2 ^ n * p < 2 ^ 127 →
        v.getVotingPower e user = .ok (2 ^ n * p) := by
    intro n v hv hfits
    have htotal : own + v.delegatedTo.amount user = 2 ^ n * p := by
      rw [hv.delegatedTo]
      omega
    have hend := hvalue _ hv.locked hv.lockEnd
    rw [htotal] at hend
    exact hend (Fits.of_lt (by positivity) (by omega))
  induction n with
  | zero =>
      intro hfits
      have hstart : Doubled w.escrow user p 0 w.escrow := ⟨rfl, rfl, by simp, by simp⟩
      exact ⟨hstart, hreach 0 _ hstart hfits⟩
  | succ n ih =>
      intro hfits
      have hdouble : 2 ^ (n + 1) * p = 2 * (2 ^ n * p) := by ring
      have hpos : 0 < 2 ^ n * p := by positivity
      have hgrown : p ≤ 2 ^ n * p := le_mul_of_one_le_left hp.le (one_le_pow₀ (by decide))
      have hbound := hown.2
      rw [hdouble] at hfits
      obtain ⟨hv, hq⟩ := ih (by omega)
      have hcall := exec_self_delegation (d := d) hauth hq
        (Fits.of_lt (by rw [hv.delegatedFrom]; omega) (by rw [hv.delegatedFrom]; omega))
        (by
          rw [hv.delegatedTo]
          exact ⟨by omega, by omega⟩)
      rw [selfDelegations_succ, run_append, run_cons, run_nil, commit_of_ok hcall]
      exact ⟨hv.succ, hreach _ _ hv.succ (by omega)⟩

/-- In every state an account that has any voting power, and signs nothing but delegations to itself,
reaches every target that fits. -/
theorem any_power_reached (d : Deployment) {w : World} (hauth : user ∈ e.auths)
    (hpower : w.escrow.getVotingPower e user = .ok p) (hp : 0 < p)
    (hlocked : 0 ≤ w.escrow.lockedAmount user) (hfrom : 0 ≤ w.escrow.delegatedFrom.amount user)
    (target : ℤ) (hfits : w.escrow.delegatedFrom.amount user + 2 * target < 2 ^ 127) :
    ∃ n q, (run (exec d) w (selfDelegations e user p n)).escrow.getVotingPower e user = .ok q ∧
      target ≤ q := by
  have hexists : ∃ n : ℕ, target ≤ 2 ^ n * p := by
    refine ⟨target.toNat, ?_⟩
    have hpow : target.toNat < 2 ^ target.toNat := Nat.lt_two_pow_self
    have hle : (target.toNat : ℤ) < 2 ^ target.toNat := by exact_mod_cast hpow
    nlinarith [Int.self_le_toNat target]
  cases hn : Nat.find hexists with
  | zero =>
      have hfound := Nat.find_spec hexists
      rw [hn, pow_zero, one_mul] at hfound
      exact ⟨0, p, hpower, hfound⟩
  | succ n =>
      have hfound := Nat.find_spec hexists
      have hbefore := Nat.find_min hexists (m := n) (by omega)
      rw [hn] at hfound
      have hdouble : 2 ^ (n + 1) * p = 2 * (2 ^ n * p) := by ring
      have hn1 : w.escrow.delegatedFrom.amount user + 2 ^ (n + 1) * p < 2 ^ 127 := by omega
      exact ⟨n + 1, _, (selfDelegations_doubled hauth hpower hp hlocked hfrom (n + 1) hn1).2, hfound⟩

theorem any_power_reached_sample :
    let u := run (exec sampleDeployment) sampleWorld
      [(⟨[2], 0, 0⟩, .escrow (.createLock 2 1000000000 604800))]
    u.escrow.getVotingPower ⟨[2], 9, 0⟩ 2 = .ok 4794449 ∧
      ∃ n q, (run (exec sampleDeployment) u
          (selfDelegations ⟨[2], 9, 0⟩ 2 4794449 n)).escrow.getVotingPower ⟨[2], 9, 0⟩ 2 = .ok q ∧
        10 ^ 30 ≤ q := by
  have hpower : (run (exec sampleDeployment) sampleWorld
      [(⟨[2], 0, 0⟩, .escrow (.createLock 2 1000000000 604800))]).escrow.getVotingPower
        ⟨[2], 9, 0⟩ 2 = .ok 4794449 := by rfl
  exact ⟨hpower, any_power_reached sampleDeployment (by decide) hpower (by decide) (by decide +kernel)
    (by decide +kernel) (10 ^ 30) (by decide +kernel)⟩

end

end YieldEngine.Governance
