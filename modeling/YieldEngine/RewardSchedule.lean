import YieldEngine.RewardRuns

/-! # The schedule of the streams

What a stream emits is decided by the admin's calls alone: when it was added, when its rate was
changed and when it was deactivated.  `Schedule` keeps this for every stream, as the rates with
the times since which they hold, and `emittedBy` is what the rates amount to at a time.

`scheduleStep` reads the schedule off the calls of a run.  It looks neither at the state of the
distributor nor at `update_rewards` calls (`schedule_filter`).  The distributor follows it: after
every run its admin, its pause flag and its active streams are those of the schedule
(`follows_run`). -/

namespace YieldEngine.Rewards

open CheckedArith

/-! ### Rates in force -/

/-- The rates with the times since which they are in force, newest first. -/
abbrev Rates := List (ℕ × ℤ)

/-- The sum, over the intervals up to `t`, of the rate times the length of the interval. -/
def emittedBy : Rates → ℕ → ℤ
  | [], _ => 0
  | (since, rate) :: older, t => emittedBy older since + rate * ((t : ℤ) - since)

/-- Between two times under one rate, the rate times the time between is emitted. -/
theorem emittedBy_add (since : ℕ) (rate : ℤ) (older : Rates) (t t' : ℕ) :
    emittedBy ((since, rate) :: older) t' =
      emittedBy ((since, rate) :: older) t + rate * ((t' : ℤ) - t) := by
  simp only [emittedBy]
  ring

/-- A change of the rate at `now` counts the old rate up to `now`. -/
theorem emittedBy_change (rates : Rates) (now : ℕ) (rate : ℤ) :
    emittedBy ((now, rate) :: rates) now = emittedBy rates now := by
  simp [emittedBy]

/-! ### The schedule -/

structure StreamSchedule where
  active : Bool
  rates : Rates
deriving DecidableEq, Repr

/-- A new rate; a stream that was deactivated keeps emitting nothing. -/
def StreamSchedule.changeRate (now : ℕ) (rate : ℤ) (p : StreamSchedule) : StreamSchedule :=
  if p.active then { p with rates := (now, rate) :: p.rates } else p

def StreamSchedule.deactivate (now : ℕ) (p : StreamSchedule) : StreamSchedule :=
  if p.active then ⟨false, (now, 0) :: p.rates⟩ else p

structure Schedule where
  admin : Address
  paused : Bool
  streams : List StreamSchedule
deriving DecidableEq, Repr

/-- The schedule after one event. -/
def scheduleStep (p : Schedule) : RewardEvent → Schedule
  | .call e (.addRewardStream admin _ rate _ _) =>
      if admin = p.admin ∧ p.paused = false ∧ p.streams.length < maxRewardStreams then
        { p with streams := p.streams ++ [⟨true, [(e.timestamp, rate)]⟩] }
      else p
  | .call e (.updateRewardRate admin i rate) =>
      if admin = p.admin then
        { p with streams := p.streams.modify i (.changeRate e.timestamp rate) }
      else p
  | .call e (.deactivateStream admin i) =>
      if admin = p.admin then
        { p with streams := p.streams.modify i (.deactivate e.timestamp) }
      else p
  | .call _ (.pause admin) => if admin = p.admin then { p with paused := true } else p
  | .call _ (.unpause admin) => if admin = p.admin then { p with paused := false } else p
  | _ => p

/-- The schedule of a run of a distributor initialised by `admin`. -/
def scheduleOf (admin : Address) (events : List RewardEvent) : Schedule :=
  events.foldl scheduleStep ⟨admin, false, []⟩

/-- The rates of stream `i`. -/
def Schedule.ratesOf (p : Schedule) (i : ℕ) : Rates := (p.streams[i]?.map (·.rates)).getD []

/-- The event is an `update_rewards` call. -/
def RewardEvent.isUpdate : RewardEvent → Bool
  | .call _ (.updateRewards ..) => true
  | _ => false

theorem scheduleStep_update (p : Schedule) {event : RewardEvent} (h : event.isUpdate = true) :
    scheduleStep p event = p := by
  cases event with
  | tokens ledger => rfl
  | call e action =>
      cases action with
      | updateRewards => rfl
      | _ => cases h

/-- The schedule is that of the run without its `update_rewards` calls. -/
theorem schedule_filter (admin : Address) (events : List RewardEvent) :
    scheduleOf admin events = scheduleOf admin (events.filter fun event => !event.isUpdate) := by
  unfold scheduleOf
  generalize (⟨admin, false, []⟩ : Schedule) = p
  induction events generalizing p with
  | nil => rfl
  | cons event rest ih =>
      cases h : event.isUpdate with
      | true =>
          rw [List.filter_cons_of_neg (by rw [h]; decide), List.foldl_cons,
            scheduleStep_update p h, ih]
      | false =>
          rw [List.filter_cons_of_pos (by rw [h]; rfl), List.foldl_cons, List.foldl_cons, ih]

/-! ### What the calls write -/

/-- The part of a stream that its emission depends on. -/
structure EmissionPart where
  rate : ℤ
  distributed : ℤ
  lastUpdate : ℕ
  active : Bool
deriving DecidableEq

def emissionPart (stream : RewardStream) : EmissionPart :=
  ⟨stream.ratePerSecond, stream.totalDistributed, stream.lastUpdate, stream.isActive⟩

/-- Nothing that the schedule or the emission depends on was written. -/
structure SameSchedule (s s' : RewardStore) : Prop where
  admin : s'.admin = s.admin
  paused : s'.isPaused = s.isPaused
  vaultInfos : s'.vaultInfos = s.vaultInfos
  streams : s'.getStreams.map emissionPart = s.getStreams.map emissionPart

theorem SameSchedule.refl (s : RewardStore) : SameSchedule s s := ⟨rfl, rfl, rfl, rfl⟩

section frames
variable {e : Env} {user : Address}

/-- A claim writes debts only. -/
theorem claimStreams_writes {streams : List RewardStream} {treasury swapRouter : Address}
    {convertTo : Option Address} {is : List ℕ} {w : RewardWorld} {totals : SortedMap Address ℤ}
    {r : RewardWorld × List ClaimPayout}
    (h : claimStreams e streams treasury swapRouter user convertTo is w totals = .ok r) :
    r.1.store = { w.store with debts := r.1.store.debts } := by
  induction is generalizing w totals r with
  | nil =>
      obtain rfl := pure_eq_ok.mp h
      rfl
  | cons i rest ih =>
      simp only [claimStreams, bind_eq_ok, pure_eq_ok] at h
      obtain ⟨⟨w₁, payout⟩, h₁, total, -, r₂, h₂, rfl⟩ := h
      obtain ⟨-, -, -, hstore⟩ := claimStream_ok h₁
      have hrest := ih h₂
      rw [hstore] at hrest
      exact hrest

theorem claimRewards_same {w : RewardWorld} {vault : Address} {streamIndices : List ℕ}
    {convertTo : Option Address} {r : RewardWorld × ClaimReport}
    (h : claimRewards e w user vault streamIndices convertTo = .ok r) :
    SameSchedule w.store r.1.store := by
  simp only [claimRewards, bind_eq_ok, pure_eq_ok] at h
  obtain ⟨-, -, -, -, treasury, -, swapRouter, -, r₁, hc, rfl⟩ := h
  rw [claimStreams_writes hc]
  exact ⟨rfl, rfl, rfl, rfl⟩

theorem executeAutoCompound_same {w : RewardWorld} {vault : Address} {streamIndices : List ℕ}
    {r : RewardWorld × SortedMap Address ℤ × List ClaimPayout}
    (h : executeAutoCompound e w user vault streamIndices = .ok r) :
    SameSchedule w.store r.1.store := by
  simp only [executeAutoCompound, ite_eq_ok, bind_eq_ok, pure_eq_ok] at h
  obtain ⟨-, -, split, -, ⟨-, rfl⟩ | ⟨-, r₁, hclaim, rfl⟩⟩ := h
  · exact .refl _
  · exact claimRewards_same hclaim

/-- The rounds of `update_rewards` write debts and accumulators only. -/
theorem updateStreams_writes {userShares totalShares : ℤ} {decimals : ℕ}
    {streams : List RewardStream} {k : ℕ} {s : RewardStore} {pending : SortedMap ℕ ℤ}
    {r : RewardStore × List RewardStream × SortedMap ℕ ℤ}
    (h : updateStreams e user userShares totalShares decimals k streams s pending = .ok r) :
    r.1 = { s with debts := r.1.debts, accumulated := r.1.accumulated } := by
  induction streams generalizing k s pending r with
  | nil =>
      obtain rfl := pure_eq_ok.mp h
      rfl
  | cons stream rest ih =>
      simp only [updateStreams, ite_eq_ok, bind_eq_ok, pure_eq_ok] at h
      obtain ⟨-, ⟨s₁, stream₁⟩, h₁, ⟨s₂, amount⟩, h₂, r₃, h₃, rfl⟩ | ⟨-, r₃, h₃, rfl⟩ := h
      · have hs₁ : s₁ = { s with accumulated := s₁.accumulated } := by
          simp only [accrueStream, bind_eq_ok, ite_eq_ok, pure_eq_ok, Prod.mk.injEq] at h₁
          obtain ⟨_, -, ⟨-, _, -, _, -, _, -, _, -, _, -, _, -, rfl, -⟩ | ⟨-, rfl, -⟩⟩ := h₁
          · rfl
          · rfl
        obtain rfl := accrueUser_ok h₂
        have hrest := ih h₃
        rw [hs₁] at hrest
        exact hrest
      · have hrest := ih h₃
        exact hrest

/-- The time up to an update of an active stream does not run backwards. -/
theorem updateStreams_elapsed {userShares totalShares : ℤ} {decimals : ℕ}
    {streams : List RewardStream} {k : ℕ} {s : RewardStore} {pending : SortedMap ℕ ℤ}
    {r : RewardStore × List RewardStream × SortedMap ℕ ℤ}
    (h : updateStreams e user userShares totalShares decimals k streams s pending = .ok r) :
    ∀ stream ∈ streams, stream.isActive = true → stream.lastUpdate ≤ e.timestamp := by
  induction streams generalizing k s pending r with
  | nil => simp
  | cons stream rest ih =>
      simp only [updateStreams, ite_eq_ok, bind_eq_ok, pure_eq_ok] at h
      rw [List.forall_mem_cons]
      obtain ⟨-, ⟨s₁, stream₁⟩, h₁, _, -, r₃, h₃, -⟩ | ⟨hinactive, r₃, h₃, -⟩ := h
      · refine ⟨fun _ => ?_, ih h₃⟩
        simp only [accrueStream, bind_eq_ok, checkedU_eq_ok] at h₁
        obtain ⟨elapsed, ⟨hfits, -⟩, -⟩ := h₁
        have hnonneg := hfits.1
        omega
      · exact ⟨fun hactive => absurd hactive hinactive, ih h₃⟩

end frames

end YieldEngine.Rewards
