import YieldEngine.RewardSchedule

/-! # Accrual and the schedule

`update_rewards` adds to a stream's total what it has emitted since its last update.  A change
of the rate and a deactivation move the last update to the current time without adding
anything: what the stream has emitted in between is never counted (`skipped`).

In every run the total of a stream plus what was skipped is what its schedule amounts to at
the last update (`Emits`).  Right after an `update_rewards` call the total is the emission of
the schedule exactly when the skipped amounts add up to zero, whatever other `update_rewards`
calls there were (`distributed_iff`). -/

namespace YieldEngine.Rewards

open CheckedArith

/-! ### What is skipped -/

/-- The rate at which the stream emits. -/
def EmissionPart.inForce (part : EmissionPart) : ℤ := if part.active then part.rate else 0

/-- The part of stream `i`, if it exists. -/
def RewardStore.part (s : RewardStore) (i : ℕ) : Option EmissionPart :=
  (s.getStreams.map emissionPart)[i]?

/-- What stream `i` has emitted since its last update. -/
def RewardStore.unaccrued (s : RewardStore) (i now : ℕ) : ℤ :=
  ((s.part i).map fun part => part.inForce * ((now : ℤ) - part.lastUpdate)).getD 0

/-- What the call skips of the emission of stream `i`. -/
def skipped (i : ℕ) (w : RewardWorld) : RewardEvent → ℤ
  | .call e (.updateRewardRate _ j _) => if j = i then w.store.unaccrued i e.timestamp else 0
  | .call e (.deactivateStream _ j) => if j = i then w.store.unaccrued i e.timestamp else 0
  | _ => 0

/-- What the returning calls of a run skip of the emission of stream `i`. -/
def skippedTotal (i : ℕ) (w : RewardWorld) (events : List RewardEvent) : ℤ :=
  (Transact.ghostLog rewardStep (fun w event => [skipped i w event]) w events).sum

/-! ### Following the schedule -/

/-- The stream has distributed what its rates amount to at its last update, less `lost`. -/
structure Emits (part : EmissionPart) (p : StreamSchedule) (lost : ℤ) : Prop where
  active : p.active = part.active
  rates : ∃ since older, p.rates = (since, part.inForce) :: older
  law : part.distributed + lost = emittedBy p.rates part.lastUpdate

/-- The distributor follows the schedule, and stream `i` has lost `lost`. -/
structure Follows (i : ℕ) (s : RewardStore) (p : Schedule) (lost : ℤ) : Prop where
  admin : s.admin = some p.admin
  paused : s.isPaused = p.paused
  vaults : ∀ vault info, s.vaultInfos.get vault = some info → info.totalShares = 1
  length : p.streams.length = s.getStreams.length
  unborn : s.getStreams.length ≤ i → lost = 0
  emits : ∀ part q, s.part i = some part → p.streams[i]? = some q → Emits part q lost

section emits
variable {part : EmissionPart} {q : StreamSchedule} {lost : ℤ}

/-- What is emitted up to `now` is what is distributed, lost and not yet accrued. -/
theorem Emits.law_at (h : Emits part q lost) (now : ℕ) :
    part.distributed + lost + part.inForce * ((now : ℤ) - part.lastUpdate) =
      emittedBy q.rates now := by
  obtain ⟨since, older, hrates⟩ := h.rates
  have hlaw := h.law
  rw [hrates] at hlaw ⊢
  rw [emittedBy_add since part.inForce older part.lastUpdate now, hlaw]

/-- A change of the rate loses what was not accrued. -/
theorem Emits.changeRate (h : Emits part q lost) (now : ℕ) (rate : ℤ) :
    Emits { part with rate := rate, lastUpdate := now } (q.changeRate now rate)
      (lost + part.inForce * ((now : ℤ) - part.lastUpdate)) := by
  have hlaw := h.law_at now
  unfold StreamSchedule.changeRate
  cases ha : q.active with
  | true =>
      have hactive : part.active = true := h.active.symm.trans ha
      rw [if_pos rfl]
      refine ⟨hactive.symm, ⟨now, q.rates, ?_⟩, ?_⟩
      · simp [EmissionPart.inForce, hactive]
      · rw [emittedBy_change, ← hlaw, add_assoc]
  | false =>
      have hinactive : part.active = false := h.active.symm.trans ha
      obtain ⟨since, older, hrates⟩ := h.rates
      rw [if_neg (by decide)]
      refine ⟨h.active, ⟨since, older, ?_⟩, ?_⟩
      · rw [hrates]
        simp [EmissionPart.inForce, hinactive]
      · rw [← hlaw, add_assoc]

/-- So does a deactivation. -/
theorem Emits.deactivate (h : Emits part q lost) (now : ℕ) :
    Emits { part with lastUpdate := now, active := false } (q.deactivate now)
      (lost + part.inForce * ((now : ℤ) - part.lastUpdate)) := by
  have hlaw := h.law_at now
  unfold StreamSchedule.deactivate
  cases ha : q.active with
  | true =>
      rw [if_pos rfl]
      refine ⟨rfl, ⟨now, q.rates, rfl⟩, ?_⟩
      rw [emittedBy_change, ← hlaw, add_assoc]
  | false =>
      have hinactive : part.active = false := h.active.symm.trans ha
      obtain ⟨since, older, hrates⟩ := h.rates
      rw [if_neg (by decide)]
      refine ⟨ha, ⟨since, older, ?_⟩, ?_⟩
      · rw [hrates]
        simp [EmissionPart.inForce, hinactive]
      · rw [← hlaw, add_assoc]

/-- An accrual counts what the stream has emitted since its last update. -/
theorem Emits.accrue (h : Emits part q lost) (now : ℕ) (hactive : part.active = true) :
    Emits { part with
        distributed := part.distributed + part.rate * ((now : ℤ) - part.lastUpdate)
        lastUpdate := now } q lost := by
  have hlaw := h.law_at now
  have hforce : part.inForce = part.rate := by simp [EmissionPart.inForce, hactive]
  obtain ⟨since, older, hrates⟩ := h.rates
  refine ⟨h.active, ⟨since, older, hrates⟩, ?_⟩
  rw [← hlaw, hforce]
  ring

end emits

/-! ### One event -/

section step
variable {i : ℕ} {s s' : RewardStore} {p : Schedule} {lost : ℤ}

/-- Whatever leaves schedule and streams alone. -/
theorem Follows.frame (h : Follows i s p lost) (hs : SameSchedule s s') : Follows i s' p lost := by
  have hlength : s'.getStreams.length = s.getStreams.length := by
    simpa using congrArg List.length hs.streams
  refine ⟨hs.admin.trans h.admin, hs.paused.trans h.paused, ?_, h.length.trans hlength.symm, ?_, ?_⟩
  · rw [hs.vaultInfos]
    exact h.vaults
  · rw [hlength]
    exact h.unborn
  · rw [RewardStore.part, hs.streams]
    exact h.emits

theorem Follows.requireAdmin (h : Follows i s p lost) (caller : Address) :
    s.requireAdmin caller = require (caller = p.admin) (.contract .unauthorized) := by
  rw [RewardStore.requireAdmin, RewardStore.getAdmin, h.admin]
  rfl

theorem Follows.add (h : Follows i s p lost) {stream : RewardStream} {now : ℕ} {rate : ℤ}
    (hpart : emissionPart stream = ⟨rate, 0, now, true⟩) :
    Follows i { s with streams := some (s.getStreams ++ [stream]) }
      { p with streams := p.streams ++ [⟨true, [(now, rate)]⟩] } lost := by
  refine ⟨h.admin, h.paused, h.vaults, ?_, fun hi => ?_, fun part q hs hq => ?_⟩
  · show (p.streams ++ [_]).length = (s.getStreams ++ [_]).length
    rw [List.length_append, List.length_append, h.length]
    rfl
  · change (s.getStreams ++ [stream]).length ≤ i at hi
    rw [List.length_append] at hi
    exact h.unborn (by omega)
  · change ((s.getStreams ++ [stream]).map emissionPart)[i]? = some part at hs
    change (p.streams ++ [_])[i]? = some q at hq
    rw [List.map_append, List.getElem?_append, List.length_map] at hs
    rw [List.getElem?_append, h.length] at hq
    split_ifs at hs hq with hi
    · exact h.emits part q hs hq
    · have hzero : i - s.getStreams.length = 0 := by
        by_contra hne
        rw [List.getElem?_eq_none (by simp; omega)] at hq
        cases hq
      rw [hzero] at hs hq
      obtain rfl : emissionPart stream = part := by simpa using hs
      obtain rfl := Option.some.inj hq
      rw [hpart, h.unborn (not_lt.mp hi)]
      exact ⟨rfl, ⟨now, [], rfl⟩, by simp [emittedBy]⟩

/-- A write of one stream, with the change of its schedule. -/
theorem Follows.write (h : Follows i s p lost) {j : ℕ} {stream stream' : RewardStream}
    (hj : s.getStreams[j]? = some stream) {change : StreamSchedule → StreamSchedule} {more : ℤ}
    (hemits : ∀ q, Emits (emissionPart stream) q lost →
      Emits (emissionPart stream') (change q) (lost + more)) :
    Follows i { s with streams := some (s.getStreams.set j stream') }
      { p with streams := p.streams.modify j change } (lost + if j = i then more else 0) := by
  have hlt : j < s.getStreams.length := (List.getElem?_eq_some_iff.mp hj).1
  refine ⟨h.admin, h.paused, h.vaults, ?_, fun hi => ?_, fun part q hs hq => ?_⟩
  · show (p.streams.modify j change).length = (s.getStreams.set j stream').length
    rw [List.length_modify, List.length_set, h.length]
  · change (s.getStreams.set j stream').length ≤ i at hi
    rw [List.length_set] at hi
    rw [if_neg (by omega), add_zero, h.unborn hi]
  · change ((s.getStreams.set j stream').map emissionPart)[i]? = some part at hs
    change (p.streams.modify j change)[i]? = some q at hq
    rw [List.map_set] at hs
    by_cases hji : j = i
    · subst hji
      rw [List.getElem?_set_self (by simpa using hlt)] at hs
      rw [List.getElem?_modify_eq] at hq
      obtain ⟨q₀, hq₀, rfl⟩ := Option.map_eq_some_iff.mp hq
      obtain rfl := Option.some.inj hs
      rw [if_pos rfl]
      exact hemits q₀ (h.emits _ q₀ (by rw [RewardStore.part, List.getElem?_map, hj]; rfl) hq₀)
    · rw [List.getElem?_set_ne hji] at hs
      rw [List.getElem?_modify_ne change p.streams hji] at hq
      rw [if_neg hji, add_zero]
      exact h.emits part q hs hq

/-- An update divides by one share: nothing ever sets the total of a vault. -/
theorem Follows.refreshed (h : Follows i s p lost) (vault : Address) (decimals : ℕ) :
    (refreshedVaultInfo s vault decimals).totalShares = 1 := by
  unfold refreshedVaultInfo RewardStore.getVaultInfo
  cases hget : s.vaultInfos.get vault with
  | none => rfl
  | some info =>
      have hone := h.vaults vault info hget
      simp only [Option.getD_some]
      rw [if_neg (by omega), hone]

/-- The part of an active stream once the time up to `now` has been accrued. -/
theorem emissionPart_accrued {stream : RewardStream} {now : ℕ} (hle : stream.lastUpdate ≤ now) :
    emissionPart (accruedStream now 1 stream) =
      { emissionPart stream with
        distributed := stream.totalDistributed +
          stream.ratePerSecond * ((now : ℤ) - stream.lastUpdate)
        lastUpdate := now } := by
  unfold accruedStream
  split_ifs with helapsed
  · rfl
  · have hnow : stream.lastUpdate = now := by omega
    simp [emissionPart, hnow]

/-- A stream brought up to date follows its schedule up to the ledger time; one that is not
active emits nothing. -/
theorem Follows.accrued (h : Follows i s p lost) {now : ℕ}
    (helapsed : ∀ stream ∈ s.getStreams, stream.isActive = true → stream.lastUpdate ≤ now)
    {part : EmissionPart} {q : StreamSchedule}
    (hpart : (s.getStreams.map fun stream => if stream.isActive then
      accruedStream now 1 stream else stream)[i]?.map emissionPart = some part)
    (hq : p.streams[i]? = some q) :
    Emits part q lost ∧ part.distributed + lost = emittedBy q.rates now := by
  rw [List.getElem?_map, Option.map_map, Option.map_eq_some_iff] at hpart
  obtain ⟨stream, hi, rfl⟩ := hpart
  have hemits := h.emits (emissionPart stream) q
    (by rw [RewardStore.part, List.getElem?_map, hi]; rfl) hq
  simp only [Function.comp_apply]
  split_ifs with hactive
  · rw [emissionPart_accrued (helapsed stream (List.mem_of_getElem? hi) hactive)]
    have hnow := hemits.accrue now hactive
    exact ⟨hnow, hnow.law⟩
  · have hlaw := hemits.law_at now
    have hzero : (emissionPart stream).inForce = 0 := if_neg hactive
    rw [hzero, zero_mul, add_zero] at hlaw
    exact ⟨hemits, hlaw⟩

/-- `update_rewards` accrues the stream up to the ledger time and loses nothing. -/
theorem Follows.update (h : Follows i s p lost) {e : Env} {user vault : Address} {shares : ℤ}
    {decimals : ℕ} {pending : SortedMap ℕ ℤ}
    (hupdate : updateRewards e s user vault shares decimals = .ok (s', pending)) :
    Follows i s' p lost ∧ ∀ part q, s'.part i = some part → p.streams[i]? = some q →
      part.distributed + lost = emittedBy q.rates e.timestamp := by
  have hone := h.refreshed vault decimals
  have hstreams := (updateRewards_streams hupdate).1
  rw [hone] at hstreams
  simp only [updateRewards, bind_eq_ok, pure_eq_ok, Prod.mk.injEq] at hupdate
  obtain ⟨-, -, r, hr, rfl, rfl⟩ := hupdate
  have hwrites := updateStreams_writes hr
  have hlength := congrArg List.length hstreams
  rw [List.length_map] at hlength
  have haccrued : ∀ part q, ({ r.1 with streams := some r.2.1 } : RewardStore).part i = some part →
      p.streams[i]? = some q →
        Emits part q lost ∧ part.distributed + lost = emittedBy q.rates e.timestamp := by
    intro part q hpart hq
    rw [RewardStore.part, hstreams, List.getElem?_map] at hpart
    exact h.accrued (updateStreams_elapsed hr) hpart hq
  refine ⟨⟨?_, ?_, ?_, h.length.trans hlength.symm, fun hi => h.unborn (hlength ▸ hi), ?_⟩, ?_⟩
  · show r.1.admin = _
    rw [hwrites]
    exact h.admin
  · show r.1.paused.getD false = _
    rw [hwrites]
    exact h.paused
  · intro v info hget
    change r.1.vaultInfos.get v = some info at hget
    rw [hwrites] at hget
    change (s.vaultInfos.set vault (refreshedVaultInfo s vault decimals)).get v = some info at hget
    rw [SortedMap.get_set] at hget
    split_ifs at hget
    · obtain rfl := Option.some.inj hget
      exact hone
    · exact h.vaults v info hget
  · exact fun part q hs hq => (haccrued part q hs hq).1
  · exact fun part q hs hq => (haccrued part q hs hq).2

theorem setClaimDeadline_same {admin : Address} {j deadline : ℕ}
    (h : setClaimDeadline s admin j deadline = .ok s') : SameSchedule s s' := by
  simp only [setClaimDeadline, writeStream, bind_eq_ok, pure_eq_ok, orRaise_eq_ok] at h
  obtain ⟨-, -, stream, hj, rfl⟩ := h
  refine ⟨rfl, rfl, rfl, ?_⟩
  show (s.getStreams.set j _).map emissionPart = _
  have hpart : (s.getStreams.map emissionPart)[j]? =
      some (emissionPart { stream with claimDeadline := deadline }) := by
    rw [List.getElem?_map, hj]
    rfl
  obtain ⟨hlt, hget⟩ := List.getElem?_eq_some_iff.mp hpart
  rw [List.map_set, ← hget, List.set_getElem_self]

/-- A call that the schedule does not depend on and that accrues nothing. -/
def RewardAction.IsPlain : RewardAction → Prop
  | .addRewardStream .. | .updateRewardRate .. | .deactivateStream .. | .pause _ | .unpause _
  | .updateRewards .. => False
  | _ => True

theorem scheduleStep_plain {action : RewardAction} (h : action.IsPlain) (p : Schedule) (e : Env) :
    scheduleStep p (.call e action) = p := by
  cases action with
  | addRewardStream | updateRewardRate | deactivateStream | pause | unpause => cases h
  | _ => rfl

theorem skipped_plain {action : RewardAction} (h : action.IsPlain) (i : ℕ) (w : RewardWorld)
    (e : Env) : skipped i w (.call e action) = 0 := by
  cases action with
  | updateRewardRate | deactivateStream => cases h
  | _ => rfl

theorem SameSchedule.of_settings (h : SettingsOnly s s') : SameSchedule s s' where
  admin := h.admin
  paused := h.paused
  vaultInfos := h.vaultInfos
  streams := by
    rw [RewardStore.getStreams, h.streams]
    rfl

theorem exec_same {e : Env} {w : RewardWorld} {action : RewardAction}
    {r : RewardWorld × List ClaimPayout} (h : exec w (e, action) = .ok r)
    (hplain : action.IsPlain) : SameSchedule w.store r.1.store := by
  cases action with
  | addRewardStream | updateRewardRate | deactivateStream | pause | unpause => cases hplain
  | updateRewards => cases hplain
  | claimRewards user vault is convertTo =>
      obtain ⟨r₁, hc, rfl⟩ := map_eq_ok.mp h
      exact claimRewards_same hc
  | executeAutoCompound user vault is =>
      obtain ⟨r₁, hc, rfl⟩ := map_eq_ok.mp h
      exact executeAutoCompound_same hc
  | setClaimDeadline admin j deadline =>
      obtain ⟨w₁, hw, rfl⟩ := map_eq_ok.mp h
      obtain ⟨s₁, hs, rfl⟩ := map_eq_ok.mp hw
      exact setClaimDeadline_same hs
  | _ =>
      -- what is left writes settings only
      obtain ⟨w₁, hw, rfl⟩ := map_eq_ok.mp h
      exact .of_settings (execAdmin_setting hw trivial)

/-- A write of one stream as the admin makes it. -/
theorem writeStream_eq_ok {admin : Address} {j : ℕ} {write : RewardStream → RewardStream} :
    writeStream s admin j write = .ok s' ↔ s.requireAdmin admin = .ok () ∧
      ∃ stream, s.getStreams[j]? = some stream ∧
        { s with streams := some (s.getStreams.set j (write stream)) } = s' := by
  simp only [writeStream, bind_eq_ok, pure_eq_ok, orRaise_eq_ok]
  constructor
  · rintro ⟨_, h⟩
    exact h
  · intro h
    exact ⟨_, h⟩

theorem unaccrued_eq {stream : RewardStream} (hi : s.getStreams[i]? = some stream) (now : ℕ) :
    s.unaccrued i now = (emissionPart stream).inForce * ((now : ℤ) - stream.lastUpdate) := by
  rw [RewardStore.unaccrued, RewardStore.part, List.getElem?_map, hi]
  rfl

/-- The admin's write of one stream loses what the stream has not accrued. -/
theorem Follows.writeStream (h : Follows i s p lost) {admin : Address} {j now : ℕ}
    {write : RewardStream → RewardStream} {change : StreamSchedule → StreamSchedule}
    (hs : Rewards.writeStream s admin j write = .ok s')
    (hemits : ∀ stream q, Emits (emissionPart stream) q lost →
      Emits (emissionPart (write stream)) (change q)
        (lost + (emissionPart stream).inForce * ((now : ℤ) - stream.lastUpdate))) :
    Follows i s' (if admin = p.admin then { p with streams := p.streams.modify j change } else p)
      (lost + if j = i then s.unaccrued i now else 0) := by
  obtain ⟨hadmin, stream, hj, rfl⟩ := writeStream_eq_ok.mp hs
  rw [h.requireAdmin, require_eq_ok] at hadmin
  have hwrite := h.write hj (hemits stream)
  have hmore : (if j = i then s.unaccrued i now else 0) =
      if j = i then (emissionPart stream).inForce * ((now : ℤ) - stream.lastUpdate) else 0 := by
    split_ifs with hji
    · subst hji
      exact unaccrued_eq hj now
    · rfl
  rw [if_pos hadmin, hmore]
  exact hwrite

/-- The admin's write of the pause flag. -/
theorem Follows.setPaused (h : Follows i s p lost) {paused : Bool} {admin : Address}
    (hs : Rewards.setPaused paused s admin = .ok s') :
    Follows i s' (if admin = p.admin then { p with paused := paused } else p) lost := by
  simp only [Rewards.setPaused, h.requireAdmin, bind_eq_ok, pure_eq_ok, require_eq_ok,
    exists_const] at hs
  obtain ⟨hadmin, rfl⟩ := hs
  rw [if_pos hadmin]
  exact ⟨h.admin, rfl, h.vaults, h.length, h.unborn, h.emits⟩

/-- A call that writes the storage only returns exactly when the write does. -/
theorem rewardStep_onStore {w w' : RewardWorld} {event : RewardEvent}
    {call : RewardCall RewardStore}
    (hcall : rewardStep w event = Prod.fst <$> ((fun w => (w, ([] : List ClaimPayout))) <$>
      ((fun s => { w with store := s }) <$> call))) :
    rewardStep w event = .ok w' ↔ ∃ s', call = .ok s' ∧ { w with store := s' } = w' := by
  rw [hcall]
  simp only [map_eq_ok, exists_exists_and_eq_and]

/-- After a returning call the distributor follows the schedule, less what the call skips. -/
theorem Follows.returns {w w' : RewardWorld} {event : RewardEvent}
    (h : Follows i w.store p lost) (hstep : rewardStep w event = .ok w') :
    Follows i w'.store (scheduleStep p event) (lost + skipped i w event) := by
  cases event with
  | tokens ledger =>
      obtain rfl := pure_eq_ok.mp hstep
      show Follows i w.store p (lost + 0)
      rw [add_zero]
      exact h
  | call e action =>
      by_cases hplain : action.IsPlain
      · obtain ⟨r, hexec, rfl⟩ := map_eq_ok.mp hstep
        rw [scheduleStep_plain hplain, skipped_plain hplain, add_zero]
        exact h.frame (exec_same hexec hplain)
      · cases action with
        | updateRewards user vault shares decimals =>
            obtain ⟨r, hexec, rfl⟩ := map_eq_ok.mp hstep
            obtain ⟨⟨s₁, pending⟩, hu, rfl⟩ := map_eq_ok.mp hexec
            show Follows i s₁ p (lost + 0)
            rw [add_zero]
            exact (h.update hu).1
        | addRewardStream admin token rate decimals deadline =>
            obtain ⟨s₁, hs, rfl⟩ := (rewardStep_onStore rfl).mp hstep
            obtain ⟨r, hr, rfl⟩ := map_eq_ok.mp hs
            simp only [addRewardStream, RewardStore.requireNotPaused, h.requireAdmin, bind_eq_ok,
              pure_eq_ok, require_eq_ok, exists_const] at hr
            obtain ⟨hadmin, hrunning, hroom, rfl⟩ := hr
            show Follows i _ (if _ then _ else _) (lost + 0)
            rw [add_zero, if_pos ⟨hadmin, h.paused.symm.trans hrunning, h.length ▸ hroom⟩]
            exact h.add rfl
        | updateRewardRate admin j rate =>
            obtain ⟨s₁, hs, rfl⟩ := (rewardStep_onStore rfl).mp hstep
            exact h.writeStream hs fun stream q hemits => hemits.changeRate e.timestamp rate
        | deactivateStream admin j =>
            obtain ⟨s₁, hs, rfl⟩ := (rewardStep_onStore rfl).mp hstep
            exact h.writeStream hs fun stream q hemits => hemits.deactivate e.timestamp
        | pause admin | unpause admin =>
            obtain ⟨s₁, hs, rfl⟩ := (rewardStep_onStore rfl).mp hstep
            show Follows i s₁ _ (lost + 0)
            rw [add_zero]
            exact h.setPaused hs
        | _ => exact absurd trivial hplain

/-- A write of a stream that does not exist is not on the schedule, nor is one by a stranger. -/
theorem Follows.writeStream_fails (h : Follows i s p lost) {admin : Address} {j : ℕ}
    {write : RewardStream → RewardStream} {change : StreamSchedule → StreamSchedule}
    (hs : ∀ s', Rewards.writeStream s admin j write ≠ .ok s') :
    (if admin = p.admin then { p with streams := p.streams.modify j change } else p) = p := by
  split_ifs with hadmin
  · have hmissing : s.getStreams.length ≤ j := by
      by_contra hlt
      refine hs _ (writeStream_eq_ok.mpr ⟨?_, _, List.getElem?_eq_getElem (not_le.mp hlt), rfl⟩)
      rw [h.requireAdmin]
      exact require_eq_ok.mpr hadmin
    rw [List.modify_eq_self (h.length ▸ hmissing)]
  · rfl

theorem Follows.setPaused_fails (h : Follows i s p lost) {paused : Bool} {admin : Address}
    (hs : ∀ s', Rewards.setPaused paused s admin ≠ .ok s') :
    (if admin = p.admin then { p with paused := paused } else p) = p := by
  refine if_neg fun hadmin => hs { s with paused := some paused } ?_
  simp only [Rewards.setPaused, h.requireAdmin, bind_eq_ok, pure_eq_ok, require_eq_ok,
    exists_const, and_true]
  exact hadmin

/-- A call that fails is not on the schedule. -/
theorem Follows.fails {w : RewardWorld} {event : RewardEvent}
    (h : Follows i w.store p lost) (hstep : ∀ w', rewardStep w event ≠ .ok w') :
    scheduleStep p event = p := by
  cases event with
  | tokens ledger => rfl
  | call e action =>
      by_cases hplain : action.IsPlain
      · exact scheduleStep_plain hplain p e
      · cases action with
        | updateRewards => rfl
        | addRewardStream admin token rate decimals deadline =>
            refine if_neg ?_
            rintro ⟨hauth, hrunning, hroom⟩
            have hcall : addRewardStream e w.store admin token rate decimals deadline =
                .ok ({ w.store with streams := some (w.store.getStreams ++
                  [⟨token, rate, 0, e.timestamp, true, decimals, deadline⟩]) },
                  w.store.getStreams.length) := by
              simp only [addRewardStream, RewardStore.requireNotPaused, h.requireAdmin, bind_eq_ok,
                pure_eq_ok, require_eq_ok, exists_const, and_true]
              exact ⟨hauth, h.paused.trans hrunning, h.length ▸ hroom⟩
            exact hstep _ ((rewardStep_onStore rfl).mpr ⟨_, map_eq_ok.mpr ⟨_, hcall, rfl⟩, rfl⟩)
        | updateRewardRate admin j rate =>
            exact h.writeStream_fails fun s' hs =>
              hstep _ ((rewardStep_onStore rfl).mpr ⟨s', hs, rfl⟩)
        | deactivateStream admin j =>
            exact h.writeStream_fails fun s' hs =>
              hstep _ ((rewardStep_onStore rfl).mpr ⟨s', hs, rfl⟩)
        | pause admin | unpause admin =>
            exact h.setPaused_fails fun s' hs =>
              hstep _ ((rewardStep_onStore rfl).mpr ⟨s', hs, rfl⟩)
        | _ => exact absurd trivial hplain

/-- After any call the distributor follows the schedule. -/
theorem Follows.commit {w : RewardWorld} (h : Follows i w.store p lost) (event : RewardEvent) :
    Follows i (Transact.commit rewardStep w event).store (scheduleStep p event)
      (lost + skippedTotal i w [event]) := by
  cases hstep : rewardStep w event with
  | ok w' =>
      rw [Transact.commit_of_ok hstep]
      have htotal : skippedTotal i w [event] = skipped i w event := by
        simp [skippedTotal, Transact.ghostLog, hstep]
      rw [htotal]
      exact h.returns hstep
  | error fault =>
      rw [Transact.commit_of_error hstep]
      have htotal : skippedTotal i w [event] = 0 := by
        simp [skippedTotal, Transact.ghostLog, hstep]
      rw [htotal, add_zero, h.fails (by simp [hstep])]
      exact h

end step

/-! ### Runs -/

theorem skippedTotal_cons (i : ℕ) (w : RewardWorld) (event : RewardEvent)
    (rest : List RewardEvent) :
    skippedTotal i w (event :: rest) =
      skippedTotal i w [event] + skippedTotal i (Transact.commit rewardStep w event) rest := by
  unfold skippedTotal
  cases hstep : rewardStep w event with
  | ok w' =>
      rw [Transact.commit_of_ok hstep]
      simp [Transact.ghostLog, hstep]
  | error fault =>
      rw [Transact.commit_of_error hstep]
      simp [Transact.ghostLog, hstep]

theorem Follows.run {i : ℕ} (events : List RewardEvent) {w : RewardWorld} {p : Schedule} {lost : ℤ}
    (h : Follows i w.store p lost) :
    Follows i (Transact.run rewardStep w events).store (events.foldl scheduleStep p)
      (lost + skippedTotal i w events) := by
  induction events generalizing w p lost with
  | nil =>
      rw [show skippedTotal i w [] = 0 from rfl, add_zero]
      exact h
  | cons event rest ih =>
      rw [Transact.run_cons, List.foldl_cons, skippedTotal_cons, ← add_assoc]
      exact ih (h.commit event)

section runs
variable (admin treasury swapRouter : Address) (ledger : Ledger)

/-- The distributor after one `initialize` and a run. -/
def rewardRun (events : List RewardEvent) : RewardWorld :=
  Transact.run rewardStep ⟨initialRewards admin treasury swapRouter, ledger⟩ events

/-- What the run skips of the emission of stream `i`. -/
def rewardRunSkips (events : List RewardEvent) (i : ℕ) : ℤ :=
  skippedTotal i ⟨initialRewards admin treasury swapRouter, ledger⟩ events

/-- Every run follows its schedule. -/
theorem follows_run (events : List RewardEvent) (i : ℕ) :
    Follows i (rewardRun admin treasury swapRouter ledger events).store (scheduleOf admin events)
      (rewardRunSkips admin treasury swapRouter ledger events i) := by
  have hinitial : Follows i (initialRewards admin treasury swapRouter) ⟨admin, false, []⟩ 0 := by
    refine ⟨rfl, rfl, fun vault info hget => ?_, rfl, fun _ => rfl, fun part q hs => ?_⟩
    · cases hget
    · cases hs
  have hrun := Follows.run events (w := ⟨initialRewards admin treasury swapRouter, ledger⟩) hinitial
  rw [zero_add] at hrun
  exact hrun

/-- Right after an `update_rewards` call, a stream has distributed the emission of its schedule
exactly when the calls of the run skipped nothing of it in sum; and the schedule is that of
the run without its `update_rewards` calls. -/
theorem distributed_iff (events : List RewardEvent) {e : Env} {user vault : Address} {shares : ℤ}
    {decimals : ℕ} {s' : RewardStore} {pending : SortedMap ℕ ℤ}
    (hupdate : updateRewards e (rewardRun admin treasury swapRouter ledger events).store user vault
      shares decimals = .ok (s', pending)) (i : ℕ) :
    (s'.distributed i = emittedBy ((scheduleOf admin events).ratesOf i) e.timestamp ↔
        rewardRunSkips admin treasury swapRouter ledger events i = 0) ∧
      scheduleOf admin events = scheduleOf admin (events.filter fun event => !event.isUpdate) := by
  refine ⟨?_, schedule_filter admin events⟩
  have hfollows := follows_run admin treasury swapRouter ledger events i
  obtain ⟨hafter, hlaw⟩ := hfollows.update hupdate
  cases hi : s'.getStreams[i]? with
  | none =>
      have hlength := List.getElem?_eq_none_iff.mp hi
      have hnone : (scheduleOf admin events).streams[i]? = none :=
        List.getElem?_eq_none (hafter.length ▸ hlength)
      refine iff_of_true ?_ (hafter.unborn hlength)
      rw [RewardStore.distributed, hi, Schedule.ratesOf, hnone]
      rfl
  | some stream =>
      obtain ⟨hlt, -⟩ := List.getElem?_eq_some_iff.mp hi
      have hq := List.getElem?_eq_getElem (hafter.length.symm ▸ hlt)
      have hsum := hlaw (emissionPart stream) _
        (by rw [RewardStore.part, List.getElem?_map, hi]; rfl) hq
      have hdistributed : s'.distributed i = (emissionPart stream).distributed := by
        rw [RewardStore.distributed, hi]
        rfl
      rw [hdistributed, Schedule.ratesOf, hq]
      simp only [Option.map_some, Option.getD_some]
      constructor <;> intro h <;> omega

end runs

/-- A stream at one unit per second from time 0 whose rate is doubled at time 30, with the
events `before` in between. -/
def doubledAtThirty (before : List RewardEvent) : List RewardEvent :=
  .call ⟨9, [7], 0⟩ (.addRewardStream 7 1 1 7 0) ::
    (before ++ [.call ⟨9, [7], 30⟩ (.updateRewardRate 7 0 2)])

/-- The rewards of user 5 are updated at `now`. -/
def poke (now : ℕ) : RewardEvent := .call ⟨9, [], now⟩ (.updateRewards 5 4 1 7)

/-- The update at time 40, after a run. -/
def pokedAtForty (events : List RewardEvent) : RewardCall (RewardStore × SortedMap ℕ ℤ) :=
  updateRewards ⟨9, [], 40⟩ (rewardRun 7 8 6 (fun _ _ => 1000) events).store 5 4 1 7

/-- An update right before the change: nothing is skipped. -/
theorem distributed_iff_poked_in_time :
    ∃ s' pending, pokedAtForty (doubledAtThirty [poke 30]) = .ok (s', pending) ∧
      s'.distributed 0 =
        emittedBy ((scheduleOf 7 (doubledAtThirty [poke 30])).ratesOf 0) 40 := by
  have hreturns : (pokedAtForty (doubledAtThirty [poke 30])).isOk = true := by decide
  obtain ⟨⟨s', pending⟩, h⟩ := returns_of_isOk hreturns
  refine ⟨s', pending, h, (distributed_iff 7 8 6 (fun _ _ => 1000) _ h 0).1.mpr ?_⟩
  decide

/-- Without that update the thirty units before the change are never distributed. -/
theorem change_skips_emission :
    ∃ s' pending, pokedAtForty (doubledAtThirty []) = .ok (s', pending) ∧
      s'.distributed 0 = 20 ∧
      emittedBy ((scheduleOf 7 (doubledAtThirty [])).ratesOf 0) 40 = 50 ∧
      scheduleOf 7 (doubledAtThirty []) = scheduleOf 7 (doubledAtThirty [poke 30]) :=
  ⟨_, _, rfl, by decide, by decide, rfl⟩

end YieldEngine.Rewards
