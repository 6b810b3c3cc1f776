import YieldEngine.RouterCalls

/-! # What a swap needs

`Accepted` lists the checks of `swap`, those of the token contracts and of the counters
included: a swap returns exactly when it is accepted (`swap_returns_iff`).  An attempt along the
best route ends in one of three ways.  It is executed when the route is accepted
(`trySwap_executes_iff`), refused when there is no route or its output is too low
(`trySwap_refused_iff`), and traps otherwise. -/

namespace YieldEngine.Router

open CheckedArith

/-! ### A swap -/

/-- The checks of a swap. -/
structure Accepted (e : Env) (s : RouterStore) (l : Ledger) (user inputToken outputToken : Address)
    (inputAmount minOutput : ℤ) (path : List Address) (recipient : Option Address)
    (output fee : ℤ) : Prop where
  input_pos : 0 < inputAmount
  min_pos : 0 < minOutput
  path_length : 2 ≤ path.length
  configured : s.treasury.isSome
  priced : calculatePathOutput s path inputAmount = .ok output
  min_le : minOutput ≤ output
  authorized : e.Authorized user
  covered : inputAmount ≤ l inputToken user
  charged : scaleBps output protocolTreasuryFeeBps = .ok fee
  net_fits : Fits 128 (output - fee)
  output_covered : output - fee ≤ pay l inputToken user e.contract inputAmount outputToken e.contract
  fee_covered : 0 < fee →
    fee ≤ pay (pay l inputToken user e.contract inputAmount) outputToken e.contract
      (recipient.getD user) (output - fee) outputToken e.contract
  id_fits : FitsU 64 (s.nextSwapId.getD 1 + 1)
  swaps_fit : FitsU 64 (s.totalSwaps.getD 0 + 1)
  volume_fits : Fits 128 (s.totalVolume.getD 0 + inputAmount)
  fees_fit : Fits 128 (s.totalFees.getD 0 + fee)

section swap
variable {e : Env} {s : RouterStore} {l : Ledger} {user inputToken outputToken : Address}
  {inputAmount minOutput : ℤ} {path : List Address} {recipient : Option Address}

/-- The swap passes its checks. -/
def CanSwap (e : Env) (s : RouterStore) (l : Ledger) (user inputToken outputToken : Address)
    (inputAmount minOutput : ℤ) (path : List Address) (recipient : Option Address) : Prop :=
  ∃ output fee, Accepted e s l user inputToken outputToken inputAmount minOutput path recipient
    output fee

/-- The fee of an output that covers a positive minimum is at most the output. -/
theorem fee_le {output fee : ℤ} (houtput : 0 ≤ output)
    (h : scaleBps output protocolTreasuryFeeBps = .ok fee) : 0 ≤ fee ∧ fee ≤ output := by
  obtain rfl := (scaleBps_value h).trans (protocolFee_eq houtput)
  omega

theorem recordSwap_returns_iff {fee : ℤ} : (∃ r, recordSwap s inputAmount fee = .ok r) ↔
    FitsU 64 (s.nextSwapId.getD 1 + 1) ∧ FitsU 64 (s.totalSwaps.getD 0 + 1) ∧
      Fits 128 (s.totalVolume.getD 0 + inputAmount) ∧ Fits 128 (s.totalFees.getD 0 + fee) := by
  simp only [recordSwap, getNextSwapId, bind_eq_ok, checkedU_eq_ok, I128.add_eq_ok, pure_eq_ok]
  constructor
  · rintro ⟨_, _, ⟨_, ⟨hid, rfl⟩, rfl⟩, _, ⟨hswaps, rfl⟩, _, ⟨hvolume, rfl⟩, _, ⟨hfees, rfl⟩, -⟩
    exact ⟨hid, hswaps, hvolume, hfees⟩
  · rintro ⟨hid, hswaps, hvolume, hfees⟩
    exact ⟨_, _, ⟨_, ⟨hid, rfl⟩, rfl⟩, _, ⟨hswaps, rfl⟩, _, ⟨hvolume, rfl⟩, _, ⟨hfees, rfl⟩, rfl⟩

/-- A returning swap is counted; the queue, the pause flag and the pools stay. -/
structure Counted (s s' : RouterStore) : Prop where
  swaps : s'.getProtocolStats.1 = s.getProtocolStats.1 + 1
  queue : s'.pendingSwap = s.pendingSwap
  admin : s'.admin = s.admin
  paused : s'.paused = s.paused
  pools : s'.pools = s.pools

theorem recordSwap_counted {fee : ℤ} {id : ℕ} {s' : RouterStore}
    (h : recordSwap s inputAmount fee = .ok (id, s')) : Counted s s' := by
  simp only [recordSwap, getNextSwapId, bind_eq_ok, checkedU_eq_ok, I128.add_eq_ok, pure_eq_ok,
    Prod.mk.injEq] at h
  obtain ⟨_, ⟨_, ⟨-, rfl⟩, rfl⟩, _, ⟨-, rfl⟩, _, ⟨-, rfl⟩, _, ⟨-, rfl⟩, rfl, rfl⟩ := h
  refine ⟨?_, rfl, rfl, rfl, rfl⟩
  simp only [RouterStore.getProtocolStats, Option.getD_some]
  omega

theorem payTreasury_returns_iff {token treasury : Address} {fee : ℤ} :
    (∃ l', payTreasury e l token treasury fee = .ok l') ↔ (0 < fee → fee ≤ l token e.contract) := by
  unfold payTreasury
  split_ifs with hfee
  · simp only [Ledger.transfer_eq_ok]
    constructor
    · rintro ⟨_, -, hcovered, -⟩ _
      exact hcovered.2
    · intro hcovered
      exact ⟨_, .inl rfl, ⟨hfee.le, hcovered hfee⟩, rfl⟩
  · exact iff_of_true ⟨l, rfl⟩ fun hpos => absurd hpos hfee

/-- Pricing the legs a second time gives the price again. -/
theorem legs_of_priced {output : ℤ} (hlength : 2 ≤ path.length) (hinput : 0 < inputAmount)
    (h : calculatePathOutput s path inputAmount = .ok output) :
    alongTokens (executePoolSwap s) path inputAmount = .ok output := by
  rw [calculatePathOutput, if_neg (by omega)] at h
  exact h

/-- A swap returns exactly when it is accepted. -/
theorem swap_returns_iff :
    (∃ r, swap e s l user inputToken outputToken inputAmount minOutput path recipient = .ok r) ↔
      CanSwap e s l user inputToken outputToken inputAmount minOutput path recipient := by
  simp only [swap, bind_eq_ok, requireOr_eq_ok, RouterStore.getTreasury, orRaise_eq_ok,
    I128.sub_eq_ok, Ledger.transfer_eq_ok, pure_eq_ok, exists_const]
  constructor
  · rintro ⟨_, hinput, hmin, hlen, treasury, htreasury, output, houtput, hle, l₁,
      ⟨hauth, hcovered, rfl⟩, fee, hfee, _, ⟨hnet, rfl⟩, _, -, l₂, ⟨-, hpaid, rfl⟩, l₃, htreasurer,
      record, hrecord, -⟩
    obtain ⟨hid, hswaps, hvolume, hfees⟩ := recordSwap_returns_iff.mp ⟨_, hrecord⟩
    exact ⟨output, fee, hinput, hmin, hlen, Option.isSome_of_eq_some htreasury, houtput, hle, hauth,
      hcovered.2, hfee, hnet, hpaid.2, payTreasury_returns_iff.mp ⟨_, htreasurer⟩, hid, hswaps,
      hvolume, hfees⟩
  · rintro ⟨output, fee, h⟩
    obtain ⟨treasury, htreasury⟩ := Option.isSome_iff_exists.mp h.configured
    have hbounds := fee_le (h.min_pos.le.trans h.min_le) h.charged
    obtain ⟨l₃, htreasurer⟩ := payTreasury_returns_iff.mpr h.fee_covered
    obtain ⟨record, hrecord⟩ := recordSwap_returns_iff.mpr
      ⟨h.id_fits, h.swaps_fit, h.volume_fits, h.fees_fit⟩
    exact ⟨_, h.input_pos, h.min_pos, h.path_length, treasury, htreasury, output, h.priced,
      h.min_le, _, ⟨h.authorized, ⟨h.input_pos.le, h.covered⟩, rfl⟩, fee, h.charged, _,
      ⟨h.net_fits, rfl⟩, output, legs_of_priced h.path_length h.input_pos h.priced, _,
      ⟨.inl rfl, ⟨sub_nonneg.mpr hbounds.2, h.output_covered⟩, rfl⟩, l₃, htreasurer, record,
      hrecord, rfl⟩

theorem swap_counted {netOutput : ℤ} {s' : RouterStore} {l' : Ledger}
    (h : swap e s l user inputToken outputToken inputAmount minOutput path recipient =
      .ok (netOutput, s', l')) : Counted s s' := by
  simp only [swap, bind_eq_ok, requireOr_eq_ok, RouterStore.getTreasury, orRaise_eq_ok,
    I128.sub_eq_ok, Ledger.transfer_eq_ok, pure_eq_ok, Prod.mk.injEq, exists_const] at h
  obtain ⟨-, -, -, _, -, _, -, -, _, -, fee, -, _, -, -, -, _, -, _, -, ⟨id, s₁⟩, hrecord, -, rfl,
    -⟩ := h
  exact recordSwap_counted hrecord

end swap

/-! ### An attempt -/

section attempt
variable {e : Env} {w : RouterWorld} {user inputToken outputToken : Address}
  {inputAmount minOutput : ℤ}

/-- `try_swap` gives up before anything moves: there is no route, or its output is too low. -/
def Refused (s : RouterStore) (inputToken outputToken : Address) (inputAmount minOutput : ℤ) :
    Prop :=
  ∃ path kind, findBestPath s inputToken outputToken inputAmount = .ok (path, kind) ∧
    (path.pools = [] ∨
      ∃ output, calculatePathOutput s path.tokens inputAmount = .ok output ∧ output < minOutput)

/-- The swap along the best route passes its checks. -/
def Executable (e : Env) (w : RouterWorld) (user inputToken outputToken : Address)
    (inputAmount minOutput : ℤ) : Prop :=
  ∃ path kind, findBestPath w.store inputToken outputToken inputAmount = .ok (path, kind) ∧
    path.pools ≠ [] ∧
    CanSwap e w.store w.ledger user inputToken outputToken inputAmount minOutput path.tokens none

theorem trySwap_refused_iff :
    (∃ err, trySwap e w user inputToken outputToken inputAmount minOutput = .ok (.error err)) ↔
      Refused w.store inputToken outputToken inputAmount minOutput := by
  simp only [trySwap, bind_eq_ok, ite_eq_ok, pure_eq_ok, reduceCtorEq, and_false, exists_false,
    or_false, Except.error.injEq]
  constructor
  · rintro ⟨err, ⟨path, kind⟩, hpath, ⟨hnone, -⟩ | ⟨-, output, houtput, hlow, -⟩⟩
    · exact ⟨path, kind, hpath, .inl hnone⟩
    · exact ⟨path, kind, hpath, .inr ⟨output, houtput, hlow⟩⟩
  · rintro ⟨path, kind, hpath, hrefused⟩
    by_cases hnone : path.pools = []
    · exact ⟨_, (path, kind), hpath, .inl ⟨hnone, rfl⟩⟩
    · obtain ⟨output, houtput, hlow⟩ := hrefused.resolve_left hnone
      exact ⟨_, (path, kind), hpath, .inr ⟨hnone, output, houtput, hlow, rfl⟩⟩

/-- What an executed attempt has done. -/
theorem trySwap_executed {r : ℤ × RouterWorld}
    (h : trySwap e w user inputToken outputToken inputAmount minOutput = .ok (.ok r)) :
    ∃ path kind, findBestPath w.store inputToken outputToken inputAmount = .ok (path, kind) ∧
      path.pools ≠ [] ∧
      swap e w.store w.ledger user inputToken outputToken inputAmount minOutput path.tokens none =
        .ok (r.1, r.2.store, r.2.ledger) := by
  simp only [trySwap, bind_eq_ok, ite_eq_ok, pure_eq_ok, reduceCtorEq, and_false, false_or,
    Except.ok.injEq] at h
  obtain ⟨⟨path, kind⟩, hpath, hpools, output, houtput, -, ⟨net, s, l⟩, hswap, rfl⟩ := h
  exact ⟨path, kind, hpath, hpools, hswap⟩

theorem trySwap_executes_iff :
    (∃ r, trySwap e w user inputToken outputToken inputAmount minOutput = .ok (.ok r)) ↔
      Executable e w user inputToken outputToken inputAmount minOutput := by
  constructor
  · rintro ⟨r, hr⟩
    obtain ⟨path, kind, hpath, hpools, hswap⟩ := trySwap_executed hr
    exact ⟨path, kind, hpath, hpools, swap_returns_iff.mp ⟨_, hswap⟩⟩
  · rintro ⟨path, kind, hpath, hpools, hcan⟩
    obtain ⟨⟨net, s, l⟩, hswap⟩ := swap_returns_iff.mpr hcan
    obtain ⟨output, fee, haccepted⟩ := hcan
    refine ⟨(net, ⟨s, l⟩), ?_⟩
    simp only [trySwap, bind_eq_ok, ite_eq_ok, pure_eq_ok]
    exact ⟨(path, kind), hpath, .inr ⟨hpools, output, haccepted.priced,
      .inr ⟨not_lt.mpr haccepted.min_le, _, hswap, rfl⟩⟩⟩

end attempt
end YieldEngine.Router
