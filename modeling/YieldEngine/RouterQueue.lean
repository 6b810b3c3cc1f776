import YieldEngine.RouterRuns

/-! # The queue of failed swaps

`retryEach` is what retrying the queue is for: every entry is attempted once, in order, each
attempt is undone on its own unless it is executed, executed entries are counted and leave the
queue, and the others stay with one retry more until they run out of retries.

`retry_failed_swaps` does that as long as every entry in its turn is executed or refused by
`try_swap` itself (`InTurn`).  An attempt that traps takes the whole call with it.  And an entry
is never queued in the first place: `swap_with_retry` ends in `Err` after it has written the
queue, and the host undoes that. -/

namespace YieldEngine.Router

open CheckedArith Transact

/-! ### Retrying each entry -/

/-- An attempt at one entry, as a transaction of its own. -/
def attemptEntry (e : Env) (w : RouterWorld) (pending : PendingSwap) : RouterCall RouterWorld := do
  let attempt ← trySwap e w pending.user pending.inputToken pending.outputToken
    pending.inputAmount pending.minOutput
  match attempt with
  | .ok (_, w) => pure w
  | .error err => raise (.contract err)

/-- An entry after one more failed attempt. -/
def PendingSwap.failedOnce (pending : PendingSwap) : PendingSwap :=
  { pending with retryCount := pending.retryCount + 1 }

/-- The entries kept, after a failed attempt at one more. -/
def keepFailed (remaining : SortedMap ℕ PendingSwap) (swapId : ℕ) (pending : PendingSwap) :
    SortedMap ℕ PendingSwap :=
  if pending.retryCount + 1 < pending.maxRetries then remaining.set swapId pending.failedOnce
  else remaining

/-- Every entry attempted in its turn: the state after it, the entries kept, and the number of
swaps executed. -/
def retryEach (e : Env) : List (ℕ × PendingSwap) → RouterWorld → SortedMap ℕ PendingSwap → ℕ →
    RouterWorld × SortedMap ℕ PendingSwap × ℕ
  | [], w, remaining, retried => (w, remaining, retried)
  | (swapId, pending) :: rest, w, remaining, retried =>
      match attemptEntry e w pending with
      | .ok w => retryEach e rest w remaining (retried + 1)
      | .error _ => retryEach e rest w (keepFailed remaining swapId pending) retried

/-- The entry is executed, or refused before anything moves. -/
def InTurn (e : Env) (w : RouterWorld) (pending : PendingSwap) : Prop :=
  Executable e w pending.user pending.inputToken pending.outputToken pending.inputAmount
      pending.minOutput ∨
    (Refused w.store pending.inputToken pending.outputToken pending.inputAmount
        pending.minOutput ∧ FitsU 32 (pending.retryCount + 1))

section loop
variable {e : Env}

/-- An attempt at one entry ends in one of three ways. -/
inductive Attempted (e : Env) (w : RouterWorld) (pending : PendingSwap) :
    RouterCall (Except SwapError (ℤ × RouterWorld)) → Prop
  | executed {output : ℤ} {w' : RouterWorld} (hattempt : attemptEntry e w pending = .ok w')
      (hturn : InTurn e w pending) : Attempted e w pending (.ok (.ok (output, w')))
  | refused {err : SwapError} (hattempt : attemptEntry e w pending = .error (.raised (.contract err)))
      (hturn : InTurn e w pending ↔ FitsU 32 (pending.retryCount + 1)) :
      Attempted e w pending (.ok (.error err))
  | trapped {fault : Fault (HostError SwapError)} (hturn : ¬ InTurn e w pending) :
      Attempted e w pending (.error fault)

theorem attempted (e : Env) (w : RouterWorld) (pending : PendingSwap) :
    Attempted e w pending (trySwap e w pending.user pending.inputToken pending.outputToken
      pending.inputAmount pending.minOutput) := by
  have hturn : InTurn e w pending ↔
      (∃ r, trySwap e w pending.user pending.inputToken pending.outputToken pending.inputAmount
        pending.minOutput = .ok (.ok r)) ∨
      ((∃ err, trySwap e w pending.user pending.inputToken pending.outputToken
        pending.inputAmount pending.minOutput = .ok (.error err)) ∧
        FitsU 32 (pending.retryCount + 1)) := by
    rw [trySwap_executes_iff, trySwap_refused_iff]
    rfl
  have hattempt : attemptEntry e w pending = (do
      let attempt ← trySwap e w pending.user pending.inputToken pending.outputToken
        pending.inputAmount pending.minOutput
      match attempt with
      | .ok (_, w) => pure w
      | .error err => raise (.contract err)) := rfl
  revert hturn hattempt
  cases trySwap e w pending.user pending.inputToken pending.outputToken pending.inputAmount
      pending.minOutput with
  | error fault =>
      intro hturn _
      refine .trapped fun h => ?_
      obtain ⟨r, hr⟩ | ⟨⟨err, hr⟩, -⟩ := hturn.mp h
      · cases hr
      · cases hr
  | ok result =>
      cases result with
      | ok r => exact fun hturn hattempt => .executed hattempt (hturn.mpr (.inl ⟨r, rfl⟩))
      | error err =>
          intro hturn hattempt
          refine .refused hattempt (hturn.trans ?_)
          constructor
          · rintro (⟨r, hr⟩ | ⟨-, hfits⟩)
            · cases hr
            · exact hfits
          · exact fun hfits => .inr ⟨⟨err, rfl⟩, hfits⟩

theorem inTurn_of_attempt {w w' : RouterWorld} {pending : PendingSwap}
    (h : attemptEntry e w pending = .ok w') : InTurn e w pending := by
  have hattempted := attempted e w pending
  revert hattempted
  rw [attemptEntry] at h
  obtain ⟨result, htry, h⟩ := bind_eq_ok.mp h
  rw [htry]
  rintro (⟨-, hturn⟩ | ⟨hattempt, -⟩ | _)
  · exact hturn
  · exact (raise_eq_ok.mp h).elim

theorem le_retryEach (entries : List (ℕ × PendingSwap)) : ∀ w remaining retried,
    retried ≤ (retryEach e entries w remaining retried).2.2 := by
  induction entries with
  | nil => exact fun _ _ _ => le_rfl
  | cons entry rest ih =>
      intro w remaining retried
      rw [retryEach]
      split
      · exact (Nat.le_succ retried).trans (ih _ _ _)
      · exact ih _ _ _

/-- The two branches of the loop after a failed attempt. -/
theorem retryLoop_keep (rest : List (ℕ × PendingSwap)) (w : RouterWorld)
    (remaining : SortedMap ℕ PendingSwap) (retried swapId : ℕ) (pending : PendingSwap) :
    (if pending.retryCount + 1 < pending.maxRetries then
        retryLoop e rest w (remaining.set swapId pending.failedOnce) retried
      else retryLoop e rest w remaining retried) =
      retryLoop e rest w (keepFailed remaining swapId pending) retried := by
  unfold keepFailed
  split_ifs
  · rfl
  · rfl

/-- The loop returns exactly when every entry is executed or refused in its turn, and then has
retried each. -/
theorem retryLoop_eq_ok {r : RouterWorld × SortedMap ℕ PendingSwap × ℕ}
    (entries : List (ℕ × PendingSwap)) : ∀ w remaining retried, FitsU 32 (retried : ℕ) →
    (retryLoop e entries w remaining retried = .ok r ↔
      Along (attemptEntry e) (InTurn e) w (entries.map Prod.snd) ∧
        FitsU 32 ((retryEach e entries w remaining retried).2.2 : ℕ) ∧
        retryEach e entries w remaining retried = r) := by
  induction entries with
  | nil =>
      intro w remaining retried hfits
      rw [retryLoop, pure_eq_ok]
      exact ⟨fun h => ⟨trivial, hfits, h⟩, fun h => h.2.2⟩
  | cons entry rest ih =>
      obtain ⟨swapId, pending⟩ := entry
      intro w remaining retried hfits
      rw [retryLoop, bind_eq_ok, List.map_cons, Along, retryEach]
      have hattempted := attempted e w pending
      revert hattempted
      cases trySwap e w pending.user pending.inputToken pending.outputToken pending.inputAmount
          pending.minOutput with
      | error fault =>
          rintro (_ | _ | ⟨hturn⟩)
          apply iff_of_false
          · rintro ⟨_, hfault, -⟩
            cases hfault
          · exact fun h => hturn h.1.1
      | ok result =>
          intro hattempted
          cases hattempted with
          | @executed output w' hattempt hturn =>
              rw [commit_of_ok hattempt]
              simp only [hattempt, Except.ok.injEq, exists_eq_left', bind_eq_ok, checkedU_eq_ok]
              constructor
              · rintro ⟨next, ⟨hnext, rfl⟩, hloop⟩
                obtain ⟨halong, hcount, hr⟩ := (ih w' remaining (retried + 1) hnext).mp hloop
                exact ⟨⟨hturn, halong⟩, hcount, hr⟩
              · rintro ⟨⟨-, halong⟩, hcount, hr⟩
                have hle := le_retryEach (e := e) rest w' remaining (retried + 1)
                have hnext : FitsU 32 ((retried + 1 : ℕ) : ℤ) :=
                  ⟨Int.natCast_nonneg _, lt_of_le_of_lt (Int.ofNat_le.mpr hle) hcount.2⟩
                refine ⟨_, ⟨hnext, rfl⟩, ?_⟩
                exact (ih w' remaining (retried + 1) hnext).mpr ⟨halong, hcount, hr⟩
          | refused hattempt hturn =>
              rw [commit_of_error hattempt, hturn]
              simp only [hattempt, Except.ok.injEq, exists_eq_left', bind_eq_ok, checkedU_eq_ok]
              have hnext := ih w (keepFailed remaining swapId pending) retried hfits
              rw [← retryLoop_keep] at hnext
              constructor
              · rintro ⟨_, ⟨hcount, rfl⟩, hloop⟩
                obtain ⟨halong, hrest⟩ := hnext.mp hloop
                exact ⟨⟨hcount, halong⟩, hrest⟩
              · rintro ⟨⟨hcount, halong⟩, hrest⟩
                exact ⟨_, ⟨hcount, rfl⟩, hnext.mpr ⟨halong, hrest⟩⟩

end loop

/-! ### The two promises of the queue -/

/-- The swap is in the queue and has not been retried. -/
def Queued (s : RouterStore) (user inputToken outputToken : Address) (inputAmount minOutput : ℤ)
    (maxRetries : ℕ) : Prop :=
  ∃ swapId pending, s.getPending.get swapId = some pending ∧ pending.user = user ∧
    pending.inputToken = inputToken ∧ pending.outputToken = outputToken ∧
    pending.inputAmount = inputAmount ∧ pending.minOutput = minOutput ∧
    pending.maxRetries = maxRetries ∧ pending.retryCount = 0

/-- The call returns with every entry of the queue retried. -/
def RetriesEach (e : Env) (w : RouterWorld) (admin : Address) : Prop :=
  let (w', remaining, retried) := retryEach e w.store.getPending.entries w SortedMap.empty 0
  retryFailedSwaps e w admin =
    .ok (retried, { w' with store := { w'.store with pendingSwap := some remaining } })

theorem retriesEach_iff {e : Env} {w : RouterWorld} {admin : Address}
    (hadmin : w.store.admin = some admin) :
    RetriesEach e w admin ↔
      Along (attemptEntry e) (InTurn e) w w.store.getPending.values ∧
        FitsU 32 ((retryEach e w.store.getPending.entries w SortedMap.empty 0).2.2 : ℕ) := by
  have hguard : w.store.requireAdmin admin = .ok () := by
    simp only [RouterStore.requireAdmin, RouterStore.getAdmin, bind_eq_ok, orRaise_eq_ok,
      requireOr_eq_ok]
    exact ⟨admin, hadmin, rfl⟩
  simp only [RetriesEach, retryFailedSwaps, bind_eq_ok]
  constructor
  · rintro ⟨_, -, r, hloop, -⟩
    obtain ⟨halong, hcount, -⟩ := (retryLoop_eq_ok _ w SortedMap.empty 0 (by decide)).mp hloop
    exact ⟨halong, hcount⟩
  · rintro ⟨halong, hcount⟩
    refine ⟨(), hguard, _, ?_, rfl⟩
    exact (retryLoop_eq_ok _ w SortedMap.empty 0 (by decide)).mpr ⟨halong, hcount, rfl⟩

/-- A call that cannot be executed at once is undone. -/
theorem swapWithRetry_undone {e : Env} {w : RouterWorld} {user inputToken outputToken : Address}
    {inputAmount minOutput : ℤ}
    (h : ¬ Executable e w user inputToken outputToken inputAmount minOutput) (maxRetries : ℕ) :
    commit routerStep w (.call e (.swapWithRetry user inputToken outputToken inputAmount minOutput
      maxRetries)) = w := by
  cases hcall : routerStep w (.call e (.swapWithRetry user inputToken outputToken inputAmount
      minOutput maxRetries)) with
  | error fault => exact commit_of_error hcall
  | ok w' =>
      obtain ⟨⟨output, v⟩, hkept, -⟩ := map_eq_ok.mp hcall
      exact absurd (trySwap_executes_iff.mp ⟨_, swapWithRetry_kept_iff.mp hkept⟩) h

/-- A swap that cannot be executed at once is in the queue after the call if and only if it was
there before; and a call of the admin retries every entry of the queue if and only if every
entry in its turn is executed or refused, and the number executed fits the counter. -/
theorem retry_queue_iff (e : Env) (w : RouterWorld) :
    (∀ user inputToken outputToken inputAmount minOutput maxRetries,
      ¬ Executable e w user inputToken outputToken inputAmount minOutput →
      (Queued (commit routerStep w (.call e (.swapWithRetry user inputToken outputToken
          inputAmount minOutput maxRetries))).store user inputToken outputToken inputAmount
          minOutput maxRetries ↔
        Queued w.store user inputToken outputToken inputAmount minOutput maxRetries)) ∧
    ∀ admin, w.store.admin = some admin →
      (RetriesEach e w admin ↔
        Along (attemptEntry e) (InTurn e) w w.store.getPending.values ∧
          FitsU 32 ((retryEach e w.store.getPending.entries w SortedMap.empty 0).2.2 : ℕ)) := by
  constructor
  · intro user inputToken outputToken inputAmount minOutput maxRetries hnow
    rw [swapWithRetry_undone hnow]
  · exact fun admin hadmin => retriesEach_iff hadmin

/-- An entry of the queue: user 3 swaps 1000 of token 1 for at least `minOutput` of token
`outputToken`, in 5 retries. -/
def pendingTrade (swapId user outputToken : ℕ) (minOutput : ℤ) : PendingSwap :=
  ⟨swapId, user, 1, outputToken, 1000, minOutput, 0, 5, 0⟩

/-- The router with one pool, admin 8 and two pending swaps. -/
def queuedRouter (first second : PendingSwap) : RouterWorld :=
  ⟨{ onePoolRouter with
      admin := some 8
      pendingSwap := some ((SortedMap.empty.set 1 first).set 2 second) }, flushLedger⟩

/-- An entry whose output is too low is kept, and the one after it is executed. -/
theorem retry_queue_iff_queuedRouter :
    RetriesEach swapEnv (queuedRouter (pendingTrade 1 3 2 2000) (pendingTrade 2 3 2 900)) 8 := by
  have hlow : trySwap swapEnv (queuedRouter (pendingTrade 1 3 2 2000) (pendingTrade 2 3 2 900))
      3 1 2 1000 2000 = .ok (.error .slippageExceeded) := rfl
  apply ((retry_queue_iff swapEnv _).2 8 rfl).mpr
  refine ⟨⟨.inr ⟨trySwap_refused_iff.mp ⟨_, hlow⟩, by decide⟩, ?_, trivial⟩, by decide⟩
  obtain ⟨w', hw'⟩ := returns_of_isOk (show (attemptEntry swapEnv
    (commit (attemptEntry swapEnv) (queuedRouter (pendingTrade 1 3 2 2000)
      (pendingTrade 2 3 2 900)) (pendingTrade 1 3 2 2000)) (pendingTrade 2 3 2 900)).isOk by decide)
  exact inTurn_of_attempt hw'

/-- A swap to token 6, which is in no pool, is neither executed nor queued; and an entry whose
user has not authorised the payment stops the retry of the entry after it. -/
theorem failed_swap_lost :
    (¬ Executable swapEnv ⟨onePoolRouter, flushLedger⟩ 3 1 6 1000 900 ∧
      ¬ Queued (commit routerStep ⟨onePoolRouter, flushLedger⟩
        (.call swapEnv (.swapWithRetry 3 1 6 1000 900 5))).store 3 1 6 1000 900 5) ∧
    ¬ RetriesEach swapEnv (queuedRouter (pendingTrade 1 4 2 900) (pendingTrade 2 3 2 900)) 8 := by
  have hnow : ¬ Executable swapEnv ⟨onePoolRouter, flushLedger⟩ 3 1 6 1000 900 := by
    rw [← trySwap_executes_iff]
    rintro ⟨r, hr⟩
    have hrefused : trySwap swapEnv ⟨onePoolRouter, flushLedger⟩ 3 1 6 1000 900 =
        .ok (.error .noPoolFound) := rfl
    rw [hrefused] at hr
    cases hr
  refine ⟨⟨hnow, ?_⟩, fun hretries => ?_⟩
  · rw [swapWithRetry_undone hnow]
    rintro ⟨swapId, pending, hpending, -⟩
    cases hpending
  · have htraps : (retryFailedSwaps swapEnv (queuedRouter (pendingTrade 1 4 2 900)
        (pendingTrade 2 3 2 900)) 8).isOk = false := by decide
    rw [RetriesEach] at hretries
    rw [hretries] at htraps
    cases htraps

end YieldEngine.Router
