import YieldEngine.GovernanceToken

/-! # The emergency multisig

`EmergencyMultisig` numbers the transactions its signers submit and keeps, for each of them, the
vector of those who confirmed it, the submitter first.  A signer who confirms again is appended
again. -/

namespace YieldEngine.EmergencyMultisig

open CheckedArith

/-- `Bytes`. -/
abbrev Bytes := List UInt8

/-- The storage of the multisig. -/
structure Store where
  signers : Option (List Address)
  requiredSignatures : Option ℕ
  pendingTx : Address → Bytes → Option ℕ
  txSigners : SortedMap ℕ (List Address)
  nextTxId : Option ℕ

namespace Store

/-- The storage of a deployed contract before its first invocation. -/
def fresh : Store where
  signers := none
  requiredSignatures := none
  pendingTx := fun _ _ => none
  txSigners := SortedMap.empty
  nextTxId := none

variable (s : Store)

/-- `signers`; `unwrap` of a missing cell traps. -/
def getSigners : GovCall (List Address) :=
  orRaise s.signers (.panic "called `Option::unwrap()` on a `None` value")

/-- The number the next transaction gets. -/
def next : ℕ := s.nextTxId.getD 1

end Store

/-! ### Entrypoints -/

/-- `initialize`. -/
def initializeMultisig (s : Store) (signers : List Address) (required : ℕ) : GovCall Store := do
  require (signers.length = 5) (.panic "must have exactly 5 signers")
  require (¬ (required < 3 ∨ required > 5))
    (.panic "required signatures must be between 3 and 5")
  pure { s with
    signers := some signers, requiredSignatures := some required, nextTxId := some 1 }

/-- `submit_emergency_tx`, returning the number of the transaction. -/
def submitEmergencyTx (e : GovEnv) (s : Store) (proposer target : Address) (data : Bytes) :
    GovCall (Store × ℕ) := do
  e.requireAuth proposer
  let signers ← s.getSigners
  require (proposer ∈ signers) (.panic "only signers can submit emergency transactions")
  let txId := s.next
  let next ← checkedU 32 (txId + 1 : ℕ)
  pure ({ s with
    nextTxId := some next.toNat
    pendingTx := Function.update s.pendingTx target
      (Function.update (s.pendingTx target) data (some txId))
    txSigners := s.txSigners.set txId [proposer] }, txId)

/-- `confirm_tx`, returning whether enough signers have confirmed. -/
def confirmTx (e : GovEnv) (s : Store) (confirmer : Address) (txId : ℕ) :
    GovCall (Store × Bool) := do
  e.requireAuth confirmer
  let signers ← s.getSigners
  require (confirmer ∈ signers) (.panic "only signers can confirm transactions")
  let txSigners ← orRaise (s.txSigners.get txId) (.panic "unknown transaction")
  let txSigners := txSigners ++ [confirmer]
  let required ← orRaise s.requiredSignatures
    (.panic "called `Option::unwrap()` on a `None` value")
  pure ({ s with txSigners := s.txSigners.set txId txSigners }, required ≤ txSigners.length)

/-- The writing entrypoints other than `initialize`. -/
inductive Action where
  | submitEmergencyTx (proposer target : Address) (data : Bytes)
  | confirmTx (confirmer : Address) (txId : ℕ)
deriving DecidableEq, Repr

def exec (e : GovEnv) (s : Store) : Action → GovCall Store
  | .submitEmergencyTx proposer target data =>
      Prod.fst <$> submitEmergencyTx e s proposer target data
  | .confirmTx confirmer txId => Prod.fst <$> confirmTx e s confirmer txId

/-! ### What a returning call has checked and done -/

/-- The storage after a submission. -/
def Store.submitted (s : Store) (proposer target : Address) (data : Bytes) : Store :=
  { s with
    nextTxId := some (s.next + 1)
    pendingTx := Function.update s.pendingTx target
      (Function.update (s.pendingTx target) data (some s.next))
    txSigners := s.txSigners.set s.next [proposer] }

theorem submitEmergencyTx_ok {e : GovEnv} {s s' : Store} {proposer target : Address}
    {data : Bytes} {txId : ℕ}
    (h : submitEmergencyTx e s proposer target data = .ok (s', txId)) :
    proposer ∈ e.auths ∧ (∃ signers, s.signers = some signers ∧ proposer ∈ signers) ∧
      txId = s.next ∧ s' = s.submitted proposer target data := by
  simp only [submitEmergencyTx, Store.getSigners, bind_eq_ok, GovEnv.requireAuth_eq_ok,
    orRaise_eq_ok, require_eq_ok, checkedU_eq_ok, pure_eq_ok, exists_const] at h
  obtain ⟨hauth, signers, hsigners, hmem, _, ⟨-, rfl⟩, heq⟩ := h
  obtain ⟨rfl, rfl⟩ := Prod.mk.inj heq
  exact ⟨hauth, ⟨signers, hsigners, hmem⟩, rfl, rfl⟩

theorem confirmTx_ok {e : GovEnv} {s s' : Store} {confirmer : Address} {txId : ℕ} {done : Bool}
    (h : confirmTx e s confirmer txId = .ok (s', done)) :
    confirmer ∈ e.auths ∧ (∃ signers, s.signers = some signers ∧ confirmer ∈ signers) ∧
      ∃ before required, s.txSigners.get txId = some before ∧
        s.requiredSignatures = some required ∧
          s' = { s with txSigners := s.txSigners.set txId (before ++ [confirmer]) } ∧
            done = decide (required ≤ before.length + 1) := by
  simp only [confirmTx, Store.getSigners, bind_eq_ok, GovEnv.requireAuth_eq_ok, orRaise_eq_ok,
    require_eq_ok, pure_eq_ok, exists_const] at h
  obtain ⟨hauth, signers, hsigners, hmem, before, hbefore, required, hrequired, heq⟩ := h
  obtain ⟨rfl, rfl⟩ := Prod.mk.inj heq
  refine ⟨hauth, ⟨signers, hsigners, hmem⟩, before, required, hbefore, hrequired, rfl, ?_⟩
  simp only [List.length_append, List.length_singleton]

end YieldEngine.EmergencyMultisig
