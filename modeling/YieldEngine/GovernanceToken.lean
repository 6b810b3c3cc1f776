import YieldEngine.Accounts
import YieldEngine.Host
import YieldEngine.Transact
import Mathlib.Data.Prod.Lex

/-! # The governance token

The governance contracts of `governance.rs` fail by panics only (`GovCall`) and see the ledger
through `GovEnv`.  A contract calling another one authorises for its own address
(`GovEnv.calledBy`); what a user authorised covers the calls made on the way.

`GovernanceToken` keeps its own balances.  `mint`, `burn` and `transfer` take signed amounts and
check no sign, so a negative amount moves value the other way. -/

namespace YieldEngine

open CheckedArith

/-- What an invocation of a governance contract sees of the ledger. -/
structure GovEnv where
  /-- The addresses that authorised the invocation. -/
  auths : List Address
  /-- Ledger close time in seconds. -/
  timestamp : ℕ
  /-- Ledger sequence number. -/
  sequence : ℕ

/-- The outcome of an invocation of a governance contract. -/
abbrev GovCall (α : Type) := Call Empty α

namespace GovEnv

/-- `require_auth`. -/
def requireAuth (e : GovEnv) (a : Address) : GovCall Unit := require (a ∈ e.auths) (.unauthorized a)

/-- The environment of a call made by the contract at `c`. -/
def calledBy (e : GovEnv) (c : Address) : GovEnv := { e with auths := c :: e.auths }

theorem requireAuth_eq_ok {e : GovEnv} {a : Address} {u : Unit} :
    e.requireAuth a = .ok u ↔ a ∈ e.auths := require_eq_ok

end GovEnv

/-- `4 * 365 * 24 * 60 * 60`, which is also `MAX_VOTE_DURATION`. -/
def fourYears : ℕ := 126144000

namespace GovernanceToken

def totalSupplyTokens : ℕ := 1000000000
def communityAllocation : ℕ := 500000000
def teamAllocation : ℕ := 200000000
def treasuryAllocation : ℕ := 200000000
def liquidityMiningAllocation : ℕ := 100000000

/-- Seven decimals. -/
def scale : ℤ := 10000000

/-- The storage of the token. -/
structure Store where
  admin : Option Address
  supply : Option ℤ
  balances : SortedMap Address ℤ
  allowances : SortedMap (Address ×ₗ Address) ℤ
  delegates : SortedMap Address Address
  teamVesting : SortedMap Address ℕ

namespace Store

/-- The storage of a deployed contract before its first invocation. -/
def fresh : Store where
  admin := none
  supply := none
  balances := SortedMap.empty
  allowances := SortedMap.empty
  delegates := SortedMap.empty
  teamVesting := SortedMap.empty

variable (s : Store)

def getAdmin : GovCall Address := orRaise s.admin (.panic "admin not configured")

def getDelegate (addr : Address) : Option Address := s.delegates.get addr

def balance (addr : Address) : ℤ := s.balances.amount addr

def totalSupply : ℤ := s.supply.getD 0

def allowance (owner spender : Address) : ℤ := s.allowances.amount (toLex (owner, spender))

/-- `is_team_locked`. -/
def isTeamLocked (e : GovEnv) (addr : Address) : Bool :=
  e.timestamp < (s.teamVesting.get addr).getD 0

end Store

/-! ### Entrypoints -/

/-- `initialize`; the allocations are constants whose products and sum fit. -/
def initializeToken (e : GovEnv) (s : Store)
    (admin communityWallet teamWallet treasuryWallet liquidityMiningWallet : Address) :
    GovCall Store := do
  e.requireAuth admin
  let communityAmount := communityAllocation * scale
  let teamAmount := teamAllocation * scale
  let treasuryAmount := treasuryAllocation * scale
  let liquidityAmount := liquidityMiningAllocation * scale
  let total := communityAmount + teamAmount + treasuryAmount + liquidityAmount
  let balances := s.balances.set communityWallet communityAmount
  let balances := balances.set teamWallet teamAmount
  let balances := balances.set treasuryWallet treasuryAmount
  let balances := balances.set liquidityMiningWallet liquidityAmount
  let vestingEnd ← checkedU 64 (e.timestamp + fourYears : ℕ)
  pure { s with
    admin := some admin
    supply := some total
    balances := balances
    teamVesting := s.teamVesting.set teamWallet vestingEnd.toNat }

/-- `mint`. -/
def mint (e : GovEnv) (s : Store) (admin recipient : Address) (amount : ℤ) : GovCall Store := do
  e.requireAuth admin
  let configured ← s.getAdmin
  require (admin = configured) (.panic "unauthorized: admin required")
  let toBalance ← I128.add (s.balance recipient) amount
  let totalSupply ← I128.add s.totalSupply amount
  pure { s with balances := s.balances.set recipient toBalance, supply := some totalSupply }

/-- `burn`. -/
def burn (e : GovEnv) (s : Store) (sender : Address) (amount : ℤ) : GovCall Store := do
  e.requireAuth sender
  require (amount ≤ s.balance sender) (.panic "insufficient balance")
  let rest ← I128.sub (s.balance sender) amount
  let totalSupply ← I128.sub s.totalSupply amount
  pure { s with balances := s.balances.set sender rest, supply := some totalSupply }

/-- `delegate`. -/
def delegate (e : GovEnv) (s : Store) (sender recipient : Address) : GovCall Store := do
  e.requireAuth sender
  pure { s with delegates := s.delegates.set sender recipient }

/-- `transfer`: the balance of the payee is read after the payer's was written. -/
def transfer (e : GovEnv) (s : Store) (sender recipient : Address) (amount : ℤ) :
    GovCall Store := do
  e.requireAuth sender
  require (amount ≤ s.balance sender) (.panic "insufficient balance")
  let rest ← I128.sub (s.balance sender) amount
  let s := { s with balances := s.balances.set sender rest }
  let toBalance ← I128.add (s.balance recipient) amount
  pure { s with balances := s.balances.set recipient toBalance }

/-- `approve`. -/
def approve (e : GovEnv) (s : Store) (sender spender : Address) (amount : ℤ) : GovCall Store := do
  e.requireAuth sender
  pure { s with allowances := s.allowances.set (toLex (sender, spender)) amount }

/-- The writing entrypoints other than `initialize`. -/
inductive Action where
  | mint (admin recipient : Address) (amount : ℤ)
  | burn (sender : Address) (amount : ℤ)
  | delegate (sender recipient : Address)
  | transfer (sender recipient : Address) (amount : ℤ)
  | approve (sender spender : Address) (amount : ℤ)
deriving DecidableEq, Repr

def exec (e : GovEnv) (s : Store) : Action → GovCall Store
  | .mint admin recipient amount => mint e s admin recipient amount
  | .burn sender amount => burn e s sender amount
  | .delegate sender recipient => delegate e s sender recipient
  | .transfer sender recipient amount => transfer e s sender recipient amount
  | .approve sender spender amount => approve e s sender spender amount

/-! ### What a returning call has checked and done -/

/-- `amount` moved from one balance to another. -/
def Store.moved (s : Store) (sender recipient : Address) (amount : ℤ) : Store :=
  { s with balances := (s.balances.credit sender (-amount)).credit recipient amount }

theorem transfer_eq_ok {e : GovEnv} {s s' : Store} {sender recipient : Address} {amount : ℤ} :
    transfer e s sender recipient amount = .ok s' ↔
      sender ∈ e.auths ∧ amount ≤ s.balance sender ∧ Fits 128 (s.balance sender - amount) ∧
        Fits 128 ((s.moved sender recipient amount).balance recipient) ∧
          s.moved sender recipient amount = s' := by
  have hread : ∀ rest : ℤ, rest = s.balance sender - amount →
      (s.balances.set sender rest).amount recipient + amount =
        (s.moved sender recipient amount).balance recipient := by
    rintro rest rfl
    exact (SortedMap.amount_credit_self _ _ _).symm
  simp only [transfer, bind_eq_ok, GovEnv.requireAuth_eq_ok, require_eq_ok, I128.sub_eq_ok,
    I128.add_eq_ok, pure_eq_ok, exists_const]
  constructor
  · rintro ⟨hauth, hle, rest, ⟨hrest, rfl⟩, toBalance, ⟨hto, rfl⟩, rfl⟩
    rw [Store.balance, hread _ rfl] at hto
    exact ⟨hauth, hle, hrest, hto, rfl⟩
  · rintro ⟨hauth, hle, hrest, hto, rfl⟩
    refine ⟨hauth, hle, _, ⟨hrest, rfl⟩, _, ⟨?_, rfl⟩, rfl⟩
    rwa [Store.balance, hread _ rfl]

/-- The storage a returning call leaves. -/
def written (s : Store) : Action → Store
  | .mint _ recipient amount =>
      { s with
        balances := s.balances.credit recipient amount
        supply := some (s.totalSupply + amount) }
  | .burn sender amount =>
      { s with
        balances := s.balances.credit sender (-amount)
        supply := some (s.totalSupply - amount) }
  | .delegate sender recipient => { s with delegates := s.delegates.set sender recipient }
  | .transfer sender recipient amount => s.moved sender recipient amount
  | .approve sender spender amount =>
      { s with allowances := s.allowances.set (toLex (sender, spender)) amount }

/-- The address whose authorisation a call needs. -/
def Action.signer : Action → Address
  | .mint admin _ _ => admin
  | .burn sender _ => sender
  | .delegate sender _ => sender
  | .transfer sender _ _ => sender
  | .approve sender _ _ => sender

/-- What a call takes from its signer is there. -/
def Action.Covered (s : Store) : Action → Prop
  | .burn sender amount => amount ≤ s.balance sender
  | .transfer sender _ amount => amount ≤ s.balance sender
  | _ => True

/-- A call has returned: it was signed and covered, and this is what it left. -/
structure Returns (e : GovEnv) (s : Store) (a : Action) (s' : Store) : Prop where
  signed : a.signer ∈ e.auths
  covered : a.Covered s
  eq_written : s' = written s a
  fits : Fits 128 s.totalSupply → Fits 128 s'.totalSupply

theorem exec_returns {e : GovEnv} {s s' : Store} {a : Action} (h : exec e s a = .ok s') :
    Returns e s a s' := by
  cases a with
  | mint admin recipient amount =>
      simp only [exec, mint, bind_eq_ok, GovEnv.requireAuth_eq_ok, require_eq_ok, I128.add_eq_ok,
        pure_eq_ok, exists_const] at h
      obtain ⟨hauth, _, -, -, _, ⟨-, rfl⟩, _, ⟨hfits, rfl⟩, rfl⟩ := h
      exact ⟨hauth, trivial, rfl, fun _ => hfits⟩
  | burn sender amount =>
      simp only [exec, burn, bind_eq_ok, GovEnv.requireAuth_eq_ok, require_eq_ok, I128.sub_eq_ok,
        pure_eq_ok, exists_const] at h
      obtain ⟨hauth, hle, _, ⟨-, rfl⟩, _, ⟨hfits, rfl⟩, rfl⟩ := h
      exact ⟨hauth, hle, rfl, fun _ => hfits⟩
  | delegate sender recipient =>
      obtain ⟨_, hauth, h⟩ := bind_eq_ok.mp h
      obtain rfl := pure_eq_ok.mp h
      exact ⟨GovEnv.requireAuth_eq_ok.mp hauth, trivial, rfl, id⟩
  | transfer sender recipient amount =>
      obtain ⟨hauth, hle, -, -, rfl⟩ := transfer_eq_ok.mp h
      exact ⟨hauth, hle, rfl, id⟩
  | approve sender spender amount =>
      obtain ⟨_, hauth, h⟩ := bind_eq_ok.mp h
      obtain rfl := pure_eq_ok.mp h
      exact ⟨GovEnv.requireAuth_eq_ok.mp hauth, trivial, rfl, id⟩

end GovernanceToken
end YieldEngine
