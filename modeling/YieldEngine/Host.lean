import YieldEngine.CheckedArith
import Mathlib.Logic.Function.Basic

/-! # The contract host

What a Soroban contract sees of its host: addresses, the environment of one invocation
(`Env`), the failures an invocation can end with (`HostError`) and the balances of the token
contracts it calls (`Ledger`).

Tokens are standard SEP-41 tokens.  `Ledger.transfer` needs the authorisation of the paying
address, which a contract gives implicitly for its own address, and fails on a negative or
uncovered amount. -/

namespace YieldEngine

open CheckedArith

/-- Addresses of accounts and contracts.  They are compared and used as ordered keys. -/
abbrev Address := ℕ

/-- The environment of one invocation. -/
structure Env where
  /-- The address of the executing contract. -/
  contract : Address
  /-- The addresses that authorised the invocation. -/
  auths : List Address
  /-- Ledger close time in seconds. -/
  timestamp : ℕ

/-- The failures of an invocation other than arithmetic faults. -/
inductive HostError (ε : Type) where
  | contract (e : ε)
  | panic (msg : String)
  | unauthorized (a : Address)
  | transferRefused
deriving DecidableEq, Repr

/-- The outcome of an invocation of a contract with error codes `ε`. -/
abbrev Call (ε α : Type) := Outcome (HostError ε) α

variable {ε : Type}

/-- `a` authorised the invocation; the executing contract does so for its own address. -/
def Env.Authorized (e : Env) (a : Address) : Prop := a = e.contract ∨ a ∈ e.auths

instance (e : Env) (a : Address) : Decidable (e.Authorized a) :=
  inferInstanceAs (Decidable (_ ∨ _))

/-- `require_auth`. -/
def Env.requireAuth (e : Env) (a : Address) : Call ε Unit :=
  require (e.Authorized a) (.unauthorized a)

/-- Largest `u64`. -/
def u64Max : ℕ := 2 ^ 64 - 1

/-! ### Tokens -/

/-- Balances by token contract and holder. -/
abbrev Ledger := Address → Address → ℤ

namespace Ledger

/-- Add `amount` to one balance. -/
def credit (l : Ledger) (token holder : Address) (amount : ℤ) : Ledger :=
  Function.update l token (Function.update (l token) holder (l token holder + amount))

/-- `TokenClient::transfer`. -/
def transfer (e : Env) (l : Ledger) (token payer payee : Address) (amount : ℤ) :
    Call ε Ledger := do
  e.requireAuth payer
  require (0 ≤ amount ∧ amount ≤ l token payer) .transferRefused
  pure ((l.credit token payer (-amount)).credit token payee amount)

theorem credit_self (l : Ledger) (token holder : Address) (amount : ℤ) :
    l.credit token holder amount token holder = l token holder + amount := by
  simp [credit]

theorem credit_of_ne_token (l : Ledger) {token t : Address} (holder h : Address) (amount : ℤ)
    (ht : t ≠ token) : l.credit token holder amount t h = l t h := by
  simp [credit, Function.update_of_ne ht]

theorem credit_of_ne_holder (l : Ledger) (token t : Address) {holder h : Address} (amount : ℤ)
    (hh : h ≠ holder) : l.credit token holder amount t h = l t h := by
  by_cases ht : t = token
  · subst ht
    simp [credit, Function.update_of_ne hh]
  · exact credit_of_ne_token l holder h amount ht

/-- What a returning transfer has checked and done. -/
theorem transfer_eq_ok {e : Env} {l l' : Ledger} {token payer payee : Address} {amount : ℤ} :
    (transfer e l token payer payee amount : Call ε Ledger) = .ok l' ↔
      e.Authorized payer ∧ (0 ≤ amount ∧ amount ≤ l token payer) ∧
        (l.credit token payer (-amount)).credit token payee amount = l' := by
  simp only [transfer, Env.requireAuth, bind_eq_ok, require_eq_ok, pure_eq_ok, exists_const]

/-- A returning transfer leaves the other tokens alone. -/
theorem transfer_other {e : Env} {l l' : Ledger} {token payer payee : Address} {amount : ℤ}
    (h : (transfer e l token payer payee amount : Call ε Ledger) = .ok l') {t : Address}
    (ht : t ≠ token) (a : Address) : l' t a = l t a := by
  obtain ⟨-, -, rfl⟩ := transfer_eq_ok.mp h
  rw [credit_of_ne_token _ _ _ _ ht, credit_of_ne_token _ _ _ _ ht]

/-- A transfer to an address other than the payer moves exactly `amount` into it. -/
theorem transfer_received {e : Env} {l l' : Ledger} {token payer payee : Address} {amount : ℤ}
    (h : (transfer e l token payer payee amount : Call ε Ledger) = .ok l') (hne : payee ≠ payer) :
    l' token payee = l token payee + amount := by
  obtain ⟨-, -, rfl⟩ := transfer_eq_ok.mp h
  rw [credit_self, credit_of_ne_holder _ _ _ _ hne]

/-- A transfer costs its payer at most `amount`. -/
theorem transfer_paid_le {e : Env} {l l' : Ledger} {token payer payee : Address} {amount : ℤ}
    (h : (transfer e l token payer payee amount : Call ε Ledger) = .ok l') :
    l token payer - amount ≤ l' token payer := by
  obtain ⟨-, ⟨h0, -⟩, rfl⟩ := transfer_eq_ok.mp h
  by_cases hne : payer = payee
  · subst hne
    rw [credit_self, credit_self]
    omega
  · rw [credit_of_ne_holder _ _ _ _ hne, credit_self]
    omega

end Ledger
end YieldEngine
