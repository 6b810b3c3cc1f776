import Mathlib.Logic.Function.Basic
import Mathlib.Data.Nat.Notation
import Mathlib.Data.Int.Notation

/-! # Keeper checkpoints

The snapshot an off-chain keeper writes to its durable store, and the two ways to make one.
Ledger sequences are natural numbers, so the format check of the source always passes.  The
metadata is a record by its keys; its numbers are integers, as all numbers keepers store. -/

namespace YieldEngine.Keeper

/-- The values a metadata record may hold. -/
inductive MetaValue where
  | string (s : String)
  | number (n : ℤ)
  | boolean (b : Bool)
deriving DecidableEq, Repr

/-- A metadata record. -/
abbrev Metadata := String → Option MetaValue

namespace Metadata

def empty : Metadata := fun _ => none

/-- `{ ...m, [key]: value }`. -/
def set (m : Metadata) (key : String) (value : MetaValue) : Metadata :=
  Function.update m key (some value)

@[simp] theorem set_self (m : Metadata) (key : String) (value : MetaValue) :
    m.set key value key = some value := by simp [set]

/-- The value under the key when it is a string. -/
def stringAt (m : Metadata) (key : String) : Option String :=
  match m key with
  | some (.string s) => some s
  | _ => none

/-- The value under the key when it is a number. -/
def numberAt (m : Metadata) (key : String) : Option ℤ :=
  match m key with
  | some (.number n) => some n
  | _ => none

end Metadata

def checkpointVersion : ℕ := 1

structure KeeperCheckpoint where
  version : ℕ
  /-- The first ledger that has not been processed yet. -/
  nextLedger : ℕ
  lastProcessedLedger : ℤ
  /-- Milliseconds since the epoch. -/
  updatedAt : ℕ
  metadata : Option Metadata

def createCheckpoint (nextLedger updatedAt : ℕ) (metadata : Option Metadata) :
    KeeperCheckpoint where
  version := checkpointVersion
  nextLedger := nextLedger
  lastProcessedLedger := (nextLedger : ℤ) - 1
  updatedAt := updatedAt
  metadata := metadata

/-- A checkpoint that carries component state only. -/
def createStateCheckpoint (updatedAt : ℕ) (metadata : Metadata) : KeeperCheckpoint :=
  createCheckpoint 0 updatedAt (some metadata)

end YieldEngine.Keeper
