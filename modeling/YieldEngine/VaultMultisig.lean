import YieldEngine.VaultRuns
import Mathlib.Data.Finset.Card
import Mathlib.Data.Finset.Dedup

/-! # The emergency multisig

`require_multisig` runs through the submitted addresses and counts those that occur in the
configured list (`countValid`).  An address that is submitted twice is counted twice, while its
comment asks for distinct signers.  Both emergency calls count distinct signers exactly when
repetitions do not make up for missing signers (`countsDistinct_iff`), in particular when no
configured signer is submitted twice. -/

namespace YieldEngine.Vault

open CheckedArith

/-! ### The loops -/

/-- The inner loop: compare with the candidates up to the first match. -/
def matchesCandidate (signer : Address) : List Address → Bool
  | [] => false
  | candidate :: rest => if signer = candidate then true else matchesCandidate signer rest

/-- The outer loop: the counter after the submitted addresses. -/
def countValid (authorized : List Address) : List Address → ℕ → ℕ
  | [], valid => valid
  | signer :: rest, valid =>
      countValid authorized rest (if matchesCandidate signer authorized then valid + 1 else valid)

theorem matchesCandidate_iff {signer : Address} {authorized : List Address} :
    matchesCandidate signer authorized = true ↔ signer ∈ authorized := by
  induction authorized with
  | nil => simp [matchesCandidate]
  | cons candidate rest ih =>
      unfold matchesCandidate
      split_ifs with h
      · simp [h]
      · simp [h, ih]

theorem countValid_eq (authorized signers : List Address) (valid : ℕ) :
    countValid authorized signers valid =
      valid + signers.countP fun signer => signer ∈ authorized := by
  induction signers generalizing valid with
  | nil => rfl
  | cons signer rest ih =>
      rw [countValid, ih, List.countP_cons]
      by_cases h : signer ∈ authorized
      · rw [if_pos (matchesCandidate_iff.mpr h), if_pos (decide_eq_true h)]
        omega
      · rw [if_neg (mt matchesCandidate_iff.mp h), if_neg (by simpa using h)]
        omega

/-! ### Occurrences and distinct signers -/

/-- The submitted entries that name a configured signer, repetitions included. -/
def signerEntries (s : VaultStore) (signers : List Address) : ℕ :=
  signers.countP fun signer => signer ∈ s.getEmergencySigners

/-- The distinct addresses that occur in both lists. -/
def distinctSigners (s : VaultStore) (signers : List Address) : ℕ :=
  (signers.toFinset ∩ s.getEmergencySigners.toFinset).card

/-- The emergency calls succeed when, and only when, enough distinct signers are submitted. -/
def CountsDistinct (s : VaultStore) (signers : List Address) : Prop :=
  ((emergencyPause s signers).isOk ↔ s.getEmergencyThreshold ≤ distinctSigners s signers) ∧
    ((emergencyUnpause s signers).isOk ↔ s.getEmergencyThreshold ≤ distinctSigners s signers)

section multisig
variable {s : VaultStore} {signers : List Address}

/-- The check of the source is the one on the counter of its loops. -/
theorem requireMultisig_eq (s : VaultStore) (signers : List Address) :
    requireMultisig s signers =
      require (s.getEmergencyThreshold ≤ countValid s.getEmergencySigners signers 0)
        (.contract .insufficientEmergencySignatures) := by
  simp only [requireMultisig, countValid_eq, zero_add]

theorem requireMultisig_isOk :
    (requireMultisig s signers).isOk ↔ s.getEmergencyThreshold ≤ signerEntries s signers := by
  rw [requireMultisig_eq, countValid_eq, zero_add]
  unfold require
  split_ifs with h
  · exact iff_of_true rfl h
  · exact iff_of_false (by simp [raise, Except.isOk, Except.toBool]) h

theorem emergencyPause_isOk :
    (emergencyPause s signers).isOk ↔ s.getEmergencyThreshold ≤ signerEntries s signers := by
  rw [← requireMultisig_isOk, emergencyPause]
  cases requireMultisig s signers <;> rfl

theorem emergencyUnpause_isOk :
    (emergencyUnpause s signers).isOk ↔ s.getEmergencyThreshold ≤ signerEntries s signers := by
  rw [← requireMultisig_isOk, emergencyUnpause]
  cases requireMultisig s signers <;> rfl

theorem distinctSigners_eq (s : VaultStore) (signers : List Address) :
    distinctSigners s signers =
      (signers.filter fun signer => signer ∈ s.getEmergencySigners).toFinset.card := by
  unfold distinctSigners
  congr 1
  ext a
  simp

/-- A distinct signer has at least one entry. -/
theorem distinctSigners_le (s : VaultStore) (signers : List Address) :
    distinctSigners s signers ≤ signerEntries s signers := by
  rw [distinctSigners_eq, signerEntries, List.countP_eq_length_filter]
  exact List.toFinset_card_le _

/-- Without repeated signers every entry is a distinct signer. -/
theorem distinctSigners_of_nodup
    (h : (signers.filter fun signer => signer ∈ s.getEmergencySigners).Nodup) :
    distinctSigners s signers = signerEntries s signers := by
  rw [distinctSigners_eq, signerEntries, List.countP_eq_length_filter]
  exact List.toFinset_card_of_nodup h

/-- Distinct signers are counted when the entries and the distinct signers reach the threshold
together. -/
theorem countsDistinct_iff_together (s : VaultStore) (signers : List Address) :
    CountsDistinct s signers ↔ (s.getEmergencyThreshold ≤ signerEntries s signers ↔
      s.getEmergencyThreshold ≤ distinctSigners s signers) := by
  unfold CountsDistinct
  rw [emergencyPause_isOk, emergencyUnpause_isOk, and_self]

/-- The emergency calls count distinct signers exactly when repeated entries do not fill the
threshold up. -/
theorem countsDistinct_iff (s : VaultStore) (signers : List Address) :
    CountsDistinct s signers ↔
      s.getEmergencyThreshold ≤ distinctSigners s signers ∨
        signerEntries s signers < s.getEmergencyThreshold := by
  rw [countsDistinct_iff_together]
  have hle := distinctSigners_le s signers
  omega

/-- No configured signer is submitted twice: distinct signers are counted. -/
theorem countsDistinct_of_nodup
    (h : (signers.filter fun signer => signer ∈ s.getEmergencySigners).Nodup) :
    CountsDistinct s signers := by
  rw [countsDistinct_iff_together, distinctSigners_of_nodup h]

end multisig

/-- A vault of admin `7` that has configured the signers 1, 2 and 3; the threshold is 3. -/
def guardedVault : VaultStore := { openedVault.store with emergencySigners := some [1, 2, 3] }

/-- One signer, submitted three times, pauses the vault. -/
theorem one_signer_pauses :
    setEmergencySigners openedVault.store 7 [1, 2, 3] = .ok guardedVault ∧
      guardedVault.getEmergencyThreshold = 3 ∧
      (emergencyPause guardedVault [1, 1, 1]).isOk = true ∧
      ¬ CountsDistinct guardedVault [1, 1, 1] := by
  refine ⟨rfl, rfl, rfl, ?_⟩
  rintro ⟨hpause, -⟩
  exact absurd (hpause.mp rfl) (by decide)

end YieldEngine.Vault
