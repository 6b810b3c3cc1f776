import YieldEngine.Doubles
import YieldEngine.EarlyExit
import Mathlib.Data.List.Infix
import Mathlib.Data.Rat.Floor
import Mathlib.Tactic.Linarith

/-! # Retries of transient errors

`withRetry` calls a function until it resolves, rejects with an error that is not transient, or
has been retried often enough.  A function is given by what its calls do, from call 1 on.

A promise may reject with any value, but `isTransientError` looks into it as if it were an `Error`:
it throws itself on a primitive value and on an object without a text in `message`.  And the limit
of the delay is set before the jitter.  `withRetry_contract_iff` says which calls are safe from
both.  The callback `onRetry` is told of each retry and returns.

Delays are computed in doubles.  The last digit of a power is left to the engine, so `Math.pow` is
a parameter, of which nothing is asked. -/

namespace YieldEngine.Retry

variable {T : Type}

/-! ### Options -/

/-- `RetryOptions`, with what the caller may leave out. -/
structure RetryOptions where
  maxRetries : Option ℚ
  initialDelayMs : Option ℚ
  backoffMultiplier : Option ℚ
  maxDelayMs : Option ℚ
  jitter : Option Bool

structure RequiredRetryOptions where
  /-- Maximum number of retry attempts. -/
  maxRetries : ℚ
  /-- Initial delay between retries in milliseconds. -/
  initialDelayMs : ℚ
  /-- Multiplier for exponential backoff. -/
  backoffMultiplier : ℚ
  /-- Maximum delay between retries in milliseconds. -/
  maxDelayMs : ℚ
  /-- Whether to add jitter to retry delays. -/
  jitter : Bool

def defaultRetryOptions : RequiredRetryOptions where
  maxRetries := 3
  initialDelayMs := 100
  backoffMultiplier := 2
  maxDelayMs := 5000
  jitter := true

/-- The defaults, overwritten by what the caller gives. -/
def RetryOptions.withDefaults (options : RetryOptions) : RequiredRetryOptions where
  maxRetries := options.maxRetries.getD defaultRetryOptions.maxRetries
  initialDelayMs := options.initialDelayMs.getD defaultRetryOptions.initialDelayMs
  backoffMultiplier := options.backoffMultiplier.getD defaultRetryOptions.backoffMultiplier
  maxDelayMs := options.maxDelayMs.getD defaultRetryOptions.maxDelayMs
  jitter := options.jitter.getD defaultRetryOptions.jitter

/-! ### Thrown values -/

/-- The value of a property; `other` is a value that is neither a text nor a number. -/
inductive PropertyValue where
  | text (s : String)
  | number (n : JsNumber)
  | other
deriving DecidableEq

/-- A value that a promise rejects with: a primitive one, or an object, which is not the same as
another one with the same properties.  A property that is missing is `none`. -/
inductive Thrown where
  | primitive (text : String)
  | object (identity : ℕ) (code status message : Option PropertyValue)
deriving DecidableEq

/-- Error codes that indicate transient failures. -/
def transientErrorCodes : List String :=
  ["ECONNRESET", "ECONNREFUSED", "ETIMEDOUT", "ENOTFOUND", "EAI_AGAIN", "EPIPE"]

/-- Request Timeout, Too Many Requests, Internal Server Error, Bad Gateway, Service Unavailable
and Gateway Timeout. -/
def transientHttpStatusCodes : List ℕ := [408, 429, 500, 502, 503, 504]

def transientErrorPatterns : List String :=
  ["network", "timeout", "temporar", "unavailable", "rate limit", "too many requests", "connection"]

/-- `toLowerCase` of a character, so far as it makes letters from a to z: besides the capital ones
there are the Kelvin sign and the dotted capital I, which keeps its dot as a mark of its own. -/
def lowerChar (c : Char) : List Char :=
  if c = '\u212A' then ['k']
  else if c = '\u0130' then ['i', '\u0307']
  else [c.toLower]

/-- The pattern is found in the lower-cased text.  Ignoring case as well finds no more: the
patterns are lower-case letters and blanks, and no other character left has one of these letters
as its capital. -/
def found (pattern message : String) : Bool :=
  pattern.toList <:+: message.toList.flatMap lowerChar

/-- Whether the error should be retried; `none` where the check itself throws, at `in` or at
`toLowerCase`. -/
def isTransientError : Thrown → Option Bool
  | .primitive _ => none
  | .object _ code status message =>
      if ∃ s ∈ transientErrorCodes, code = some (.text s) then some true
      else
        match status with
        | some (.number n) => some (n ∈ transientHttpStatusCodes.map JsNumber.ofNat)
        | _ =>
            match message with
            | some (.text s) => some (transientErrorPatterns.any fun pattern => found pattern s)
            | _ => none

/-! ### The loop -/

/-- The exponential delay, cut off at the limit; `pow` is `Math.pow`. -/
def cappedDelay (pow : ℚ → ℕ → JsNumber) (attempt : ℕ) (options : RequiredRetryOptions) :
    JsNumber :=
  let exponentialDelay :=
    Doubles.mul (.finite options.initialDelayMs) (pow options.backoffMultiplier (attempt - 1))
  exponentialDelay.min (.finite options.maxDelayMs)

/-- 0.75 to 1.25; `random` is drawn from 0 up to 1. -/
def jitterFactor (random : ℚ) : ℚ :=
  Doubles.nearest (3 / 4 + Doubles.nearest (random * (1 / 2)))

/-- Delay with exponential backoff and optional jitter. -/
def calculateDelay (pow : ℚ → ℕ → JsNumber) (attempt : ℕ) (options : RequiredRetryOptions)
    (random : ℚ) : JsNumber :=
  if options.jitter then
    (Doubles.mul (cappedDelay pow attempt options) (.finite (jitterFactor random))).floor
  else cappedDelay pow attempt options

/-- How the promise settles; the check of an error may throw a `TypeError` of its own. -/
inductive Settled (T : Type) where
  | resolved (result : T) (attempts : ℕ)
  | rejected (error : Thrown)
  | typeError
deriving DecidableEq

/-- What `onRetry` is told before the wait. -/
structure Notice where
  attempt : ℕ
  error : Thrown
  delayMs : JsNumber
deriving DecidableEq

open EarlyExit

/-- One round of the loop.  Its condition is the exact one: a sum that is rounded up lets no round
pass, for the round before has ended when its number was above `maxRetries`. -/
def attemptOnce (pow : ℚ → ℕ → JsNumber) (fn : ℕ → Except Thrown T)
    (options : RequiredRetryOptions) (random : ℕ → ℚ) (attempt : ℕ) :
    Step Notice (Settled T) :=
  if (attempt : ℚ) ≤ options.maxRetries + 1 then
    match fn attempt with
    | .ok result => .stop (.resolved result attempt)
    | .error error =>
        if options.maxRetries < attempt then .stop (.rejected error)
        else
          match isTransientError error with
          | none => .stop .typeError
          | some false => .stop (.rejected error)
          | some true =>
              .again ⟨attempt, error, calculateDelay pow attempt options (random attempt)⟩
  -- Before the first attempt there is no last error.
  else .stop (.rejected (.primitive "undefined"))

/-- The function is called once in every round.  There are no more rounds than one for the first
call, one for each retry, and one that would find the limit exceeded. -/
def withRetry (pow : ℚ → ℕ → JsNumber) (fn : ℕ → Except Thrown T) (options : RetryOptions)
    (random : ℕ → ℚ) : Option (Run Notice (Settled T)) :=
  loop (attemptOnce pow fn options.withDefaults random) (⌊options.withDefaults.maxRetries⌋₊ + 2) 1

/-! ### The contract -/

section contract
variable (pow : ℚ → ℕ → JsNumber) (fn : ℕ → Except Thrown T) (options : RequiredRetryOptions)
  (random : ℕ → ℚ)

/-- The call rejects with an error that is found transient. -/
def TransientAt (k : ℕ) : Prop := ∃ error, fn k = .error error ∧ isTransientError error = some true

/-- Every call before the given one rejects with a transient error. -/
def TransientBefore (k : ℕ) : Prop := ∀ j, 1 ≤ j → j < k → TransientAt fn j

/-- The first success, within the limit and after transient errors only. -/
def SucceedsAt (k : ℕ) (result : T) : Prop :=
  1 ≤ k ∧ (k : ℚ) ≤ options.maxRetries + 1 ∧ fn k = .ok result ∧ TransientBefore fn k

/-- The function is called no more than once for each retry and once before, and not again after
a success or an error that is not transient.  A success that is reached is returned with the
number of its call; otherwise the promise rejects with the error of the last call.  No wait is
longer than the limit; a delay that is not a number is the shortest wait of a timer. -/
structure Contract (run : Run Notice (Settled T)) : Prop where
  calls_le : (run.last : ℚ) ≤ options.maxRetries + 1
  stops : TransientBefore fn run.last
  returns : ∀ k result, SucceedsAt fn options k result → run.result = .resolved result k
  rejects : (∀ k result, ¬ SucceedsAt fn options k result) →
    ∃ error, fn run.last = .error error ∧ run.result = .rejected error
  waits : ∀ notice ∈ run.notes, (JsNumber.finite options.maxDelayMs).lt notice.delayMs = false

/-- Jitter does not lift the delay of this attempt, a product of doubles, to the next whole
millisecond above the limit. -/
def WithinLimit (attempt : ℕ) : Prop :=
  options.jitter = true → (JsNumber.ofInt (⌊options.maxDelayMs⌋ + 1)).le
    (Doubles.mul (cappedDelay pow attempt options) (.finite (jitterFactor (random attempt)))) =
      false

/-- Wherever a retry is considered, the error can be checked, and the wait is within the limit if
the error is transient. -/
def Benign : Prop := ∀ (attempt : ℕ) error, 1 ≤ attempt → (attempt : ℚ) ≤ options.maxRetries →
  TransientBefore fn attempt → fn attempt = .error error →
    isTransientError error ≠ none ∧
      (isTransientError error = some true → WithinLimit pow options random attempt)

variable {pow fn options random}

theorem calculateDelay_le_iff {attempt : ℕ} :
    (JsNumber.finite options.maxDelayMs).lt
        (calculateDelay pow attempt options (random attempt)) = false ↔
      WithinLimit pow options random attempt := by
  unfold calculateDelay WithinLimit
  cases options.jitter with
  | false =>
      rw [if_neg Bool.false_ne_true]
      exact iff_of_true (JsNumber.lt_min_right _ _) fun h => absurd h Bool.false_ne_true
  | true =>
      rw [if_pos rfl, JsNumber.lt_floor]
      exact ⟨fun h _ => h, fun h => h rfl⟩

section exact
variable {attempt : ℕ} {delay : ℚ} (hdelay : cappedDelay pow attempt options = .finite delay)
include hdelay

/-- Where the exact product does not pass the last whole millisecond of the limit, the rounded one
does not. -/
theorem withinLimit_of_le {limit : ℕ} (hfloor : ⌊options.maxDelayMs⌋ = limit)
    (hlimit : limit < 2 ^ 53) (h : delay * jitterFactor (random attempt) ≤ limit) :
    WithinLimit pow options random attempt := by
  intro _
  rw [hdelay, Doubles.mul, JsNumber.mul, hfloor]
  have hround := Doubles.round_le_ofNat hlimit.le h
  cases hx : Doubles.round (.finite (delay * jitterFactor (random attempt))) with
  | nan => rfl
  | infinite negative =>
      rw [hx] at hround
      cases negative with
      | true => rfl
      | false => cases hround
  | finite q =>
      rw [hx] at hround
      simp only [JsNumber.ofNat, JsNumber.ofInt, JsNumber.le, decide_eq_true_eq,
        decide_eq_false_iff_not] at hround ⊢
      push_cast
      linarith

/-- Where the exact product reaches the next whole millisecond, the rounded one does. -/
theorem not_withinLimit_of_le {limit : ℕ} (hjitter : options.jitter = true)
    (hfloor : ⌊options.maxDelayMs⌋ = limit) (hlimit : limit < 2 ^ 53)
    (h : limit + 1 ≤ delay * jitterFactor (random attempt)) :
    ¬ WithinLimit pow options random attempt := by
  intro hwithin
  have hfalse := hwithin hjitter
  rw [hdelay, Doubles.mul, JsNumber.mul, hfloor] at hfalse
  have htrue := Doubles.ofNat_le_round hlimit (by exact_mod_cast h)
  rw [JsNumber.ofNat_eq_ofInt, Nat.cast_succ] at htrue
  exact absurd htrue (by rw [hfalse]; exact Bool.false_ne_true)

end exact

/-- The check throws on primitive values, and where it comes to a message that is no text. -/
theorem isTransientError_eq_none_iff {error : Thrown} : isTransientError error = none ↔
    match error with
    | .primitive _ => True
    | .object _ code status message =>
        (∀ s ∈ transientErrorCodes, code ≠ some (.text s)) ∧
          (∀ n, status ≠ some (.number n)) ∧ ∀ s, message ≠ some (.text s) := by
  cases error with
  | primitive text => simp [isTransientError]
  | object identity code status message =>
      simp only [isTransientError]
      split_ifs with hcode
      · obtain ⟨s, hs, rfl⟩ := hcode
        exact iff_of_false (by simp) fun h => h.1 s hs rfl
      · have hnot : ∀ s ∈ transientErrorCodes, code ≠ some (.text s) :=
          fun s hs h => hcode ⟨s, hs, h⟩
        rw [and_iff_right hnot]
        split
        · simp
        · next hstatus =>
            rw [and_iff_right hstatus]
            split
            · simp
            · next hmessage => exact iff_of_true rfl hmessage

/-- A round goes on when a retry is left and the error is transient. -/
theorem attemptOnce_again {attempt : ℕ} (hle : (attempt : ℚ) ≤ options.maxRetries)
    {error : Thrown} (hfn : fn attempt = .error error)
    (htransient : isTransientError error = some true) :
    attemptOnce pow fn options random attempt =
      .again ⟨attempt, error, calculateDelay pow attempt options (random attempt)⟩ := by
  unfold attemptOnce
  rw [if_pos (by linarith), hfn]
  simp only [if_neg (not_lt.mpr hle), htransient]

theorem transientAt_of_again {attempt : ℕ} {notice : Notice}
    (h : attemptOnce pow fn options random attempt = .again notice) :
    (attempt : ℚ) ≤ options.maxRetries ∧ TransientAt fn attempt ∧
      notice.delayMs = calculateDelay pow attempt options (random attempt) := by
  unfold attemptOnce at h
  cases hfn : fn attempt with
  | ok result =>
      rw [hfn] at h
      split_ifs at h
  | error error =>
      rw [hfn] at h
      dsimp only at h
      split_ifs at h with hround hlast
      cases htransient : isTransientError error with
      | none =>
          rw [htransient] at h
          cases h
      | some transient =>
          rw [htransient] at h
          cases transient with
          | false => cases h
          | true =>
              obtain rfl := Step.again.inj h
              exact ⟨not_lt.mp hlast, ⟨error, hfn, htransient⟩, rfl⟩

/-- A round within the limit whose call rejects with an error that can be checked stops with that
error if it stops. -/
theorem attemptOnce_stop {attempt : ℕ} (hround : (attempt : ℚ) ≤ options.maxRetries + 1)
    {error : Thrown} (hfn : fn attempt = .error error)
    (hcheck : (attempt : ℚ) ≤ options.maxRetries → isTransientError error ≠ none)
    {result : Settled T} (h : attemptOnce pow fn options random attempt = .stop result) :
    result = .rejected error := by
  unfold attemptOnce at h
  rw [if_pos hround, hfn] at h
  dsimp only at h
  split_ifs at h with hlast
  · exact (Step.stop.inj h).symm
  · have hchecked := hcheck (not_lt.mp hlast)
    cases htransient : isTransientError error with
    | none => exact absurd htransient hchecked
    | some transient =>
        rw [htransient] at h
        cases transient with
        | false => exact (Step.stop.inj h).symm
        | true => cases h

/-- Where a retry is left and the error cannot be checked, the check throws. -/
theorem attemptOnce_typeError {attempt : ℕ} (hle : (attempt : ℚ) ≤ options.maxRetries)
    {error : Thrown} (hfn : fn attempt = .error error) (hcheck : isTransientError error = none) :
    attemptOnce pow fn options random attempt = .stop .typeError := by
  unfold attemptOnce
  rw [if_pos (by linarith), hfn]
  simp only [if_neg (not_lt.mpr hle), hcheck]

/-! ### Runs of the loop -/

section run
variable {run : Run Notice (Settled T)}

theorem stops_of_ends (h : Ends (attemptOnce pow fn options random) 1 run) :
    TransientBefore fn run.last := by
  intro j hj hlt
  obtain ⟨notice, -, hagain⟩ := h.goes_on j hj hlt
  exact (transientAt_of_again hagain).2.1

theorem calls_le_of_ends (hretries : 0 ≤ options.maxRetries)
    (h : Ends (attemptOnce pow fn options random) 1 run) :
    (run.last : ℚ) ≤ options.maxRetries + 1 := by
  obtain hone | hmore := Nat.eq_or_lt_of_le h.le_last
  · rw [← hone, Nat.cast_one]
    linarith
  · obtain ⟨notice, -, hagain⟩ := h.goes_on (run.last - 1) (by omega) (by omega)
    have hle := (transientAt_of_again hagain).1
    rw [Nat.cast_sub h.le_last, Nat.cast_one] at hle
    linarith

/-- The loop does not go past a call that does not reject with a transient error. -/
theorem last_le_of_ends (h : Ends (attemptOnce pow fn options random) 1 run) {k : ℕ} (hk : 1 ≤ k)
    (hnot : ¬ TransientAt fn k) : run.last ≤ k := by
  by_contra hlt
  exact hnot (stops_of_ends h k hk (not_le.mp hlt))

/-- The loop goes past every call that a transient error leaves within the limit. -/
theorem le_last_of_ends (h : Ends (attemptOnce pow fn options random) 1 run) {k : ℕ}
    (hround : (k : ℚ) ≤ options.maxRetries + 1) (hbefore : TransientBefore fn k) :
    k ≤ run.last := by
  by_contra hlt
  obtain ⟨error, hfn, htransient⟩ := hbefore run.last h.le_last (not_le.mp hlt)
  have hle : (run.last : ℚ) + 1 ≤ k := by exact_mod_cast not_le.mp hlt
  have hagain : attemptOnce pow fn options random run.last = .again _ :=
    attemptOnce_again (by linarith) hfn htransient
  cases h.stops.symm.trans hagain

/-- A success that is reached is returned. -/
theorem returns_of_ends (h : Ends (attemptOnce pow fn options random) 1 run) {k : ℕ} {result : T}
    (hsuccess : SucceedsAt fn options k result) : run.result = .resolved result k := by
  obtain ⟨hk, hround, hfn, hbefore⟩ := hsuccess
  have hnot : ¬ TransientAt fn k := by
    rintro ⟨error, herror, -⟩
    cases hfn.symm.trans herror
  have hlast : run.last = k :=
    le_antisymm (last_le_of_ends h hk hnot) (le_last_of_ends h hround hbefore)
  have hstops := h.stops
  rw [hlast, attemptOnce, if_pos hround, hfn] at hstops
  exact (Step.stop.inj hstops).symm

/-- A run of benign calls keeps the contract. -/
theorem contract_of_benign (hretries : 0 ≤ options.maxRetries)
    (h : Ends (attemptOnce pow fn options random) 1 run) (hbenign : Benign pow fn options random) :
    Contract fn options run where
  calls_le := calls_le_of_ends hretries h
  stops := stops_of_ends h
  returns := fun _ _ => returns_of_ends h
  rejects := by
    intro hnone
    cases hfn : fn run.last with
    | ok result =>
        exact absurd ⟨h.le_last, calls_le_of_ends hretries h, hfn, stops_of_ends h⟩
          (hnone run.last result)
    | error error =>
        refine ⟨error, rfl, attemptOnce_stop (calls_le_of_ends hretries h) hfn ?_ h.stops⟩
        exact fun hle => (hbenign run.last error h.le_last hle (stops_of_ends h) hfn).1
  waits := by
    intro notice hnotice
    obtain ⟨j, hj, hlt, hagain⟩ := h.noted notice hnotice
    obtain ⟨hle, ⟨error, hfn, htransient⟩, hdelay⟩ := transientAt_of_again hagain
    have hbefore : TransientBefore fn j := fun i hi hij => stops_of_ends h i hi (hij.trans hlt)
    rw [hdelay, calculateDelay_le_iff]
    exact (hbenign j error hj hle hbefore hfn).2 htransient

/-- Calls are benign where the run of them keeps the contract. -/
theorem benign_of_contract (h : Ends (attemptOnce pow fn options random) 1 run)
    (hcontract : Contract fn options run) : Benign pow fn options random := by
  intro attempt error hattempt hle hbefore hfn
  have hnone : isTransientError error ≠ none := by
    intro hcheck
    have hnot : ¬ TransientAt fn attempt := by
      rintro ⟨other, hother, htransient⟩
      obtain rfl : other = error := Except.error.inj (hother.symm.trans hfn)
      cases hcheck.symm.trans htransient
    have hlast : run.last = attempt := le_antisymm (last_le_of_ends h hattempt hnot)
      (le_last_of_ends h (by linarith) hbefore)
    have hstops := h.stops
    rw [hlast, attemptOnce_typeError hle hfn hcheck] at hstops
    have hnever : ∀ k result, ¬ SucceedsAt fn options k result := by
      intro k result hsuccess
      have hresult := returns_of_ends h hsuccess
      rw [← Step.stop.inj hstops] at hresult
      cases hresult
    obtain ⟨last, -, hrejected⟩ := hcontract.rejects hnever
    rw [← Step.stop.inj hstops] at hrejected
    cases hrejected
  refine ⟨hnone, fun htransient => calculateDelay_le_iff.mp ?_⟩
  have hagain : attemptOnce pow fn options random attempt = .again _ :=
    attemptOnce_again hle hfn htransient
  have hlt : attempt < run.last := by
    refine lt_of_le_of_ne (le_last_of_ends h (by linarith) hbefore) fun heq => ?_
    rw [heq] at hagain
    cases h.stops.symm.trans hagain
  obtain ⟨notice, hnotice, hsame⟩ := h.goes_on attempt hattempt hlt
  obtain rfl := Step.again.inj (hagain.symm.trans hsame)
  exact hcontract.waits _ hnotice

/-- The loop ends: when no retry is left, it does not go on. -/
theorem exists_run (pow : ℚ → ℕ → JsNumber) (fn : ℕ → Except Thrown T)
    (options : RequiredRetryOptions) (random : ℕ → ℚ) :
    ∃ run, loop (attemptOnce pow fn options random) (⌊options.maxRetries⌋₊ + 2) 1 = some run := by
  have hpast : options.maxRetries < (⌊options.maxRetries⌋₊ + 1 : ℕ) := by
    rw [Nat.cast_add, Nat.cast_one]
    exact Nat.lt_floor_add_one options.maxRetries
  cases hbody : attemptOnce pow fn options random (⌊options.maxRetries⌋₊ + 1) with
  | stop result => exact loop_isSome (by omega) (by omega) hbody
  | again notice => exact absurd (transientAt_of_again hbody).1 (not_le.mpr hpast)

end run

end contract

def noOptions : RetryOptions := ⟨none, none, none, none, none⟩

/-- The power rounded to the nearest double. -/
def nearestPow (base : ℚ) (exponent : ℕ) : JsNumber := Doubles.round (.finite (base ^ exponent))

def connectionReset : Thrown :=
  .object 0 (some (.text "ECONNRESET")) none (some (.text "read ECONNRESET"))

/-- The first call rejects with a transient error. -/
def resetOnce : ℕ → Except Thrown Unit
  | 1 => .error connectionReset
  | _ => .ok ()

/-- A function that rejects with a text. -/
def connectionLost : ℕ → Except Thrown Unit := fun _ => .error (.primitive "connection lost")

end YieldEngine.Retry
