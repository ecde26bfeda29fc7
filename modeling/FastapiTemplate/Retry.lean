import Mathlib.Algebra.Order.Ring.Rat
import Mathlib.Data.Rat.Cast.Order
import Mathlib.Tactic.IntervalCases

/-!
`async_retry` of `core.resilience.recovery`. The delay before a retry is capped,
but the power under the cap is computed first, and `**` of two floats raises
when the result is out of range. What the cap lets through is turned into a
float by `random.uniform` and by the event loop, which an integer may be too
large for. The error leaves the handler in which the delay is computed, so the
policy is followed as long as the retries that take place can be waited for.
The arithmetic is a parameter.
-/
namespace FastapiTemplate.Retry

/-- The operators on the numbers of a configuration; `none` is an `OverflowError`. -/
structure Arithmetic (Number : Type) [LinearOrder Number] [Zero Number] where
  pow : Number → ℕ → Option Number
  mul : Number → Number → Option Number
  pow_nonneg : ∀ x n y, 0 ≤ x → pow x n = some y → 0 ≤ y
  mul_nonneg : ∀ x y z, 0 ≤ x → 0 ≤ y → mul x y = some z → 0 ≤ z

/-- The conversion to a float, which raises an `OverflowError` unless the number
`fits`, and what `random.uniform(0, delay)` draws at each attempt. -/
structure Jitter (Number : Type) [LinearOrder Number] [Zero Number] where
  fits : Number → Bool
  uniform : ℕ → Number → Number
  uniform_le : ∀ attempt delay, 0 ≤ delay → uniform attempt delay ≤ delay
  uniform_fits : ∀ attempt delay, fits (uniform attempt delay) = true

/-- `retryable` is `isinstance` on the tuple of classes. -/
structure RetryConfig (Number Exc : Type) where
  maxRetries : ℤ
  baseDelay : Number
  maxDelay : Number
  backoffFactor : Number
  jitter : Bool
  retryable : Exc → Bool

/-- What an invocation of `func` does: it returns or it raises. -/
abbrev Outcome (Value Exc : Type) := Except Exc Value

/-- What `async_retry` raises: an exception of `func`, the error of the
arithmetic, or `raise None`. -/
inductive Raised (Exc : Type)
  | ofFunc (e : Exc)
  | overflowError
  | typeError

inductive Event (Value Exc Number : Type)
  | call (outcome : Outcome Value Exc)
  | sleep (delay : Number)

abbrev Run (Value Exc Number : Type) := List (Event Value Exc Number) × Except (Raised Exc) Value

section

variable {Value Exc Number : Type} [LinearOrder Number] [Zero Number]

/-- `min(base_delay * (backoff_factor ** attempt), max_delay)` -/
def backoffDelay (arithmetic : Arithmetic Number) (cfg : RetryConfig Number Exc) (attempt : ℕ) :
    Option Number := do
  let power ← arithmetic.pow cfg.backoffFactor attempt
  let delay ← arithmetic.mul cfg.baseDelay power
  return min delay cfg.maxDelay

variable (arithmetic : Arithmetic Number) (random : Jitter Number) (cfg : RetryConfig Number Exc)
  (outcomes : ℕ → Outcome Value Exc)

/-- `random.uniform(0, delay)` multiplies the delay by a float. -/
def withJitter (attempt : ℕ) (delay : Number) : Option Number :=
  if cfg.jitter then
    if random.fits delay then some (random.uniform attempt delay) else none
  else some delay

/-- `asyncio.sleep(delay)` adds the delay to the time of the event loop, a float. -/
def asyncSleep (delay : Number) : Option Number := if random.fits delay then some delay else none

/-- The time slept after the attempt. -/
def pause (attempt : ℕ) : Option Number := do
  let delay ← backoffDelay arithmetic cfg attempt
  let delay ← withJitter random cfg attempt delay
  asyncSleep random delay

/-- The attempts that are left, from `attempt` on, and `raise last_exc` after them. -/
def retryLoop : ℕ → ℕ → Option Exc → Run Value Exc Number
  | 0, _, lastExc =>
    ([], .error (match lastExc with
      | none => .typeError
      | some e => .ofFunc e))
  | attempts + 1, attempt, _ =>
    match outcomes attempt with
    | .ok value => ([.call (.ok value)], .ok value)
    | .error e =>
      if cfg.retryable e then
        if (attempt : ℤ) = cfg.maxRetries then ([.call (.error e)], .error (.ofFunc e))
        else match pause arithmetic random cfg attempt with
          | none => ([.call (.error e)], .error .overflowError)
          | some delay =>
            let run := retryLoop attempts (attempt + 1) (some e)
            (.call (.error e) :: .sleep delay :: run.1, run.2)
      else ([.call (.error e)], .error (.ofFunc e))

/-- `async_retry` on the stream of what the invocations of `func` do. -/
def asyncRetry : Run Value Exc Number :=
  retryLoop arithmetic random cfg outcomes (cfg.maxRetries + 1).toNat 0 none

/-! ### The policy -/

/-- The outcome is a retryable exception. -/
def RetryConfig.Retries (outcome : Outcome Value Exc) : Prop :=
  ∃ e, outcome = .error e ∧ cfg.retryable e = true

/-- Invocations from `attempt` on with a sleep after each of them but the last. -/
def alternating (delays : ℕ → Number) : ℕ → ℕ → List (Event Value Exc Number)
  | 0, attempt => [.call (outcomes attempt)]
  | sleeps + 1, attempt =>
    .call (outcomes attempt) :: .sleep (delays attempt) :: alternating delays sleeps (attempt + 1)

/-- The invocations end at the first outcome that is not retryable or with the
last attempt, that outcome is the result, and each sleep keeps to its bound. -/
def FollowsPolicy (run : Run Value Exc Number) : Prop :=
  ∃ (last : ℕ) (delays : ℕ → Number),
    (∀ k, k < last → cfg.Retries (outcomes k) ∧ (k : ℤ) < cfg.maxRetries) ∧
    (¬ cfg.Retries (outcomes last) ∨ (last : ℤ) = cfg.maxRetries) ∧
    run = (alternating outcomes delays last 0, (outcomes last).mapError .ofFunc) ∧
    ∀ k, k < last → ∃ power delay, arithmetic.pow cfg.backoffFactor k = some power ∧
      arithmetic.mul cfg.baseDelay power = some delay ∧ delays k ≤ min delay cfg.maxDelay

/-- The delay after the attempt can be computed, and capped it fits a float. -/
def InRange (k : ℕ) : Prop :=
  ∃ power delay, arithmetic.pow cfg.backoffFactor k = some power ∧
    arithmetic.mul cfg.baseDelay power = some delay ∧
    random.fits (min delay cfg.maxDelay) = true

/-- A retry follows the attempt. -/
def Retried (k : ℕ) : Prop :=
  (k : ℤ) < cfg.maxRetries ∧ ∀ j, j ≤ k → cfg.Retries (outcomes j)

/-! ### The runs -/

variable {arithmetic random cfg outcomes} {attempt attempts k : ℕ} {lastExc : Option Exc}
  {value : Value} {e : Exc}

omit [LinearOrder Number] [Zero Number] in
theorem retries_error : cfg.Retries (.error e : Outcome Value Exc) ↔ cfg.retryable e = true := by
  constructor
  · intro ⟨_, h, hretryable⟩
    cases h
    exact hretryable
  · intro h
    exact ⟨e, rfl, h⟩

theorem backoffDelay_eq_some_iff {capped : Number} :
    backoffDelay arithmetic cfg k = some capped ↔
      ∃ power delay, arithmetic.pow cfg.backoffFactor k = some power ∧
        arithmetic.mul cfg.baseDelay power = some delay ∧ min delay cfg.maxDelay = capped := by
  simp only [backoffDelay, Option.bind_eq_bind, Option.bind_eq_some_iff, Option.pure_def,
    Option.some.injEq]
  constructor
  · intro ⟨power, hpower, delay, hdelay, hcapped⟩
    exact ⟨power, delay, hpower, hdelay, hcapped⟩
  · intro ⟨power, delay, hpower, hdelay, hcapped⟩
    exact ⟨power, hpower, delay, hdelay, hcapped⟩

/-- A pause is the delay, or what is drawn below it. -/
theorem pause_eq_some {slept : Number} (h : pause arithmetic random cfg k = some slept) :
    ∃ delay, backoffDelay arithmetic cfg k = some delay ∧ random.fits delay = true ∧
      (slept = random.uniform k delay ∨ slept = delay) := by
  simp only [pause, Option.bind_eq_bind, Option.bind_eq_some_iff, withJitter, asyncSleep] at h
  obtain ⟨delay, hdelay, drawn, hdrawn, hslept⟩ := h
  refine ⟨delay, hdelay, ?_⟩
  by_cases hjitter : cfg.jitter = true <;> by_cases hfits : random.fits delay = true <;>
    simp only [hjitter, hfits, if_true, if_false, Option.some.injEq, reduceCtorEq,
      Bool.false_eq_true] at hdrawn <;> subst hdrawn
  · rw [if_pos (random.uniform_fits k delay), Option.some.injEq] at hslept
    exact ⟨hfits, Or.inl hslept.symm⟩
  · rw [if_pos hfits, Option.some.injEq] at hslept
    exact ⟨hfits, Or.inr hslept.symm⟩
  · rw [if_neg hfits] at hslept
    cases hslept

theorem isSome_pause_iff :
    (pause arithmetic random cfg k).isSome ↔ InRange arithmetic random cfg k := by
  constructor
  · intro h
    obtain ⟨slept, hslept⟩ := Option.isSome_iff_exists.mp h
    obtain ⟨capped, hcapped, hfits, _⟩ := pause_eq_some hslept
    obtain ⟨power, delay, hpower, hdelay, rfl⟩ := backoffDelay_eq_some_iff.mp hcapped
    exact ⟨power, delay, hpower, hdelay, hfits⟩
  · intro ⟨power, delay, hpower, hdelay, hfits⟩
    have hcapped := backoffDelay_eq_some_iff.mpr ⟨power, delay, hpower, hdelay, rfl⟩
    simp only [pause, hcapped, Option.bind_eq_bind, Option.bind_some, withJitter, asyncSleep,
      hfits, if_true]
    split <;> simp [random.uniform_fits, hfits]

/-- An attempt that is not retried is the last one. -/
theorem retryLoop_stop (h : ¬ cfg.Retries (outcomes attempt) ∨ (attempt : ℤ) = cfg.maxRetries) :
    retryLoop arithmetic random cfg outcomes (attempts + 1) attempt lastExc =
      ([.call (outcomes attempt)], (outcomes attempt).mapError .ofFunc) := by
  unfold retryLoop
  cases houtcome : outcomes attempt with
  | ok value => rfl
  | error e =>
    rw [houtcome, retries_error] at h
    by_cases hretryable : cfg.retryable e = true
    · have hlast : (attempt : ℤ) = cfg.maxRetries := by tauto
      simp only [if_pos hretryable, if_pos hlast]
      rfl
    · simp only [if_neg hretryable]
      rfl

/-- A retried attempt is followed by the sleep and the next attempts. -/
theorem retryLoop_retry (attempts : ℕ) (lastExc : Option Exc) {slept : Number}
    (h : cfg.Retries (outcomes attempt)) (hmore : (attempt : ℤ) < cfg.maxRetries)
    (hslept : pause arithmetic random cfg attempt = some slept) :
    ∃ lastExc', retryLoop arithmetic random cfg outcomes (attempts + 1) attempt lastExc =
      (.call (outcomes attempt) :: .sleep slept ::
        (retryLoop arithmetic random cfg outcomes attempts (attempt + 1) lastExc').1,
        (retryLoop arithmetic random cfg outcomes attempts (attempt + 1) lastExc').2) := by
  obtain ⟨e, houtcome, hretryable⟩ := h
  refine ⟨some e, ?_⟩
  rw [retryLoop, houtcome]
  simp only [if_pos hretryable, if_neg (ne_of_lt hmore), hslept]

theorem retryLoop_overflow (h : cfg.Retries (outcomes attempt))
    (hmore : (attempt : ℤ) < cfg.maxRetries)
    (hdelay : pause arithmetic random cfg attempt = none) :
    (retryLoop arithmetic random cfg outcomes (attempts + 1) attempt lastExc).2 =
      .error .overflowError := by
  obtain ⟨e, houtcome, hretryable⟩ := h
  rw [retryLoop, houtcome]
  simp only [if_pos hretryable, if_neg (ne_of_lt hmore), hdelay]

/-- The time of the sleep after an attempt. -/
def sleepTime (arithmetic : Arithmetic Number) (random : Jitter Number)
    (cfg : RetryConfig Number Exc) (attempt : ℕ) : Number :=
  (pause arithmetic random cfg attempt).getD 0

theorem sleepTime_eq {slept : Number} (h : pause arithmetic random cfg attempt = some slept) :
    sleepTime arithmetic random cfg attempt = slept := by
  unfold sleepTime
  rw [h, Option.getD_some]

/-- A sleep keeps to the capped delay. -/
theorem sleepTime_le (hbase : 0 ≤ cfg.baseDelay) (hmax : 0 ≤ cfg.maxDelay)
    (hfactor : 0 ≤ cfg.backoffFactor) (h : (pause arithmetic random cfg k).isSome) :
    ∃ power delay, arithmetic.pow cfg.backoffFactor k = some power ∧
      arithmetic.mul cfg.baseDelay power = some delay ∧
      sleepTime arithmetic random cfg k ≤ min delay cfg.maxDelay := by
  obtain ⟨slept, hslept⟩ := Option.isSome_iff_exists.mp h
  obtain ⟨capped, hcapped, _, hdrawn⟩ := pause_eq_some hslept
  obtain ⟨power, delay, hpower, hdelay, rfl⟩ := backoffDelay_eq_some_iff.mp hcapped
  have hpos : 0 ≤ delay := arithmetic.mul_nonneg _ _ _ hbase
    (arithmetic.pow_nonneg _ _ _ hfactor hpower) hdelay
  refine ⟨power, delay, hpower, hdelay, ?_⟩
  rw [sleepTime_eq hslept]
  rcases hdrawn with rfl | rfl
  · exact random.uniform_le _ _ (le_min hpos hmax)
  · exact le_rfl

/-- While the pauses can be made the loop follows the policy. -/
theorem retryLoop_follows (lastExc : Option Exc)
    (hrange : (attempt : ℤ) + attempts = cfg.maxRetries)
    (hdelays : ∀ k, attempt ≤ k → (k : ℤ) < cfg.maxRetries →
      (∀ j, attempt ≤ j → j ≤ k → cfg.Retries (outcomes j)) →
      (pause arithmetic random cfg k).isSome) :
    ∃ sleeps, (∀ k, attempt ≤ k → k < attempt + sleeps →
        cfg.Retries (outcomes k) ∧ (k : ℤ) < cfg.maxRetries ∧
        (pause arithmetic random cfg k).isSome) ∧
      (¬ cfg.Retries (outcomes (attempt + sleeps)) ∨
        ((attempt + sleeps : ℕ) : ℤ) = cfg.maxRetries) ∧
      retryLoop arithmetic random cfg outcomes (attempts + 1) attempt lastExc =
        (alternating outcomes (sleepTime arithmetic random cfg) sleeps attempt,
          (outcomes (attempt + sleeps)).mapError .ofFunc) := by
  induction attempts generalizing attempt lastExc with
  | zero =>
    have hlast : (attempt : ℤ) = cfg.maxRetries := by omega
    exact ⟨0, fun k hlow hhigh => by omega, Or.inr hlast, retryLoop_stop (Or.inr hlast)⟩
  | succ attempts ih =>
    by_cases hretries : cfg.Retries (outcomes attempt)
    · have hmore : (attempt : ℤ) < cfg.maxRetries := by omega
      have hsome : (pause arithmetic random cfg attempt).isSome := by
        apply hdelays attempt le_rfl hmore
        intro j hlow hhigh
        have hj : j = attempt := by omega
        rw [hj]
        exact hretries
      obtain ⟨delay, hdelay⟩ := Option.isSome_iff_exists.mp hsome
      obtain ⟨lastExc', hloop⟩ :=
        retryLoop_retry (attempts + 1) lastExc hretries hmore hdelay
      have hnext : ∀ k, attempt + 1 ≤ k → (k : ℤ) < cfg.maxRetries →
          (∀ j, attempt + 1 ≤ j → j ≤ k → cfg.Retries (outcomes j)) →
          (pause arithmetic random cfg k).isSome := by
        intro k hlow hhigh hall
        apply hdelays k (by omega) hhigh
        intro j hj hjk
        by_cases hsame : j = attempt
        · rw [hsame]
          exact hretries
        · exact hall j (by omega) hjk
      obtain ⟨sleeps, hbefore, hstop, hrest⟩ :=
        ih lastExc' (by omega) hnext
      have hshift : attempt + 1 + sleeps = attempt + (sleeps + 1) := by omega
      rw [hshift] at hbefore hstop hrest
      refine ⟨sleeps + 1, ?_, hstop, ?_⟩
      · intro k hlow hhigh
        by_cases hsame : k = attempt
        · rw [hsame]
          exact ⟨hretries, hmore, hsome⟩
        · exact hbefore k (by omega) hhigh
      · rw [hloop, hrest, alternating, sleepTime_eq hdelay]
    · refine ⟨0, fun k hlow hhigh => by omega, Or.inl hretries, ?_⟩
      exact retryLoop_stop (Or.inl hretries)

/-- A pause that cannot be made ends the loop with the error. -/
theorem retryLoop_raises (lastExc : Option Exc)
    (hrange : (attempt : ℤ) + attempts = cfg.maxRetries)
    (hk : attempt ≤ k) (hmore : (k : ℤ) < cfg.maxRetries)
    (hretries : ∀ j, attempt ≤ j → j ≤ k → cfg.Retries (outcomes j))
    (hdelay : pause arithmetic random cfg k = none) :
    (retryLoop arithmetic random cfg outcomes (attempts + 1) attempt lastExc).2 =
      .error .overflowError := by
  induction attempts generalizing attempt lastExc with
  | zero => omega
  | succ attempts ih =>
    have hfirst : cfg.Retries (outcomes attempt) := hretries attempt le_rfl hk
    have hless : (attempt : ℤ) < cfg.maxRetries := by omega
    cases hnow : pause arithmetic random cfg attempt with
    | none => exact retryLoop_overflow hfirst hless hnow
    | some delay =>
      have hne : attempt ≠ k := by
        intro hsame
        rw [hsame, hdelay] at hnow
        cases hnow
      obtain ⟨lastExc', hloop⟩ :=
        retryLoop_retry (attempts + 1) lastExc hfirst hless hnow
      rw [hloop]
      exact ih lastExc' (by omega) (by omega) (fun j hlow hhigh => hretries j (by omega) hhigh)

theorem asyncRetry_eq (hretries : 0 ≤ cfg.maxRetries) :
    ∃ attempts : ℕ, ((0 : ℕ) : ℤ) + attempts = cfg.maxRetries ∧
      asyncRetry arithmetic random cfg outcomes =
        retryLoop arithmetic random cfg outcomes (attempts + 1) 0 none := by
  obtain ⟨attempts, hattempts⟩ := Int.eq_ofNat_of_zero_le hretries
  have hcount : (cfg.maxRetries + 1).toNat = attempts + 1 := by omega
  refine ⟨attempts, by omega, ?_⟩
  unfold asyncRetry
  rw [hcount]

/-- Such an error is no outcome of the function. -/
theorem not_followsPolicy (hk : Retried cfg outcomes k)
    (hdelay : pause arithmetic random cfg k = none) :
    ¬ FollowsPolicy arithmetic cfg outcomes (asyncRetry arithmetic random cfg outcomes) := by
  intro ⟨last, delays, _, _, hrun, _⟩
  obtain ⟨hmore, hall⟩ := hk
  obtain ⟨attempts, hrange, hloop⟩ := asyncRetry_eq (by omega : 0 ≤ cfg.maxRetries)
  have hraised := retryLoop_raises none hrange (Nat.zero_le k) hmore
    (fun j _ hj => hall j hj) hdelay
  rw [← hloop, hrun] at hraised
  cases houtcome : outcomes last with
  | ok value =>
    rw [houtcome] at hraised
    cases hraised
  | error e =>
    rw [houtcome] at hraised
    cases hraised

end

/-! ### Doubles -/

/-- The doubles where the results are powers of two: `**` is exact up to the
largest exponent, from which on it raises. -/
def doubles : Arithmetic ℚ where
  pow x n := if x ^ n < 2 ^ 1024 then some (x ^ n) else none
  mul x y := some (x * y)
  pow_nonneg := by
    intro x n y hx h
    by_cases hfits : x ^ n < 2 ^ 1024
    · rw [if_pos hfits] at h
      cases h
      exact pow_nonneg hx n
    · rw [if_neg hfits] at h
      cases h
  mul_nonneg := by
    intro x y z hx hy h
    cases h
    exact mul_nonneg hx hy

/-- The least value of every interval. -/
def noWait : Jitter ℚ where
  fits x := x < 2 ^ 1024
  uniform _ _ := 0
  uniform_le _ _ h := h
  uniform_fits _ _ := by decide +kernel

/-- The default configuration, and an invocation that succeeds the third time. -/
def standard : RetryConfig ℚ Unit := ⟨3, 1 / 2, 30, 2, true, fun _ => true⟩

def flaky (attempt : ℕ) : Outcome ℕ Unit := if attempt < 2 then .error () else .ok 7

/-- The default delays with more attempts than a double has exponents. -/
def patient : RetryConfig ℚ Unit := ⟨1025, 1 / 2, 30, 2, true, fun _ => true⟩

end FastapiTemplate.Retry
