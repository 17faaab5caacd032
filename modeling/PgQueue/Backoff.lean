import Mathlib.Algebra.Order.Ring.Rat
import PgQueue.Types

/-!
# The retry backoff: decorrelated jitter between `BaseDelay` and `MaxDelay`

* `BackoffPolicy.normalized`   zero fields are replaced by the defaults;
* `BackoffPolicy.delay`        one step: a random delay between the base and the previous delay
                               times the multiplier, clamped;
* `computeRetryDelay`          the policy advanced `attempt` times, at most 64;
* `Env.computeRetryDelay_eq`   what a transaction takes for this delay.

Durations are in nanoseconds, as in the client.  Its floating-point numbers are rationals here and
the jitter is any rational of `[0, 1)`; the conversion back to a duration truncates.
-/

namespace PgQueue.Backoff

/-- a database duration in nanoseconds -/
def nanos (d : Duration) : Int := 1000 * d

theorem nanos_lt {a b : Duration} : nanos a < nanos b ↔ a < b :=
  Int.mul_lt_mul_left (by decide)

def second : Int := nanos (1000 * millisecond)
def minute : Int := 60 * second

def defaultBackoffBase : Int := 1 * second
def defaultBackoffMax : Int := 5 * minute
def defaultBackoffMultiplier : ℚ := 3

structure BackoffPolicy where
  baseDelay : Int
  maxDelay : Int
  multiplier : ℚ
deriving DecidableEq

def defaultBackoffPolicy : BackoffPolicy :=
  ⟨defaultBackoffBase, defaultBackoffMax, defaultBackoffMultiplier⟩

/-- `ErrInvalidConfig` with the text it is wrapped in -/
structure InvalidConfig where
  text : String
deriving DecidableEq, Repr

def validateBackoffPolicy (p : BackoffPolicy) : Except InvalidConfig Unit :=
  if p.baseDelay < 0 ∨ p.maxDelay < 0 then .error ⟨"backoff delays must not be negative"⟩
  else if p.multiplier ≠ 0 ∧ p.multiplier < 1 then .error ⟨"backoff multiplier must be >= 1"⟩
  else if p.baseDelay > 0 ∧ p.maxDelay > 0 ∧ p.maxDelay < p.baseDelay then
    .error ⟨"backoff MaxDelay must be >= BaseDelay"⟩
  else .ok ()

/-- the defaults are filled in one field after the other: the cap is compared with the base that
has just been substituted -/
def BackoffPolicy.normalized (p : BackoffPolicy) : BackoffPolicy :=
  let d := defaultBackoffPolicy
  let baseDelay := if p.baseDelay ≤ 0 then d.baseDelay else p.baseDelay
  let maxDelay := if p.maxDelay < baseDelay then d.maxDelay else p.maxDelay
  let maxDelay := if maxDelay < baseDelay then baseDelay else maxDelay
  let multiplier := if p.multiplier < 1 then d.multiplier else p.multiplier
  ⟨baseDelay, maxDelay, multiplier⟩

/-- what `rand.Float64` returns -/
structure Jitter where
  value : ℚ
  nonneg : 0 ≤ value
  lt_one : value < 1

def Jitter.zero : Jitter := ⟨0, le_refl 0, zero_lt_one⟩

def truncate (x : ℚ) : Int := x.num.tdiv x.den

def BackoffPolicy.delay (p : BackoffPolicy) (r : Jitter) (prev : Int) : Int :=
  let pn := p.normalized
  let prev := if prev < pn.baseDelay then pn.baseDelay else prev
  let low : ℚ := pn.baseDelay
  let high : ℚ := prev * pn.multiplier
  let high := if high < low then low else high
  let d := truncate (low + r.value * (high - low))
  if d > pn.maxDelay then pn.maxDelay
  else if d < pn.baseDelay then pn.baseDelay
  else d

def maxBackoffSteps : Int := 64

/-- the loop of `computeRetryDelay`: each pass draws its own jitter -/
def BackoffPolicy.advance (p : BackoffPolicy) (draws : Nat → Jitter) : Nat → Int
  | 0 => 0
  | n + 1 => p.delay (draws n) (p.advance draws n)

def computeRetryDelay (p : BackoffPolicy) (draws : Nat → Jitter) (attempt override : Int) : Int :=
  if override > 0 then
    if override > nanos maxRetryDelay then nanos maxRetryDelay else override
  else p.advance draws (min attempt maxBackoffSteps).toNat

/-- **A transaction whose delays are the policy's computes what the client computes.**  `draws` is the
jitter of a call, and `round` makes microseconds of the nanoseconds that are sent. -/
theorem Env.computeRetryDelay_eq {env : Env} {p : BackoffPolicy} {draws : UUID → Nat → Nat → Jitter}
    {round : Int → Duration} (hround : ∀ d, round (nanos d) = d)
    (hpolicy : ∀ id attempt, env.policyDelay id attempt =
      round (computeRetryDelay p (draws id attempt) attempt 0))
    (id : UUID) (attempt : Nat) (override : Duration) :
    env.computeRetryDelay id attempt override =
      round (computeRetryDelay p (draws id attempt) attempt (nanos override)) := by
  have hpos : nanos override > 0 ↔ override > 0 := nanos_lt (a := 0)
  have hover : nanos override > nanos maxRetryDelay ↔ override > maxRetryDelay := nanos_lt
  unfold PgQueue.Env.computeRetryDelay computeRetryDelay
  by_cases ho : override > 0
  · rw [if_pos ho, if_pos (hpos.mpr ho)]
    by_cases hmax : override > maxRetryDelay
    · rw [if_pos hmax, if_pos (hover.mpr hmax), hround]
    · rw [if_neg hmax, if_neg (mt hover.mp hmax), hround]
  · rw [if_neg ho, if_neg (mt hpos.mp ho), hpolicy]
    rfl

/-! ## the bounds -/

section
variable (p : BackoffPolicy)

theorem normalized_base_pos : 0 < p.normalized.baseDelay := by
  show 0 < if p.baseDelay ≤ 0 then defaultBackoffBase else p.baseDelay
  split
  · decide
  · omega

theorem normalized_base_le_max : p.normalized.baseDelay ≤ p.normalized.maxDelay := by
  simp only [BackoffPolicy.normalized]
  split_ifs <;> omega

theorem delay_mem (r : Jitter) (prev : Int) :
    p.normalized.baseDelay ≤ p.delay r prev ∧ p.delay r prev ≤ p.normalized.maxDelay := by
  have hle := normalized_base_le_max p
  simp only [BackoffPolicy.delay]
  split_ifs <;> omega

variable {p}

theorem advance_le (draws : Nat → Jitter) (n : Nat) :
    p.advance draws n ≤ p.normalized.maxDelay := by
  cases n with
  | zero =>
    have hb := normalized_base_pos p
    have hle := normalized_base_le_max p
    show (0 : Int) ≤ _
    omega
  | succ n => exact (delay_mem p _ _).2

theorem base_le_max_of_validate (hv : validateBackoffPolicy p = .ok ()) (hb : 0 < p.baseDelay)
    (hm : 0 < p.maxDelay) : p.baseDelay ≤ p.maxDelay := by
  unfold validateBackoffPolicy at hv
  split_ifs at hv with h1 h2 h3
  exact Int.not_lt.mp fun hlt => h3 ⟨hb, hm, hlt⟩

/-- the caller's cap survives the normalisation if it is not below the base that is used -/
theorem normalized_max_eq (h : p.normalized.baseDelay ≤ p.maxDelay) :
    p.normalized.maxDelay = p.maxDelay := by
  have hb : p.normalized.baseDelay = if p.baseDelay ≤ 0 then defaultBackoffBase else p.baseDelay :=
    rfl
  rw [hb] at h
  simp only [BackoffPolicy.normalized]
  have hd : defaultBackoffPolicy.baseDelay = defaultBackoffBase := rfl
  rw [hd, if_neg (not_lt.mpr h), if_neg (not_lt.mpr h)]

/-- with a cap configured, the base that is used is within it exactly when it was configured too
or the default base fits -/
theorem normalized_base_le_iff (hv : validateBackoffPolicy p = .ok ()) (hm : 0 < p.maxDelay) :
    p.normalized.baseDelay ≤ p.maxDelay ↔ 0 < p.baseDelay ∨ defaultBackoffBase ≤ p.maxDelay := by
  have hb : p.normalized.baseDelay = if p.baseDelay ≤ 0 then defaultBackoffBase else p.baseDelay :=
    rfl
  rw [hb]
  by_cases h0 : p.baseDelay ≤ 0
  · rw [if_pos h0]
    exact ⟨Or.inr, fun h => h.resolve_left (by omega)⟩
  · rw [if_neg h0]
    have hle := base_le_max_of_validate hv (by omega) hm
    exact ⟨fun _ => Or.inl (by omega), fun _ => hle⟩

end

theorem base_le_first (p : BackoffPolicy) (draws : Nat → Jitter) {override : Int}
    (ho : override ≤ 0) : p.normalized.baseDelay ≤ computeRetryDelay p draws 1 override := by
  unfold computeRetryDelay
  rw [if_neg (by omega)]
  exact (delay_mem p _ _).1

/-- `MaxDelay` bounds the delay before every retry exactly when the base is configured as well, or
the cap is not below the one second that replaces it -/
theorem retry_delay_le_maxDelay (p : BackoffPolicy) (hv : validateBackoffPolicy p = .ok ())
    (hm : 0 < p.maxDelay) (override : Int) (ho : override ≤ 0) :
    (∀ (attempt : Int) (draws : Nat → Jitter),
        computeRetryDelay p draws attempt override ≤ p.maxDelay) ↔
      0 < p.baseDelay ∨ defaultBackoffBase ≤ p.maxDelay := by
  rw [← normalized_base_le_iff hv hm]
  constructor
  · intro h
    exact le_trans (base_le_first p (fun _ => .zero) ho) (h 1 fun _ => .zero)
  · intro h attempt draws
    unfold computeRetryDelay
    rw [if_neg (by omega), ← normalized_max_eq h]
    exact advance_le draws _

theorem retry_delay_le_maxDelay_seconds :
    computeRetryDelay ⟨0, 2 * second, 0⟩ (fun _ => .zero) 7 0 ≤ 2 * second :=
  (retry_delay_le_maxDelay ⟨0, 2 * second, 0⟩ rfl (by decide) 0 (le_refl 0)).mpr
    (Or.inr (by decide)) 7 _

/-- a cap of half a second with the base left out: accepted, and the first retry waits a second -/
theorem retry_delay_over_maxDelay :
    validateBackoffPolicy ⟨0, second / 2, 0⟩ = .ok () ∧
    computeRetryDelay ⟨0, second / 2, 0⟩ (fun _ => .zero) 1 0 = second := by
  constructor
  · rfl
  · decide +kernel

end PgQueue.Backoff
