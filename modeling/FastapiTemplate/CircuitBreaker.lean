import Mathlib.Algebra.Order.Group.Defs
import Mathlib.Algebra.Order.Group.Int
import Mathlib.Data.Int.Order.Basic

/-!
`core.resilience.recovery.CircuitBreaker`. A call checks the state under the
lock, awaits its function, and records the outcome under the lock. Calls that
do not overlap behave as the documented diagram, in which the failures are
those in a row and HALF_OPEN is one trial.
-/
namespace FastapiTemplate

variable {τ : Type*} [AddCommGroup τ] [LinearOrder τ]

structure CircuitBreakerConfig (τ : Type*) where
  failureThreshold : ℤ := 5
  recoveryTimeout : τ
  halfOpenMax : ℤ := 1

/-- The message tells the name, and how long to wait before a retry. -/
structure CircuitOpenError (τ : Type*) where
  name : String
  retryIn : τ
  deriving DecidableEq

inductive CircuitState
  | closed
  | opened
  | halfOpen
  deriving DecidableEq

structure CircuitBreaker (τ : Type*) where
  name : String
  cfg : CircuitBreakerConfig τ
  state : CircuitState
  failureCount : ℕ
  lastFailureTime : τ
  openUntil : τ

namespace CircuitBreaker

def init (name : String) (cfg : CircuitBreakerConfig τ) : CircuitBreaker τ where
  name := name
  cfg := cfg
  state := .closed
  failureCount := 0
  lastFailureTime := 0
  openUntil := 0

/-- The check at the start of `call`. The clock is read again for the message. -/
def enter (b : CircuitBreaker τ) (now again : τ) : Except (CircuitOpenError τ) (CircuitBreaker τ) :=
  if b.state = .opened then
    if b.openUntil ≤ now then .ok { b with state := .halfOpen }
    else .error ⟨b.name, b.openUntil - again⟩
  else .ok b

/-- The clock is read for the failure, and again for the deadline. -/
def recordFailure (b : CircuitBreaker τ) (now again : τ) : CircuitBreaker τ :=
  let counted := { b with failureCount := b.failureCount + 1, lastFailureTime := now }
  if b.state = .halfOpen ∨ (b.state = .closed ∧ b.cfg.failureThreshold ≤ b.failureCount + 1) then
    { counted with state := .opened, openUntil := again + b.cfg.recoveryTimeout }
  else counted

def recordSuccess (b : CircuitBreaker τ) : CircuitBreaker τ :=
  { b with state := .closed, failureCount := 0 }

section Parts

variable {b b' : CircuitBreaker τ} {now again : τ}

theorem enter_of_closed (h : b.state ≠ .opened) : b.enter now again = .ok b := if_neg h

theorem enter_of_due (h : b.state = .opened) (hdue : b.openUntil ≤ now) :
    b.enter now again = .ok { b with state := .halfOpen } := by
  rw [enter, if_pos h, if_pos hdue]

theorem enter_of_early (h : b.state = .opened) (hearly : now < b.openUntil) :
    b.enter now again = .error ⟨b.name, b.openUntil - again⟩ := by
  rw [enter, if_pos h, if_neg (not_le.mpr hearly)]

/-- A call passes an OPEN breaker from the deadline on, as a trial. -/
theorem enter_eq_ok_iff : b.enter now again = .ok b' ↔
    (b.state ≠ .opened ∧ b' = b) ∨
      (b.state = .opened ∧ b.openUntil ≤ now ∧ b' = { b with state := .halfOpen }) := by
  by_cases hopened : b.state = .opened
  · by_cases hdue : b.openUntil ≤ now
    · rw [enter_of_due hopened hdue]
      simp [hopened, hdue, eq_comm]
    · rw [enter_of_early hopened (not_le.mp hdue)]
      simp [hopened, hdue]
  · rw [enter_of_closed hopened]
    simp [hopened, eq_comm]

theorem enter_eq_error_iff {error : CircuitOpenError τ} : b.enter now again = .error error ↔
    b.state = .opened ∧ now < b.openUntil ∧ error = ⟨b.name, b.openUntil - again⟩ := by
  by_cases hopened : b.state = .opened
  · by_cases hdue : b.openUntil ≤ now
    · rw [enter_of_due hopened hdue]
      simp [hdue]
    · rw [enter_of_early hopened (not_le.mp hdue)]
      simp [hopened, not_le.mp hdue, eq_comm]
  · rw [enter_of_closed hopened]
    simp [hopened]

omit [LinearOrder τ] in
theorem recordFailure_of_trip (h : b.state = .halfOpen ∨
    (b.state = .closed ∧ b.cfg.failureThreshold ≤ b.failureCount + 1)) :
    b.recordFailure now again = { b with
      state := .opened
      failureCount := b.failureCount + 1
      lastFailureTime := now
      openUntil := again + b.cfg.recoveryTimeout } := if_pos h

omit [LinearOrder τ] in
theorem recordFailure_of_stay (h : ¬ (b.state = .halfOpen ∨
    (b.state = .closed ∧ b.cfg.failureThreshold ≤ b.failureCount + 1))) :
    b.recordFailure now again = { b with
      failureCount := b.failureCount + 1
      lastFailureTime := now } := if_neg h

end Parts

/-! ### Calls that do not overlap -/

/-- A call, with its readings of the clock and what its function does. -/
structure Invocation (τ : Type*) where
  entersAt : τ
  retryFrom : τ
  failsAt : τ
  tripsAt : τ
  returns : Bool

inductive Answer (τ : Type*)
  | rejected (error : CircuitOpenError τ)
  | returned
  | raised
  deriving DecidableEq

/-- The function is awaited, and its outcome recorded. -/
def invoke (b : CircuitBreaker τ) (c : Invocation τ) : CircuitBreaker τ × Answer τ :=
  if c.returns then (b.recordSuccess, .returned)
  else (b.recordFailure c.failsAt c.tripsAt, .raised)

def call (b : CircuitBreaker τ) (c : Invocation τ) : CircuitBreaker τ × Answer τ :=
  match b.enter c.entersAt c.retryFrom with
  | .error error => (b, .rejected error)
  | .ok b => b.invoke c

end CircuitBreaker

/-! ### The documented diagram -/

/-- The diagram between two calls: the failures in a row since the start or the
last success, and the deadline while the circuit is open. -/
structure CircuitDiagram (τ : Type*) where
  failures : ℕ
  openUntil : Option τ

namespace CircuitDiagram

open CircuitBreaker

def init : CircuitDiagram τ := ⟨0, none⟩

def state (d : CircuitDiagram τ) : CircuitState := if d.openUntil.isSome then .opened else .closed

/-- A failure in a closed circuit trips it when it is the last one that the
threshold allows in a row, a failed trial always. -/
def fail (cfg : CircuitBreakerConfig τ) (d : CircuitDiagram τ) (now : τ) : CircuitDiagram τ :=
  if d.openUntil.isSome ∨ (d.failures + 1 : ℤ) = cfg.failureThreshold then
    ⟨d.failures + 1, some (now + cfg.recoveryTimeout)⟩
  else ⟨d.failures + 1, none⟩

def invoke (cfg : CircuitBreakerConfig τ) (d : CircuitDiagram τ) (c : Invocation τ) :
    CircuitDiagram τ × Answer τ :=
  if c.returns then (init, .returned) else (d.fail cfg c.tripsAt, .raised)

def call (name : String) (cfg : CircuitBreakerConfig τ) (d : CircuitDiagram τ)
    (c : Invocation τ) : CircuitDiagram τ × Answer τ :=
  match d.openUntil with
  | some deadline =>
    if c.entersAt < deadline then (d, .rejected ⟨name, deadline - c.retryFrom⟩)
    else d.invoke cfg c
  | none => d.invoke cfg c

end CircuitDiagram

/-- What calls one after the other show: the answer of each, and the state and
the count after it. -/
def history {σ : Type*} (call : σ → CircuitBreaker.Invocation τ → σ × CircuitBreaker.Answer τ)
    (shown : σ → CircuitState × ℕ) :
    σ → List (CircuitBreaker.Invocation τ) → List (CircuitBreaker.Answer τ × CircuitState × ℕ)
  | _, [] => []
  | s, c :: cs => ((call s c).2, shown (call s c).1) :: history call shown (call s c).1 cs

def CircuitBreaker.shown (b : CircuitBreaker τ) : CircuitState × ℕ := (b.state, b.failureCount)

def CircuitDiagram.shown (d : CircuitDiagram τ) : CircuitState × ℕ := (d.state, d.failures)

/-- Between two calls the breaker is where the diagram is. In a closed circuit
the failures in a row have not reached the threshold yet. -/
structure Follows (name : String) (cfg : CircuitBreakerConfig τ) (b : CircuitBreaker τ)
    (d : CircuitDiagram τ) : Prop where
  name_eq : b.name = name
  cfg_eq : b.cfg = cfg
  count : b.failureCount = d.failures
  state : b.state = d.state
  deadline : ∀ t, d.openUntil = some t → b.openUntil = t
  below : d.openUntil = none → (d.failures : ℤ) < cfg.failureThreshold

namespace Follows

variable {name : String} {cfg : CircuitBreakerConfig τ} {b : CircuitBreaker τ}
  {d : CircuitDiagram τ}

omit [AddCommGroup τ] [LinearOrder τ] in
/-- The circuit is closed with a zero count. -/
theorem closed (hname : b.name = name) (hcfg : b.cfg = cfg) (hstate : b.state = .closed)
    (hcount : b.failureCount = 0) (hthreshold : 1 ≤ cfg.failureThreshold) :
    Follows name cfg b .init where
  name_eq := hname
  cfg_eq := hcfg
  count := hcount
  state := hstate
  deadline := nofun
  below _ := by
    change (0 : ℤ) < cfg.failureThreshold
    omega

omit [LinearOrder τ] in
/-- A failure in a closed circuit. -/
theorem failure (h : Follows name cfg b d) (hclosed : d.openUntil = none) (now again : τ) :
    Follows name cfg (b.recordFailure now again) (d.fail cfg again) := by
  have hstate : b.state = .closed := by
    rw [h.state, CircuitDiagram.state, hclosed]
    rfl
  have hbelow := h.below hclosed
  by_cases hlast : (d.failures + 1 : ℤ) = cfg.failureThreshold
  · rw [CircuitBreaker.recordFailure_of_trip
      (Or.inr ⟨hstate, by rw [h.cfg_eq, h.count]; omega⟩), CircuitDiagram.fail,
      if_pos (Or.inr hlast)]
    exact ⟨h.name_eq, h.cfg_eq, congrArg (· + 1) h.count, rfl,
      fun t ht => by rw [← Option.some.inj ht, h.cfg_eq], nofun⟩
  · have hstay : ¬ (b.state = .halfOpen ∨
        (b.state = .closed ∧ b.cfg.failureThreshold ≤ b.failureCount + 1)) := by
      rw [hstate, h.cfg_eq, h.count]
      rintro (hhalf | ⟨_, hle⟩)
      · cases hhalf
      · omega
    rw [CircuitBreaker.recordFailure_of_stay hstay, CircuitDiagram.fail, if_neg]
    · refine ⟨h.name_eq, h.cfg_eq, congrArg (· + 1) h.count, hstate, nofun, ?_⟩
      intro _
      change ((d.failures + 1 : ℕ) : ℤ) < cfg.failureThreshold
      omega
    · rw [hclosed]
      rintro (hsome | hsame)
      · cases hsome
      · exact hlast hsame

omit [LinearOrder τ] in
/-- A failed trial. -/
theorem trial_failure (h : Follows name cfg b d) (hopen : d.openUntil.isSome = true)
    (now again : τ) :
    Follows name cfg (CircuitBreaker.recordFailure { b with state := .halfOpen } now again)
      (d.fail cfg again) := by
  rw [CircuitBreaker.recordFailure_of_trip (Or.inl rfl), CircuitDiagram.fail,
    if_pos (Or.inl hopen)]
  exact ⟨h.name_eq, h.cfg_eq, congrArg (· + 1) h.count, rfl,
    fun t ht => by rw [← Option.some.inj ht, h.cfg_eq], nofun⟩

omit [LinearOrder τ] in
/-- The function of a call that has passed the check, in a closed circuit or as
the trial. -/
theorem invoke {b' : CircuitBreaker τ} (h : Follows name cfg b d)
    (hthreshold : 1 ≤ cfg.failureThreshold)
    (hpassed : (d.openUntil = none ∧ b' = b) ∨
      (d.openUntil.isSome = true ∧ b' = { b with state := .halfOpen }))
    (c : CircuitBreaker.Invocation τ) :
    (b'.invoke c).2 = (d.invoke cfg c).2 ∧ Follows name cfg (b'.invoke c).1 (d.invoke cfg c).1 := by
  have hname : b'.name = name := by
    rcases hpassed with ⟨_, rfl⟩ | ⟨_, rfl⟩ <;> exact h.name_eq
  have hcfg : b'.cfg = cfg := by
    rcases hpassed with ⟨_, rfl⟩ | ⟨_, rfl⟩ <;> exact h.cfg_eq
  unfold CircuitBreaker.invoke CircuitDiagram.invoke
  by_cases hreturns : c.returns = true
  · rw [if_pos hreturns, if_pos hreturns]
    exact ⟨rfl, closed hname hcfg rfl rfl hthreshold⟩
  · rw [if_neg hreturns, if_neg hreturns]
    refine ⟨rfl, ?_⟩
    rcases hpassed with ⟨hclosed, rfl⟩ | ⟨hopen, rfl⟩
    · exact h.failure hclosed _ _
    · exact h.trial_failure hopen _ _

theorem call (h : Follows name cfg b d) (hthreshold : 1 ≤ cfg.failureThreshold)
    (c : CircuitBreaker.Invocation τ) :
    (b.call c).2 = (d.call name cfg c).2 ∧ Follows name cfg (b.call c).1 (d.call name cfg c).1 := by
  have hstate := h.state
  unfold CircuitDiagram.state at hstate
  unfold CircuitBreaker.call CircuitDiagram.call
  rcases hopen : d.openUntil with _ | deadline
  · rw [hopen] at hstate
    have hclosed : b.state ≠ .opened := by
      rw [hstate]
      exact CircuitState.noConfusion
    rw [CircuitBreaker.enter_of_closed hclosed]
    exact h.invoke hthreshold (Or.inl ⟨hopen, rfl⟩) c
  · rw [hopen] at hstate
    have hopened : b.state = .opened := hstate
    have hdeadline := h.deadline deadline hopen
    by_cases hearly : c.entersAt < deadline
    · rw [CircuitBreaker.enter_of_early hopened (by rw [hdeadline]; exact hearly)]
      dsimp only
      rw [if_pos hearly, h.name_eq, hdeadline]
      exact ⟨rfl, h⟩
    · rw [CircuitBreaker.enter_of_due hopened (by rw [hdeadline]; exact not_lt.mp hearly)]
      dsimp only
      rw [if_neg hearly]
      exact h.invoke hthreshold (Or.inr ⟨by rw [hopen]; rfl, rfl⟩) c

omit [AddCommGroup τ] [LinearOrder τ] in
theorem shown (h : Follows name cfg b d) : b.shown = d.shown := by
  rw [CircuitBreaker.shown, CircuitDiagram.shown, h.state, h.count]

theorem history (h : Follows name cfg b d) (hthreshold : 1 ≤ cfg.failureThreshold)
    (cs : List (CircuitBreaker.Invocation τ)) :
    FastapiTemplate.history CircuitBreaker.call CircuitBreaker.shown b cs =
      FastapiTemplate.history (CircuitDiagram.call name cfg) CircuitDiagram.shown d cs := by
  induction cs generalizing b d with
  | nil => rfl
  | cons c cs ih =>
    obtain ⟨hanswer, hnext⟩ := h.call hthreshold c
    rw [FastapiTemplate.history, FastapiTemplate.history, hanswer, hnext.shown, ih hnext]

end Follows

/-- Calls one after the other are answered, and move the breaker, as in the
diagram. -/
theorem calls_follow_diagram (name : String) (cfg : CircuitBreakerConfig τ)
    (hthreshold : 1 ≤ cfg.failureThreshold) (cs : List (CircuitBreaker.Invocation τ)) :
    history CircuitBreaker.call CircuitBreaker.shown (.init name cfg) cs =
      history (CircuitDiagram.call name cfg) CircuitDiagram.shown .init cs :=
  (Follows.closed rfl rfl rfl rfl hthreshold).history hthreshold cs

/-- Two failures trip the circuit, the call before the deadline is rejected, and
the one at it closes the circuit. -/
def tripAndRecover : List (CircuitBreaker.Invocation ℤ) :=
  [⟨0, 0, 1, 1, false⟩, ⟨2, 2, 3, 3, false⟩, ⟨12, 12, 12, 12, true⟩, ⟨13, 13, 13, 13, true⟩]

theorem tripAndRecover_follows :
    history CircuitBreaker.call CircuitBreaker.shown (.init "mail" ⟨2, 10, 1⟩) tripAndRecover =
      [(.raised, .closed, 1), (.raised, .opened, 2), (.rejected ⟨"mail", 1⟩, .opened, 2),
        (.returned, .closed, 0)] := by
  rw [calls_follow_diagram "mail" ⟨2, 10, 1⟩ (by decide) tripAndRecover]
  decide

end FastapiTemplate
