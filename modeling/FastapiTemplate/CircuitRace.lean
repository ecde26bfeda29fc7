import FastapiTemplate.CircuitBreaker
import Mathlib.Data.List.Count
import Mathlib.Logic.Relation

/-!
Overlapping calls of one circuit breaker. Between its check and its record a
call holds no lock: the breaker can trip, or be closed again, while its function
runs. A success is recorded whatever the state is, also into an open circuit;
and the check lets every call through that comes in HALF_OPEN.
-/
namespace FastapiTemplate

variable {τ : Type*} [AddCommGroup τ] [LinearOrder τ]

/-- The breaker and the calls under way. A call that entered in HALF_OPEN is
marked with the stay, as they are numbered. -/
structure Circuit (τ : Type*) where
  breaker : CircuitBreaker τ
  clock : τ
  stay : ℕ
  running : List (Option ℕ)
  /-- The functions that have returned (`true`) or raised, before the record. -/
  finished : List Bool

namespace Circuit

inductive Event (τ : Type*)
  | enter (now : τ)
  | finish
  | succeed
  | fail

/-- Nobody has called yet. -/
def init (name : String) (cfg : CircuitBreakerConfig τ) (clock : τ) : Circuit τ where
  breaker := .init name cfg
  clock := clock
  stay := 0
  running := []
  finished := []

/-- After a call has passed the check. -/
def admitted (s : Circuit τ) (now : τ) (b : CircuitBreaker τ) : Circuit τ :=
  let stay := if s.breaker.state = .opened then s.stay + 1 else s.stay
  { s with
    breaker := b
    clock := now
    stay := stay
    running := (if b.state = .halfOpen then some stay else none) :: s.running }

/-- One part of a call; the clock does not go back. A function that is cancelled
is not recorded. -/
inductive Step (s : Circuit τ) : Event τ → Circuit τ → Prop
  | enters {now again : τ} {b : CircuitBreaker τ} : s.clock ≤ now →
      s.breaker.enter now again = .ok b → Step s (.enter now) (s.admitted now b)
  | reject {now again : τ} {error : CircuitOpenError τ} : s.clock ≤ now → now ≤ again →
      s.breaker.enter now again = .error error → Step s (.enter now) { s with clock := again }
  | finish {before after : List (Option ℕ)} {call : Option ℕ} (returned : Bool) :
      s.running = before ++ call :: after →
      Step s .finish { s with running := before ++ after, finished := returned :: s.finished }
  | cancel {before after : List (Option ℕ)} {call : Option ℕ} :
      s.running = before ++ call :: after →
      Step s .finish { s with running := before ++ after }
  | succeed {before after : List Bool} : s.finished = before ++ true :: after →
      Step s .succeed
        { s with breaker := s.breaker.recordSuccess, finished := before ++ after }
  | fail {before after : List Bool} {now again : τ} : s.finished = before ++ false :: after →
      s.clock ≤ now → now ≤ again →
      Step s .fail
        { s with
          breaker := s.breaker.recordFailure now again
          clock := again
          finished := before ++ after }

/-- Steps of any calls, each made where `cond` holds. -/
def Steps (cond : Circuit τ → Event τ → Prop) : Circuit τ → Circuit τ → Prop :=
  Relation.ReflTransGen (fun s s' => ∃ e, cond s e ∧ Step s e s')

variable {s s' s₀ s₁ s₂ : Circuit τ} {e : Event τ} {cond : Circuit τ → Event τ → Prop}

theorem Step.clock_le (h : Step s e s') : s.clock ≤ s'.clock := by
  cases h with
  | enters hclock _ => exact hclock
  | reject hclock hagain _ => exact hclock.trans hagain
  | finish _ _ => exact le_refl _
  | cancel _ => exact le_refl _
  | succeed _ => exact le_refl _
  | fail _ hclock hagain => exact hclock.trans hagain

theorem Step.pass {now : τ} (hclock : s.clock ≤ now) (hnot : s.breaker.state ≠ .opened) :
    Step s (.enter now) (s.admitted now s.breaker) :=
  .enters hclock (CircuitBreaker.enter_of_closed hnot : s.breaker.enter now now = .ok s.breaker)

/-! ### The open circuit -/

/-- No function that was admitted earlier returns into an open circuit. -/
def InTime (s : Circuit τ) (e : Event τ) : Prop :=
  s.breaker.state = .opened → e ≠ .succeed

/-- What a step does to an open circuit: a success closes it, a call at the
deadline tries it, and everything else leaves it. -/
theorem Step.of_opened (h : Step s e s') (hopened : s.breaker.state = .opened) :
    (e = .succeed ∧ s'.breaker.state = .closed) ∨
    (s'.breaker.state = .halfOpen ∧ s.breaker.openUntil ≤ s'.clock) ∨
    (e ≠ .succeed ∧ s'.breaker.state = .opened ∧
      s'.breaker.openUntil = s.breaker.openUntil) := by
  cases h with
  | @enters now again b hclock henter =>
    rcases CircuitBreaker.enter_eq_ok_iff.mp henter with ⟨hnot, _⟩ | ⟨_, hdue, rfl⟩
    · exact absurd hopened hnot
    · exact Or.inr (Or.inl ⟨rfl, hdue⟩)
  | reject _ _ _ => exact Or.inr (Or.inr ⟨nofun, hopened, rfl⟩)
  | finish _ _ => exact Or.inr (Or.inr ⟨nofun, hopened, rfl⟩)
  | cancel _ => exact Or.inr (Or.inr ⟨nofun, hopened, rfl⟩)
  | succeed _ => exact Or.inl ⟨rfl, rfl⟩
  | fail _ _ _ =>
    refine Or.inr (Or.inr ⟨nofun, ?_⟩)
    change (s.breaker.recordFailure _ _).state = .opened ∧
      (s.breaker.recordFailure _ _).openUntil = s.breaker.openUntil
    rw [CircuitBreaker.recordFailure_of_stay (by rw [hopened]; simp)]
    exact ⟨hopened, rfl⟩

/-- Until its deadline an open circuit stays open, with the same deadline. -/
theorem Steps.open_of_inTime (hrun : Steps InTime s₁ s₂) (hopened : s₁.breaker.state = .opened)
    (hearly : s₂.clock < s₁.breaker.openUntil) :
    s₂.breaker.state = .opened ∧ s₂.breaker.openUntil = s₁.breaker.openUntil := by
  induction hrun with
  | refl => exact ⟨hopened, rfl⟩
  | tail _ hlast ih =>
    obtain ⟨e, hin, hlast⟩ := hlast
    obtain ⟨hstate, hdeadline⟩ := ih (hlast.clock_le.trans_lt hearly)
    rcases hlast.of_opened hstate with ⟨hsucceed, _⟩ | ⟨_, hdue⟩ | ⟨_, hstill, hkept⟩
    · exact absurd hsucceed (hin hstate)
    · rw [hdeadline] at hdue
      exact absurd hearly (not_lt.mpr hdue)
    · exact ⟨hstill, hkept.trans hdeadline⟩

/-- In the runs where no success is recorded into the open circuit: from a trip
to its deadline the circuit is open, and the check rejects every call. A step
leaves an open circuit through HALF_OPEN exactly if it is no such record. -/
theorem open_stays_iff :
    (∀ (s s₁ s₂ : Circuit τ) (e : Event τ), Step s e s₁ → s.breaker.state ≠ .opened →
      s₁.breaker.state = .opened → Steps InTime s₁ s₂ → s₂.clock < s₁.breaker.openUntil →
      s₂.breaker.state = .opened ∧
        ∀ now again b, now < s₁.breaker.openUntil → s₂.breaker.enter now again ≠ .ok b) ∧
    ∀ (s s' : Circuit τ) (e : Event τ), Step s e s' → s.breaker.state = .opened →
      (InTime s e ↔ s'.breaker.state ≠ .closed) := by
  refine ⟨?_, ?_⟩
  · intro s s₁ s₂ e _ _ hopened hrun hearly
    obtain ⟨hstill, hdeadline⟩ := hrun.open_of_inTime hopened hearly
    refine ⟨hstill, ?_⟩
    intro now again b hnow
    rw [← hdeadline] at hnow
    rw [CircuitBreaker.enter_of_early hstill hnow]
    exact nofun
  · intro s s' e hstep hopened
    rcases hstep.of_opened hopened with ⟨rfl, hclosed⟩ | ⟨hhalf, hdue⟩ | ⟨hne, hstill, _⟩
    · simp [InTime, hopened, hclosed]
    · have hne : e ≠ .succeed := by
        rintro rfl
        cases hstep with
        | succeed _ => cases hhalf
      simp [InTime, hne, hhalf]
    · simp [InTime, hne, hstill]

/-! Two calls are admitted, the first one trips the circuit, and the second one
returns. -/

def oneFailure : CircuitBreakerConfig ℤ := ⟨1, 10, 1⟩

def calm : Circuit ℤ := init "mail" oneFailure 0

def oneRunning : Circuit ℤ := calm.admitted 0 calm.breaker

def twoRunning : Circuit ℤ := oneRunning.admitted 0 oneRunning.breaker

def firstRaised : Circuit ℤ := { twoRunning with running := [none], finished := [false] }

def tripped : Circuit ℤ :=
  { firstRaised with
    breaker := firstRaised.breaker.recordFailure 1 1
    clock := 1
    finished := [] }

def secondReturned : Circuit ℤ := { tripped with running := [], finished := [true] }

def closedAgain : Circuit ℤ :=
  { secondReturned with
    breaker := secondReturned.breaker.recordSuccess
    finished := [] }

def laterRejected : Circuit ℤ := { tripped with clock := 5 }

theorem steps_firstRaised : Step calm (.enter 0) oneRunning ∧
    Step oneRunning (.enter 0) twoRunning ∧ Step twoRunning .finish firstRaised :=
  ⟨.pass (by decide) (by decide), .pass (by decide) (by decide),
    @Step.finish ℤ _ _ twoRunning [] [none] none false rfl⟩

theorem step_tripped : Step firstRaised .fail tripped :=
  @Step.fail ℤ _ _ firstRaised [] [] 1 1 rfl (by decide) (by decide)

theorem tripped_stays_open : laterRejected.breaker.state = .opened ∧
    ∀ now again b, now < 11 → laterRejected.breaker.enter now again ≠ .ok b := by
  have hreject : Step tripped (.enter 5) laterRejected :=
    @Step.reject ℤ _ _ tripped 5 5 _ (by decide) (by decide)
      (CircuitBreaker.enter_of_early rfl (by decide))
  have hrun : Steps InTime tripped laterRejected :=
    .single ⟨.enter 5, fun _ => nofun, hreject⟩
  exact open_stays_iff.1 firstRaised tripped laterRejected .fail step_tripped nofun rfl hrun
    (by decide)

theorem lateSuccess_closes : ∃ s s₁ s₂ : Circuit ℤ,
    Steps (fun _ _ => True) calm s ∧ Step s .fail s₁ ∧
      s.breaker.state ≠ .opened ∧ s₁.breaker.state = .opened ∧
      Steps (fun _ _ => True) s₁ s₂ ∧ s₂.clock < s₁.breaker.openUntil ∧
      s₂.breaker.state = .closed := by
  have hreturned : Step tripped .finish secondReturned :=
    @Step.finish ℤ _ _ tripped [] [] none true rfl
  have hclosed : Step secondReturned .succeed closedAgain :=
    @Step.succeed ℤ _ _ secondReturned [] [] rfl
  have hbefore : Steps (fun _ _ => True) calm firstRaised :=
    .tail (.tail (.single ⟨_, trivial, steps_firstRaised.1⟩) ⟨_, trivial, steps_firstRaised.2.1⟩)
      ⟨_, trivial, steps_firstRaised.2.2⟩
  have hafter : Steps (fun _ _ => True) tripped closedAgain :=
    .tail (.single ⟨_, trivial, hreturned⟩) ⟨_, trivial, hclosed⟩
  exact ⟨firstRaised, tripped, closedAgain, hbefore, step_tripped, nofun, rfl, hafter,
    by decide, rfl⟩

/-! ### The trial calls -/

/-- The calls of the present stay in HALF_OPEN whose functions still run. -/
def probes (s : Circuit τ) : ℕ := s.running.count (some s.stay)

def Bounded (s : Circuit τ) : Prop :=
  s.breaker.state = .halfOpen → (s.probes : ℤ) ≤ s.breaker.cfg.halfOpenMax

/-- A call that comes in HALF_OPEN, or that starts it, is one of `half_open_max`. -/
def Room (s : Circuit τ) (e : Event τ) : Prop :=
  ∀ now, e = .enter now →
    (s.breaker.state = .halfOpen → (s.probes : ℤ) < s.breaker.cfg.halfOpenMax) ∧
    (s.breaker.state = .opened → s.breaker.openUntil ≤ now → 1 ≤ s.breaker.cfg.halfOpenMax)

/-- No call is of a later stay. -/
def Numbered (s : Circuit τ) : Prop := ∀ k, some k ∈ s.running → k ≤ s.stay

theorem Numbered.step (hs : Numbered s) (h : Step s e s') : Numbered s' := by
  have hkeep : ∀ {before after : List (Option ℕ)} {call : Option ℕ},
      s.running = before ++ call :: after → ∀ k, some k ∈ before ++ after → k ≤ s.stay := by
    intro before after call hrunning k hk
    refine hs k ?_
    rw [hrunning]
    exact List.Sublist.mem hk ((List.sublist_cons_self call after).append_left before)
  cases h with
  | @enters now again b hclock henter =>
    intro k hk
    change k ≤ if s.breaker.state = .opened then s.stay + 1 else s.stay
    have hle : s.stay ≤ if s.breaker.state = .opened then s.stay + 1 else s.stay := by
      split <;> omega
    rcases List.mem_cons.mp hk with hnew | hold
    · by_cases hhalf : b.state = .halfOpen
      · rw [if_pos hhalf] at hnew
        exact (Option.some.inj hnew).le
      · rw [if_neg hhalf] at hnew
        cases hnew
    · exact (hs k hold).trans hle
  | reject _ _ _ => exact hs
  | finish _ hrunning => exact hkeep hrunning
  | cancel hrunning => exact hkeep hrunning
  | succeed _ => exact hs
  | fail _ _ _ => exact hs

omit [AddCommGroup τ] [LinearOrder τ] in
/-- A call that comes in HALF_OPEN is one more, and the one that starts it is
alone. -/
theorem probes_admitted (hs : Numbered s) (now : τ) {b : CircuitBreaker τ}
    (hhalf : b.state = .halfOpen) :
    (s.admitted now b).probes = if s.breaker.state = .opened then 1 else s.probes + 1 := by
  by_cases hopened : s.breaker.state = .opened
  · have hnone : s.running.count (some (s.stay + 1)) = 0 := by
      refine List.count_eq_zero.mpr ?_
      intro hmem
      have hle := hs _ hmem
      omega
    simp [probes, admitted, hopened, hhalf, hnone]
  · simp [probes, admitted, hopened, hhalf]

omit [AddCommGroup τ] [LinearOrder τ] in
theorem Bounded.of_le (hs : Bounded s) (hbreaker : s'.breaker = s.breaker)
    (hle : s'.probes ≤ s.probes) : Bounded s' := by
  intro hhalf
  rw [hbreaker] at hhalf ⊢
  have hbound := hs hhalf
  omega

/-- A call that has passed the check keeps the bound exactly if it finds room. -/
theorem bounded_admitted_iff (hnumbered : Numbered s) {now again : τ} {b : CircuitBreaker τ}
    (henter : s.breaker.enter now again = .ok b) :
    Bounded (s.admitted now b) ↔ Room s (.enter now) := by
  have hprobes (hhalf : b.state = .halfOpen) := probes_admitted hnumbered now hhalf
  rcases CircuitBreaker.enter_eq_ok_iff.mp henter with ⟨hnot, rfl⟩ | ⟨hopened, hdue, rfl⟩
  · by_cases hhalf : s.breaker.state = .halfOpen
    · have hcount := hprobes hhalf
      rw [if_neg hnot] at hcount
      constructor
      · intro hbounded now' _
        have hle := hbounded hhalf
        rw [hcount] at hle
        change ((s.probes + 1 : ℕ) : ℤ) ≤ s.breaker.cfg.halfOpenMax at hle
        exact ⟨fun _ => by omega, fun hopened => absurd hopened hnot⟩
      · intro hroom _
        have hlt := (hroom now rfl).1 hhalf
        rw [hcount]
        change ((s.probes + 1 : ℕ) : ℤ) ≤ s.breaker.cfg.halfOpenMax
        omega
    · refine iff_of_true (fun hhalf' => absurd hhalf' hhalf) ?_
      intro now' _
      exact ⟨fun hhalf' => absurd hhalf' hhalf, fun hopened => absurd hopened hnot⟩
  · have hcount := hprobes rfl
    rw [if_pos hopened] at hcount
    constructor
    · intro hbounded now' _
      have hle := hbounded rfl
      rw [hcount] at hle
      refine ⟨fun hhalf => ?_, fun _ _ => hle⟩
      rw [hopened] at hhalf
      cases hhalf
    · intro hroom _
      rw [hcount]
      exact (hroom now rfl).2 hopened hdue

/-- A step keeps the bound exactly if its call, if it is one, finds room. -/
theorem Bounded.step_iff (hs : Bounded s) (hnumbered : Numbered s) (h : Step s e s') :
    Bounded s' ↔ Room s e := by
  have hfewer : ∀ {before after : List (Option ℕ)} {call : Option ℕ},
      s.running = before ++ call :: after →
      (before ++ after).count (some s.stay) ≤ s.probes := by
    intro before after call hrunning
    rw [probes, hrunning]
    exact ((List.sublist_cons_self call after).append_left before).count_le _
  cases h with
  | enters _ henter => exact bounded_admitted_iff hnumbered henter
  | @reject now again error _ _ henter =>
    obtain ⟨hopened, hearly, _⟩ := CircuitBreaker.enter_eq_error_iff.mp henter
    refine iff_of_true (hs.of_le rfl (le_refl _)) ?_
    rintro now' heq
    obtain rfl := Event.enter.inj heq
    refine ⟨fun hhalf => ?_, fun _ hdue => absurd hdue (not_le.mpr hearly)⟩
    rw [hopened] at hhalf
    cases hhalf
  | finish _ hrunning => exact iff_of_true (hs.of_le rfl (hfewer hrunning)) nofun
  | cancel hrunning => exact iff_of_true (hs.of_le rfl (hfewer hrunning)) nofun
  | succeed _ => exact iff_of_true nofun nofun
  | @fail before after now again _ _ _ =>
    refine iff_of_true ?_ nofun
    intro hhalf
    change (s.breaker.recordFailure now again).state = .halfOpen at hhalf
    by_cases htrip : s.breaker.state = .halfOpen ∨ (s.breaker.state = .closed ∧
        s.breaker.cfg.failureThreshold ≤ s.breaker.failureCount + 1)
    · rw [CircuitBreaker.recordFailure_of_trip htrip] at hhalf
      cases hhalf
    · rw [CircuitBreaker.recordFailure_of_stay htrip] at hhalf
      exact absurd (Or.inl hhalf) htrip

theorem Steps.numbered (hrun : Steps cond s₀ s) (hs : Numbered s₀) : Numbered s := by
  induction hrun with
  | refl => exact hs
  | tail _ hlast ih =>
    obtain ⟨e, _, hlast⟩ := hlast
    exact ih.step hlast

theorem Steps.bounded (hrun : Steps Room s₀ s) (hnumbered : Numbered s₀) (hs : Bounded s₀) :
    Bounded s := by
  induction hrun with
  | refl => exact hs
  | tail hbefore hlast ih =>
    obtain ⟨e, hroom, hlast⟩ := hlast
    exact (ih.step_iff (Steps.numbered hbefore hnumbered) hlast).mpr hroom

/-- A stay in HALF_OPEN has at most `half_open_max` calls running in every state
of the runs whose calls find room; the first call without room exceeds it. -/
theorem probes_bounded_iff (name : String) (cfg : CircuitBreakerConfig τ) (clock : τ) :
    (∀ s, Steps Room (init name cfg clock) s → Bounded s) ∧
    ∀ s e s', Steps (fun _ _ => True) (init name cfg clock) s → Bounded s → Step s e s' →
      (Bounded s' ↔ Room s e) := by
  have hnumbered : Numbered (init name cfg clock) := nofun
  refine ⟨fun s hrun => hrun.bounded hnumbered nofun, ?_⟩
  intro s e s' hrun hbounded hstep
  exact hbounded.step_iff (hrun.numbered hnumbered) hstep

/-! At the deadline two calls come before the first of them returns. -/

def onTrial : Circuit ℤ := tripped.admitted 11 { tripped.breaker with state := .halfOpen }

def twoOnTrial : Circuit ℤ := onTrial.admitted 12 onTrial.breaker

theorem step_onTrial : Step tripped (.enter 11) onTrial :=
  .enters (by decide)
    (CircuitBreaker.enter_of_due rfl (by decide) : tripped.breaker.enter 11 11 = .ok _)

theorem room_of_closed {now : ℤ} {s : Circuit ℤ} (h : s.breaker.state = .closed) :
    Room s (.enter now) := by
  intro _ _
  rw [h]
  exact ⟨nofun, nofun⟩

theorem onTrial_bounded : (onTrial.probes : ℤ) ≤ 1 := by
  have htrial : Room tripped (.enter 11) := by
    intro _ _
    exact ⟨nofun, fun _ _ => le_refl _⟩
  have hfinish : Room twoRunning .finish := by
    intro _ h
    cases h
  have hfail : Room firstRaised .fail := by
    intro _ h
    cases h
  have hrun : Steps Room calm onTrial :=
    .tail (.tail (.tail (.tail (.single ⟨_, room_of_closed rfl, steps_firstRaised.1⟩)
      ⟨_, room_of_closed rfl, steps_firstRaised.2.1⟩)
      ⟨.finish, hfinish, steps_firstRaised.2.2⟩) ⟨.fail, hfail, step_tripped⟩)
      ⟨_, htrial, step_onTrial⟩
  exact (probes_bounded_iff "mail" oneFailure 0).1 onTrial hrun rfl

theorem twoOnTrial_exceeds : Steps (fun _ _ => True) calm twoOnTrial ∧
    twoOnTrial.breaker.state = .halfOpen ∧
      twoOnTrial.breaker.cfg.halfOpenMax < (twoOnTrial.probes : ℤ) := by
  have hsecond : Step onTrial (.enter 12) twoOnTrial := .pass (by decide) (by decide)
  refine ⟨?_, rfl, by decide⟩
  exact .tail (.tail (.tail (.tail (.tail (.single ⟨_, trivial, steps_firstRaised.1⟩)
    ⟨_, trivial, steps_firstRaised.2.1⟩) ⟨_, trivial, steps_firstRaised.2.2⟩)
    ⟨_, trivial, step_tripped⟩) ⟨_, trivial, step_onTrial⟩) ⟨_, trivial, hsecond⟩

end Circuit

end FastapiTemplate
