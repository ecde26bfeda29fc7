import FastapiTemplate.RejectedCalls

/-!
`is_allowed` and `get_remaining` in sequence. When every rejected call takes
its member out before the next call starts, the sets hold the calls that
returned `True` and nothing else, up to members that have left the window. So
a call counts exactly these, and `get_remaining`, which trims the same set and
adds nothing, tells how many more calls of its own time will return `True`.
-/
namespace FastapiTemplate

open Library.KeyedTable

variable {τ : Type*} [AddCommGroup τ] [LinearOrder τ]

namespace RateLimit

variable {limiter : RedisSlidingWindowLimiter τ} {s s₀ : RateLimit τ} {key : String} {clock now : τ}

/-- `is_allowed` from its block to its `ZREM`, with nothing between. -/
def isAllowed (limiter : RedisSlidingWindowLimiter τ) (s : RateLimit τ) (key : String) (now : τ)
    (member : String) : Bool × RateLimit τ :=
  let call := added limiter s key now member true
  let s₁ := executed limiter s key now member true
  if call.count > limiter.requests then (false, undone limiter s₁ call) else (true, s₁)

/-- The set of the key after the trim of `get_remaining`. -/
def trimmed (limiter : RedisSlidingWindowLimiter τ) (s : RateLimit τ) (key : String) (now : τ) :
    SortedSet τ :=
  ((s.store (limiter.redisKey key)).seenAt now).zremrangebyscore 0 (now - limiter.window)

def getRemaining (limiter : RedisSlidingWindowLimiter τ) (s : RateLimit τ) (key : String)
    (now : τ) : ℕ × RateLimit τ :=
  (limiter.requests - (trimmed limiter s key now).zcard,
    ⟨Function.update s.store (limiter.redisKey key) (trimmed limiter s key now), s.calls⟩)

/-! ### The sets of a sequential history -/

/-- The sets hold the calls that returned `True`, each until it has left the
window at the last reading of the clock. -/
structure Exact (limiter : RedisSlidingWindowLimiter τ) (s : RateLimit τ) (clock : τ) : Prop where
  member : (s.calls.map LimitedCall.member).Nodup
  times : ∀ c ∈ s.calls, 0 ≤ c.now ∧ c.now ≤ clock
  replied : ∀ c ∈ s.calls, c.replied = true
  rows : ∀ key, ∀ m ∈ (s.store (limiter.redisKey key)).members.rows,
    ∃ c ∈ s.calls, c.key = key ∧ ¬ c.Rejected limiter ∧ m = ⟨c.member, c.now⟩
  kept : ∀ c ∈ s.calls, ¬ c.Rejected limiter →
    ⟨c.member, c.now⟩ ∈ (s.store (limiter.redisKey c.key)).members.rows ∨
      c.now ≤ clock - limiter.window
  expiry : ∀ c ∈ s.calls, ¬ c.Rejected limiter → ∀ e,
    (s.store (limiter.redisKey c.key)).expiresAt = some e → c.now + limiter.window ≤ e

theorem mem_trimmed {m : Member τ} : m ∈ (trimmed limiter s key now).members.rows ↔
    m ∈ ((s.store (limiter.redisKey key)).seenAt now).members.rows ∧
      ¬ (0 ≤ m.score ∧ m.score ≤ now - limiter.window) := by
  rw [trimmed, SortedSet.zremrangebyscore, SortedSet.mem_prune]
  change m ∈ List.filter _ _ ↔ _
  rw [List.mem_filter, Bool.not_eq_true', decide_eq_false_iff_not]

section Trim

variable [IsOrderedAddMonoid τ]

/-- The trim leaves the accepted calls of the window. -/
theorem Exact.mem_trimmed_iff (h : Exact limiter s clock) (hnow : clock ≤ now) {m : Member τ} :
    m ∈ (trimmed limiter s key now).members.rows ↔
      ∃ c ∈ acceptedWithin limiter s key now, (⟨c.member, c.now⟩ : Member τ) = m := by
  rw [mem_trimmed]
  constructor
  · rintro ⟨hseen, hscore⟩
    obtain ⟨c, hc, hkey, haccepted, rfl⟩ := h.rows key m (mem_of_mem_seenAt hseen)
    obtain ⟨hnonneg, hpast⟩ := h.times c hc
    have hlow : now - limiter.window < c.now := by
      by_contra hnot
      exact hscore ⟨hnonneg, not_lt.mp hnot⟩
    exact ⟨c, List.mem_filter.mpr ⟨hc, decide_eq_true ⟨hkey, haccepted, hlow, hpast.trans hnow⟩⟩,
      rfl⟩
  · rintro ⟨c, hin, rfl⟩
    obtain ⟨hc, hin⟩ := List.mem_filter.mp hin
    obtain ⟨rfl, haccepted, hlow, _⟩ := of_decide_eq_true hin
    refine ⟨?_, fun hold => absurd hold.2 (not_le.mpr hlow)⟩
    rcases h.kept c hc haccepted with hrow | hleft
    · refine SortedSet.mem_seenAt hrow ?_
      intro e he
      exact (sub_lt_iff_lt_add.mp hlow).trans_le (h.expiry c hc haccepted e he)
    · exact absurd hlow (not_lt.mpr (hleft.trans (sub_le_sub_right hnow _)))

theorem Exact.length_trimmed (h : Exact limiter s clock) (hnow : clock ≤ now) :
    (trimmed limiter s key now).members.rows.length =
      (acceptedWithin limiter s key now).length := by
  have hcalls : ((acceptedWithin limiter s key now).map LimitedCall.member).Nodup :=
    (List.filter_sublist.map LimitedCall.member).nodup h.member
  refine length_eq_of_mem_calls (Table.nodup _) hcalls (fun m => ?_)
  rw [List.mem_map]
  exact h.mem_trimmed_iff hnow

omit [IsOrderedAddMonoid τ] in
/-- The members that a block counts beside its own are the trimmed ones. -/
theorem Exact.counted_eq (h : Exact limiter s clock) {member : String}
    (hfresh : ∀ c ∈ s.calls, c.member ≠ member) :
    counted limiter s key now member = (trimmed limiter s key now).members.rows := by
  change List.filter _ (trimmed limiter s key now).members.rows = _
  rw [List.filter_eq_self]
  intro m hm
  obtain ⟨c, hc, _, _, rfl⟩ := h.rows key m (mem_of_mem_seenAt (mem_trimmed.mp hm).1)
  simp [hfresh c hc]

/-- The count of a call: the accepted calls of its window, and itself. -/
theorem Exact.count_added (h : Exact limiter s clock) (hnow : clock ≤ now) (key : String)
    {member : String} (hfresh : ∀ c ∈ s.calls, c.member ≠ member) :
    (added limiter s key now member true).count =
      (acceptedWithin limiter s key now).length + 1 := by
  rw [RateLimit.count_added, h.counted_eq hfresh, h.length_trimmed hnow]

/-- A call is allowed when fewer than `requests` accepted calls are in its window. -/
theorem Exact.isAllowed_iff (h : Exact limiter s clock) (hnow : clock ≤ now) {member : String}
    (hfresh : ∀ c ∈ s.calls, c.member ≠ member) :
    (isAllowed limiter s key now member).1 = true ↔
      (acceptedWithin limiter s key now).length < limiter.requests := by
  have hcount := h.count_added hnow key hfresh
  unfold isAllowed
  by_cases hover : (added limiter s key now member true).count > limiter.requests
  · simp only [if_pos hover]
    refine iff_of_false Bool.false_ne_true ?_
    omega
  · simp only [if_neg hover]
    refine iff_of_true trivial ?_
    omega

theorem Exact.getRemaining_eq (h : Exact limiter s clock) (hnow : clock ≤ now) :
    (getRemaining limiter s key now).1 =
      limiter.requests - (acceptedWithin limiter s key now).length := by
  rw [getRemaining, SortedSet.zcard, h.length_trimmed hnow]

end Trim

/-! ### One call -/

section Call

variable [IsOrderedAddMonoid τ] {member : String}

theorem Exact.later (h : Exact limiter s clock) (hnow : clock ≤ now) : Exact limiter s now :=
  ⟨h.member, fun c hc => ⟨(h.times c hc).1, (h.times c hc).2.trans hnow⟩, h.replied, h.rows,
    fun c hc haccepted => (h.kept c hc haccepted).imp id
      (fun hleft => hleft.trans (sub_le_sub_right hnow _)), h.expiry⟩

omit [AddCommGroup τ] [LinearOrder τ] [IsOrderedAddMonoid τ] in
theorem name_ne_of_mem_zrem {z : SortedSet τ} {name : String} {m : Member τ}
    (h : m ∈ (z.zrem name).members.rows) : m.name ≠ name := by
  have hout := (List.mem_filter.mp (SortedSet.mem_prune.mp h)).2
  simpa using hout

omit [IsOrderedAddMonoid τ] in
theorem expiresAt_trimmed {e : τ} (h : (trimmed limiter s key now).expiresAt = some e) :
    (s.store (limiter.redisKey key)).expiresAt = some e := by
  unfold trimmed SortedSet.zremrangebyscore SortedSet.prune at h
  split at h
  · cases h
  · change ((s.store (limiter.redisKey key)).seenAt now).expiresAt = some e at h
    unfold SortedSet.seenAt at h
    split at h
    · cases h
    · exact h

/-- A block keeps the accepted calls until they have left the window. -/
theorem Exact.kept_executed (h : Exact limiter s clock) (hnow : clock ≤ now)
    (hfresh : ∀ c ∈ s.calls, c.member ≠ member) {c : LimitedCall τ} (hc : c ∈ s.calls)
    (haccepted : ¬ c.Rejected limiter) :
    ⟨c.member, c.now⟩ ∈ ((RateLimit.executed limiter s key now member true).store
      (limiter.redisKey c.key)).members.rows ∨ c.now ≤ now - limiter.window := by
  rcases h.kept c hc haccepted with hrow | hleft
  · by_cases hkey : c.key = key
    · subst hkey
      by_cases hlow : now - limiter.window < c.now
      · have hpast := (h.times c hc).2.trans hnow
        have hwindow : 0 < limiter.window := sub_lt_self_iff now |>.mp (hlow.trans_le hpast)
        left
        rw [store_executed]
        refine RedisSlidingWindowLimiter.mem_execute hwindow hrow ?_ hlow (hfresh c hc)
        intro e he
        exact (sub_lt_iff_lt_add.mp hlow).trans_le (h.expiry c hc haccepted e he)
      · exact Or.inr (not_lt.mp hlow)
    · left
      rw [store_executed_of_ne hkey]
      exact hrow
  · exact Or.inr (hleft.trans (sub_le_sub_right hnow _))

omit [IsOrderedAddMonoid τ] in
/-- A block adds its own member only. -/
theorem Exact.rows_executed (h : Exact limiter s clock) {key' : String} {m : Member τ}
    (hm : m ∈ ((RateLimit.executed limiter s key now member true).store
      (limiter.redisKey key')).members.rows) :
    (∃ c ∈ s.calls, c.key = key' ∧ ¬ c.Rejected limiter ∧ m = ⟨c.member, c.now⟩) ∨
      key' = key ∧ m = ⟨member, now⟩ := by
  by_cases hkey : key' = key
  · subst hkey
    rcases mem_of_mem_executed hm with hold | hnew
    · exact Or.inl (h.rows key' m hold)
    · exact Or.inr ⟨rfl, hnew⟩
  · rw [store_executed_of_ne hkey] at hm
    exact Or.inl (h.rows key' m hm)

theorem Exact.expiry_executed (h : Exact limiter s clock) (hnow : clock ≤ now)
    (key member : String) {c : LimitedCall τ} (hc : c ∈ s.calls)
    (haccepted : ¬ c.Rejected limiter) {e : τ}
    (he : ((RateLimit.executed limiter s key now member true).store
      (limiter.redisKey c.key)).expiresAt = some e) : c.now + limiter.window ≤ e := by
  by_cases hkey : c.key = key
  · rw [hkey, store_executed] at he
    rw [RedisSlidingWindowLimiter.expiresAt_execute he]
    exact add_le_add_left ((h.times c hc).2.trans hnow) limiter.window
  · rw [store_executed_of_ne hkey] at he
    exact h.expiry c hc haccepted e he

omit [IsOrderedAddMonoid τ] in
theorem Exact.times_executed (h : Exact limiter s clock) (hnonneg : 0 ≤ now) (hnow : clock ≤ now)
    (key member : String) : ∀ c ∈ (RateLimit.executed limiter s key now member true).calls,
      (0 ≤ c.now ∧ c.now ≤ now) ∧ c.replied = true := by
  intro c hc
  rcases mem_calls_executed.mp hc with hold | rfl
  · exact ⟨⟨(h.times c hold).1, (h.times c hold).2.trans hnow⟩, h.replied c hold⟩
  · exact ⟨⟨hnonneg, le_refl _⟩, rfl⟩

/-- After the block of a call that is let through. -/
theorem Exact.executed (h : Exact limiter s clock) (hnonneg : 0 ≤ now) (hnow : clock ≤ now)
    (hfresh : ∀ c ∈ s.calls, c.member ≠ member)
    (haccepted : ¬ (added limiter s key now member true).Rejected limiter) :
    Exact limiter (executed limiter s key now member true) now := by
  have htimes := h.times_executed hnonneg hnow key member
  refine ⟨nodup_members_executed h.member hfresh, fun c hc => (htimes c hc).1,
    fun c hc => (htimes c hc).2, ?_, ?_, ?_⟩
  · intro key' m hm
    rcases h.rows_executed hm with ⟨c, hc, hold⟩ | ⟨rfl, rfl⟩
    · exact ⟨c, mem_calls_executed.mpr (Or.inl hc), hold⟩
    · exact ⟨_, mem_calls_executed.mpr (Or.inr rfl), rfl, haccepted, rfl⟩
  · intro c hc hc'
    rcases mem_calls_executed.mp hc with hold | rfl
    · exact h.kept_executed hnow hfresh hold hc'
    · by_cases hwindow : 0 < limiter.window
      · left
        change _ ∈ ((RateLimit.executed limiter s key now member true).store
          (limiter.redisKey key)).members.rows
        rw [store_executed]
        exact RedisSlidingWindowLimiter.own_mem_execute _ now member hwindow
      · right
        exact le_sub_self_iff now |>.mpr (not_lt.mp hwindow)
  · intro c hc hc' e he
    rcases mem_calls_executed.mp hc with hold | rfl
    · exact h.expiry_executed hnow key member hold hc' he
    · change ((RateLimit.executed limiter s key now member true).store
        (limiter.redisKey key)).expiresAt = some e at he
      rw [store_executed] at he
      rw [RedisSlidingWindowLimiter.expiresAt_execute he]
      exact le_refl _

/-- After a call that is rejected, its member is gone again. -/
theorem Exact.undone (h : Exact limiter s clock) (hnonneg : 0 ≤ now) (hnow : clock ≤ now)
    (hfresh : ∀ c ∈ s.calls, c.member ≠ member)
    (hrejected : (added limiter s key now member true).Rejected limiter) :
    Exact limiter (undone limiter (RateLimit.executed limiter s key now member true)
      (added limiter s key now member true)) now := by
  have htimes := h.times_executed hnonneg hnow key member
  -- the set of the key loses the member of the call, the others stay as they are
  have hstore : ∀ key', (RateLimit.undone limiter (RateLimit.executed limiter s key now member true)
      (added limiter s key now member true)).store (limiter.redisKey key') =
        if key' = key then ((RateLimit.executed limiter s key now member true).store
          (limiter.redisKey key')).zrem member
        else (RateLimit.executed limiter s key now member true).store (limiter.redisKey key') := by
    intro key'
    by_cases hkey : key' = key
    · rw [if_pos hkey, hkey]
      exact Function.update_self ..
    · rw [if_neg hkey]
      exact Function.update_of_ne (limiter.redisKey_injective.ne hkey) ..
  have hold : ∀ c ∈ (RateLimit.executed limiter s key now member true).calls,
      ¬ c.Rejected limiter → c ∈ s.calls := by
    intro c hc haccepted
    rcases mem_calls_executed.mp hc with hc | rfl
    · exact hc
    · exact absurd hrejected haccepted
  refine ⟨nodup_members_executed h.member hfresh, fun c hc => (htimes c hc).1,
    fun c hc => (htimes c hc).2, ?_, ?_, ?_⟩
  · intro key' m hm
    rw [hstore] at hm
    have hrow : m ∈ ((RateLimit.executed limiter s key now member true).store
        (limiter.redisKey key')).members.rows ∧ ¬ (key' = key ∧ m = ⟨member, now⟩) := by
      by_cases hkey : key' = key
      · rw [if_pos hkey] at hm
        refine ⟨mem_of_mem_zrem hm, ?_⟩
        rintro ⟨_, rfl⟩
        exact name_ne_of_mem_zrem hm rfl
      · rw [if_neg hkey] at hm
        exact ⟨hm, fun hown => hkey hown.1⟩
    obtain ⟨c, hc, hcold⟩ := (h.rows_executed hrow.1).resolve_right hrow.2
    exact ⟨c, mem_calls_executed.mpr (Or.inl hc), hcold⟩
  · intro c hc haccepted
    have hc := hold c hc haccepted
    rw [hstore]
    rcases h.kept_executed hnow hfresh hc haccepted with hrow | hleft
    · left
      by_cases hkey : c.key = key
      · rw [if_pos hkey]
        exact SortedSet.mem_zrem hrow (hfresh c hc)
      · rw [if_neg hkey]
        exact hrow
    · exact Or.inr hleft
  · intro c hc haccepted e he
    rw [hstore] at he
    refine h.expiry_executed hnow key member (hold c hc haccepted) haccepted ?_
    by_cases hkey : c.key = key
    · rw [if_pos hkey] at he
      exact SortedSet.expiresAt_zrem he
    · rw [if_neg hkey] at he
      exact he

theorem Exact.isAllowed (h : Exact limiter s clock) (hnonneg : 0 ≤ now) (hnow : clock ≤ now)
    (hfresh : ∀ c ∈ s.calls, c.member ≠ member) :
    Exact limiter (isAllowed limiter s key now member).2 now := by
  unfold RateLimit.isAllowed
  by_cases hover : (added limiter s key now member true).count > limiter.requests
  · simp only [if_pos hover]
    exact h.undone hnonneg hnow hfresh ⟨rfl, hover⟩
  · simp only [if_neg hover]
    exact h.executed hnonneg hnow hfresh (fun hrejected => hover hrejected.2)

theorem Exact.getRemaining (h : Exact limiter s clock) (hnow : clock ≤ now) :
    Exact limiter (getRemaining limiter s key now).2 now := by
  have hstore : ∀ key', (RateLimit.getRemaining limiter s key now).2.store (limiter.redisKey key') =
      if key' = key then trimmed limiter s key' now else s.store (limiter.redisKey key') := by
    intro key'
    by_cases hkey : key' = key
    · rw [if_pos hkey, hkey]
      exact Function.update_self ..
    · rw [if_neg hkey]
      exact Function.update_of_ne (limiter.redisKey_injective.ne hkey) ..
  have hlater := h.later hnow
  refine ⟨h.member, hlater.times, h.replied, ?_, ?_, ?_⟩
  · intro key' m hm
    rw [hstore] at hm
    by_cases hkey : key' = key
    · rw [if_pos hkey] at hm
      exact h.rows key' m (mem_of_mem_seenAt (mem_trimmed.mp hm).1)
    · rw [if_neg hkey] at hm
      exact h.rows key' m hm
  · intro c hc haccepted
    rw [hstore]
    by_cases hkey : c.key = key
    · rw [if_pos hkey]
      by_cases hlow : now - limiter.window < c.now
      · left
        rw [h.mem_trimmed_iff hnow]
        have hpast := (h.times c hc).2.trans hnow
        exact ⟨c, List.mem_filter.mpr ⟨hc, decide_eq_true ⟨rfl, haccepted, hlow, hpast⟩⟩, rfl⟩
      · exact Or.inr (not_lt.mp hlow)
    · rw [if_neg hkey]
      exact hlater.kept c hc haccepted
  · intro c hc haccepted e he
    rw [hstore] at he
    by_cases hkey : c.key = key
    · rw [if_pos hkey] at he
      exact h.expiry c hc haccepted e (expiresAt_trimmed he)
    · rw [if_neg hkey] at he
      exact h.expiry c hc haccepted e he

end Call

/-! ### Histories -/

/-- A call, with the reading of its clock; `is_allowed` also draws a member. -/
inductive Op (τ : Type*)
  | isAllowed (key : String) (now : τ) (member : String)
  | getRemaining (key : String) (now : τ)

inductive Answer
  | allowed (value : Bool)
  | remaining (value : ℕ)
  deriving DecidableEq

def Op.time : Op τ → τ
  | isAllowed _ now _ => now
  | getRemaining _ now => now

def Op.member? : Op τ → Option String
  | isAllowed _ _ member => some member
  | getRemaining _ _ => none

def perform (limiter : RedisSlidingWindowLimiter τ) (s : RateLimit τ) : Op τ → Answer × RateLimit τ
  | .isAllowed key now member =>
    let result := isAllowed limiter s key now member
    (.allowed result.1, result.2)
  | .getRemaining key now =>
    let result := getRemaining limiter s key now
    (.remaining result.1, result.2)

/-- The calls of a history, each with its answer. -/
def transcript (limiter : RedisSlidingWindowLimiter τ) (s : RateLimit τ) :
    List (Op τ) → List (Op τ × Answer)
  | [] => []
  | op :: ops => (op, (perform limiter s op).1) :: transcript limiter (perform limiter s op).2 ops

def stateAfter (limiter : RedisSlidingWindowLimiter τ) (s : RateLimit τ) (ops : List (Op τ)) :
    RateLimit τ :=
  ops.foldl (fun s op => (perform limiter s op).2) s

/-- One call after the other, on a clock that does not go back; members are unique. -/
structure Sequential (ops : List (Op τ)) : Prop where
  clock : ops.Pairwise (fun a b => a.time ≤ b.time)
  epoch : ∀ op ∈ ops, 0 ≤ op.time
  unique : (ops.filterMap Op.member?).Nodup

/-- The entry is a call of `is_allowed` for the key that returned `True`, at a
time in `(t - window, t]`. -/
def TrueWithin (limiter : RedisSlidingWindowLimiter τ) (key : String) (t : τ) :
    Op τ × Answer → Prop
  | (.isAllowed key' now _, .allowed true) =>
    key' = key ∧ t - limiter.window < now ∧ now ≤ t
  | _ => False

instance (limiter : RedisSlidingWindowLimiter τ) (key : String) (t : τ) :
    DecidablePred (TrueWithin limiter key t)
  | (.isAllowed _ _ _, .allowed true) => inferInstanceAs (Decidable (_ ∧ _))
  | (.isAllowed _ _ _, .allowed false) => inferInstanceAs (Decidable False)
  | (.isAllowed _ _ _, .remaining _) => inferInstanceAs (Decidable False)
  | (.getRemaining _ _, _) => inferInstanceAs (Decidable False)

/-- The earlier calls that a call of the key at `t` counts. -/
def trueWithin (limiter : RedisSlidingWindowLimiter τ) (before : List (Op τ × Answer))
    (key : String) (t : τ) : List (Op τ × Answer) :=
  before.filter (fun entry => TrueWithin limiter key t entry)

/-- What the calls of `is_allowed` for the key at the time `t` have returned. -/
def answersAt (key : String) (t : τ) (entries : List (Op τ × Answer)) : List Bool :=
  entries.filterMap fun
    | (.isAllowed key' now _, .allowed value) => if key' = key ∧ now = t then some value else none
    | _ => none

/-- The two predictions, at every call of the transcript: `is_allowed` by the
calls that returned `True` before, and what follows a `get_remaining` at its
own time by its answer. -/
structure Predicts (limiter : RedisSlidingWindowLimiter τ) (entries : List (Op τ × Answer)) :
    Prop where
  allowed : ∀ before key t member answer after,
    entries = before ++ (.isAllowed key t member, answer) :: after →
      answer = .allowed
        (decide ((trueWithin limiter before key t).length < limiter.requests))
  remaining : 0 < limiter.window → ∀ before key t answer after,
    entries = before ++ (.getRemaining key t, answer) :: after →
      ∃ r, answer = .remaining r ∧
        ∀ (i : ℕ) (value : Bool), (answersAt key t after)[i]? = some value → value = decide (i < r)

/-- What is left of a history, and the state that it goes on from. -/
structure Ready (limiter : RedisSlidingWindowLimiter τ) (s : RateLimit τ) (clock : τ)
    (ops : List (Op τ)) : Prop where
  exact : Exact limiter s clock
  start : ∀ op ∈ ops, clock ≤ op.time
  sequential : Sequential ops
  fresh : ∀ c ∈ s.calls, ∀ op ∈ ops, op.member? ≠ some c.member

section Histories

variable {ops : List (Op τ)} {op : Op τ} {t : τ}

/-- The calls that a performed call adds to the log. -/
theorem calls_perform : (perform limiter s op).2.calls = s.calls ++ match op with
    | .isAllowed key now member => [added limiter s key now member true]
    | .getRemaining _ _ => [] := by
  cases op with
  | isAllowed key now member =>
    change (isAllowed limiter s key now member).2.calls = _
    unfold isAllowed
    by_cases hover : (added limiter s key now member true).count > limiter.requests
    · simp only [if_pos hover]
      rfl
    · simp only [if_neg hover]
      rfl
  | getRemaining key now => exact (List.append_nil _).symm

/-- A call that returns `True` joins the accepted calls of its window. -/
theorem length_acceptedWithin_perform :
    (acceptedWithin limiter (perform limiter s op).2 key t).length =
      (acceptedWithin limiter s key t).length +
        (trueWithin limiter [(op, (perform limiter s op).1)] key t).length := by
  rw [acceptedWithin, calls_perform, List.filter_append, List.length_append]
  congr 1
  cases op with
  | getRemaining key' now => rfl
  | isAllowed key' now member =>
    have hanswer : (perform limiter s (.isAllowed key' now member)).1 =
        .allowed (decide (¬ (added limiter s key' now member true).Rejected limiter)) := by
      change Answer.allowed (isAllowed limiter s key' now member).1 = _
      unfold isAllowed
      by_cases hover : (added limiter s key' now member true).count > limiter.requests
      · have hrejected : (added limiter s key' now member true).Rejected limiter := ⟨rfl, hover⟩
        simp [if_pos hover, hrejected]
      · have haccepted : ¬ (added limiter s key' now member true).Rejected limiter :=
          fun hrejected => hover hrejected.2
        simp [if_neg hover, haccepted]
    have hsame : ((added limiter s key' now member true).key = key ∧
        ¬ (added limiter s key' now member true).Rejected limiter ∧
        t - limiter.window < (added limiter s key' now member true).now ∧
        (added limiter s key' now member true).now ≤ t) ↔ TrueWithin limiter key t
          (.isAllowed key' now member,
            .allowed (decide (¬ (added limiter s key' now member true).Rejected limiter))) := by
      by_cases hrejected : (added limiter s key' now member true).Rejected limiter
      · rw [decide_eq_false (not_not.mpr hrejected)]
        exact iff_of_false (fun hin => hin.2.1 hrejected) id
      · rw [decide_eq_true hrejected]
        exact ⟨fun hin => ⟨hin.1, hin.2.2⟩, fun hin => ⟨hin.1, hrejected, hin.2⟩⟩
    rw [trueWithin, hanswer, List.filter_singleton, List.filter_singleton, decide_eq_decide.mpr hsame]
    cases decide (TrueWithin limiter key t _) <;> rfl

/-- The log after a history: its accepted calls, and those before it. -/
theorem length_acceptedWithin_stateAfter :
    (acceptedWithin limiter (stateAfter limiter s ops) key t).length =
      (acceptedWithin limiter s key t).length +
        (trueWithin limiter (transcript limiter s ops) key t).length := by
  induction ops generalizing s with
  | nil => rfl
  | cons op ops ih =>
    have hhead : trueWithin limiter (transcript limiter s (op :: ops)) key t =
        trueWithin limiter [(op, (perform limiter s op).1)] key t ++
          trueWithin limiter (transcript limiter (perform limiter s op).2 ops) key t := by
      rw [trueWithin, trueWithin, trueWithin, ← List.filter_append]
      rfl
    rw [hhead, List.length_append, ← Nat.add_assoc, ← length_acceptedWithin_perform]
    exact ih

/-- A place in a transcript is a place in its history. -/
theorem transcript_split {before after : List (Op τ × Answer)} {answer : Answer}
    (h : transcript limiter s ops = before ++ (op, answer) :: after) :
    ∃ ops₁ ops₂, ops = ops₁ ++ op :: ops₂ ∧ before = transcript limiter s ops₁ ∧
      answer = (perform limiter (stateAfter limiter s ops₁) op).1 ∧
      after = transcript limiter (perform limiter (stateAfter limiter s ops₁) op).2 ops₂ := by
  induction before generalizing s ops with
  | nil =>
    cases ops with
    | nil => cases h
    | cons op' ops =>
      obtain ⟨hentry, rfl⟩ := List.cons.inj h
      obtain ⟨rfl, rfl⟩ := Prod.mk.inj hentry
      exact ⟨[], ops, rfl, rfl, rfl, rfl⟩
  | cons e before ih =>
    cases ops with
    | nil => cases h
    | cons op' ops =>
      obtain ⟨rfl, hrest⟩ := List.cons.inj h
      obtain ⟨ops₁, ops₂, rfl, rfl, hanswer, hafter⟩ := ih hrest
      exact ⟨op' :: ops₁, ops₂, rfl, rfl, hanswer, hafter⟩

variable [IsOrderedAddMonoid τ]

theorem Ready.step (h : Ready limiter s clock (op :: ops)) :
    Ready limiter (perform limiter s op).2 op.time ops := by
  have hnow : clock ≤ op.time := h.start op (by simp)
  have hepoch : 0 ≤ op.time := h.sequential.epoch op (by simp)
  have hfresh : ∀ c ∈ s.calls, op.member? ≠ some c.member := fun c hc => h.fresh c hc op (by simp)
  obtain ⟨hfirst, hclock⟩ := List.pairwise_cons.mp h.sequential.clock
  have hunique : (ops.filterMap Op.member?).Nodup :=
    ((List.sublist_cons_self op ops).filterMap Op.member?).nodup h.sequential.unique
  refine ⟨?_, hfirst, ⟨hclock, fun x hx => h.sequential.epoch x (by simp [hx]), hunique⟩, ?_⟩
  · cases op with
    | isAllowed key now member =>
      exact h.exact.isAllowed hepoch hnow (fun c hc hsame => hfresh c hc (by rw [hsame]; rfl))
    | getRemaining key now => exact h.exact.getRemaining hnow
  · intro c hc x hx hmember
    rw [calls_perform, List.mem_append] at hc
    rcases hc with hold | hnew
    · exact h.fresh c hold x (by simp [hx]) hmember
    · cases op with
      | getRemaining key now => cases hnew
      | isAllowed key now member =>
        rw [List.mem_singleton.mp hnew] at hmember
        have hhead := h.sequential.unique
        rw [List.filterMap_cons_some (show Op.member? (.isAllowed key now member) = some member from
          rfl), List.nodup_cons, List.mem_filterMap] at hhead
        exact hhead.1 ⟨x, hx, hmember⟩

theorem Ready.after {ops₁ ops₂ : List (Op τ)} (h : Ready limiter s clock (ops₁ ++ ops₂)) :
    ∃ clock', Ready limiter (stateAfter limiter s ops₁) clock' ops₂ := by
  induction ops₁ generalizing s clock with
  | nil => exact ⟨clock, h⟩
  | cons op ops₁ ih => exact ih h.step

theorem Ready.isAllowed {member : String}
    (h : Ready limiter s clock (.isAllowed key t member :: ops)) :
    (perform limiter s (.isAllowed key t member)).1 =
      .allowed (decide ((acceptedWithin limiter s key t).length < limiter.requests)) := by
  have hnow : clock ≤ t := h.start (.isAllowed key t member) (by simp)
  have hanswer := @Exact.isAllowed_iff _ _ _ _ _ key _ _ _ h.exact hnow member
    (fun c hc hsame => h.fresh c hc (.isAllowed key t member) (by simp) (by rw [hsame]; rfl))
  change Answer.allowed (RateLimit.isAllowed limiter s key t member).1 = _
  rw [Answer.allowed.injEq, Bool.eq_iff_iff, decide_eq_true_eq]
  exact hanswer

theorem Ready.getRemaining (h : Ready limiter s clock (.getRemaining key t :: ops)) :
    (perform limiter s (.getRemaining key t)).1 =
      .remaining (limiter.requests - (acceptedWithin limiter s key t).length) := by
  have hnow : clock ≤ t := h.start (.getRemaining key t) (by simp)
  exact congrArg Answer.remaining (h.exact.getRemaining_eq hnow)

/-- From any state on, the calls of its time are allowed up to the limit. -/
theorem Ready.answersAt_eq (h : Ready limiter s clock ops) (hwindow : 0 < limiter.window)
    (hfrom : ∀ op ∈ ops, t ≤ op.time) {i : ℕ} {value : Bool}
    (hvalue : (answersAt key t (transcript limiter s ops))[i]? = some value) :
    value = decide ((acceptedWithin limiter s key t).length + i < limiter.requests) := by
  induction ops generalizing s clock i with
  | nil => cases hvalue
  | cons op ops ih =>
    have hlength := @length_acceptedWithin_perform _ _ _ limiter s key op t
    have hrest : ∀ {j : ℕ}, (answersAt key t (transcript limiter (perform limiter s op).2 ops))[j]? =
        some value → value = decide
          ((acceptedWithin limiter (perform limiter s op).2 key t).length + j < limiter.requests) :=
      ih h.step (fun x hx => hfrom x (by simp [hx]))
    cases op with
    | getRemaining key' now =>
      rw [hlength] at hrest
      exact hrest hvalue
    | isAllowed key' now member =>
      have hanswer := h.isAllowed
      rw [transcript, hanswer] at hvalue
      rw [hlength, hanswer] at hrest
      by_cases hat : key' = key ∧ now = t
      · obtain ⟨rfl, rfl⟩ := hat
        have hentries : answersAt key' now ((Op.isAllowed key' now member, Answer.allowed (decide
            ((acceptedWithin limiter s key' now).length < limiter.requests))) ::
              transcript limiter (perform limiter s (.isAllowed key' now member)).2 ops) =
            decide ((acceptedWithin limiter s key' now).length < limiter.requests) ::
              answersAt key' now
                (transcript limiter (perform limiter s (.isAllowed key' now member)).2 ops) := by
          simp [answersAt]
        rw [hentries] at hvalue
        cases i with
        | zero => exact (Option.some.inj hvalue).symm
        | succ i =>
          rw [hrest hvalue]
          by_cases hopen : (acceptedWithin limiter s key' now).length < limiter.requests
          · simp [trueWithin, TrueWithin, hopen, hwindow]
            omega
          · simp [trueWithin, TrueWithin, hopen]
            omega
      · have hentries : answersAt key t ((Op.isAllowed key' now member, Answer.allowed (decide
            ((acceptedWithin limiter s key' now).length < limiter.requests))) ::
              transcript limiter (perform limiter s (.isAllowed key' now member)).2 ops) =
            answersAt key t
              (transcript limiter (perform limiter s (.isAllowed key' now member)).2 ops) := by
          simp [answersAt, hat]
        have hout : ¬ TrueWithin limiter key t (.isAllowed key' now member, .allowed (decide
            ((acceptedWithin limiter s key' now).length < limiter.requests))) := by
          by_cases hopen : (acceptedWithin limiter s key' now).length < limiter.requests
          · rw [decide_eq_true hopen]
            rintro ⟨hkey, _, hle⟩
            exact hat ⟨hkey, le_antisymm hle (hfrom (.isAllowed key' now member) (by simp))⟩
          · rw [decide_eq_false hopen]
            exact id
        rw [hentries] at hvalue
        rw [hrest hvalue, trueWithin, List.filter_singleton, decide_eq_false hout]
        rfl

omit [IsOrderedAddMonoid τ] in
theorem Blank.exact (h : Blank limiter s₀) (clock : τ) : Exact limiter s₀ clock := by
  have hcalls := h.calls
  have hrows := h.rows
  constructor <;> simp [hcalls, hrows]

omit [IsOrderedAddMonoid τ] in
theorem Blank.ready (h : Blank limiter s₀) (hops : Sequential ops) :
    ∃ clock, Ready limiter s₀ clock ops := by
  cases ops with
  | nil => exact ⟨0, h.exact 0, nofun, hops, by simp [h.calls]⟩
  | cons op ops =>
    refine ⟨op.time, h.exact op.time, ?_, hops, by simp [h.calls]⟩
    intro x hx
    rcases List.mem_cons.mp hx with rfl | hx
    · exact le_refl _
    · exact (List.pairwise_cons.mp hops.clock).1 x hx

/-- Every sequential history follows the trailing window and the predictions. -/
theorem remaining_predicts (hblank : Blank limiter s₀) (hops : Sequential ops) :
    Predicts limiter (transcript limiter s₀ ops) := by
  obtain ⟨clock, hready⟩ := hblank.ready hops
  -- a log starts empty, so it is the calls before that returned `True`
  have hlog : ∀ (ops₁ : List (Op τ)) (key : String) (t : τ),
      (acceptedWithin limiter (stateAfter limiter s₀ ops₁) key t).length =
        (trueWithin limiter (transcript limiter s₀ ops₁) key t).length := by
    intro ops₁ key t
    rw [length_acceptedWithin_stateAfter, acceptedWithin, hblank.calls]
    exact Nat.zero_add _
  refine ⟨?_, ?_⟩
  · intro before key t member answer after hsplit
    obtain ⟨ops₁, ops₂, rfl, rfl, hanswer, _⟩ := transcript_split hsplit
    obtain ⟨clock', hready'⟩ := hready.after
    rw [← hlog]
    exact hanswer.trans hready'.isAllowed
  · intro hwindow before key t answer after hsplit
    obtain ⟨ops₁, ops₂, rfl, rfl, hanswer, rfl⟩ := transcript_split hsplit
    obtain ⟨clock', hready'⟩ := hready.after
    refine ⟨_, hanswer.trans hready'.getRemaining, ?_⟩
    intro i value hvalue
    rw [hready'.step.answersAt_eq hwindow hready'.step.start hvalue]
    apply decide_eq_decide.mpr
    have hsame : (acceptedWithin limiter (perform limiter (stateAfter limiter s₀ ops₁)
        (.getRemaining key t)).2 key t).length =
          (acceptedWithin limiter (stateAfter limiter s₀ ops₁) key t).length :=
      length_acceptedWithin_perform
    change (acceptedWithin limiter (perform limiter (stateAfter limiter s₀ ops₁)
      (.getRemaining key t)).2 key t).length + i < limiter.requests ↔ _
    omega

end Histories

/-! Two requests a minute: what is left is used up, and comes back in the
moment when the first call is exactly a window old. -/

def minuteHistory : List (Op ℤ) :=
  [.isAllowed "10.0.0.1" 100 "100:a", .getRemaining "10.0.0.1" 130,
    .isAllowed "10.0.0.1" 130 "130:b", .isAllowed "10.0.0.1" 130 "130:c",
    .getRemaining "10.0.0.1" 159, .getRemaining "10.0.0.1" 160,
    .isAllowed "10.0.0.1" 160 "160:d"]

theorem remaining_predicts_minuteHistory :
    (transcript twoPerMinute idle minuteHistory).map Prod.snd = [.allowed true, .remaining 1,
      .allowed true, .allowed false, .remaining 0, .remaining 1, .allowed true] ∧
    Predicts twoPerMinute (transcript twoPerMinute idle minuteHistory) :=
  ⟨by decide, remaining_predicts (idle_blank twoPerMinute)
    ⟨by decide, by decide, by decide⟩⟩

/-! In a window of no length every key expires at once: one request is left, and
two calls return `True`. -/

def windowless : RedisSlidingWindowLimiter ℤ := ⟨1, 0, "ratelimit"⟩

def windowlessHistory : List (Op ℤ) :=
  [.getRemaining "10.0.0.1" 100, .isAllowed "10.0.0.1" 100 "100:a",
    .isAllowed "10.0.0.1" 100 "100:b"]

theorem windowless_exceeds : Blank windowless idle ∧ Sequential windowlessHistory ∧
    ¬ ∀ before key t answer after,
      transcript windowless idle windowlessHistory =
        before ++ (.getRemaining key t, answer) :: after →
      ∃ r, answer = .remaining r ∧ ∀ (i : ℕ) (value : Bool),
        (answersAt key t after)[i]? = some value → value = decide (i < r) := by
  refine ⟨idle_blank windowless, ⟨by decide, by decide, by decide⟩, ?_⟩
  intro h
  obtain ⟨r, hr, hpredicted⟩ := h [] "10.0.0.1" 100 (.remaining 1)
    [(.isAllowed "10.0.0.1" 100 "100:a", .allowed true),
      (.isAllowed "10.0.0.1" 100 "100:b", .allowed true)] rfl
  cases hr
  cases hpredicted 1 true rfl

end RateLimit
end FastapiTemplate
