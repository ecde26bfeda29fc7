import FastapiTemplate.SlidingWindow

/-!
Rejected calls in the sliding window. Between its block and its `ZREM` a
rejected call has its member in the set, and the calls of that time count it.
What a call counts is the calls that returned `True` within the window and
these pending members; the pending ones can reject a call on their own.
-/
namespace FastapiTemplate

open Library.KeyedTable

variable {τ : Type*} [AddCommGroup τ] [LinearOrder τ]

/-- The count that came back is over the limit: `is_allowed` returns `False`. -/
def LimitedCall.Rejected (limiter : RedisSlidingWindowLimiter τ) (call : LimitedCall τ) : Prop :=
  call.replied = true ∧ limiter.requests < call.count

instance (limiter : RedisSlidingWindowLimiter τ) (call : LimitedCall τ) :
    Decidable (call.Rejected limiter) := inferInstanceAs (Decidable (_ ∧ _))

namespace RateLimit

variable {limiter : RedisSlidingWindowLimiter τ} {s s' s₀ : RateLimit τ}

/-- The calls of a key that returned `True` at a time in `(t - window, t]`. A
call without a reply is let through. -/
def acceptedWithin (limiter : RedisSlidingWindowLimiter τ) (s : RateLimit τ) (key : String)
    (t : τ) : List (LimitedCall τ) :=
  s.calls.filter
    (fun c => c.key = key ∧ ¬ c.Rejected limiter ∧ t - limiter.window < c.now ∧ c.now ≤ t)

/-- The calls of a key that were rejected at a time in `(t - window, t]`, and
have not removed their members yet. -/
def pendingWithin (limiter : RedisSlidingWindowLimiter τ) (s : RateLimit τ) (key : String)
    (t : τ) : List (LimitedCall τ) :=
  s.calls.filter
    (fun c => c.key = key ∧ c.Rejected limiter ∧ (t - limiter.window < c.now ∧ c.now ≤ t) ∧
      ⟨c.member, c.now⟩ ∈ (s.store (limiter.redisKey key)).members.rows)

/-- The pending members do not fill a window that the accepted calls leave open. -/
def Settled (limiter : RedisSlidingWindowLimiter τ) (s : RateLimit τ) (key : String) (t : τ) :
    Prop :=
  (acceptedWithin limiter s key t).length < limiter.requests →
    (acceptedWithin limiter s key t).length + (pendingWithin limiter s key t).length <
      limiter.requests

instance (limiter : RedisSlidingWindowLimiter τ) (s : RateLimit τ) (key : String) (t : τ) :
    Decidable (Settled limiter s key t) := inferInstanceAs (Decidable (_ → _))

/-- A step at a reading since the epoch; a block is executed where `cond` holds. -/
inductive Call (limiter : RedisSlidingWindowLimiter τ) (cond : RateLimit τ → String → τ → Prop)
    (s : RateLimit τ) : RateLimit τ → Prop
  | execute (key : String) (now : τ) (member : String) (replied : Bool) : 0 ≤ now →
      (∀ c ∈ s.calls, c.key = key → c.now ≤ now) → (∀ c ∈ s.calls, c.member ≠ member) →
      cond s key now → Call limiter cond s (executed limiter s key now member replied)
  | undo (c : LimitedCall τ) : c ∈ s.calls → c.Rejected limiter →
      Call limiter cond s (undone limiter s c)

abbrev Calls (limiter : RedisSlidingWindowLimiter τ) (cond : RateLimit τ → String → τ → Prop) :
    RateLimit τ → RateLimit τ → Prop :=
  Relation.ReflTransGen (Call limiter cond)

/-- No call was made yet, and the sets of the limiter are empty. -/
structure Blank (limiter : RedisSlidingWindowLimiter τ) (s : RateLimit τ) : Prop where
  calls : s.calls = []
  rows : ∀ key, (s.store (limiter.redisKey key)).members.rows = []

/-- The sets hold members of calls only, and of every call that was let through
until it is out of the window. -/
structure Accounted (limiter : RedisSlidingWindowLimiter τ) (s : RateLimit τ) : Prop where
  recorded : Recorded limiter s
  kept : ∀ c ∈ s.calls, ¬ c.Rejected limiter → Kept limiter s c
  rows : ∀ key, ∀ m ∈ (s.store (limiter.redisKey key)).members.rows,
    ∃ c ∈ s.calls, c.key = key ∧ m = ⟨c.member, c.now⟩
  nonneg : ∀ c ∈ s.calls, 0 ≤ c.now

omit [LinearOrder τ] [AddCommGroup τ] in
theorem mem_of_mem_zrem {z : SortedSet τ} {name : String} {m : Member τ}
    (h : m ∈ (z.zrem name).members.rows) : m ∈ z.members.rows :=
  List.mem_of_mem_filter (SortedSet.mem_prune.mp h)

omit [AddCommGroup τ] in
theorem mem_of_mem_seenAt {z : SortedSet τ} {now : τ} {m : Member τ}
    (h : m ∈ (z.seenAt now).members.rows) : m ∈ z.members.rows := by
  unfold SortedSet.seenAt at h
  split at h
  · cases h
  · exact h

/-- A rejected call leaves the members of the others. -/
theorem Accounted.undo (h : Accounted limiter s) {c : LimitedCall τ} (hc : c ∈ s.calls)
    (hrejected : c.Rejected limiter) : Accounted limiter (undone limiter s c) := by
  refine ⟨h.recorded.undo hc hrejected.2, ?_, ?_, h.nonneg⟩
  · intro x hx haccepted
    refine (h.kept x hx haccepted).undo ?_
    intro hsame
    obtain rfl := List.inj_on_of_nodup_map h.recorded.member hx hc hsame
    exact haccepted hrejected
  · intro key m hm
    change m ∈ (Function.update s.store _ _ _).members.rows at hm
    by_cases hkey : limiter.redisKey key = limiter.redisKey c.key
    · rw [hkey, Function.update_self] at hm
      refine h.rows key m ?_
      rw [hkey]
      exact mem_of_mem_zrem hm
    · rw [Function.update_of_ne hkey] at hm
      exact h.rows key m hm

/-- The members that a block counts beside its own. -/
def counted (limiter : RedisSlidingWindowLimiter τ) (s : RateLimit τ) (key : String) (now : τ)
    (member : String) : List (Member τ) :=
  ((((s.store (limiter.redisKey key)).seenAt now).zremrangebyscore 0
    (now - limiter.window)).members.delete (fun m => m.name = member)).rows

section Count

variable {key : String} {now : τ} {member : String}

theorem count_added (replied : Bool) : (added limiter s key now member replied).count =
    (counted limiter s key now member).length + 1 := by
  change (SortedSet.zadd _ member now).members.rows.length = _
  rw [SortedSet.zadd_rows, List.length_append, List.length_singleton]
  rfl

theorem mem_counted {m : Member τ} : m ∈ counted limiter s key now member ↔
    m ∈ ((s.store (limiter.redisKey key)).seenAt now).members.rows ∧
      ¬ (0 ≤ m.score ∧ m.score ≤ now - limiter.window) ∧ m.name ≠ member := by
  change m ∈ List.filter _ (SortedSet.prune _).members.rows ↔ _
  rw [List.mem_filter, SortedSet.mem_prune]
  change m ∈ List.filter _ _ ∧ _ ↔ _
  rw [List.mem_filter]
  simp only [Bool.not_eq_true', decide_eq_false_iff_not, and_assoc]

/-- What is in a set after a block was in it before, or is the member of the
block. -/
theorem mem_of_mem_executed {replied : Bool} {m : Member τ}
    (hm : m ∈ ((executed limiter s key now member replied).store
      (limiter.redisKey key)).members.rows) :
    m ∈ (s.store (limiter.redisKey key)).members.rows ∨ m = ⟨member, now⟩ := by
  rw [store_executed, RedisSlidingWindowLimiter.execute, SortedSet.expire] at hm
  split at hm
  · cases hm
  · change m ∈ (SortedSet.zadd _ member now).members.rows at hm
    rw [SortedSet.zadd_rows, List.mem_append, List.mem_singleton] at hm
    rcases hm with hold | hnew
    · have hcounted : m ∈ counted limiter s key now member := hold
      exact Or.inl (mem_of_mem_seenAt (mem_counted.mp hcounted).1)
    · exact Or.inr hnew

variable [IsOrderedAddMonoid τ]

theorem Accounted.executed (h : Accounted limiter s) {replied : Bool} (hnow : 0 ≤ now)
    (hclock : ∀ c ∈ s.calls, c.key = key → c.now ≤ now)
    (hfresh : ∀ c ∈ s.calls, c.member ≠ member) :
    Accounted limiter (executed limiter s key now member replied) := by
  refine ⟨h.recorded.executed hclock hfresh, ?_, ?_, ?_⟩
  · intro c hc haccepted
    rcases mem_calls_executed.mp hc with hold | rfl
    · exact h.recorded.kept_added hclock hfresh hold (h.kept c hold haccepted)
    · exact kept_own
  · intro key' m hm
    by_cases hkey : key' = key
    · subst hkey
      rcases mem_of_mem_executed hm with hold | rfl
      · obtain ⟨c, hc, hckey, hcm⟩ := h.rows key' m hold
        exact ⟨c, mem_calls_executed.mpr (Or.inl hc), hckey, hcm⟩
      · exact ⟨_, mem_calls_executed.mpr (Or.inr rfl), rfl, rfl⟩
    · rw [store_executed_of_ne hkey] at hm
      obtain ⟨c, hc, hckey, hcm⟩ := h.rows key' m hm
      exact ⟨c, mem_calls_executed.mpr (Or.inl hc), hckey, hcm⟩
  · intro c hc
    rcases mem_calls_executed.mp hc with hold | rfl
    · exact h.nonneg c hold
    · exact hnow

/-- The calls of a key whose members a block finds in its window. -/
def present (limiter : RedisSlidingWindowLimiter τ) (s : RateLimit τ) (key : String) (t : τ) :
    List (LimitedCall τ) :=
  s.calls.filter (fun c => c.key = key ∧ (t - limiter.window < c.now ∧ c.now ≤ t) ∧
    ⟨c.member, c.now⟩ ∈ (s.store (limiter.redisKey key)).members.rows)

omit [AddCommGroup τ] [LinearOrder τ] [IsOrderedAddMonoid τ] in
/-- Members of different names that are those of some calls are as many. -/
theorem length_eq_of_mem_calls {rows : List (Member τ)} {calls : List (LimitedCall τ)}
    (hrows : (rows.map Member.name).Nodup) (hcalls : (calls.map LimitedCall.member).Nodup)
    (hmem : ∀ m, m ∈ rows ↔ m ∈ calls.map (fun c => (⟨c.member, c.now⟩ : Member τ))) :
    rows.length = calls.length := by
  have hnodup : (calls.map (fun c => (⟨c.member, c.now⟩ : Member τ))).Nodup := by
    refine List.Nodup.of_map Member.name ?_
    rw [List.map_map]
    exact hcalls
  have hperm := (List.perm_ext_iff_of_nodup (List.Nodup.of_map _ hrows) hnodup).mpr hmem
  rw [hperm.length_eq, List.length_map]

/-- A block counts the members of the calls in its window: the older ones it
has trimmed, unless the key has expired with all of them. -/
theorem Accounted.length_counted (h : Accounted limiter s)
    (hclock : ∀ c ∈ s.calls, c.key = key → c.now ≤ now)
    (hfresh : ∀ c ∈ s.calls, c.member ≠ member) :
    (counted limiter s key now member).length = (present limiter s key now).length := by
  have hmem : ∀ m, m ∈ counted limiter s key now member ↔
      m ∈ (present limiter s key now).map (fun c => (⟨c.member, c.now⟩ : Member τ)) := by
    intro m
    rw [mem_counted, List.mem_map]
    constructor
    · rintro ⟨hseen, hscore, _⟩
      have hrow := mem_of_mem_seenAt hseen
      obtain ⟨c, hc, hkey, rfl⟩ := h.rows key m hrow
      have hlow : now - limiter.window < c.now := by
        by_contra hnot
        exact hscore ⟨h.nonneg c hc, not_lt.mp hnot⟩
      exact ⟨c, List.mem_filter.mpr ⟨hc, decide_eq_true ⟨hkey, ⟨hlow, hclock c hc hkey⟩, hrow⟩⟩,
        rfl⟩
    · rintro ⟨c, hin, rfl⟩
      obtain ⟨hc, hin⟩ := List.mem_filter.mp hin
      obtain ⟨hkey, ⟨hlow, _⟩, hrow⟩ := of_decide_eq_true hin
      refine ⟨SortedSet.mem_seenAt hrow ?_, fun hold => absurd hold.2 (not_le.mpr hlow),
        hfresh c hc⟩
      intro e he
      rw [← hkey] at he
      exact (sub_lt_iff_lt_add.mp hlow).trans_le (h.recorded.expiry c hc e he)
  have hcalls : ((present limiter s key now).map LimitedCall.member).Nodup :=
    (List.filter_sublist.map LimitedCall.member).nodup h.recorded.member
  exact length_eq_of_mem_calls (Table.nodup _) hcalls hmem

/-- These calls are the accepted ones, and the rejected ones that are pending. -/
theorem Accounted.length_present (h : Accounted limiter s)
    (hclock : ∀ c ∈ s.calls, c.key = key → c.now ≤ now) :
    (present limiter s key now).length =
      (acceptedWithin limiter s key now).length + (pendingWithin limiter s key now).length := by
  rw [(present limiter s key now).length_eq_length_filter_add
    (fun c => decide (¬ c.Rejected limiter)), present, List.filter_filter, List.filter_filter]
  congr 2
  · refine List.filter_congr ?_
    intro c hc
    rw [Bool.eq_iff_iff, Bool.and_eq_true, decide_eq_true_iff, decide_eq_true_iff,
      decide_eq_true_iff]
    constructor
    · rintro ⟨haccepted, hkey, hin, _⟩
      exact ⟨hkey, haccepted, hin⟩
    · rintro ⟨hkey, haccepted, hlow, hhigh⟩
      refine ⟨haccepted, hkey, ⟨hlow, hhigh⟩, ?_⟩
      rcases h.kept c hc haccepted with hrow | ⟨d, hd, hdkey, hleft⟩
      · rw [← hkey]
        exact hrow
      · have hlate := hclock d hd (hdkey.trans hkey)
        exact absurd hlow (not_lt.mpr (hleft.trans (sub_le_sub_right hlate _)))
  · refine List.filter_congr ?_
    intro c _
    rw [Bool.eq_iff_iff, Bool.and_eq_true, Bool.not_eq_true', decide_eq_false_iff_not,
      decide_eq_true_iff, decide_eq_true_iff, not_not]
    tauto

/-- What comes back from a block. -/
theorem Accounted.count_added (h : Accounted limiter s)
    (hclock : ∀ c ∈ s.calls, c.key = key → c.now ≤ now)
    (hfresh : ∀ c ∈ s.calls, c.member ≠ member) (replied : Bool) :
    (added limiter s key now member replied).count =
      (acceptedWithin limiter s key now).length + (pendingWithin limiter s key now).length + 1 := by
  rw [RateLimit.count_added, h.length_counted hclock hfresh, h.length_present hclock]

theorem Accounted.rejected_iff (h : Accounted limiter s)
    (hclock : ∀ c ∈ s.calls, c.key = key → c.now ≤ now)
    (hfresh : ∀ c ∈ s.calls, c.member ≠ member) :
    ((added limiter s key now member true).Rejected limiter →
      limiter.requests ≤ (acceptedWithin limiter s key now).length) ↔
    Settled limiter s key now := by
  have hcount := h.count_added hclock hfresh true
  have hrejected : (added limiter s key now member true).Rejected limiter ↔
      limiter.requests < (added limiter s key now member true).count :=
    ⟨fun hr => hr.2, fun hlt => ⟨rfl, hlt⟩⟩
  rw [hrejected, Settled]
  omega

end Count

section Runs

variable [IsOrderedAddMonoid τ] {cond : RateLimit τ → String → τ → Prop}

omit [IsOrderedAddMonoid τ] in
theorem Blank.accounted (h : Blank limiter s₀) : Accounted limiter s₀ := by
  refine ⟨recorded_of_no_calls h.calls, ?_, ?_, ?_⟩
  · intro c hc
    rw [h.calls] at hc
    cases hc
  · intro key m hm
    rw [h.rows] at hm
    cases hm
  · intro c hc
    rw [h.calls] at hc
    cases hc

theorem Accounted.call (h : Accounted limiter s) (hcall : Call limiter cond s s') :
    Accounted limiter s' := by
  cases hcall with
  | execute key now member replied hnow hclock hfresh _ => exact h.executed hnow hclock hfresh
  | undo c hc hrejected => exact h.undo hc hrejected

theorem Calls.accounted (hrun : Calls limiter cond s₀ s) (h : Accounted limiter s₀) :
    Accounted limiter s := by
  induction hrun with
  | refl => exact h
  | tail _ hlast ih => exact ih.call hlast

omit [IsOrderedAddMonoid τ] in
/-- The calls that were made stay made. -/
theorem Call.calls_sublist (hcall : Call limiter cond s s') : s.calls.Sublist s'.calls := by
  cases hcall with
  | execute key now member replied _ _ _ _ => exact List.sublist_append_left _ _
  | undo c _ _ => exact List.Sublist.refl _

omit [IsOrderedAddMonoid τ] in
theorem length_acceptedWithin_mono (h : s.calls.Sublist s'.calls) (key : String) (t : τ) :
    (acceptedWithin limiter s key t).length ≤ (acceptedWithin limiter s' key t).length :=
  (h.filter _).length_le

/-- Where the pending members never fill a window alone, a rejected call found
the limit reached by calls that were let through. -/
theorem Calls.rejected_full (hrun : Calls limiter (Settled limiter) s₀ s)
    (hblank : Blank limiter s₀) :
    ∀ c ∈ s.calls, c.Rejected limiter →
      limiter.requests ≤ (acceptedWithin limiter s c.key c.now).length := by
  induction hrun with
  | refl =>
    intro c hc
    rw [hblank.calls] at hc
    cases hc
  | @tail s s' hbefore hlast ih =>
    have haccounted := Calls.accounted hbefore hblank.accounted
    have hmono := hlast.calls_sublist
    intro c hc hrejected
    refine le_trans ?_ (length_acceptedWithin_mono hmono c.key c.now)
    cases hlast with
    | execute key now member replied _ hclock hfresh hsettled =>
      rcases mem_calls_executed.mp hc with hold | rfl
      · exact ih c hold hrejected
      · obtain rfl : replied = true := hrejected.1
        exact (haccounted.rejected_iff hclock hfresh).mpr hsettled hrejected
    | undo c' _ _ => exact ih c hc hrejected

end Runs

/-- A rejected call does not consume the window: at every block, after any run,
exactly where the pending members do not fill it; and in every run whose blocks
are all made there. -/
theorem rejected_free_iff [IsOrderedAddMonoid τ] (hblank : Blank limiter s₀) :
    (∀ s, Calls limiter (fun _ _ _ => True) s₀ s → ∀ key now member,
      (∀ c ∈ s.calls, c.key = key → c.now ≤ now) → (∀ c ∈ s.calls, c.member ≠ member) →
      (((added limiter s key now member true).Rejected limiter →
        limiter.requests ≤ (acceptedWithin limiter s key now).length) ↔
          Settled limiter s key now)) ∧
    ∀ s, Calls limiter (Settled limiter) s₀ s → ∀ c ∈ s.calls, c.Rejected limiter →
      limiter.requests ≤ (acceptedWithin limiter s c.key c.now).length := by
  refine ⟨?_, fun s hrun => Calls.rejected_full hrun hblank⟩
  intro s hrun key now member hclock hfresh
  exact (Calls.accounted hrun hblank.accounted).rejected_iff hclock hfresh

theorem idle_blank (limiter : RedisSlidingWindowLimiter ℤ) : Blank limiter idle :=
  ⟨rfl, fun _ => rfl⟩

theorem rejected_full_threeCalls : Calls twoPerMinute (Settled twoPerMinute) idle threeCalls ∧
    ∀ c ∈ threeCalls.calls, c.Rejected twoPerMinute →
      2 ≤ (acceptedWithin twoPerMinute threeCalls c.key c.now).length := by
  have hfirst : Call twoPerMinute (Settled twoPerMinute) idle oneCall :=
    .execute _ _ _ _ (by decide) nofun nofun (by decide)
  have hsecond : Call twoPerMinute (Settled twoPerMinute) oneCall twoCalls :=
    .execute _ _ _ _ (by decide) (by decide) (by decide) (by decide)
  have hthird : Call twoPerMinute (Settled twoPerMinute) twoCalls threeCalls :=
    .execute _ _ _ _ (by decide) (by decide) (by decide) (by decide)
  have hrun : Calls twoPerMinute (Settled twoPerMinute) idle threeCalls :=
    .tail (.tail (.single hfirst) hsecond) hthird
  exact ⟨hrun, (rejected_free_iff (idle_blank twoPerMinute)).2 threeCalls hrun⟩

/-! One request a minute: the second call is rejected, and the third one counts
its member when the first has left the window. -/

def onePerMinute : RedisSlidingWindowLimiter ℤ := ⟨1, 60, "ratelimit"⟩

def admitted1 : RateLimit ℤ := executed onePerMinute idle "10.0.0.1" 100 "100:a" true

def rejected2 : RateLimit ℤ := executed onePerMinute admitted1 "10.0.0.1" 130 "130:b" true

def rejected3 : RateLimit ℤ := executed onePerMinute rejected2 "10.0.0.1" 165 "165:c" true

theorem rejected_by_pending : Calls onePerMinute (fun _ _ _ => True) idle rejected3 ∧
    ∃ c ∈ rejected3.calls, c.Rejected onePerMinute ∧
      (acceptedWithin onePerMinute rejected3 c.key c.now).length < onePerMinute.requests := by
  have hfirst : Call onePerMinute (fun _ _ _ => True) idle admitted1 :=
    .execute _ _ _ _ (by decide) nofun nofun trivial
  have hsecond : Call onePerMinute (fun _ _ _ => True) admitted1 rejected2 :=
    .execute _ _ _ _ (by decide) (by decide) (by decide) trivial
  have hthird : Call onePerMinute (fun _ _ _ => True) rejected2 rejected3 :=
    .execute _ _ _ _ (by decide) (by decide) (by decide) trivial
  exact ⟨.tail (.tail (.single hfirst) hsecond) hthird, by decide⟩

end RateLimit
end FastapiTemplate
