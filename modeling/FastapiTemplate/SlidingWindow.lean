import FastapiTemplate.Library.KeyedTable
import Mathlib.Algebra.Order.Group.Defs
import Mathlib.Algebra.Order.Group.Int
import Mathlib.Data.List.Perm.Subperm
import Mathlib.Logic.Relation

/-!
`core.ratelimit.sliding_window`. A call of `is_allowed` sends one MULTI/EXEC
block to Redis and answers by the count that comes back; a rejected call then
takes its own member out again, later or never. The calls of all workers
interleave on one Redis, whose clock is read with theirs.
-/
namespace FastapiTemplate

open Library.KeyedTable

variable {τ : Type*}

structure Member (τ : Type*) where
  name : String
  score : τ
  deriving DecidableEq

/-- A sorted set, and the time at which its key expires. -/
structure SortedSet (τ : Type*) where
  members : Table (Member.name : Member τ → String)
  expiresAt : Option τ

namespace SortedSet

def empty : SortedSet τ := ⟨Table.empty, none⟩

/-- The set that a command finds at `now`. -/
def seenAt [LinearOrder τ] (z : SortedSet τ) (now : τ) : SortedSet τ :=
  if z.expiresAt.any (· ≤ now) then empty else z

/-- A key without members is removed. -/
def prune (z : SortedSet τ) : SortedSet τ := if z.members.rows = [] then empty else z

def zremrangebyscore [LinearOrder τ] (z : SortedSet τ) (low high : τ) : SortedSet τ :=
  prune { z with members := z.members.delete (fun m => low ≤ m.score ∧ m.score ≤ high) }

def zadd (z : SortedSet τ) (name : String) (score : τ) : SortedSet τ :=
  { z with members := (z.members.delete (fun m => m.name = name)).insertD ⟨name, score⟩ }

def zcard (z : SortedSet τ) : ℕ := z.members.rows.length

/-- A time to live that is not positive removes the key. -/
def expire [AddCommGroup τ] [LinearOrder τ] (z : SortedSet τ) (now seconds : τ) : SortedSet τ :=
  if seconds ≤ 0 then empty else { z with expiresAt := some (now + seconds) }

def zrem (z : SortedSet τ) (name : String) : SortedSet τ :=
  prune { z with members := z.members.delete (fun m => m.name = name) }

theorem mem_prune {z : SortedSet τ} {m : Member τ} :
    m ∈ z.prune.members.rows ↔ m ∈ z.members.rows := by
  unfold prune
  split
  · rename_i hempty
    rw [hempty]
    rfl
  · rfl

theorem mem_seenAt [LinearOrder τ] {z : SortedSet τ} {now : τ} {m : Member τ}
    (hm : m ∈ z.members.rows) (hlive : ∀ e, z.expiresAt = some e → now < e) :
    m ∈ (z.seenAt now).members.rows := by
  unfold seenAt
  rw [if_neg]
  · exact hm
  · rw [Option.any_eq_true]
    rintro ⟨e, he, hle⟩
    exact absurd (hlive e he) (not_lt.mpr (of_decide_eq_true hle))

theorem mem_zremrangebyscore [LinearOrder τ] {z : SortedSet τ} {high : τ} {m : Member τ}
    (hm : m ∈ z.members.rows) (low : τ) (hscore : high < m.score) :
    m ∈ (z.zremrangebyscore low high).members.rows := by
  refine mem_prune.mpr (List.mem_filter.mpr ⟨hm, ?_⟩)
  simp [hscore]

theorem mem_zrem {z : SortedSet τ} {name : String} {m : Member τ} (hm : m ∈ z.members.rows)
    (hname : m.name ≠ name) : m ∈ (z.zrem name).members.rows := by
  refine mem_prune.mpr (List.mem_filter.mpr ⟨hm, ?_⟩)
  simpa using hname

theorem expiresAt_zrem {z : SortedSet τ} {name : String} {e : τ}
    (h : (z.zrem name).expiresAt = some e) : z.expiresAt = some e := by
  unfold zrem prune at h
  split at h
  · cases h
  · exact h

/-- The member is in the set, with its score, beside the others. -/
theorem zadd_rows (z : SortedSet τ) (name : String) (score : τ) :
    (z.zadd name score).members.rows =
      (z.members.delete (fun m => m.name = name)).rows ++ [⟨name, score⟩] := by
  have hfree : (z.members.delete (fun m => m.name = name)).get name = none := by
    rw [Table.get_delete]
    rcases hget : z.members.get name with _ | m
    · rfl
    · rw [Option.filter_some, if_neg]
      simpa using Table.key_of_get hget
  rw [Table.get_eq_none_iff] at hfree
  rcases hinsert : (z.members.delete (fun m => m.name = name)).insert? ⟨name, score⟩ with _ | t
  · unfold Table.insert? at hinsert
    rw [dif_neg hfree] at hinsert
    cases hinsert
  · rw [zadd, Table.insertD_eq hinsert, (Table.insert?_eq_some hinsert).2]

end SortedSet

variable [AddCommGroup τ] [LinearOrder τ]

structure RedisSlidingWindowLimiter (τ : Type*) where
  requests : ℕ
  window : τ
  keyPrefix : String := "ratelimit"

namespace RedisSlidingWindowLimiter

def redisKey (limiter : RedisSlidingWindowLimiter τ) (key : String) : String :=
  limiter.keyPrefix ++ ":" ++ key

/-- The block that `is_allowed` executes at the time `now`: the new set, and the
count that it answers. -/
def execute (limiter : RedisSlidingWindowLimiter τ) (z : SortedSet τ) (now : τ) (member : String) :
    SortedSet τ × ℕ :=
  let trimmed := (z.seenAt now).zremrangebyscore 0 (now - limiter.window)
  let added := trimmed.zadd member now
  (added.expire now limiter.window, added.zcard)

omit [AddCommGroup τ] [LinearOrder τ] in
theorem redisKey_injective (limiter : RedisSlidingWindowLimiter τ) :
    Function.Injective limiter.redisKey := fun _ _ h => (String.append_right_inj _).mp h

/-- A member that the trailing window still holds is still counted. -/
theorem mem_execute {limiter : RedisSlidingWindowLimiter τ} {z : SortedSet τ} {now : τ}
    {member : String} {m : Member τ} (hwindow : 0 < limiter.window) (hm : m ∈ z.members.rows)
    (hlive : ∀ e, z.expiresAt = some e → now < e) (hscore : now - limiter.window < m.score)
    (hname : m.name ≠ member) : m ∈ (limiter.execute z now member).1.members.rows := by
  have htrimmed := SortedSet.mem_zremrangebyscore (SortedSet.mem_seenAt hm hlive) 0 hscore
  rw [execute, SortedSet.expire, if_neg (not_le.mpr hwindow)]
  change m ∈ (SortedSet.zadd _ member now).members.rows
  rw [SortedSet.zadd_rows]
  exact List.mem_append_left _ (List.mem_filter.mpr ⟨htrimmed, by simpa using hname⟩)

theorem own_mem_execute {limiter : RedisSlidingWindowLimiter τ} (z : SortedSet τ) (now : τ)
    (member : String) (hwindow : 0 < limiter.window) :
    ⟨member, now⟩ ∈ (limiter.execute z now member).1.members.rows := by
  rw [execute, SortedSet.expire, if_neg (not_le.mpr hwindow)]
  change _ ∈ (SortedSet.zadd _ member now).members.rows
  rw [SortedSet.zadd_rows]
  exact List.mem_append_right _ (List.mem_singleton_self _)

/-- The count is the size of the set. -/
theorem count_execute {limiter : RedisSlidingWindowLimiter τ} (z : SortedSet τ) (now : τ)
    (member : String) (hwindow : 0 < limiter.window) :
    (limiter.execute z now member).2 = (limiter.execute z now member).1.members.rows.length := by
  rw [execute, SortedSet.expire, if_neg (not_le.mpr hwindow)]
  rfl

theorem expiresAt_execute {limiter : RedisSlidingWindowLimiter τ} {z : SortedSet τ} {now e : τ}
    {member : String} (h : (limiter.execute z now member).1.expiresAt = some e) :
    e = now + limiter.window := by
  rw [execute, SortedSet.expire] at h
  split at h
  · cases h
  · exact (Option.some.inj h).symm

end RedisSlidingWindowLimiter

/-! ### The calls of all workers -/

/-- A call of `is_allowed` after its block; the reply may have been lost. -/
structure LimitedCall (τ : Type*) where
  key : String
  now : τ
  member : String
  count : ℕ
  replied : Bool

/-- Redis, and the calls whose blocks it has executed, in that order. -/
structure RateLimit (τ : Type*) where
  store : String → SortedSet τ
  calls : List (LimitedCall τ)

/-- The count that came back is within the limit: `is_allowed` returns `True`. -/
def LimitedCall.Allowed (limiter : RedisSlidingWindowLimiter τ) (call : LimitedCall τ) : Prop :=
  call.replied = true ∧ call.count ≤ limiter.requests

instance (limiter : RedisSlidingWindowLimiter τ) (call : LimitedCall τ) :
    Decidable (call.Allowed limiter) := inferInstanceAs (Decidable (_ ∧ _))

namespace RateLimit

variable {limiter : RedisSlidingWindowLimiter τ} {s s' s₀ : RateLimit τ}

/-- After the block of a call for `key`. -/
def executed (limiter : RedisSlidingWindowLimiter τ) (s : RateLimit τ) (key : String) (now : τ)
    (member : String) (replied : Bool) : RateLimit τ :=
  let result := limiter.execute (s.store (limiter.redisKey key)) now member
  ⟨Function.update s.store (limiter.redisKey key) result.1,
    s.calls ++ [⟨key, now, member, result.2, replied⟩]⟩

/-- After the `ZREM` of a rejected call. -/
def undone (limiter : RedisSlidingWindowLimiter τ) (s : RateLimit τ) (c : LimitedCall τ) :
    RateLimit τ :=
  ⟨Function.update s.store (limiter.redisKey c.key)
    ((s.store (limiter.redisKey c.key)).zrem c.member), s.calls⟩

/-- A block is executed, or a rejected call removes its member. The readings of
the calls of one key do not go back, and members are unique. -/
inductive Step (limiter : RedisSlidingWindowLimiter τ) (s : RateLimit τ) : RateLimit τ → Prop
  | execute (key : String) (now : τ) (member : String) (replied : Bool) :
      (∀ c ∈ s.calls, c.key = key → c.now ≤ now) → (∀ c ∈ s.calls, c.member ≠ member) →
      Step limiter s (executed limiter s key now member replied)
  | undo (c : LimitedCall τ) : c ∈ s.calls → c.replied = true → limiter.requests < c.count →
      Step limiter s (undone limiter s c)

abbrev Steps (limiter : RedisSlidingWindowLimiter τ) : RateLimit τ → RateLimit τ → Prop :=
  Relation.ReflTransGen (Step limiter)

/-- The calls of a key that were allowed at a time in `(t - window, t]`. -/
def allowedWithin (limiter : RedisSlidingWindowLimiter τ) (s : RateLimit τ) (key : String) (t : τ) :
    List (LimitedCall τ) :=
  s.calls.filter (fun c => c.key = key ∧ c.Allowed limiter ∧ t - limiter.window < c.now ∧ c.now ≤ t)

/-- Every allowed call is in its sorted set until a call of its key comes a
window later, and a key expires a window after its last call. -/
structure Recorded (limiter : RedisSlidingWindowLimiter τ) (s : RateLimit τ) : Prop where
  member : (s.calls.map LimitedCall.member).Nodup
  kept : ∀ c ∈ s.calls, c.Allowed limiter →
    ⟨c.member, c.now⟩ ∈ (s.store (limiter.redisKey c.key)).members.rows ∨
      ∃ d ∈ s.calls, d.key = c.key ∧ c.now ≤ d.now - limiter.window
  expiry : ∀ c ∈ s.calls, ∀ e, (s.store (limiter.redisKey c.key)).expiresAt = some e →
    c.now + limiter.window ≤ e
  bounded : ∀ key t, (allowedWithin limiter s key t).length ≤ limiter.requests

omit [AddCommGroup τ] [LinearOrder τ] in
/-- Calls whose members are all in one sorted set are at most as many. -/
theorem length_le_of_members {calls : List (LimitedCall τ)} {rows : List (Member τ)}
    (hnodup : (calls.map LimitedCall.member).Nodup)
    (hmem : ∀ c ∈ calls, ⟨c.member, c.now⟩ ∈ rows) : calls.length ≤ rows.length := by
  have hdistinct : (calls.map (fun c => (⟨c.member, c.now⟩ : Member τ))).Nodup := by
    refine List.Nodup.of_map Member.name ?_
    rwa [List.map_map]
  have hsubset : calls.map (fun c => (⟨c.member, c.now⟩ : Member τ)) ⊆ rows := by
    intro m hm
    obtain ⟨c, hc, rfl⟩ := List.mem_map.mp hm
    exact hmem c hc
  have hlength := (List.subperm_of_subset hdistinct hsubset).length_le
  rwa [List.length_map] at hlength

theorem recorded_of_no_calls (h : s.calls = []) : Recorded limiter s := by
  constructor <;> simp [h, allowedWithin]

/-- The call is in its sorted set, or out of the window of a later one. -/
def Kept (limiter : RedisSlidingWindowLimiter τ) (s : RateLimit τ) (c : LimitedCall τ) : Prop :=
  ⟨c.member, c.now⟩ ∈ (s.store (limiter.redisKey c.key)).members.rows ∨
    ∃ d ∈ s.calls, d.key = c.key ∧ c.now ≤ d.now - limiter.window

/-- A `ZREM` takes out its own member only. -/
theorem Kept.undo {c x : LimitedCall τ} (h : Kept limiter s x) (hne : x.member ≠ c.member) :
    Kept limiter (undone limiter s c) x := by
  rcases h with hmem | hleft
  · refine Or.inl ?_
    change _ ∈ (Function.update s.store _ _ _).members.rows
    by_cases hkey : limiter.redisKey x.key = limiter.redisKey c.key
    · rw [hkey, Function.update_self]
      rw [hkey] at hmem
      exact SortedSet.mem_zrem hmem hne
    · rw [Function.update_of_ne hkey]
      exact hmem
  · exact Or.inr hleft

/-- A rejected call removes nobody else's member. -/
theorem Recorded.undo (h : Recorded limiter s) {c : LimitedCall τ} (hc : c ∈ s.calls)
    (hrejected : limiter.requests < c.count) :
    Recorded limiter (undone limiter s c) := by
  refine ⟨h.member, ?_, ?_, h.bounded⟩
  · intro x hx hallowed
    refine Kept.undo (h.kept x hx hallowed) ?_
    intro hsame
    obtain rfl := List.inj_on_of_nodup_map h.member hx hc hsame
    exact absurd hallowed.2 (not_le.mpr hrejected)
  · intro x hx e he
    change (Function.update s.store _ _ _).expiresAt = some e at he
    by_cases hkey : limiter.redisKey x.key = limiter.redisKey c.key
    · rw [hkey, Function.update_self] at he
      refine h.expiry x hx e ?_
      rw [hkey]
      exact SortedSet.expiresAt_zrem he
    · rw [Function.update_of_ne hkey] at he
      exact h.expiry x hx e he

variable [IsOrderedAddMonoid τ]

/-- A call that is still in a window that contains `now` is still counted. -/
theorem Recorded.mem_execute (h : Recorded limiter s) {key : String} {now : τ} {member : String}
    (hwindow : 0 < limiter.window) (hclock : ∀ c ∈ s.calls, c.key = key → c.now ≤ now)
    (hfresh : ∀ c ∈ s.calls, c.member ≠ member) {c : LimitedCall τ} (hc : c ∈ s.calls)
    (hkey : c.key = key) (hkept : Kept limiter s c) (hscore : now - limiter.window < c.now) :
    ⟨c.member, c.now⟩ ∈
      (limiter.execute (s.store (limiter.redisKey key)) now member).1.members.rows := by
  subst hkey
  rcases hkept with hmem | ⟨d, hd, hdkey, hleft⟩
  · refine RedisSlidingWindowLimiter.mem_execute hwindow hmem ?_ hscore (hfresh c hc)
    intro e he
    exact lt_of_lt_of_le (sub_lt_iff_lt_add.mp hscore) (h.expiry c hc e he)
  · have hlate := hleft.trans (sub_le_sub_right (hclock d hd hdkey) limiter.window)
    exact absurd hscore (not_lt.mpr hlate)

section Execute

variable {key : String} {now : τ} {member : String} {replied : Bool}

/-- The call that `executed` adds. -/
def added (limiter : RedisSlidingWindowLimiter τ) (s : RateLimit τ) (key : String) (now : τ)
    (member : String) (replied : Bool) : LimitedCall τ :=
  ⟨key, now, member, (limiter.execute (s.store (limiter.redisKey key)) now member).2, replied⟩

omit [IsOrderedAddMonoid τ] in
theorem mem_calls_executed {c : LimitedCall τ} :
    c ∈ (executed limiter s key now member replied).calls ↔
      c ∈ s.calls ∨ c = added limiter s key now member replied := by
  rw [executed, List.mem_append, List.mem_singleton, added]

omit [IsOrderedAddMonoid τ] in
theorem store_executed : (executed limiter s key now member replied).store (limiter.redisKey key) =
    (limiter.execute (s.store (limiter.redisKey key)) now member).1 :=
  Function.update_self ..

omit [IsOrderedAddMonoid τ] in
theorem store_executed_of_ne {key' : String} (hne : key' ≠ key) :
    (executed limiter s key now member replied).store (limiter.redisKey key') =
      s.store (limiter.redisKey key') :=
  Function.update_of_ne (limiter.redisKey_injective.ne hne) ..

theorem Recorded.kept_added (h : Recorded limiter s)
    (hclock : ∀ c ∈ s.calls, c.key = key → c.now ≤ now) (hfresh : ∀ c ∈ s.calls, c.member ≠ member)
    {c : LimitedCall τ} (hc : c ∈ s.calls) (hkept : Kept limiter s c) :
    Kept limiter (executed limiter s key now member replied) c := by
  by_cases hkey : c.key = key
  · subst hkey
    by_cases hscore : now - limiter.window < c.now
    · have hwindow : 0 < limiter.window :=
        sub_lt_self_iff now |>.mp (hscore.trans_le (hclock c hc rfl))
      refine Or.inl ?_
      rw [store_executed]
      exact h.mem_execute hwindow hclock hfresh hc rfl hkept hscore
    · exact Or.inr ⟨_, mem_calls_executed.mpr (Or.inr rfl), rfl, not_lt.mp hscore⟩
  · rcases hkept with hmem | ⟨d, hd, hdkey, hleft⟩
    · refine Or.inl ?_
      rw [store_executed_of_ne hkey]
      exact hmem
    · exact Or.inr ⟨d, mem_calls_executed.mpr (Or.inl hd), hdkey, hleft⟩

theorem kept_own : Kept limiter (executed limiter s key now member replied)
    (added limiter s key now member replied) := by
  by_cases hwindow : 0 < limiter.window
  · refine Or.inl ?_
    change _ ∈ ((executed limiter s key now member replied).store
      (limiter.redisKey key)).members.rows
    rw [store_executed]
    exact RedisSlidingWindowLimiter.own_mem_execute _ now member hwindow
  · refine Or.inr ⟨_, mem_calls_executed.mpr (Or.inr rfl), rfl, ?_⟩
    exact le_sub_self_iff now |>.mpr (not_lt.mp hwindow)

theorem Recorded.kept_executed (h : Recorded limiter s)
    (hclock : ∀ c ∈ s.calls, c.key = key → c.now ≤ now) (hfresh : ∀ c ∈ s.calls, c.member ≠ member)
    {c : LimitedCall τ} (hc : c ∈ (executed limiter s key now member replied).calls)
    (hallowed : c.Allowed limiter) :
    Kept limiter (executed limiter s key now member replied) c := by
  rcases mem_calls_executed.mp hc with hold | rfl
  · exact h.kept_added hclock hfresh hold (h.kept c hold hallowed)
  · exact kept_own

/-- The newest call of the window has counted all of the window. -/
theorem Recorded.bounded_executed (h : Recorded limiter s)
    (hmember : ((executed limiter s key now member replied).calls.map LimitedCall.member).Nodup)
    (hclock : ∀ c ∈ s.calls, c.key = key → c.now ≤ now) (hfresh : ∀ c ∈ s.calls, c.member ≠ member)
    (key' : String) (t : τ) :
    (allowedWithin limiter (executed limiter s key now member replied) key' t).length ≤
      limiter.requests := by
  by_cases hnew : key = key' ∧ (added limiter s key now member replied).Allowed limiter ∧
      t - limiter.window < now ∧ now ≤ t
  · obtain ⟨rfl, hallowed, hlow, hhigh⟩ := hnew
    have hwindow : 0 < limiter.window := sub_lt_self_iff t |>.mp (hlow.trans_le hhigh)
    have hcounted : ∀ c ∈ allowedWithin limiter (executed limiter s key now member replied) key t,
        ⟨c.member, c.now⟩ ∈
          (limiter.execute (s.store (limiter.redisKey key)) now member).1.members.rows := by
      intro c hc
      obtain ⟨hmem, hin⟩ := List.mem_filter.mp hc
      obtain ⟨hkey, hc', hafter, _⟩ := of_decide_eq_true hin
      rcases mem_calls_executed.mp hmem with hold | rfl
      · have hscore := (sub_le_sub_right hhigh limiter.window).trans_lt hafter
        exact h.mem_execute hwindow hclock hfresh hold hkey (h.kept c hold hc') hscore
      · exact RedisSlidingWindowLimiter.own_mem_execute _ now member hwindow
    have hnodup : ((allowedWithin limiter (executed limiter s key now member replied) key t).map
        LimitedCall.member).Nodup := (List.filter_sublist.map LimitedCall.member).nodup hmember
    have hlength := length_le_of_members hnodup hcounted
    rw [← RedisSlidingWindowLimiter.count_execute _ now member hwindow] at hlength
    exact hlength.trans hallowed.2
  · have hsame : allowedWithin limiter (executed limiter s key now member replied) key' t =
        allowedWithin limiter s key' t := by
      rw [allowedWithin, executed, List.filter_append, List.filter_singleton]
      have hout := decide_eq_false hnew
      rw [added] at hout
      simp only [hout]
      exact List.append_nil _
    rw [hsame]
    exact h.bounded key' t

omit [IsOrderedAddMonoid τ] in
theorem nodup_members_executed (hmember : (s.calls.map LimitedCall.member).Nodup)
    (hfresh : ∀ c ∈ s.calls, c.member ≠ member) :
    ((executed limiter s key now member replied).calls.map LimitedCall.member).Nodup := by
  rw [RateLimit.executed, List.map_append, List.map_singleton, List.nodup_append]
  refine ⟨hmember, List.nodup_singleton _, ?_⟩
  intro m hm m' hm'
  obtain ⟨c, hc, rfl⟩ := List.mem_map.mp hm
  rw [List.mem_singleton.mp hm']
  exact hfresh c hc

theorem Recorded.executed (h : Recorded limiter s)
    (hclock : ∀ c ∈ s.calls, c.key = key → c.now ≤ now)
    (hfresh : ∀ c ∈ s.calls, c.member ≠ member) :
    Recorded limiter (executed limiter s key now member replied) := by
  have hmember : ((RateLimit.executed limiter s key now member replied).calls.map
      LimitedCall.member).Nodup := nodup_members_executed h.member hfresh
  refine ⟨hmember, fun c hc => h.kept_executed hclock hfresh hc, ?_,
    h.bounded_executed hmember hclock hfresh⟩
  intro c hc e he
  by_cases hkey : c.key = key
  · rw [hkey, store_executed] at he
    rw [RedisSlidingWindowLimiter.expiresAt_execute he]
    rcases mem_calls_executed.mp hc with hold | rfl
    · exact add_le_add_left (hclock c hold hkey) limiter.window
    · exact le_refl _
  · rw [store_executed_of_ne hkey] at he
    rcases mem_calls_executed.mp hc with hold | rfl
    · exact h.expiry c hold e he
    · exact absurd rfl hkey

end Execute

theorem Steps.recorded (h : Steps limiter s₀ s) (hstart : s₀.calls = []) : Recorded limiter s := by
  induction h with
  | refl => exact recorded_of_no_calls hstart
  | tail _ hstep ih =>
    cases hstep with
    | execute key now member replied hclock hfresh => exact ih.executed hclock hfresh
    | undo c hc _ hrejected => exact ih.undo hc hrejected

theorem allowed_within_limit (hstart : s₀.calls = []) (hrun : Steps limiter s₀ s) (key : String)
    (t : τ) : (allowedWithin limiter s key t).length ≤ limiter.requests :=
  (Steps.recorded hrun hstart).bounded key t

/-! Three calls within one window of two. -/

def twoPerMinute : RedisSlidingWindowLimiter ℤ := ⟨2, 60, "ratelimit"⟩

def idle : RateLimit ℤ := ⟨fun _ => SortedSet.empty, []⟩

def oneCall : RateLimit ℤ := executed twoPerMinute idle "10.0.0.1" 100 "100:a" true

def twoCalls : RateLimit ℤ := executed twoPerMinute oneCall "10.0.0.1" 130 "130:b" true

def threeCalls : RateLimit ℤ := executed twoPerMinute twoCalls "10.0.0.1" 130 "130:c" true

theorem steps_threeCalls : Steps twoPerMinute idle threeCalls := by
  have hfirst : Step twoPerMinute idle oneCall := .execute _ _ _ _ nofun nofun
  have hsecond : Step twoPerMinute oneCall twoCalls :=
    .execute _ _ _ _ (by decide) (by decide)
  have hthird : Step twoPerMinute twoCalls threeCalls :=
    .execute _ _ _ _ (by decide) (by decide)
  exact .tail (.tail (.single hfirst) hsecond) hthird

theorem allowed_within_limit_threeCalls :
    (allowedWithin twoPerMinute threeCalls "10.0.0.1" 130).length ≤ 2 :=
  allowed_within_limit rfl steps_threeCalls "10.0.0.1" 130

end RateLimit
end FastapiTemplate
