import FastapiTemplate.OutsideSteps
import FastapiTemplate.SlidingWindow

/-!
`core.ratelimit.limiters`: the limiter of every request and that of the logins
keep their sorted sets on one Redis. The keys of the two are apart unless the
address of a client starts with `login:`, so each limiter sees the run that it
would see alone: a `get_remaining` trims only what the next block trims anyway,
and the blocks of the other limiter are about other keys. Both limits hold
together, and so do they bound the guesses of a password.
-/
namespace FastapiTemplate

open Library.KeyedTable

/-! ### Sorted sets up to their trim -/

namespace SortedSet

variable {τ : Type*}

/-- `ZREM` and `ZREMRANGEBYSCORE` take members out, and the key with the last. -/
def drop (p : Member τ → Bool) (z : SortedSet τ) : SortedSet τ :=
  prune { z with members := z.members.delete p }

theorem drop_congr {p q : Member τ → Bool} {z : SortedSet τ}
    (h : ∀ m ∈ z.members.rows, p m = q m) : drop p z = drop q z := by
  rw [drop, drop, Table.delete_congr h]

theorem drop_of_nil {p : Member τ → Bool} {z : SortedSet τ}
    (h : (z.members.delete p).rows = []) : drop p z = empty :=
  if_pos h

theorem drop_of_ne_nil {p : Member τ → Bool} {z : SortedSet τ}
    (h : (z.members.delete p).rows ≠ []) :
    drop p z = { z with members := z.members.delete p } :=
  if_neg h

theorem drop_empty (p : Member τ → Bool) : drop p (empty : SortedSet τ) = empty := drop_of_nil rfl

theorem drop_drop (p q : Member τ → Bool) (z : SortedSet τ) :
    drop q (drop p z) = drop (fun m => p m || q m) z := by
  have hboth : (z.members.delete p).delete q = z.members.delete (fun m => p m || q m) :=
    Table.delete_delete z.members p q
  by_cases hp : (z.members.delete p).rows = []
  · have hnone : (z.members.delete (fun m => p m || q m)).rows = [] := by
      rw [← hboth]
      change List.filter _ (z.members.delete p).rows = []
      rw [hp]
      rfl
    rw [drop_of_nil hp, drop_empty, drop_of_nil hnone]
  · rw [drop_of_ne_nil hp, drop, drop]
    dsimp only
    rw [hboth]

variable [LinearOrder τ]

theorem seenAt_empty (now : τ) : (empty : SortedSet τ).seenAt now = empty :=
  if_neg (by simp [empty])

theorem seenAt_drop (p : Member τ → Bool) (z : SortedSet τ) (now : τ) :
    (drop p z).seenAt now = drop p (z.seenAt now) := by
  by_cases hnil : (z.members.delete p).rows = []
  · rw [drop_of_nil hnil, seenAt_empty, seenAt]
    split
    · rw [drop_empty]
    · rw [drop_of_nil hnil]
  · rw [drop_of_ne_nil hnil, seenAt, seenAt]
    dsimp only
    split
    · rw [drop_empty]
    · rw [drop_of_ne_nil hnil]

theorem seenAt_seenAt {z : SortedSet τ} {t now : τ} (h : t ≤ now) :
    (z.seenAt t).seenAt now = z.seenAt now := by
  unfold seenAt
  by_cases hearly : z.expiresAt.any (· ≤ t) = true
  · have hlate : z.expiresAt.any (· ≤ now) = true := by
      obtain ⟨e, he, hle⟩ := (Option.any_eq_true _ _).mp hearly
      exact (Option.any_eq_true _ _).mpr ⟨e, he, decide_eq_true ((of_decide_eq_true hle).trans h)⟩
    rw [if_pos hearly, if_pos hlate, if_neg (by simp [empty])]
  · rw [if_neg hearly]

variable [AddCommGroup τ]

/-- What a block or a `get_remaining` at `now` leaves of the set. -/
def trim (window : τ) (z : SortedSet τ) (now : τ) : SortedSet τ :=
  (z.seenAt now).zremrangebyscore 0 (now - window)

theorem trim_eq (window : τ) (z : SortedSet τ) (now : τ) : z.trim window now =
    drop (fun m => 0 ≤ m.score ∧ m.score ≤ now - window) (z.seenAt now) := rfl

theorem trim_zrem (window : τ) (z : SortedSet τ) (name : String) (now : τ) :
    (z.zrem name).trim window now = (z.trim window now).zrem name := by
  change (drop _ z).trim window now = drop _ (z.trim window now)
  rw [trim_eq, trim_eq, seenAt_drop, drop_drop, drop_drop]
  exact drop_congr (fun m _ => Bool.or_comm _ _)

variable [IsOrderedAddMonoid τ]

/-- A later trim takes out at least as much. -/
theorem trim_trim {window : τ} {z : SortedSet τ} {t now : τ} (h : t ≤ now) :
    (z.trim window t).trim window now = z.trim window now := by
  rw [trim_eq, trim_eq, trim_eq, seenAt_drop, seenAt_seenAt h, drop_drop]
  refine drop_congr ?_
  intro m _
  rw [← Bool.decide_or, decide_eq_decide, or_iff_right_iff_imp]
  exact fun hold => ⟨hold.1, hold.2.trans (sub_le_sub_right h window)⟩

end SortedSet

/-! ### Limiters on one Redis -/

variable {ι τ : Type*} [AddCommGroup τ] [LinearOrder τ]

/-- Redis, the last reading of the clock for each key, and the calls of
`is_allowed` by their limiter, in the order of their blocks. -/
structure SharedRedis (ι τ : Type*) where
  store : String → SortedSet τ
  clock : String → Option τ
  calls : List (ι × LimitedCall τ)

namespace SharedRedis

variable (family : ι → RedisSlidingWindowLimiter τ)

/-- After the block of a call of the limiter `i`. -/
def executed (s : SharedRedis ι τ) (i : ι) (key : String) (now : τ) (member : String)
    (replied : Bool) : SharedRedis ι τ :=
  let k := (family i).redisKey key
  let result := (family i).execute (s.store k) now member
  ⟨Function.update s.store k result.1, Function.update s.clock k (some now),
    s.calls ++ [(i, ⟨key, now, member, result.2, replied⟩)]⟩

/-- After the trim of a `get_remaining`. -/
def trimmed (s : SharedRedis ι τ) (i : ι) (key : String) (now : τ) : SharedRedis ι τ :=
  let k := (family i).redisKey key
  ⟨Function.update s.store k ((s.store k).trim (family i).window now),
    Function.update s.clock k (some now), s.calls⟩

/-- After the `ZREM` of a rejected call. -/
def undone (s : SharedRedis ι τ) (c : ι × LimitedCall τ) : SharedRedis ι τ :=
  let k := (family c.1).redisKey c.2.key
  ⟨Function.update s.store k ((s.store k).zrem c.2.member), s.clock, s.calls⟩

/-- The readings for one key do not go back. -/
def Follows (s : SharedRedis ι τ) (i : ι) (key : String) (now : τ) : Prop :=
  ∀ t, s.clock ((family i).redisKey key) = some t → t ≤ now

/-- One command block of any worker. A limiter is asked about its own keys, and the
clocks of the workers agree as far as the keys show it. -/
inductive Step (owns : ι → String → Prop) (s : SharedRedis ι τ) : SharedRedis ι τ → Prop
  | isAllowed (i : ι) (key : String) (now : τ) (member : String) (replied : Bool) :
      owns i key → s.Follows family i key now → (∀ c ∈ s.calls, c.2.member ≠ member) →
      Step owns s (s.executed family i key now member replied)
  | getRemaining (i : ι) (key : String) (now : τ) : owns i key → s.Follows family i key now →
      Step owns s (s.trimmed family i key now)
  | undo (c : ι × LimitedCall τ) : c ∈ s.calls → c.2.replied = true →
      (family c.1).requests < c.2.count → Step owns s (s.undone family c)

abbrev Steps (owns : ι → String → Prop) : SharedRedis ι τ → SharedRedis ι τ → Prop :=
  Relation.ReflTransGen (Step family owns)

/-- No two limiters use one key of Redis. -/
def Apart (owns : ι → String → Prop) : Prop :=
  ∀ i j key key', owns i key → owns j key' →
    (family i).redisKey key = (family j).redisKey key' → i = j

variable [DecidableEq ι]

/-- The answered calls of one limiter for a key that were allowed in
`(t - window, t]`. A call that fails open has no reply and is not counted. -/
def allowedWithin (s : SharedRedis ι τ) (i : ι) (key : String) (t : τ) : List (ι × LimitedCall τ) :=
  s.calls.filter (fun c => c.1 = i ∧ c.2.key = key ∧ c.2.Allowed (family i) ∧
    t - (family i).window < c.2.now ∧ c.2.now ≤ t)

/-- The limiter `i` on a Redis of its own: it has executed the same calls with
the same counts, and a block from now on finds the same set. -/
structure View (owns : ι → String → Prop) (s : SharedRedis ι τ) (i : ι) (r : RateLimit τ) :
    Prop where
  calls : r.calls = (s.calls.filter (fun c => c.1 = i)).map Prod.snd
  owned : ∀ c ∈ s.calls, owns c.1 c.2.key
  passed : ∀ c ∈ s.calls, ∃ t, s.clock ((family c.1).redisKey c.2.key) = some t ∧ c.2.now ≤ t
  store : ∀ key, owns i key → ∀ now, s.Follows family i key now →
    (s.store ((family i).redisKey key)).trim (family i).window now =
      (r.store ((family i).redisKey key)).trim (family i).window now

variable {family} {owns : ι → String → Prop} {s s' s₀ : SharedRedis ι τ} {i j : ι}
  {r : RateLimit τ} {key member : String} {now : τ} {replied : Bool}

omit [DecidableEq ι] in
theorem execute_congr {limiter : RedisSlidingWindowLimiter τ} {z z' : SortedSet τ}
    (member : String) (h : z.trim limiter.window now = z'.trim limiter.window now) :
    limiter.execute z now member = limiter.execute z' now member := by
  have htrim (z : SortedSet τ) : limiter.execute z now member =
      (((z.trim limiter.window now).zadd member now).expire now limiter.window,
        ((z.trim limiter.window now).zadd member now).zcard) := rfl
  rw [htrim, htrim, h]

theorem View.mem_calls (h : View family owns s i r) {c : LimitedCall τ} :
    c ∈ r.calls ↔ (i, c) ∈ s.calls := by
  rw [h.calls, List.mem_map]
  constructor
  · rintro ⟨⟨j, d⟩, hd, rfl⟩
    obtain ⟨hmem, hj⟩ := List.mem_filter.mp hd
    obtain rfl : j = i := of_decide_eq_true hj
    exact hmem
  · exact fun hc => ⟨(i, c), List.mem_filter.mpr ⟨hc, decide_eq_true rfl⟩, rfl⟩

omit [DecidableEq ι] in
theorem clock_executed (s : SharedRedis ι τ) (i : ι) :
    (s.executed family i key now member replied).clock ((family i).redisKey key) = some now :=
  Function.update_self ..

omit [AddCommGroup τ] [LinearOrder τ] [DecidableEq ι] in
/-- A block or trim of another limiter is about another key. -/
theorem Apart.redisKey_ne (h : Apart family owns) (hij : j ≠ i) {key' : String}
    (hkey : owns j key) (hkey' : owns i key') :
    (family i).redisKey key' ≠ (family j).redisKey key :=
  fun hsame => hij (h j i key key' hkey hkey' hsame.symm)

theorem View.start (hcalls : s.calls = []) : View family owns s i ⟨s.store, []⟩ := by
  constructor <;> simp [hcalls]

/-- A block at `key` leaves the other keys of the limiter as they are. -/
theorem View.store_of_ne (h : View family owns s i r) {k : String} {z : SortedSet τ}
    {t : Option τ} {key' : String} (hkey' : owns i key') (hne : (family i).redisKey key' ≠ k)
    (hfollows : ∀ t', Function.update s.clock k t ((family i).redisKey key') = some t' →
      t' ≤ now) :
    (Function.update s.store k z ((family i).redisKey key')).trim (family i).window now =
      (r.store ((family i).redisKey key')).trim (family i).window now := by
  rw [Function.update_of_ne hne] at hfollows ⊢
  exact h.store key' hkey' now hfollows

/-- The calls that were made are at or before the last reading of their key. -/
theorem View.passed_update (h : View family owns s i r) (hfollows : s.Follows family j key now) :
    ∀ c ∈ s.calls, ∃ t, Function.update s.clock ((family j).redisKey key) (some now)
      ((family c.1).redisKey c.2.key) = some t ∧ c.2.now ≤ t := by
  intro c hc
  obtain ⟨t, ht, hle⟩ := h.passed c hc
  by_cases hkey : (family c.1).redisKey c.2.key = (family j).redisKey key
  · rw [hkey] at ht ⊢
    exact ⟨now, Function.update_self .., hle.trans (hfollows t ht)⟩
  · exact ⟨t, by rw [Function.update_of_ne hkey, ht], hle⟩

theorem View.length_allowedWithin (h : View family owns s i r) (key : String) (t : τ) :
    (s.allowedWithin family i key t).length =
      (RateLimit.allowedWithin (family i) r key t).length := by
  rw [RateLimit.allowedWithin, h.calls, List.filter_map, List.length_map, List.filter_filter]
  refine congrArg List.length (List.filter_congr ?_)
  intro c _
  rw [Bool.eq_iff_iff]
  simp only [Bool.and_eq_true, decide_eq_true_eq, Function.comp_apply]
  tauto

theorem View.undone (h : View family owns s i r) (hapart : Apart family owns)
    {c : ι × LimitedCall τ} (hc : c ∈ s.calls) (hreplied : c.2.replied = true)
    (hrejected : (family c.1).requests < c.2.count) :
    ∃ r', RateLimit.Steps (family i) r r' ∧ View family owns (s.undone family c) i r' := by
  obtain ⟨j, c⟩ := c
  have hkey := h.owned _ hc
  by_cases hij : j = i
  · subst hij
    refine ⟨RateLimit.undone (family j) r c, .single (.undo c (h.mem_calls.mpr hc) hreplied
      hrejected), h.calls, h.owned, h.passed, ?_⟩
    intro key' hkey' now' hnow'
    by_cases hsamekey : key' = c.key
    · subst hsamekey
      change (Function.update s.store _ _ _).trim _ _ = (Function.update r.store _ _ _).trim _ _
      rw [Function.update_self, Function.update_self, SortedSet.trim_zrem, SortedSet.trim_zrem,
        h.store _ hkey' now' hnow']
    · have hne := (family j).redisKey_injective.ne hsamekey
      change (Function.update s.store _ _ _).trim _ _ = (Function.update r.store _ _ _).trim _ _
      rw [Function.update_of_ne hne, Function.update_of_ne hne]
      exact h.store key' hkey' now' hnow'
  · refine ⟨r, .refl, h.calls, h.owned, h.passed, ?_⟩
    intro key' hkey' now' hnow'
    change (Function.update s.store _ _ _).trim _ _ = _
    rw [Function.update_of_ne (hapart.redisKey_ne hij hkey hkey')]
    exact h.store key' hkey' now' hnow'

theorem View.executed (h : View family owns s i r) (hapart : Apart family owns)
    (hkey : owns j key) (hfollows : s.Follows family j key now)
    (hfresh : ∀ c ∈ s.calls, c.2.member ≠ member) :
    ∃ r', RateLimit.Steps (family i) r r' ∧
      View family owns (s.executed family j key now member replied) i r' := by
  have howned : ∀ c ∈ (s.executed family j key now member replied).calls, owns c.1 c.2.key := by
    intro c hc
    rcases List.mem_append.mp hc with hold | hnew
    · exact h.owned c hold
    · obtain rfl := List.mem_singleton.mp hnew
      exact hkey
  have hpassed : ∀ c ∈ (s.executed family j key now member replied).calls, ∃ t,
      (s.executed family j key now member replied).clock ((family c.1).redisKey c.2.key) =
        some t ∧ c.2.now ≤ t := by
    intro c hc
    rcases List.mem_append.mp hc with hold | hnew
    · exact h.passed_update hfollows c hold
    · obtain rfl := List.mem_singleton.mp hnew
      exact ⟨now, clock_executed s j, le_refl _⟩
  by_cases hij : j = i
  · subst hij
    have hsame := execute_congr member (h.store key hkey now hfollows)
    refine ⟨RateLimit.executed (family j) r key now member replied,
      .single (.execute key now member replied ?_ ?_), ?_, howned, hpassed, ?_⟩
    · intro c hc hck
      obtain ⟨t, ht, hle⟩ := h.passed _ (h.mem_calls.mp hc)
      rw [hck] at ht
      exact hle.trans (hfollows t ht)
    · exact fun c hc => hfresh _ (h.mem_calls.mp hc)
    · change r.calls ++ _ = List.map Prod.snd (List.filter _ (s.calls ++ _))
      rw [List.filter_append, List.map_append, ← h.calls, hsame]
      simp
    · intro key' hkey' now' hnow'
      by_cases hsamekey : key' = key
      · subst hsamekey
        change (Function.update s.store _ _ _).trim _ _ = (Function.update r.store _ _ _).trim _ _
        rw [Function.update_self, Function.update_self, hsame]
      · have hne := (family j).redisKey_injective.ne hsamekey
        change _ = (Function.update r.store _ _ _).trim _ _
        rw [Function.update_of_ne hne]
        exact h.store_of_ne hkey' hne hnow'
  · refine ⟨r, .refl, ?_, howned, hpassed, ?_⟩
    · change _ = List.map Prod.snd (List.filter _ (s.calls ++ _))
      rw [List.filter_append, List.map_append, ← h.calls]
      simp [hij]
    · intro key' hkey' now' hnow'
      exact h.store_of_ne hkey' (hapart.redisKey_ne hij hkey hkey') hnow'

variable [IsOrderedAddMonoid τ]

theorem View.trimmed (h : View family owns s i r) (hapart : Apart family owns)
    (hkey : owns j key) (hfollows : s.Follows family j key now) :
    View family owns (s.trimmed family j key now) i r := by
  refine ⟨h.calls, h.owned, h.passed_update hfollows, ?_⟩
  intro key' hkey' now' hnow'
  by_cases hsamekey : (family i).redisKey key' = (family j).redisKey key
  · obtain rfl := hapart j i key key' hkey hkey' hsamekey.symm
    obtain rfl := (family j).redisKey_injective hsamekey
    have hlater : now ≤ now' := hnow' now (Function.update_self ..)
    change (Function.update s.store _ _ _).trim _ _ = _
    rw [Function.update_self, SortedSet.trim_trim hlater]
    exact h.store key' hkey' now' (fun t ht => (hfollows t ht).trans hlater)
  · exact h.store_of_ne hkey' hsamekey hnow'

/-- Every limiter sees a run of its own. -/
theorem Steps.view (hapart : Apart family owns) (hstart : s₀.calls = [])
    (hrun : Steps family owns s₀ s) (i : ι) :
    ∃ r, RateLimit.Steps (family i) ⟨s₀.store, []⟩ r ∧ View family owns s i r := by
  induction hrun with
  | refl => exact ⟨_, .refl, .start hstart⟩
  | tail _ hstep ih =>
    obtain ⟨r, hsteps, hview⟩ := ih
    cases hstep with
    | isAllowed j key now member replied hkey hfollows hfresh =>
      obtain ⟨r', hnext, hview'⟩ := hview.executed hapart hkey hfollows hfresh
      exact ⟨r', hsteps.trans hnext, hview'⟩
    | getRemaining j key now hkey hfollows => exact ⟨r, hsteps, hview.trimmed hapart hkey hfollows⟩
    | undo c hc hreplied hrejected =>
      obtain ⟨r', hnext, hview'⟩ := hview.undone hapart hc hreplied hrejected
      exact ⟨r', hsteps.trans hnext, hview'⟩

/-- The limits of all the limiters hold together. -/
theorem limits_hold_together (hapart : Apart family owns) (hstart : s₀.calls = [])
    (hrun : Steps family owns s₀ s) (i : ι) (key : String) (t : τ) :
    (s.allowedWithin family i key t).length ≤ (family i).requests := by
  obtain ⟨r, hsteps, hview⟩ := hrun.view hapart hstart i
  rw [hview.length_allowedWithin]
  exact (hsteps.recorded rfl).bounded key t

end SharedRedis

/-! ### The two instances -/

/-- `limiter` and `login_limiter`. -/
inductive Limiters
  | limiter
  | loginLimiter
  deriving DecidableEq

namespace Limiters

/-- `minute` is the window of sixty seconds. -/
def config (minute : τ) : Limiters → RedisSlidingWindowLimiter τ
  | limiter => { requests := 120, window := minute }
  | loginLimiter => { requests := 10, window := minute, keyPrefix := "ratelimit:login" }

/-- The middleware asks about the address of the client, the login about the
username; no address looks like a key of the login limiter. -/
def Owns : Limiters → String → Prop
  | limiter, address => ∀ username, address ≠ "login:" ++ username
  | loginLimiter, _ => True

omit [AddCommGroup τ] [LinearOrder τ] in
theorem redisKey_eq_iff {minute : τ} {address username : String} :
    (config minute limiter).redisKey address = (config minute loginLimiter).redisKey username ↔
      address = "login:" ++ username := by
  have hlogin : (config minute loginLimiter).redisKey username =
      (config minute limiter).redisKey ("login:" ++ username) := by
    simp [config, RedisSlidingWindowLimiter.redisKey, String.ext_iff]
  rw [hlogin]
  exact (RedisSlidingWindowLimiter.redisKey_injective _).eq_iff

omit [AddCommGroup τ] [LinearOrder τ] in
theorem apart (minute : τ) : SharedRedis.Apart (config minute) Owns := by
  rintro (_ | _) (_ | _) key key' hkey hkey' hsame
  · rfl
  · exact absurd (redisKey_eq_iff.mp hsame) (hkey key')
  · exact absurd (redisKey_eq_iff.mp hsame.symm) (hkey' key)
  · rfl

end Limiters

section Throttles

variable [IsOrderedAddMonoid τ] {minute : τ} {s s₀ : SharedRedis Limiters τ}

end Throttles

/-! A request, and then logins of one username, one a second. -/

def untouched : SharedRedis Limiters ℤ := ⟨fun _ => .empty, fun _ => none, []⟩

def logins : ℕ → SharedRedis Limiters ℤ
  | 0 => untouched.executed (Limiters.config 60) .limiter "10.0.0.1" 100 (Uuid.str 0) true
  | n + 1 => (logins n).executed (Limiters.config 60) .loginLimiter "ann" (101 + n)
      (Uuid.str (.ofNat 128 (n + 1))) true

theorem logins_member (n : ℕ) :
    ∀ c ∈ (logins n).calls, ∃ k ≤ n, c.2.member = Uuid.str (.ofNat 128 k) := by
  induction n with
  | zero =>
    intro c hc
    obtain rfl := List.mem_singleton.mp hc
    exact ⟨0, le_refl _, by decide⟩
  | succ n ih =>
    intro c hc
    rcases List.mem_append.mp hc with hold | hnew
    · obtain ⟨k, hk, hmember⟩ := ih c hold
      exact ⟨k, by omega, hmember⟩
    · obtain rfl := List.mem_singleton.mp hnew
      exact ⟨n + 1, le_refl _, rfl⟩

theorem logins_follows (n : ℕ) :
    (logins n).Follows (Limiters.config (60 : ℤ)) .loginLimiter "ann" (101 + n) := by
  intro t ht
  cases n with
  | zero =>
    have hnone : (logins 0).clock ((Limiters.config (60 : ℤ) .loginLimiter).redisKey "ann") =
      none := by decide
    rw [hnone] at ht
    cases ht
  | succ n =>
    rw [logins, SharedRedis.clock_executed, Option.some.injEq] at ht
    push_cast
    omega

theorem steps_logins {n : ℕ} (hn : n < 2 ^ 128) :
    SharedRedis.Steps (Limiters.config (60 : ℤ)) Limiters.Owns untouched (logins n) := by
  induction n with
  | zero =>
    refine .single (.isAllowed _ _ _ _ _ ?_ nofun nofun)
    intro username hsame
    have hlists := congrArg String.toList hsame
    simp at hlists
  | succ n ih =>
    refine (ih (by omega)).tail (.isAllowed _ _ _ _ _ trivial (logins_follows n) ?_)
    intro c hc hsame
    obtain ⟨k, hk, hmember⟩ := logins_member n c hc
    have heq := congrArg BitVec.toNat (Uuid.str_injective (hmember.symm.trans hsame))
    rw [BitVec.toNat_ofNat, BitVec.toNat_ofNat, Nat.mod_eq_of_lt (by omega),
      Nat.mod_eq_of_lt hn] at heq
    omega

/-- A login: its call of `login_limiter`, and what it finds after that. -/
structure Attempt (τ : Type*) where
  call : LimitedCall τ
  db : Db
  mintedAt : ℤ
  issuedAt : ℤ
  expiresFrom : ℤ
  jti : String
  password : String

/-- The answer of `is_allowed`, which fails open. -/
def LimitedCall.isAllowed (limiter : RedisSlidingWindowLimiter τ) (call : LimitedCall τ) : Bool :=
  !call.replied || decide (call.count ≤ limiter.requests)

def tooManyAttempts : Err :=
  .rateLimit "Too many login attempts for this account. Please wait before trying again." "60"

section Guesses

variable {Token : Type} (settings : AuthSettings Token) (minute : τ)

def Attempt.login (a : Attempt τ) : Except Err (TokenResponse Token × Cookie) × Db × List Event :=
  LoginUser.login settings (a.call.isAllowed (Limiters.config minute .loginLimiter)) 60 a.mintedAt
    a.issuedAt a.expiresFrom a.jti a.call.key a.password a.db

omit [AddCommGroup τ] [LinearOrder τ] in
/-- A login that is not allowed gets as far as its limiter. -/
theorem Attempt.login_refused {a : Attempt τ}
    (h : ¬ a.call.isAllowed (Limiters.config minute .loginLimiter) = true) :
    a.login settings minute = (.error tooManyAttempts, a.db, []) := by
  unfold Attempt.login LoginUser.login
  exact Library.Committing.Action.ensure_bind_apply_not h

variable {minute} [IsOrderedAddMonoid τ] {s s₀ : SharedRedis Limiters τ}

end Guesses

/-- A login of ann with the answer of the call. -/
def annAttempt (c : Limiters × LimitedCall ℤ) : Attempt ℤ :=
  ⟨c.2, joined, 0, 0, 0, "first", "pw"⟩

def annCalls (n : ℕ) : List (Limiters × LimitedCall ℤ) :=
  (logins n).calls.filter (fun c => c.1 = .loginLimiter)

end FastapiTemplate
