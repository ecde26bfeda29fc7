import FastapiTemplate.AuthActions

/-!
The search for a free username at the first sign-in with Google. The loop of
the source has no bound. `Tries` is a run of it with the number of its existence
checks; every run from the base name ends at the first free candidate, and the
names tried before it are as many different names of the table.
-/
namespace FastapiTemplate.FreeUsername

open Library.KeyedTable

/-- The existing usernames. -/
def usernames (t : Tables) : Finset String := (t.users.rows.map User.username).toFinset

/-- The `while` loop from a suffix and its candidate, with the checks it makes. -/
inductive Tries (t : Tables) (baseUsername : String) : ℕ → String → ℕ → String → Prop
  | free {suffix : ℕ} {candidate : String}
      (h : UserRepository.existsByUsername t candidate = false) :
      Tries t baseUsername suffix candidate 1 candidate
  | taken {suffix checks : ℕ} {candidate result : String}
      (h : UserRepository.existsByUsername t candidate = true)
      (next : Tries t baseUsername (suffix + 1) (baseUsername ++ (suffix + 1).repr)
        checks result) :
      Tries t baseUsername suffix candidate (checks + 1) result

/-- The base name of an email address. -/
def baseOf (email : String) : String := sanitizeIdentifier (localPart email) 50

/-- The candidate of a suffix: the first one has none. -/
def candidateOf (baseUsername : String) (suffix : ℕ) : String :=
  if suffix = 1 then baseUsername else baseUsername ++ suffix.repr

variable {t : Tables} {baseUsername candidate result result' email : String}
  {suffix checks checks' fuel n : ℕ}

theorem existsByUsername_iff :
    UserRepository.existsByUsername t candidate = true ↔ candidate ∈ usernames t := by
  unfold UserRepository.existsByUsername usernames
  simp only [List.any_eq_true, decide_eq_true_eq, List.mem_toFinset, List.mem_map]

theorem existsByUsername_eq_false :
    UserRepository.existsByUsername t candidate = false ↔ candidate ∉ usernames t := by
  rw [← existsByUsername_iff, Bool.not_eq_true]

theorem candidateOf_one : candidateOf baseUsername 1 = baseUsername := rfl

theorem candidateOf_of_two_le (h : 2 ≤ n) :
    candidateOf baseUsername n = baseUsername ++ n.repr := by
  unfold candidateOf
  rw [if_neg]
  omega

/-- Different suffixes give different candidates. -/
theorem candidateOf_injective (baseUsername : String) :
    Function.Injective (candidateOf baseUsername) := by
  have hbase : ∀ n : ℕ, baseUsername ++ n.repr ≠ baseUsername := by
    intro n h
    apply Nat.repr_ne_empty (n := n)
    apply (String.append_right_inj baseUsername).mp
    rw [h, String.append_empty]
  intro n n' h
  unfold candidateOf at h
  by_cases hn : n = 1
  · by_cases hn' : n' = 1
    · omega
    · rw [if_pos hn, if_neg hn'] at h
      exact absurd h.symm (hbase n')
  · by_cases hn' : n' = 1
    · rw [if_neg hn, if_pos hn'] at h
      exact absurd h (hbase n)
    · rw [if_neg hn, if_neg hn'] at h
      have hrepr : n.repr = n'.repr := (String.append_right_inj _).mp h
      have hparse := congrArg parseInt hrepr
      simpa using hparse

/-! ### The runs of the loop -/

/-- The loop has one run. -/
theorem Tries.unique (h : Tries t baseUsername suffix candidate checks result)
    (h' : Tries t baseUsername suffix candidate checks' result') :
    checks' = checks ∧ result' = result := by
  induction h generalizing checks' with
  | free hfree =>
    cases h' with
    | free => exact ⟨rfl, rfl⟩
    | taken htaken => exact absurd (hfree.symm.trans htaken) Bool.false_ne_true
  | taken htaken _ ih =>
    cases h' with
    | free hfree => exact absurd (hfree.symm.trans htaken) Bool.false_ne_true
    | taken _ next =>
      obtain ⟨hchecks, hresult⟩ := ih next
      exact ⟨by omega, hresult⟩

/-- A run ends at a free candidate and has passed only taken ones. -/
theorem Tries.passed (h : Tries t baseUsername suffix candidate checks result)
    (hsuffix : 1 ≤ suffix) (hcandidate : candidate = candidateOf baseUsername suffix) :
    ∃ last, last + 1 = suffix + checks ∧ suffix ≤ last ∧
      result = candidateOf baseUsername last ∧ result ∉ usernames t ∧
      ∀ n, suffix ≤ n → n < last → candidateOf baseUsername n ∈ usernames t := by
  induction h with
  | @free suffix candidate hfree =>
    refine ⟨suffix, rfl, le_rfl, hcandidate, existsByUsername_eq_false.mp hfree, ?_⟩
    intro n hlow hhigh
    omega
  | @taken suffix checks candidate result htaken _ ih =>
    have htwo : 2 ≤ suffix + 1 := by omega
    obtain ⟨last, hlast, hle, hresult, hfree, hpassed⟩ :=
      ih (by omega) (candidateOf_of_two_le htwo).symm
    refine ⟨last, by omega, by omega, hresult, hfree, ?_⟩
    intro n hlow hhigh
    by_cases hn : n = suffix
    · rw [hn, ← hcandidate]
      exact existsByUsername_iff.mp htaken
    · exact hpassed n (by omega) hhigh

/-- The passed candidates are different names of the table. -/
theorem passed_le (last : ℕ)
    (h : ∀ n, 1 ≤ n → n < last → candidateOf baseUsername n ∈ usernames t) :
    last ≤ (usernames t).card + 1 := by
  have hmaps : Set.MapsTo (candidateOf baseUsername) (Finset.Ico 1 last) (usernames t) := by
    intro n hn
    rw [Finset.mem_coe, Finset.mem_Ico] at hn
    exact h n hn.1 hn.2
  have hcard := Finset.card_le_card_of_injOn _ hmaps
    (candidateOf_injective baseUsername).injOn
  rw [Nat.card_Ico] at hcard
  omega

theorem Tries.checks_le (h : Tries t baseUsername 1 baseUsername checks result) :
    checks ≤ (usernames t).card + 1 := by
  obtain ⟨last, hlast, _, _, _, hpassed⟩ := h.passed le_rfl candidateOf_one.symm
  have hle := passed_le last hpassed
  omega

/-- A taken result of the bounded search has tried every suffix on its way. -/
theorem suffixes_taken (hsuffix : 1 ≤ suffix)
    (hcandidate : candidate = candidateOf baseUsername suffix)
    (h : UserRepository.existsByUsername t (freeUsername t baseUsername fuel suffix candidate) =
      true) :
    ∀ n, suffix ≤ n → n ≤ suffix + fuel → candidateOf baseUsername n ∈ usernames t := by
  induction fuel generalizing suffix candidate with
  | zero =>
    intro n hlow hhigh
    have hn : n = suffix := by omega
    rw [hn, ← hcandidate]
    exact existsByUsername_iff.mp h
  | succ fuel ih =>
    by_cases htaken : UserRepository.existsByUsername t candidate = true
    · rw [freeUsername, if_pos htaken] at h
      have htwo : 2 ≤ suffix + 1 := by omega
      have hlater := ih (by omega) (candidateOf_of_two_le htwo).symm h
      intro n hlow hhigh
      by_cases hn : n = suffix
      · rw [hn, ← hcandidate]
        exact existsByUsername_iff.mp htaken
      · exact hlater n (by omega) (by omega)
    · rw [freeUsername, if_neg htaken] at h
      exact absurd h htaken

theorem buildUniqueUsername_eq (t : Tables) (email : String) : buildUniqueUsername t email =
    freeUsername t (baseOf email) (t.users.rows.length + 1) 1 (baseOf email) := rfl

/-- One round more than there are users suffices. -/
theorem buildUniqueUsername_free (t : Tables) (email : String) :
    UserRepository.existsByUsername t (buildUniqueUsername t email) = false := by
  by_contra htaken
  rw [Bool.not_eq_false, buildUniqueUsername_eq] at htaken
  have hall := suffixes_taken le_rfl candidateOf_one.symm htaken
  have hle := passed_le (t.users.rows.length + 3)
    (fun n hlow hhigh => hall n hlow (by omega))
  have hlength := List.toFinset_card_le (t.users.rows.map User.username)
  rw [List.length_map] at hlength
  unfold usernames at hle
  omega

/-- A bounded search that ends at a free name is a run of the loop. -/
theorem tries_freeUsername
    (h : UserRepository.existsByUsername t (freeUsername t baseUsername fuel suffix candidate) =
      false) :
    ∃ checks, Tries t baseUsername suffix candidate checks
      (freeUsername t baseUsername fuel suffix candidate) := by
  induction fuel generalizing suffix candidate with
  | zero => exact ⟨1, .free h⟩
  | succ fuel ih =>
    by_cases hcandidate : UserRepository.existsByUsername t candidate = true
    · rw [freeUsername, if_pos hcandidate] at h ⊢
      obtain ⟨checks, hnext⟩ := ih h
      exact ⟨checks + 1, .taken hcandidate hnext⟩
    · rw [freeUsername, if_neg hcandidate] at h ⊢
      exact ⟨1, .free h⟩

theorem buildUniqueUsername_tries (t : Tables) (email : String) :
    ∃ checks, Tries t (baseOf email) 1 (baseOf email) checks (buildUniqueUsername t email) := by
  have hfree := buildUniqueUsername_free t email
  rw [buildUniqueUsername_eq] at hfree ⊢
  exact tries_freeUsername hfree

/-! ### The base name -/

/-- The first part of a split is the text before the separator. -/
theorem localPart_toList (email : String) :
    (localPart email).toList = email.toList.takeWhile (· ≠ '@') := by
  unfold localPart
  rw [String.toList_ofList]
  induction email.toList with
  | nil => rfl
  | cons c rest ih =>
    unfold List.splitOn at ih ⊢
    rw [List.splitOnP_cons_eq_if_modifyHead]
    by_cases hc : c = '@'
    · rw [if_pos (beq_iff_eq.mpr hc), List.takeWhile_cons_of_neg (by simpa using hc)]
      rfl
    · rw [if_neg (by simpa using hc), List.takeWhile_cons_of_pos (by simpa using hc), ← ih]
      obtain ⟨first, others, hsplit⟩ :=
        List.exists_cons_of_ne_nil (List.splitOnP_ne_nil (· == '@') rest)
      rw [hsplit]
      rfl

theorem sanitizeIdentifier_ne_empty (value : String) (maxLen : ℕ) :
    sanitizeIdentifier value maxLen ≠ "" := by
  unfold sanitizeIdentifier
  by_cases h : (value.toList.filter isIdentifierChar).take maxLen = []
  · rw [if_pos h]
    decide
  · rw [if_neg h]
    intro hempty
    apply h
    simpa using congrArg String.toList hempty

theorem sanitizeIdentifier_chars (value : String) (maxLen : ℕ) :
    ∀ c ∈ (sanitizeIdentifier value maxLen).toList, isIdentifierChar c = true := by
  unfold sanitizeIdentifier
  by_cases h : (value.toList.filter isIdentifierChar).take maxLen = []
  · rw [if_pos h]
    exact List.all_eq_true.mp (by decide)
  · rw [if_neg h, String.toList_ofList]
    intro c hc
    exact (List.mem_filter.mp (List.mem_of_mem_take hc)).2

theorem repr_chars (n : ℕ) : ∀ c ∈ n.repr.toList, isIdentifierChar c = true := by
  intro c hc
  rw [Nat.toList_repr] at hc
  have hdigit : c.isDigit = true := Nat.isDigit_of_mem_toDigits (by omega) (by omega) hc
  unfold isIdentifierChar Char.isAlphanum
  rw [hdigit]
  simp

theorem candidateOf_chars (email : String) (n : ℕ) :
    ∀ c ∈ (candidateOf (baseOf email) n).toList, isIdentifierChar c = true := by
  unfold candidateOf baseOf
  by_cases hn : n = 1
  · rw [if_pos hn]
    exact sanitizeIdentifier_chars _ 50
  · rw [if_neg hn]
    intro c hc
    rw [String.toList_append, List.mem_append] at hc
    rcases hc with hc | hc
    · exact sanitizeIdentifier_chars _ 50 c hc
    · exact repr_chars n c hc

theorem candidateOf_ne_empty (email : String) (n : ℕ) : candidateOf (baseOf email) n ≠ "" := by
  unfold candidateOf baseOf
  by_cases hn : n = 1
  · rw [if_pos hn]
    exact sanitizeIdentifier_ne_empty _ 50
  · rw [if_neg hn]
    intro hempty
    exact Nat.repr_ne_empty (String.append_eq_empty_iff.mp hempty).2

/-- The loop ends within one check more than there are usernames, at the base
name if it is free and else at the first suffix from 2 on that is. -/
theorem buildUniqueUsername_first_free (t : Tables) (email : String) :
    (localPart email).toList = email.toList.takeWhile (· ≠ '@') ∧
    ∃ checks,
      Tries t (baseOf email) 1 (baseOf email) checks (buildUniqueUsername t email) ∧
      (∀ checks' result, Tries t (baseOf email) 1 (baseOf email) checks' result →
        checks' = checks ∧ result = buildUniqueUsername t email) ∧
      checks ≤ (usernames t).card + 1 ∧
      buildUniqueUsername t email ≠ "" ∧
      (∀ c ∈ (buildUniqueUsername t email).toList, isIdentifierChar c = true) ∧
      buildUniqueUsername t email ∉ usernames t ∧
      (buildUniqueUsername t email = baseOf email ∨
        baseOf email ∈ usernames t ∧
        ∃ n, 2 ≤ n ∧ buildUniqueUsername t email = baseOf email ++ n.repr ∧
          ∀ m, 2 ≤ m → m < n → baseOf email ++ m.repr ∈ usernames t) := by
  refine ⟨localPart_toList email, ?_⟩
  obtain ⟨checks, hrun⟩ := buildUniqueUsername_tries t email
  obtain ⟨last, hlast, hone, hresult, hfree, hpassed⟩ := hrun.passed le_rfl candidateOf_one.symm
  refine ⟨checks, hrun, fun _ _ h => hrun.unique h, hrun.checks_le, ?_, ?_, hfree, ?_⟩
  · rw [hresult]
    exact candidateOf_ne_empty _ _
  · rw [hresult]
    exact candidateOf_chars _ _
  · by_cases hfirst : last = 1
    · rw [hfirst, candidateOf_one] at hresult
      exact Or.inl hresult
    · have htwo : 2 ≤ last := by omega
      have hbase := hpassed 1 le_rfl (by omega)
      rw [candidateOf_one] at hbase
      refine Or.inr ⟨hbase, last, htwo, ?_, ?_⟩
      · rw [hresult, candidateOf_of_two_le htwo]
      · intro m hm hless
        rw [← candidateOf_of_two_le hm]
        exact hpassed m (by omega) hless

end FastapiTemplate.FreeUsername
