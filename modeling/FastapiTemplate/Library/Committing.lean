import Mathlib.Data.List.Basic

/-!
Computations that commit. An `Action` runs against a store and may commit
several transactions on its way; it can fail at any point, and a failure keeps
what was committed before it. Every transaction also announces a list of
events. A `Path` is the sequence of committed transactions, and `Does` is the
program logic: it bounds each transaction of an action by a relation and
gives a postcondition for a normal return. Relations that are reflexive and
transitive hold of a whole path as soon as they hold of each transaction.
-/
namespace FastapiTemplate.Library.Committing

universe u

def Action (σ ω ε : Type*) (α : Type u) := σ → Except ε α × σ × List ω

variable {σ ω ε : Type*} {α β γ : Type u}

namespace Action

def pure (a : α) : Action σ ω ε α := fun s => (.ok a, s, [])

/-- Run `m`, then `f` on its result; the events of both are announced in order. -/
def bind (m : Action σ ω ε α) (f : α → Action σ ω ε β) : Action σ ω ε β := fun s =>
  match m s with
  | (.ok a, s', es) =>
    let next := f a s'
    (next.1, next.2.1, es ++ next.2.2)
  | (.error e, s', es) => (.error e, s', es)

instance : Monad (Action σ ω ε) where
  pure := pure
  bind := bind

def raise (e : ε) : Action σ ω ε α := fun s => (.error e, s, [])

def read (f : σ → α) : Action σ ω ε α := fun s => (.ok (f s), s, [])

/-- One atomic transaction: it commits its result or leaves the store alone. -/
def transact (tx : σ → Except ε (α × σ × List ω)) : Action σ ω ε α := fun s =>
  match tx s with
  | .ok (a, s', es) => (.ok a, s', es)
  | .error e => (.error e, s, [])

def ensure (c : Prop) [Decidable c] (e : ε) : Action σ ω ε Unit :=
  if c then pure () else raise e

def require (o : Option α) (e : ε) : Action σ ω ε α :=
  match o with
  | some a => pure a
  | none => raise e

def ofExcept (x : Except ε α) : Action σ ω ε α :=
  match x with
  | .ok a => pure a
  | .error e => raise e

theorem read_bind_apply (g : σ → α) (f : α → Action σ ω ε β) (s : σ) :
    (read g >>= f) s = f (g s) s := rfl

theorem raise_bind_apply (e : ε) (f : α → Action σ ω ε β) (s : σ) :
    (raise e >>= f) s = (.error e, s, []) := rfl

theorem bind_apply_error {m : Action σ ω ε α} {f : α → Action σ ω ε β} {s s' : σ} {e : ε}
    {es : List ω} (h : m s = (.error e, s', es)) : (m >>= f) s = (.error e, s', es) := by
  change bind m f s = _
  rw [bind, h]

theorem ensure_bind_apply {β : Type} {c : Prop} [Decidable c] {e : ε} {f : Unit → Action σ ω ε β}
    {s : σ} (h : c) : (ensure c e >>= f) s = f () s := by
  rw [ensure, if_pos h]
  rfl

theorem ensure_bind_apply_not {β : Type} {c : Prop} [Decidable c] {e : ε}
    {f : Unit → Action σ ω ε β} {s : σ} (h : ¬ c) :
    (ensure c e >>= f) s = (.error e, s, []) := by
  rw [ensure, if_neg h]
  rfl

/-- After a part that announces nothing, the rest runs on the state it left. -/
theorem bind_apply_ok {m : Action σ ω ε α} {f : α → Action σ ω ε β} {s s' : σ} {a : α}
    (h : m s = (.ok a, s', [])) : (m >>= f) s = f a s' := by
  change bind m f s = _
  rw [bind, h]
  rfl

/-- After a part that returns, the rest runs on the state it left. -/
theorem bind_apply_of_ok {m : Action σ ω ε α} {f : α → Action σ ω ε β} {s s' s'' : σ} {a : α}
    {r : Except ε β} {es fs : List ω} (h : m s = (.ok a, s', es)) (h' : f a s' = (r, s'', fs)) :
    (m >>= f) s = (r, s'', es ++ fs) := by
  change bind m f s = _
  rw [bind, h]
  simp only [h']

theorem require_some_bind (a : α) (e : ε) (f : α → Action σ ω ε β) (s : σ) :
    (require (some a) e >>= f) s = f a s :=
  bind_apply_ok rfl

/-- The events of a composition do not depend on how it is bracketed. -/
instance : LawfulMonad (Action σ ω ε) := by
  refine LawfulMonad.mk' _ ?_ ?_ ?_
  · intro α m
    funext s
    change bind m (fun a => pure a) s = m s
    rcases h : m s with ⟨_ | a, s', es⟩ <;> simp [bind, pure, h]
  · intro α β a f
    funext s
    change bind (pure a) f s = f a s
    simp [bind, pure]
  · intro α β γ m f g
    funext s
    change bind (bind m f) g s = bind m (fun a => bind (f a) g) s
    rcases h : m s with ⟨_ | a, s₁, es₁⟩
    · simp [bind, h]
    · rcases h' : f a s₁ with ⟨_ | b, s₂, es₂⟩ <;> simp [bind, h, h', List.append_assoc]

theorem ofExcept_ok_bind (a : α) (f : α → Action σ ω ε β) : ofExcept (.ok a) >>= f = f a :=
  pure_bind a f

/-! A run of a composition is taken apart from the front. -/

section Run

variable {s s' : σ} {es : List ω} {f : α → Action σ ω ε β} {r : Except ε β}

theorem bind_run {m : Action σ ω ε α} (h : (m >>= f) s = (r, s', es)) :
    (∃ e, m s = (.error e, s', es) ∧ r = .error e) ∨
      ∃ a s₁ es₁ es₂, m s = (.ok a, s₁, es₁) ∧ f a s₁ = (r, s', es₂) ∧ es = es₁ ++ es₂ := by
  change Action.bind m f s = (r, s', es) at h
  unfold Action.bind at h
  rcases hm : m s with ⟨x, s₁, es₁⟩
  rw [hm] at h
  cases x with
  | error e =>
    cases h
    exact Or.inl ⟨e, rfl, rfl⟩
  | ok a =>
    rcases hf : f a s₁ with ⟨y, s₂, es₂⟩
    simp only [hf, Prod.mk.injEq] at h
    obtain ⟨rfl, rfl, rfl⟩ := h
    exact Or.inr ⟨a, s₁, es₁, es₂, rfl, hf, rfl⟩

theorem require_bind_run {o : Option α} {e : ε} (h : (require o e >>= f) s = (r, s', es)) :
    (o = none ∧ r = .error e ∧ s' = s) ∨ ∃ a, o = some a ∧ f a s = (r, s', es) := by
  cases o with
  | none =>
    cases h
    exact Or.inl ⟨rfl, rfl, rfl⟩
  | some a => exact Or.inr ⟨a, rfl, h⟩

theorem ofExcept_bind_run {x : Except ε α} (h : (ofExcept x >>= f) s = (r, s', es)) :
    (∃ e, x = .error e ∧ r = .error e ∧ s' = s) ∨ ∃ a, x = .ok a ∧ f a s = (r, s', es) := by
  cases x with
  | error e =>
    cases h
    exact Or.inl ⟨e, rfl, rfl, rfl⟩
  | ok a => exact Or.inr ⟨a, rfl, h⟩

theorem ensure_bind_run {β : Type} {c : Prop} [Decidable c] {e : ε} {f : Unit → Action σ ω ε β}
    {r : Except ε β} (h : (ensure c e >>= f) s = (r, s', es)) :
    (¬ c ∧ r = .error e ∧ s' = s) ∨ (c ∧ f () s = (r, s', es)) := by
  unfold ensure at h
  split at h
  · rename_i hc
    exact Or.inr ⟨hc, h⟩
  · rename_i hc
    cases h
    exact Or.inl ⟨hc, rfl, rfl⟩

end Run

end Action

theorem bind_eq_ok {x : Except ε α} {f : α → Except ε β} {b : β} (h : x >>= f = .ok b) :
    ∃ a, x = .ok a ∧ f a = .ok b := by
  cases x with
  | error e => cases h
  | ok a => exact ⟨a, rfl, h⟩

/-- The committed transactions of a run, each related by `S`. -/
inductive Path (S : σ → σ → List ω → Prop) : σ → σ → List ω → Prop
  | nil (s : σ) : Path S s s []
  | cons {s s' s'' : σ} {es fs : List ω} :
      S s s' es → Path S s' s'' fs → Path S s s'' (es ++ fs)

namespace Path

variable {S R : σ → σ → List ω → Prop}

theorem single {s s' : σ} {es : List ω} (h : S s s' es) : Path S s s' es := by
  simpa using Path.cons h (.nil s')

theorem append {s s' s'' : σ} {es fs : List ω} (h : Path S s s' es)
    (h' : Path S s' s'' fs) : Path S s s'' (es ++ fs) := by
  induction h with
  | nil => exact h'
  | cons hstep _ ih =>
    rw [List.append_assoc]
    exact .cons hstep (ih h')

theorem mono {s s' : σ} {es : List ω} (hSR : ∀ s s' es, S s s' es → R s s' es)
    (h : Path S s s' es) : Path R s s' es := by
  induction h with
  | nil => exact .nil _
  | cons hstep _ ih => exact .cons (hSR _ _ _ hstep) ih

/-- A reflexive and transitive relation of each step is one of the path. -/
theorem collapse {s s' : σ} {es : List ω} (hrefl : ∀ s, R s s [])
    (htrans : ∀ {s s' s'' es fs}, R s s' es → R s' s'' fs → R s s'' (es ++ fs))
    (hSR : ∀ s s' es, S s s' es → R s s' es) (h : Path S s s' es) : R s s' es := by
  induction h with
  | nil => exact hrefl _
  | cons hstep _ ih => exact htrans (hSR _ _ _ hstep) ih

/-- An invariant of each step holds at the end of the path. -/
theorem invariant {I : σ → Prop} {s s' : σ} {es : List ω}
    (hstep : ∀ s s' es, S s s' es → I s → I s') (h : Path S s s' es) (hs : I s) : I s' := by
  induction h with
  | nil => exact hs
  | cons hS _ ih => exact ih (hstep _ _ _ hS hs)

end Path

/-- From `s`, the transactions of `m` are related by `S`, and a normal return
of `a` in store `s'` satisfies `Q a s'`. -/
def Does (S : σ → σ → List ω → Prop) (m : Action σ ω ε α) (s : σ) (Q : α → σ → Prop) : Prop :=
  Path S s (m s).2.1 (m s).2.2 ∧ ∀ a, (m s).1 = .ok a → Q a (m s).2.1

namespace Does

variable {S : σ → σ → List ω → Prop} {s : σ} {Q R : α → σ → Prop}

theorem weaken {m : Action σ ω ε α} (h : Does S m s Q) (hQR : ∀ a s', Q a s' → R a s') :
    Does S m s R :=
  ⟨h.1, fun a ha => hQR a _ (h.2 a ha)⟩

theorem mono {S' : σ → σ → List ω → Prop} {m : Action σ ω ε α} (h : Does S m s Q)
    (hS : ∀ s s' es, S s s' es → S' s s' es) : Does S' m s Q :=
  ⟨h.1.mono hS, h.2⟩

theorem pure {a : α} (h : Q a s) : Does S (Pure.pure a : Action σ ω ε α) s Q := by
  refine ⟨.nil s, ?_⟩
  intro b hb
  cases hb
  exact h

theorem raise {e : ε} : Does S (Action.raise e : Action σ ω ε α) s Q := by
  refine ⟨.nil s, ?_⟩
  intro b hb
  cases hb

theorem read {f : σ → α} (h : Q (f s) s) : Does S (Action.read f : Action σ ω ε α) s Q := by
  refine ⟨.nil s, ?_⟩
  intro b hb
  cases hb
  exact h

theorem ensure {c : Prop} [Decidable c] {e : ε} {Q : Unit → σ → Prop} (h : c → Q () s) :
    Does S (Action.ensure c e : Action σ ω ε Unit) s Q := by
  unfold Action.ensure
  split
  · rename_i hc
    exact Does.pure (h hc)
  · exact Does.raise

theorem require {o : Option α} {e : ε} (h : ∀ a, o = some a → Q a s) :
    Does S (Action.require o e : Action σ ω ε α) s Q := by
  cases o with
  | none => exact Does.raise
  | some a => exact Does.pure (h a rfl)

theorem ofExcept {x : Except ε α} (h : ∀ a, x = .ok a → Q a s) :
    Does S (Action.ofExcept x : Action σ ω ε α) s Q := by
  cases x with
  | error e => exact Does.raise
  | ok a => exact Does.pure (h a rfl)

/-- A transaction either commits, related by `S`, or does nothing. -/
theorem transact {tx : σ → Except ε (α × σ × List ω)}
    (h : ∀ a s' es, tx s = .ok (a, s', es) → S s s' es ∧ Q a s') :
    Does S (Action.transact tx) s Q := by
  unfold Does Action.transact
  cases htx : tx s with
  | error e =>
    refine ⟨.nil s, ?_⟩
    intro b hb
    cases hb
  | ok r =>
    obtain ⟨a, s', es⟩ := r
    obtain ⟨hS, hQ⟩ := h a s' es htx
    refine ⟨Path.single hS, ?_⟩
    intro b hb
    cases hb
    exact hQ

theorem bind {m : Action σ ω ε α} {f : α → Action σ ω ε β} {Q' : β → σ → Prop}
    (hm : Does S m s Q) (hf : ∀ a s', Q a s' → Does S (f a) s' Q') :
    Does S (m >>= f) s Q' := by
  obtain ⟨hpath, hpost⟩ := hm
  change Does S (Action.bind m f) s Q'
  unfold Does Action.bind
  generalize hr : m s = r at hpath hpost
  obtain ⟨x, s', es⟩ := r
  cases x with
  | error e =>
    refine ⟨hpath, ?_⟩
    intro b hb
    cases hb
  | ok a =>
    obtain ⟨hpath', hpost'⟩ := hf a s' (hpost a rfl)
    exact ⟨hpath.append hpath', hpost'⟩

theorem read_bind {g : σ → α} {f : α → Action σ ω ε β} {Q : β → σ → Prop}
    (h : Does S (f (g s)) s Q) : Does S (Action.read g >>= f) s Q := by
  refine Does.bind (Q := fun a s' => a = g s ∧ s' = s) (Does.read ⟨rfl, rfl⟩) ?_
  rintro _ _ ⟨rfl, rfl⟩
  exact h

theorem ensure_bind {β : Type} {c : Prop} [Decidable c] {e : ε} {f : Unit → Action σ ω ε β}
    {Q : β → σ → Prop} (h : c → Does S (f ()) s Q) :
    Does S (Action.ensure c e >>= f) s Q := by
  refine Does.bind (Q := fun _ s' => c ∧ s' = s) (Does.ensure (fun hc => ⟨hc, rfl⟩)) ?_
  rintro _ _ ⟨hc, rfl⟩
  exact h hc

theorem require_bind {o : Option α} {e : ε} {f : α → Action σ ω ε β} {Q : β → σ → Prop}
    (h : ∀ a, o = some a → Does S (f a) s Q) : Does S (Action.require o e >>= f) s Q := by
  refine Does.bind (Q := fun a s' => o = some a ∧ s' = s)
    (Does.require (fun a ha => ⟨ha, rfl⟩)) ?_
  rintro a _ ⟨ha, rfl⟩
  exact h a ha

theorem ofExcept_bind {x : Except ε α} {f : α → Action σ ω ε β} {Q : β → σ → Prop}
    (h : ∀ a, x = .ok a → Does S (f a) s Q) : Does S (Action.ofExcept x >>= f) s Q := by
  refine Does.bind (Q := fun a s' => x = .ok a ∧ s' = s)
    (Does.ofExcept (fun a ha => ⟨ha, rfl⟩)) ?_
  rintro a _ ⟨ha, rfl⟩
  exact h a ha

theorem ite {c : Prop} [Decidable c] {m m' : Action σ ω ε α} (ht : c → Does S m s Q)
    (hf : ¬ c → Does S m' s Q) : Does S (if c then m else m') s Q := by
  split
  · rename_i hc
    exact ht hc
  · rename_i hc
    exact hf hc

/-- A loop over a list, carrying an accumulator and an invariant. -/
theorem foldlM {f : β → γ → Action σ ω ε β} {I : β → σ → Prop} {b : β} {xs : List γ}
    (hI : I b s) (hstep : ∀ b s x, x ∈ xs → I b s → Does S (f b x) s I) :
    Does S (xs.foldlM f b) s I := by
  induction xs generalizing b s with
  | nil => exact Does.pure hI
  | cons x xs ih =>
    rw [List.foldlM_cons]
    refine Does.bind (hstep b s x (by simp) hI) ?_
    intro b' s' hI'
    exact ih hI' (fun b s y hy => hstep b s y (by simp [hy]))

theorem forM {f : γ → Action σ ω ε PUnit} {I : σ → Prop} {xs : List γ} (hI : I s)
    (hstep : ∀ s x, x ∈ xs → I s → Does S (f x) s (fun _ => I)) :
    Does S (ForM.forM xs f) s (fun _ => I) := by
  induction xs generalizing s with
  | nil => exact Does.pure hI
  | cons x xs ih =>
    rw [List.forM_cons]
    refine Does.bind (hstep s x (by simp) hI) ?_
    intro _ s' hI'
    exact ih hI' (fun s y hy => hstep s y (by simp [hy]))

end Does
end FastapiTemplate.Library.Committing
