import Mathlib.Logic.Relation

/-!
Delegation of rights. A role carries rights, and its holders may hand out other
roles and single rights. What somebody can be handed in the end is reached along
the links between roles. A change spreads nothing outside a set of rights when
the links that it adds lead to roles from which no other right can be handed
out; then the roles that were safe stay so.
-/
namespace FastapiTemplate.Library.Delegation

/-- The roles `R` with their rights `B`, and what their holders may hand out. -/
structure Web (R B : Type*) where
  carries : R → B → Prop
  mayGrant : R → R → Prop
  lends : R → B → Prop

namespace Web

variable {R B : Type*} {w w' : Web R B} {P : B → Prop} {r g : R} {b : B}

/-- A holder of the role hands out the right: with a role, or by itself. -/
inductive HandsOut (w : Web R B) (r : R) (b : B) : Prop
  | role (g : R) : w.mayGrant r g → w.carries g b → HandsOut w r b
  | right : w.lends r b → HandsOut w r b

/-- A holder of the first role can come to hold the second. -/
def Reaches (w : Web R B) : R → R → Prop := Relation.ReflTransGen w.mayGrant

/-- No holder of the role can come to hand out a right that is not in `P`. -/
def Safe (w : Web R B) (P : B → Prop) (r : R) : Prop :=
  ∀ g, w.Reaches r g → ∀ b, w.HandsOut g b → P b

/-- Who is given the role gets rights in `P` only, now or later. -/
structure Tame (w : Web R B) (P : B → Prop) (r : R) : Prop where
  carries : ∀ b, w.carries r b → P b
  safe : w.Safe P r

theorem Safe.grants (h : w.Safe P r) (hgrant : w.mayGrant r g) : w.Tame P g where
  carries := fun b hb => h r .refl b (.role g hgrant hb)
  safe := fun x hreach b hb => h x (.head hgrant hreach) b hb

theorem Safe.lends (h : w.Safe P r) (hlends : w.lends r b) : P b :=
  h r .refl b (.right hlends)

/-- A role without links hands out nothing. -/
theorem safe_of_unlinked (hgrant : ∀ g, ¬ w.mayGrant r g) (hlends : ∀ b, ¬ w.lends r b) :
    w.Safe P r := by
  intro g hreach b hb
  have hself : g = r := by
    rcases Relation.ReflTransGen.cases_head hreach with rfl | ⟨x, hx, _⟩
    · rfl
    · exact absurd hx (hgrant x)
  subst hself
  cases hb with
  | role x hx _ => exact absurd hx (hgrant x)
  | right hb => exact absurd hb (hlends b)

/-- What a change adds comes from `P`. -/
structure Spreads (P : B → Prop) (w w' : Web R B) : Prop where
  carries : ∀ r b, w'.carries r b → w.carries r b ∨ P b
  mayGrant : ∀ r g, w'.mayGrant r g → w.mayGrant r g ∨ w.Tame P g
  lends : ∀ r b, w'.lends r b → w.lends r b ∨ P b

theorem Spreads.reaches (h : Spreads P w w') (hsafe : w.Safe P r) (hreach : w'.Reaches r g) :
    w.Safe P g := by
  induction hreach with
  | refl => exact hsafe
  | tail _ hlink ih =>
    rcases h.mayGrant _ _ hlink with hold | htame
    · exact (ih.grants hold).safe
    · exact htame.safe

theorem Spreads.safe (h : Spreads P w w') (hsafe : w.Safe P r) : w'.Safe P r := by
  intro g hreach b hb
  have hg := h.reaches hsafe hreach
  cases hb with
  | role x hx hcarries =>
    have htame : w.Tame P x := (h.mayGrant _ _ hx).elim hg.grants id
    exact (h.carries _ _ hcarries).elim (htame.carries b) id
  | right hlends => exact (h.lends _ _ hlends).elim hg.lends id

theorem Spreads.tame (h : Spreads P w w') (htame : w.Tame P r) : w'.Tame P r where
  carries := fun b hb => (h.carries r b hb).elim (htame.carries b) id
  safe := h.safe htame.safe

end Web
end FastapiTemplate.Library.Delegation
