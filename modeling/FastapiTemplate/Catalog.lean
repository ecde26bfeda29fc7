import FastapiTemplate.System

/-!
The permission table as a copy of the catalogue. Every row carries the bit
that the catalogue gives its name, and every name has a row; the startup
synchronisation establishes this and no change disturbs it.
-/
namespace FastapiTemplate

open Library.KeyedTable

/-- With the unique names of the schema: one row for each name, with its bit. -/
structure Tables.Catalogued (t : Tables) : Prop where
  known : ∀ p ∈ t.permissions.rows,
    p.bitPosition.isSome ∧ p.bitPosition = permissionRegistry.lookup p.name
  complete : ∀ entry ∈ permissionRegistry, ∃ p ∈ t.permissions.rows, p.name = entry.1

instance (t : Tables) : Decidable t.Catalogued :=
  decidable_of_iff ((∀ p ∈ t.permissions.rows,
      p.bitPosition.isSome ∧ p.bitPosition = permissionRegistry.lookup p.name) ∧
    ∀ entry ∈ permissionRegistry, ∃ p ∈ t.permissions.rows, p.name = entry.1)
    ⟨fun h => ⟨h.1, h.2⟩, fun h => ⟨h.known, h.complete⟩⟩

namespace Tables.Catalogued

variable {t t' : Tables} {p : Permission}

theorem bit (h : t.Catalogued) (hp : p ∈ t.permissions.rows) :
    ∃ b, p.bitPosition = some b ∧ permissionRegistry.lookup p.name = some b := by
  obtain ⟨hsome, hlookup⟩ := h.known p hp
  obtain ⟨b, hb⟩ := Option.isSome_iff_exists.mp hsome
  exact ⟨b, hb, by rw [← hlookup, hb]⟩

theorem row (h : t.Catalogued) {name : String} {b : ℕ}
    (hb : permissionRegistry.lookup name = some b) :
    ∃ p ∈ t.permissions.rows, p.name = name ∧ p.bitPosition = some b := by
  obtain ⟨p, hp, hname⟩ := h.complete (name, b) (lookup_eq_some_iff.mp hb)
  exact ⟨p, hp, hname, by rw [(h.known p hp).2, hname, hb]⟩

theorem of_eq (h : t.Catalogued) (hpermissions : t'.permissions = t.permissions) :
    t'.Catalogued where
  known := by rw [hpermissions]; exact h.known
  complete := by rw [hpermissions]; exact h.complete

end Tables.Catalogued

/-- Only the startup synchronisation writes the permission table. -/
theorem Change.permissions_eq {c : Change} {db db' : Db} {es : List Event}
    (h : c.Commits db db' es) (hc : ∀ name b, c ≠ .createWithBit name b) :
    db'.permissions = db.permissions := by
  obtain ⟨tokens, ht⟩ := Change.commits_apply h
  rw [ht]
  cases c with
  | syncRootTenantRole tenantId allowed =>
    simp only [Change.apply]
    split <;> rfl
  | createWithBit name b => exact absurd rfl (hc name b)
  | _ => rfl

/-- A catalogue row keeps the table a part of the catalogue. -/
theorem Change.catalogued {c : Change} {db db' : Db} {es : List Event}
    (hcur : c.Current db.toTables) (h : c.Commits db db' es) (hdb : db.toTables.Catalogued) :
    db'.toTables.Catalogued := by
  by_cases hc : ∀ name b, c ≠ .createWithBit name b
  · exact hdb.of_eq (Change.permissions_eq h hc)
  · push Not at hc
    obtain ⟨name, b, rfl⟩ := hc
    obtain ⟨a, h⟩ := h
    obtain ⟨permissions, hinsert, ht, _⟩ := PermissionRepository.createWithBitTx_eq_ok h
    have hrows : db'.permissions.rows =
        db.permissions.rows ++ [⟨db.permissionsIdSeq, name, some b⟩] := by
      rw [ht]
      exact (Table.insert?_eq_some hinsert).2
    refine ⟨?_, ?_⟩
    · intro p hp
      rw [hrows, List.mem_append, List.mem_singleton] at hp
      rcases hp with hp | rfl
      · exact hdb.known p hp
      · exact ⟨rfl, (lookup_eq_some_iff.mpr hcur).symm⟩
    · intro entry hentry
      obtain ⟨p, hp, hname⟩ := hdb.complete entry hentry
      exact ⟨p, by rw [hrows, List.mem_append]; exact Or.inl hp, hname⟩

theorem synced_catalogued : synced.toTables.Catalogued := by decide +kernel

theorem Reachable.catalogued {db : Db} (h : Reachable db) : db.toTables.Catalogued :=
  h.invariant (I := fun db => db.toTables.Catalogued) synced_catalogued
    (fun _ _ _ _ => Change.catalogued)

end FastapiTemplate
