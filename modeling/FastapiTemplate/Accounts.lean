import FastapiTemplate.RoleMembership

/-!
The rows of the users over a run. A change either rewrites columns of an
account or inserts a new one; only `setPassword` touches the password, and
nothing touches the tenant or the superuser flag. Superusers are made outside
of the tenants, so no user of a tenant is one.
-/
namespace FastapiTemplate

open Library.KeyedTable

/-- The change stores this password for this user. -/
inductive Change.StoresPassword (userId : Uuid) (hashedPassword : String) : Change → Prop
  | set (user : User) (hid : user.id = userId) :
      StoresPassword userId hashedPassword (.setPassword user hashedPassword)

section Rows

variable {t : Tables} {c : Change} {u' : User}

/-- A row of the users comes from the row of the same user, or it is new. -/
theorem Change.user_row (hu' : u' ∈ (c.apply t).users.rows) :
    (∃ u ∈ t.users.rows, u.id = u'.id ∧ u.tenantId = u'.tenantId ∧
      u.isSuperuser = u'.isSuperuser ∧
      (u.password = u'.password ∨ ∃ password, u'.password = some password ∧
        c.StoresPassword u'.id password)) ∨
      ∃ data, c = .createUser data ∧ u' = data.row := by
  have hsame (hmem : u' ∈ t.users.rows) : ∃ u ∈ t.users.rows, u.id = u'.id ∧
      u.tenantId = u'.tenantId ∧ u.isSuperuser = u'.isSuperuser ∧
      (u.password = u'.password ∨ ∃ password, u'.password = some password ∧
        c.StoresPassword u'.id password) :=
    ⟨u', hmem, rfl, rfl, rfl, Or.inl rfl⟩
  have hupdate {p : User → Bool} {f : User → User} (hf : ∀ u, (f u).id = u.id)
      (hmem : u' ∈ (t.users.update p f hf).rows) (htenant : ∀ u, (f u).tenantId = u.tenantId)
      (hsuper : ∀ u, (f u).isSuperuser = u.isSuperuser)
      (hpassword : ∀ u, (f u).password = u.password) : ∃ u ∈ t.users.rows, u.id = u'.id ∧
        u.tenantId = u'.tenantId ∧ u.isSuperuser = u'.isSuperuser ∧
        (u.password = u'.password ∨ ∃ password, u'.password = some password ∧
          c.StoresPassword u'.id password) := by
    obtain ⟨u, hu, hid, rfl | ⟨_, rfl⟩⟩ := Table.mem_update hmem
    · exact hsame hu
    · exact ⟨u, hu, hid, (htenant u).symm, (hsuper u).symm, Or.inl (hpassword u).symm⟩
  cases c with
  | createUser data =>
    rcases Table.mem_insertD hu' with hold | hnew
    · exact Or.inl (hsame hold)
    · exact Or.inr ⟨data, rfl, hnew⟩
  | setPassword user hashedPassword =>
    obtain ⟨u, hu, hid, hsub | ⟨hp, hsub⟩⟩ := @Table.mem_update _ _ _ _ _ _ (by intro _; rfl) _ hu'
    · rw [← hsub] at hu
      exact Or.inl (hsame hu)
    · refine Or.inl ⟨u, hu, hid, by rw [hsub], by rw [hsub], Or.inr ⟨hashedPassword, by rw [hsub],
        .set user ?_⟩⟩
      rw [← hid]
      exact (of_decide_eq_true hp).symm
  | syncRootTenantRole tenantId allowed =>
    simp only [apply] at hu'
    split at hu'
    · exact Or.inl (hsame hu')
    · exact Or.inl (hupdate (by intro _; rfl) hu' (fun _ => rfl) (fun _ => rfl) (fun _ => rfl))
  | assignToUser roleId userId =>
    exact Or.inl (hupdate (by intro _; rfl) hu' (fun _ => rfl) (fun _ => rfl) (fun _ => rfl))
  | removeFromUser roleId userId =>
    exact Or.inl (hupdate (by intro _; rfl) hu' (fun _ => rfl) (fun _ => rfl) (fun _ => rfl))
  | addPermission role permission =>
    exact Or.inl (hupdate (by intro _; rfl) hu' (fun _ => rfl) (fun _ => rfl) (fun _ => rfl))
  | removePermission role permission =>
    exact Or.inl (hupdate (by intro _; rfl) hu' (fun _ => rfl) (fun _ => rfl) (fun _ => rfl))
  | setVerified user =>
    exact Or.inl (hupdate (by intro _; rfl) hu' (fun _ => rfl) (fun _ => rfl) (fun _ => rfl))
  | grantPermission user permission =>
    exact Or.inl (hupdate (by intro _; rfl) hu' (fun _ => rfl) (fun _ => rfl) (fun _ => rfl))
  | revokePermission user permission =>
    exact Or.inl (hupdate (by intro _; rfl) hu' (fun _ => rfl) (fun _ => rfl) (fun _ => rfl))
  | setUserActive user isActive =>
    exact Or.inl (hupdate (by intro _; rfl) hu' (fun _ => rfl) (fun _ => rfl) (fun _ => rfl))
  | _ => exact Or.inl (hsame hu')

end Rows

/-- No user of a tenant is a superuser. -/
def Tables.SuperusersGlobal (t : Tables) : Prop :=
  ∀ u ∈ t.users.rows, u.tenantId ≠ none → u.isSuperuser = false

theorem Tables.SuperusersGlobal.change {c : Change} {db db' : Db} {es : List Event}
    (h : db.toTables.SuperusersGlobal) (hcommit : c.Commits db db' es)
    (hnew : ∀ data, c = .createUser data → data.tenantId ≠ none → data.isSuperuser = false) :
    db'.toTables.SuperusersGlobal := by
  obtain ⟨tokens, ht⟩ := Change.commits_apply hcommit
  intro u' hu' htenant'
  rw [ht] at hu'
  rcases Change.user_row hu' with ⟨u, hu, _, htenant, hsuper, _⟩ | ⟨data, hc, rfl⟩
  · rw [← htenant] at htenant'
    rw [← hsuper]
    exact h u hu htenant'
  · exact hnew data hc htenant'

theorem Reachable.superusersGlobal {db : Db} (h : Reachable db) : db.toTables.SuperusersGlobal := by
  induction h with
  | synced =>
    have hnone : FastapiTemplate.synced.users.rows = [] := by decide +kernel
    intro u hu
    rw [hnone] at hu
    cases hu
  | @request db getPasswordHash actorId call _ ih =>
    rcases hrun : FastapiTemplate.request getPasswordHash actorId call db with ⟨r, db', es⟩
    rcases request_path hrun with ⟨_, _, rfl, _⟩ | ⟨user, _, hpath⟩
    · exact ih
    · refine hpath.invariant (I := fun s => s.toTables.SuperusersGlobal) ?_ ih
      rintro s s' es ⟨c, hperforms, _, _, hcommit⟩ hs
      refine hs.change hcommit ?_
      rintro data rfl _
      cases call with
      | createUser newId _ => exact hperforms.2
      | createTenantWithAdmin newTenantId newUserId _ => exact hperforms.2.2
      | _ => exact hperforms.elim
  | outside c houtside hcur hcommit _ ih =>
    refine ih.change hcommit ?_
    rintro data rfl htenant
    exact absurd houtside htenant

end FastapiTemplate
