import FastapiTemplate.TenantRepository

/-!
The startup synchronisation on any permission table. It goes through when the
rows of the registry's names have their bits and no other row occupies the bit
of a name that has no row; it then appends what is missing. A row that is there
is never touched, also when the loop stops half way.
-/
namespace FastapiTemplate

open Library.KeyedTable Library.Committing

/-- The table can be completed to the registry by new rows alone. -/
structure Registry.Compatible (registry : Registry) (t : Tables) : Prop where
  agree : ∀ p ∈ t.permissions.rows, ∀ b, (p.name, b) ∈ registry → p.bitPosition = some b
  free : ∀ entry ∈ registry, entry.1 ∉ t.permissions.rows.map Permission.name →
    ∀ p ∈ t.permissions.rows, p.bitPosition ≠ some entry.2

/-- The entries whose names have no row. -/
def Registry.absent (registry : Registry) (t : Tables) : Registry :=
  registry.filter (fun entry => entry.1 ∉ t.permissions.rows.map Permission.name)

/-- Only the permission table and its sequence differ. -/
def SameButPermissions (t t' : Tables) : Prop :=
  t' = { t with permissions := t'.permissions, permissionsIdSeq := t'.permissionsIdSeq }

theorem SameButPermissions.trans {t t₁ t' : Tables} (h : SameButPermissions t t₁)
    (h' : SameButPermissions t₁ t') : SameButPermissions t t' := by
  unfold SameButPermissions at h'
  rw [h] at h'
  exact h'

namespace SyncPermissions

/-! ### One round -/

/-- A new row of an unused id, name and bit satisfies the constraints. -/
theorem insertPermission_constraints {t : Tables} {permission : Permission} {b : ℕ}
    {permissions : Table Permission.id} (ht : t.Constraints)
    (hinsert : t.permissions.insert? permission = some permissions)
    (hname : permission.name ∉ t.permissions.rows.map Permission.name)
    (hbit : permission.bitPosition = some b)
    (hfree : b ∉ t.permissions.rows.filterMap Permission.bitPosition) :
    ({ t with
      permissions := permissions
      permissionsIdSeq := t.permissionsIdSeq + 1 } : Tables).Constraints := by
  have hrows : permissions.rows = t.permissions.rows ++ [permission] :=
    (Table.insert?_eq_some hinsert).2
  have hget : ∀ k, (t.permissions.get k).isSome → (permissions.get k).isSome :=
    fun _ => Table.isSome_insert? hinsert
  exact {
    username := ht.username
    email := ht.email
    roleName := ht.roleName
    permissionName := by
      rw [hrows, List.map_append, List.map_singleton, ← List.concat_eq_append,
        List.nodup_concat]
      exact ⟨hname, ht.permissionName⟩
    permissionBit := by
      rw [hrows, List.filterMap_append]
      simp only [List.filterMap_cons, hbit, List.filterMap_nil]
      rw [← List.concat_eq_append, List.nodup_concat]
      exact ⟨hfree, ht.permissionBit⟩
    tenantName := ht.tenantName
    userTenant := ht.userTenant
    userCreator := ht.userCreator
    roleTenant := ht.roleTenant
    tokenUser := ht.tokenUser
    userRole := ht.userRole
    rolePermission := fun x hx => ⟨(ht.rolePermission x hx).1, hget _ (ht.rolePermission x hx).2⟩
    userPermission := fun x hx => ⟨(ht.userPermission x hx).1, hget _ (ht.userPermission x hx).2⟩
    grantableRole := ht.grantableRole
    grantablePermission := fun x hx =>
      ⟨(ht.grantablePermission x hx).1, hget _ (ht.grantablePermission x hx).2⟩
    masksFit := ht.masksFit }

/-- The bit of a created row was not in use. -/
theorem bit_free_of_created {db db' : Db} {permission : Permission} {b : ℕ}
    (hrows : db'.permissions.rows = db.permissions.rows ++ [permission])
    (hbit : permission.bitPosition = some b) :
    b ∉ db.permissions.rows.filterMap Permission.bitPosition := by
  have hnodup := db'.constraints.permissionBit
  rw [hrows, List.filterMap_append] at hnodup
  simp only [List.filterMap_cons, hbit, List.filterMap_nil] at hnodup
  rw [← List.concat_eq_append, List.nodup_concat] at hnodup
  exact hnodup.1

theorem createWithBitTx_ok {t : Tables} {name : String} {b : ℕ} {permissions : Table Permission.id}
    (hinsert : t.permissions.insert? ⟨t.permissionsIdSeq, name, some b⟩ = some permissions) :
    PermissionRepository.createWithBitTx name b t = .ok (⟨t.permissionsIdSeq, name, some b⟩,
      { t with
        permissions := permissions
        permissionsIdSeq := t.permissionsIdSeq + 1 }, []) := by
  have hok : t.insertPermission ⟨t.permissionsIdSeq, name, some b⟩ = .ok { t with
      permissions := permissions
      permissionsIdSeq := t.permissionsIdSeq + 1 } := by
    unfold Tables.insertPermission
    rw [hinsert]
  unfold PermissionRepository.createWithBitTx
  simp only [hok]
  rfl

theorem getByName_eq_some {t : Tables} {name : String} {p : Permission}
    (h : PermissionRepository.getByName t name = some p) :
    p ∈ t.permissions.rows ∧ p.name = name := by
  unfold PermissionRepository.getByName at h
  exact ⟨List.mem_of_find?_eq_some h, by simpa using List.find?_some h⟩

section Round

variable {entry : String × ℕ} {db db' : Db} {p : Permission} {r : Except Err Unit}
  {es : List Event}

theorem getByName_eq_none (h : entry.1 ∉ db.permissions.rows.map Permission.name) :
    PermissionRepository.getByName db.toTables entry.1 = none := by
  unfold PermissionRepository.getByName
  rw [List.find?_eq_none]
  intro p hp hname
  exact h (List.mem_map.mpr ⟨p, hp, of_decide_eq_true hname⟩)

/-- A name without a row: the round creates it. -/
theorem syncEntry_absent
    (h : PermissionRepository.getByName db.toTables entry.1 = none) :
    syncEntry entry db =
      (PermissionRepository.createWithBit entry.1 entry.2 >>= fun _ => pure ()) db := by
  unfold syncEntry query
  rw [Action.read_bind_apply]
  simp only [h]

/-- A round of the loop inserts the row of a name and a bit that are not there. -/
theorem syncEntry_inserts
    (hbelow : ∀ p ∈ db.permissions.rows, p.id < db.permissionsIdSeq)
    (hname : entry.1 ∉ db.permissions.rows.map Permission.name)
    (hbit : entry.2 ∉ db.permissions.rows.filterMap Permission.bitPosition) :
    ∃ db' : Db, syncEntry entry db = (.ok (), db', []) ∧
      db'.permissions.rows =
        db.permissions.rows ++ [⟨db.permissionsIdSeq, entry.1, some entry.2⟩] ∧
      (∀ p ∈ db'.permissions.rows, p.id < db'.permissionsIdSeq) ∧
      SameButPermissions db.toTables db'.toTables := by
  have hfree : db.permissions.get db.permissionsIdSeq = none := by
    rw [Table.get_eq_none_iff]
    intro hmem
    obtain ⟨p, hp, hid⟩ := List.mem_map.mp hmem
    exact absurd hid (ne_of_lt (hbelow p hp))
  let permission : Permission := ⟨db.permissionsIdSeq, entry.1, some entry.2⟩
  obtain ⟨permissions, hinsert⟩ : ∃ permissions,
      db.permissions.insert? permission = some permissions := Table.insert?_of_get_none hfree
  let t : Tables := { db.toTables with
    permissions := permissions
    permissionsIdSeq := db.permissionsIdSeq + 1 }
  have ht : t.Constraints := insertPermission_constraints db.constraints hinsert hname rfl hbit
  have hbody : PermissionRepository.createWithBitTx entry.1 entry.2 db.toTables =
      .ok (permission, t, []) := createWithBitTx_ok hinsert
  have hrows : t.permissions.rows = db.permissions.rows ++ [permission] :=
    (Table.insert?_eq_some hinsert).2
  refine ⟨⟨t, ht⟩, ?_, hrows, ?_, rfl⟩
  · have hcreate := transaction_commits hbody ht
    rw [syncEntry_absent (getByName_eq_none hname)]
    exact Action.bind_apply_ok hcreate
  · intro p hp
    rw [hrows, List.mem_append, List.mem_singleton] at hp
    have hseq : db.permissionsIdSeq < t.permissionsIdSeq := Int.lt_succ db.permissionsIdSeq
    rcases hp with hp | rfl
    · exact lt_trans (hbelow p hp) hseq
    · exact hseq

/-- A row of the name decides the round. -/
theorem syncEntry_present (hp : p ∈ db.permissions.rows) (hname : p.name = entry.1) :
    syncEntry entry db = (if p.bitPosition = some entry.2 then .ok ()
      else .error (.runtimeError (mismatch entry.1 p.bitPosition entry.2)), db, []) := by
  have hfound : PermissionRepository.getByName db.toTables entry.1 = some p := by
    cases hrow : PermissionRepository.getByName db.toTables entry.1 with
    | none =>
      unfold PermissionRepository.getByName at hrow
      have hnone := List.find?_eq_none.mp hrow p hp
      simp [hname] at hnone
    | some q =>
      obtain ⟨hq, hqname⟩ := getByName_eq_some hrow
      rw [List.inj_on_of_nodup_map db.constraints.permissionName hq hp (hqname.trans hname.symm)]
  unfold syncEntry query
  rw [Action.read_bind_apply]
  simp only [hfound]
  unfold Action.ensure
  by_cases hbit : p.bitPosition = some entry.2
  · rw [if_pos hbit, if_pos hbit]
    rfl
  · rw [if_neg hbit, if_neg hbit]
    rfl

/-- What a round without a row of the name leaves. -/
theorem syncEntry_absent_run (hname : entry.1 ∉ db.permissions.rows.map Permission.name)
    (h : syncEntry entry db = (r, db', es)) :
    (∃ e, r = .error e ∧ db' = db) ∨
    (r = .ok () ∧ es = [] ∧ db'.permissions.rows =
      db.permissions.rows ++ [⟨db.permissionsIdSeq, entry.1, some entry.2⟩] ∧
      SameButPermissions db.toTables db'.toTables) := by
  rw [syncEntry_absent (getByName_eq_none hname)] at h
  rcases Action.bind_run h with ⟨e, hcreate, hr⟩ | ⟨p, db₁, es₁, es₂, hcreate, hrest, hes⟩
  · rcases transaction_run hcreate with ⟨_, _, hsame, _⟩ | ⟨_, hok, _⟩
    · exact Or.inl ⟨e, hr, hsame⟩
    · cases hok
  · rcases transaction_run hcreate with ⟨_, herror, _⟩ | ⟨_, _, hbody⟩
    · cases herror
    · obtain ⟨permissions, hinsert, ht, _, hes₁⟩ :=
        PermissionRepository.createWithBitTx_eq_ok hbody
      cases hrest
      refine Or.inr ⟨rfl, by rw [hes, hes₁]; rfl, ?_, ?_⟩
      · rw [ht]
        exact (Table.insert?_eq_some hinsert).2
      · unfold SameButPermissions
        rw [ht]

end Round

/-! ### The two conditions along the loop -/

section Conditions

variable {entry : String × ℕ} {rest : Registry} {t t' : Tables} {p : Permission}

theorem compatible_cons_of_present (hnames : (t.permissions.rows.map Permission.name).Nodup)
    (hp : p ∈ t.permissions.rows) (hname : p.name = entry.1) :
    Registry.Compatible (entry :: rest) t ↔
      p.bitPosition = some entry.2 ∧ rest.Compatible t := by
  have hpresent : entry.1 ∈ t.permissions.rows.map Permission.name :=
    List.mem_map.mpr ⟨p, hp, hname⟩
  constructor
  · intro h
    have hbit : p.bitPosition = some entry.2 := by
      apply h.agree p hp entry.2
      rw [hname]
      exact List.mem_cons_self
    exact ⟨hbit, fun q hq b hb => h.agree q hq b (List.mem_cons_of_mem _ hb),
      fun e he => h.free e (List.mem_cons_of_mem _ he)⟩
  · intro ⟨hbit, h⟩
    refine ⟨?_, ?_⟩
    · intro q hq b hb
      rcases List.mem_cons.mp hb with heq | hb
      · have hsame : q = p := by
          apply List.inj_on_of_nodup_map hnames hq hp
          rw [hname, ← heq]
        rw [hsame, hbit, ← heq]
      · exact h.agree q hq b hb
    · intro e he habsent
      rcases List.mem_cons.mp he with rfl | he
      · exact absurd hpresent habsent
      · exact h.free e he habsent

theorem absent_cons_of_present (hp : p ∈ t.permissions.rows) (hname : p.name = entry.1) :
    Registry.absent (entry :: rest) t = rest.absent t := by
  have hpresent : entry.1 ∈ t.permissions.rows.map Permission.name :=
    List.mem_map.mpr ⟨p, hp, hname⟩
  unfold Registry.absent
  rw [List.filter_cons_of_neg]
  simpa using hpresent

section Absent

variable (hnames : ((entry :: rest).map Prod.fst).Nodup)
  (hbits : ((entry :: rest).map Prod.snd).Nodup)
  (hname : entry.1 ∉ t.permissions.rows.map Permission.name) {id : PermissionId}
  (hrows : t'.permissions.rows = t.permissions.rows ++ [⟨id, entry.1, some entry.2⟩])

include hnames hrows in
/-- The new row hides no further name of the catalogue. -/
theorem absent_of_created {e : String × ℕ} (he : e ∈ rest) :
    e.1 ∉ t'.permissions.rows.map Permission.name ↔
      e.1 ∉ t.permissions.rows.map Permission.name := by
  have hne : e.1 ≠ entry.1 := by
    intro heq
    have hnodup := List.nodup_cons.mp hnames
    exact hnodup.1 (List.mem_map.mpr ⟨e, he, heq⟩)
  rw [hrows, List.map_append, List.mem_append, List.map_singleton, List.mem_singleton]
  have hnot : ¬ (e.1 = entry.1) := hne
  tauto

include hnames hbits hname hrows in
theorem compatible_cons_of_absent :
    Registry.Compatible (entry :: rest) t ↔
      (∀ p ∈ t.permissions.rows, p.bitPosition ≠ some entry.2) ∧ rest.Compatible t' := by
  constructor
  · intro h
    refine ⟨h.free entry List.mem_cons_self hname, ?_, ?_⟩
    · intro q hq b hb
      rw [hrows, List.mem_append, List.mem_singleton] at hq
      rcases hq with hq | rfl
      · exact h.agree q hq b (List.mem_cons_of_mem _ hb)
      · have hnodup := List.nodup_cons.mp hnames
        exact absurd (List.mem_map.mpr ⟨_, hb, rfl⟩) hnodup.1
    · intro e he habsent q hq
      rw [hrows, List.mem_append, List.mem_singleton] at hq
      rcases hq with hq | rfl
      · rw [absent_of_created hnames hrows he] at habsent
        exact h.free e (List.mem_cons_of_mem _ he) habsent q hq
      · intro hbit
        have hnodup := List.nodup_cons.mp hbits
        exact hnodup.1 (List.mem_map.mpr ⟨e, he, (Option.some.inj hbit).symm⟩)
  · intro ⟨hfree, h⟩
    have hold : ∀ q ∈ t.permissions.rows, q ∈ t'.permissions.rows := by
      intro q hq
      rw [hrows]
      exact List.mem_append_left _ hq
    refine ⟨?_, ?_⟩
    · intro q hq b hb
      rcases List.mem_cons.mp hb with heq | hb
      · rw [← heq] at hname
        exact absurd (List.mem_map_of_mem hq) hname
      · exact h.agree q (hold q hq) b hb
    · intro e he habsent q hq
      rcases List.mem_cons.mp he with rfl | he
      · exact hfree q hq
      · rw [← absent_of_created hnames hrows he] at habsent
        exact h.free e he habsent q (hold q hq)

include hnames hname hrows in
theorem absent_cons_of_absent :
    Registry.absent (entry :: rest) t = entry :: rest.absent t' := by
  unfold Registry.absent
  rw [List.filter_cons_of_pos (by simpa using hname)]
  congr 1
  apply List.filter_congr
  intro e he
  exact decide_eq_decide.mpr (absent_of_created hnames hrows he).symm

end Absent

end Conditions

/-! ### The loop -/

section Loop

variable {entry : String × ℕ} {rest registry : Registry} {db db' : Db} {r : Except Err Unit}
  {es : List Event}

theorem syncWithSession_cons : syncWithSession (entry :: rest) =
    syncEntry entry >>= fun _ => syncWithSession rest := rfl

/-- Every run only appends rows; a completed one has found the table compatible
and has appended what was missing. -/
theorem syncWithSession_run (hnames : (registry.map Prod.fst).Nodup)
    (hbits : (registry.map Prod.snd).Nodup)
    (h : syncWithSession registry db = (r, db', es)) :
    ∃ created, db'.permissions.rows = db.permissions.rows ++ created ∧
      SameButPermissions db.toTables db'.toTables ∧
      (r = .ok () → registry.Compatible db.toTables ∧ es = [] ∧
        created.map (fun p => (p.name, p.bitPosition)) =
          (registry.absent db.toTables).map (fun e => (e.1, some e.2))) := by
  induction registry generalizing db db' r es with
  | nil =>
    cases h
    refine ⟨[], (List.append_nil _).symm, rfl, ?_⟩
    intro _
    exact ⟨⟨fun _ _ _ hb => absurd hb List.not_mem_nil, fun _ he => absurd he List.not_mem_nil⟩,
      rfl, rfl⟩
  | cons entry rest ih =>
    have hstop : ∀ e, r = .error e → db' = db →
        ∃ created, db'.permissions.rows = db.permissions.rows ++ created ∧
        SameButPermissions db.toTables db'.toTables ∧
        (r = .ok () → Registry.Compatible (entry :: rest) db.toTables ∧ es = [] ∧
          created.map (fun p => (p.name, p.bitPosition)) =
            (Registry.absent (entry :: rest) db.toTables).map (fun e => (e.1, some e.2))) := by
      intro e hr hdb
      refine ⟨[], by rw [hdb, List.append_nil], by rw [hdb]; rfl, ?_⟩
      intro hok
      rw [hr] at hok
      cases hok
    rw [syncWithSession_cons] at h
    by_cases hname : entry.1 ∈ db.permissions.rows.map Permission.name
    · obtain ⟨p, hp, hpname⟩ := List.mem_map.mp hname
      have hround := syncEntry_present hp hpname
      by_cases hbit : p.bitPosition = some entry.2
      · rw [if_pos hbit] at hround
        rw [Action.bind_apply_ok hround] at h
        obtain ⟨created, hrows, hsame, hdone⟩ := ih hnames.of_cons hbits.of_cons h
        refine ⟨created, hrows, hsame, ?_⟩
        intro hr
        rw [compatible_cons_of_present db.constraints.permissionName hp hpname,
          absent_cons_of_present hp hpname]
        exact ⟨⟨hbit, (hdone hr).1⟩, (hdone hr).2⟩
      · rw [if_neg hbit] at hround
        rcases Action.bind_run h with ⟨e, hentry, hr⟩ | ⟨_, _, _, _, hentry, _, _⟩
        · rw [hround] at hentry
          cases hentry
          exact hstop _ hr rfl
        · rw [hround] at hentry
          cases hentry
    · rcases Action.bind_run h with ⟨e, hentry, hr⟩ | ⟨_, db₁, es₁, es₂, hentry, hafter, hes⟩
      · rcases syncEntry_absent_run hname hentry with ⟨_, _, hdb⟩ | ⟨hok, _⟩
        · exact hstop e hr hdb
        · cases hok
      · rcases syncEntry_absent_run hname hentry with ⟨_, herror, _⟩ | ⟨_, hes₁, hrows₁, hsame₁⟩
        · cases herror
        · obtain ⟨created, hrows, hsame, hdone⟩ := ih hnames.of_cons hbits.of_cons hafter
          refine ⟨⟨db.permissionsIdSeq, entry.1, some entry.2⟩ :: created, ?_, ?_, ?_⟩
          · rw [hrows, hrows₁, List.append_assoc, List.singleton_append]
          · exact SameButPermissions.trans hsame₁ hsame
          · intro hr
            obtain ⟨hcompatible, hes₂, hcreated⟩ := hdone hr
            rw [compatible_cons_of_absent hnames hbits hname hrows₁,
              absent_cons_of_absent hnames hname hrows₁]
            refine ⟨⟨?_, hcompatible⟩, by rw [hes, hes₁, hes₂]; rfl, ?_⟩
            · intro p hp hbit
              exact bit_free_of_created hrows₁ rfl (List.mem_filterMap.mpr ⟨p, hp, hbit⟩)
            · rw [List.map_cons, List.map_cons, hcreated]

/-- On a compatible table the loop completes. -/
theorem syncWithSession_completes (hnames : (registry.map Prod.fst).Nodup)
    (hbits : (registry.map Prod.snd).Nodup)
    (hbelow : ∀ p ∈ db.permissions.rows, p.id < db.permissionsIdSeq)
    (h : registry.Compatible db.toTables) :
    ∃ db', syncWithSession registry db = (.ok (), db', []) := by
  induction registry generalizing db with
  | nil => exact ⟨db, rfl⟩
  | cons entry rest ih =>
    rw [syncWithSession_cons]
    by_cases hname : entry.1 ∈ db.permissions.rows.map Permission.name
    · obtain ⟨p, hp, hpname⟩ := List.mem_map.mp hname
      obtain ⟨hbit, hrest⟩ :=
        (compatible_cons_of_present db.constraints.permissionName hp hpname).mp h
      have hround := syncEntry_present hp hpname
      rw [if_pos hbit] at hround
      rw [Action.bind_apply_ok hround]
      exact ih hnames.of_cons hbits.of_cons hbelow hrest
    · have hfree : entry.2 ∉ db.permissions.rows.filterMap Permission.bitPosition := by
        intro hmem
        obtain ⟨p, hp, hbit⟩ := List.mem_filterMap.mp hmem
        exact h.free entry List.mem_cons_self hname p hp hbit
      obtain ⟨db₁, hround, hrows, hbelow₁, _⟩ := syncEntry_inserts hbelow hname hfree
      rw [Action.bind_apply_ok hround]
      have hrest := ((compatible_cons_of_absent hnames hbits hname hrows).mp h).2
      exact ih hnames.of_cons hbits.of_cons hbelow₁ hrest

/-- Where every name has its row the loop only reads. -/
theorem syncWithSession_settled
    (h : ∀ entry ∈ registry, (entry.1, some entry.2) ∈
      db.permissions.rows.map (fun p => (p.name, p.bitPosition))) :
    syncWithSession registry db = (.ok (), db, []) := by
  induction registry with
  | nil => rfl
  | cons entry rest ih =>
    obtain ⟨p, hp, heq⟩ := List.mem_map.mp (h entry List.mem_cons_self)
    have hround := syncEntry_present hp (congrArg Prod.fst heq)
    rw [if_pos (congrArg Prod.snd heq)] at hround
    rw [syncWithSession_cons, Action.bind_apply_ok hround]
    exact ih (fun e he => h e (List.mem_cons_of_mem _ he))

end Loop

/-- The synchronisation completes exactly on compatible tables. A completed run
has appended one row for each name that had none, and the next run changes
nothing; every run leaves the rows that were there. The sequence of the
identifiers is ahead of those in use. -/
theorem sync_exact {registry : Registry} (hnames : (registry.map Prod.fst).Nodup)
    (hbits : (registry.map Prod.snd).Nodup) (db : Db)
    (hbelow : ∀ p ∈ db.permissions.rows, p.id < db.permissionsIdSeq) :
    ((syncWithSession registry db).1 = .ok () ↔ registry.Compatible db.toTables) ∧
    (∃ created,
      (syncWithSession registry db).2.1.permissions.rows = db.permissions.rows ++ created ∧
      SameButPermissions db.toTables (syncWithSession registry db).2.1.toTables ∧
      ((syncWithSession registry db).1 = .ok () →
        created.map (fun p => (p.name, p.bitPosition)) =
          (registry.absent db.toTables).map (fun e => (e.1, some e.2)) ∧
        syncWithSession registry (syncWithSession registry db).2.1 =
          (.ok (), (syncWithSession registry db).2.1, []))) := by
  rcases hrun : syncWithSession registry db with ⟨r, db', es⟩
  obtain ⟨created, hrows, hsame, hdone⟩ := syncWithSession_run hnames hbits hrun
  refine ⟨⟨fun hr => (hdone hr).1, ?_⟩, created, hrows, hsame, ?_⟩
  · intro hcompatible
    obtain ⟨db₁, hok⟩ := syncWithSession_completes hnames hbits hbelow hcompatible
    rw [hok] at hrun
    exact (congrArg Prod.fst hrun).symm
  · intro hr
    obtain ⟨hcompatible, _, hcreated⟩ := hdone hr
    refine ⟨hcreated, syncWithSession_settled ?_⟩
    intro entry hentry
    rw [hrows, List.map_append, List.mem_append]
    by_cases hname : entry.1 ∈ db.permissions.rows.map Permission.name
    · obtain ⟨p, hp, hpname⟩ := List.mem_map.mp hname
      have hbit : p.bitPosition = some entry.2 := by
        apply hcompatible.agree p hp
        rw [hpname]
        exact hentry
      exact Or.inl (List.mem_map.mpr ⟨p, hp, by rw [hpname, hbit]⟩)
    · have hmissing : entry ∈ registry.absent db.toTables :=
        List.mem_filter.mpr ⟨hentry, by simpa using hname⟩
      rw [hcreated]
      exact Or.inr (List.mem_map_of_mem hmissing)

/-- The first name of the catalogue, a retired permission and a row without a bit. -/
def retired : Db :=
  ⟨{ Tables.empty with
      permissions := ⟨[⟨1, "role:create", some 0⟩, ⟨2, "role:purge", some 40⟩,
        ⟨3, "audit:read", none⟩], by decide⟩
      permissionsIdSeq := 4 }, by decide⟩

theorem retired_compatible : permissionRegistry.Compatible retired.toTables ∧
    (syncWithSession permissionRegistry retired).2.1.permissions.rows.length = 21 :=
  ⟨(sync_exact (by decide +kernel) (by decide +kernel) retired (by decide)).1.mp
    (by decide +kernel), by decide +kernel⟩

end SyncPermissions

end FastapiTemplate
