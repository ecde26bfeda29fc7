import FastapiTemplate.Backend
import FastapiTemplate.Library.LastWrite

/-!
The accounts over the runs of the whole program. The name and the address of an
account stay, it becomes verified by the links that verify its address, and its
password is the one of the last reset link taken for it. The program mails such
a link to the address that it is for, so that only who reads those mails
verifies an account or replaces a password.
-/
namespace FastapiTemplate

open Library.KeyedTable Library.Committing Library.LastWrite

/-! ### Rows -/

/-- No constraint is about the columns other than these. -/
theorem updateUsers_constraints {t : Tables} (p : User → Bool) {f : User → User}
    (hf : ∀ u, (f u).id = u.id) (ht : t.Constraints) (hname : ∀ u, (f u).username = u.username)
    (haddress : ∀ u, (f u).email = u.email) (htenant : ∀ u, (f u).tenantId = u.tenantId)
    (hcreator : ∀ u, (f u).createdById = u.createdById) :
    ({ t with users := t.users.update p f hf } : Tables).Constraints := by
  have hmap : ∀ {β : Type} (g : User → β), (∀ u, g (f u) = g u) →
      (t.users.update p f hf).rows.map g = t.users.rows.map g := by
    intro β g hg
    change (t.users.rows.map _).map g = _
    rw [List.map_map]
    apply List.map_congr_left
    intro u _
    by_cases hp : p u = true
    · simp [hp, hg]
    · simp [hp]
  have hmem : ∀ u ∈ (t.users.update p f hf).rows, ∃ v ∈ t.users.rows,
      v.tenantId = u.tenantId ∧ v.createdById = u.createdById := by
    intro u hu
    obtain ⟨v, hv, _, rfl | ⟨_, rfl⟩⟩ := Table.mem_update hu
    · exact ⟨u, hv, rfl, rfl⟩
    · exact ⟨v, hv, (htenant v).symm, (hcreator v).symm⟩
  have hget : ∀ k, ((t.users.update p f hf).get k).isSome = (t.users.get k).isSome := by
    intro k
    rw [Table.get_update, Option.isSome_map]
  exact {
    username := by rw [hmap User.username hname]; exact ht.username
    email := by rw [hmap User.email haddress]; exact ht.email
    roleName := ht.roleName
    permissionName := ht.permissionName
    permissionBit := ht.permissionBit
    tenantName := ht.tenantName
    userTenant := by
      intro u hu
      obtain ⟨v, hv, hsame, _⟩ := hmem u hu
      rw [← hsame]
      exact ht.userTenant v hv
    userCreator := by
      intro u hu
      obtain ⟨v, hv, _, hsame⟩ := hmem u hu
      rw [← hsame]
      simp only [hget]
      exact ht.userCreator v hv
    roleTenant := ht.roleTenant
    tokenUser := by
      intro k hk
      rw [hget]
      exact ht.tokenUser k hk
    userRole := by
      intro x hx
      rw [hget]
      exact ht.userRole x hx
    rolePermission := ht.rolePermission
    userPermission := by
      intro x hx
      rw [hget]
      exact ht.userPermission x hx
    grantableRole := ht.grantableRole
    grantablePermission := ht.grantablePermission
    masksFit := ht.masksFit }

section Rows

variable {db db' : Db} {u : User} {userId : Uuid}

theorem Db.eq_of_email (db : Db) {v : User} (hu : u ∈ db.users.rows) (hv : v ∈ db.users.rows)
    (h : u.email = v.email) : u = v :=
  List.inj_on_of_nodup_map db.constraints.email hu hv h

theorem getByEmail_eq (hu : u ∈ db.users.rows) :
    UserRepository.getByEmail db.toTables u.email = some u := by
  rcases hfind : UserRepository.getByEmail db.toTables u.email with _ | v
  · have hnone := List.find?_eq_none.mp hfind u hu
    simp at hnone
  · obtain ⟨hrow, hemail⟩ := getByEmail_eq_some hfind
    rw [db.eq_of_email (Table.mem_of_get hrow) hu hemail]

/-- What a change leaves of a row. -/
structure AccountStep (c : Change) (u u' : User) : Prop where
  username : u'.username = u.username
  email : u'.email = u.email
  isVerified : (∀ user, c = .setVerified user → user.id ≠ u.id) → u'.isVerified = u.isVerified
  password : (∀ user hashedPassword, c = .setPassword user hashedPassword → user.id ≠ u.id) →
    u'.password = u.password

theorem Change.account_step {c : Change} {es : List Event} (hcommit : c.Commits db db' es)
    (hu : db.users.get userId = some u) :
    ∃ u', db'.users.get userId = some u' ∧ AccountStep c u u' := by
  obtain ⟨tokens, ht⟩ := Change.commits_apply hcommit
  obtain rfl := Table.key_of_get hu
  have hsame (husers : (c.apply db.toTables).users = db.users) :
      ∃ u', db'.users.get u.id = some u' ∧ AccountStep c u u' := by
    refine ⟨u, ?_, rfl, rfl, fun _ => rfl, fun _ => rfl⟩
    rw [ht]
    change (c.apply db.toTables).users.get u.id = _
    rw [husers, hu]
  have hupdate {p : User → Bool} {f : User → User} (hf : ∀ u, (f u).id = u.id)
      (husers : (c.apply db.toTables).users = db.users.update p f hf)
      (hstep : p u = true → AccountStep c u (f u)) :
      ∃ u', db'.users.get u.id = some u' ∧ AccountStep c u u' := by
    refine ⟨if p u then f u else u, ?_, ?_⟩
    · rw [ht]
      change (c.apply db.toTables).users.get u.id = _
      rw [husers, Table.get_update, hu, Option.map_some]
    · by_cases hp : p u = true
      · rw [if_pos hp]
        exact hstep hp
      · rw [if_neg hp]
        exact ⟨rfl, rfl, fun _ => rfl, fun _ => rfl⟩
  have hbump {P : Uuid → Bool} (husers : (c.apply db.toTables).users =
      db.users.update (fun u => P u.id) (fun u => { u with permVersion := u.permVersion + 1 })
        (fun _ => rfl)) :
      ∃ u', db'.users.get u.id = some u' ∧ AccountStep c u u' :=
    hupdate (fun u => User.id_setVersion (u.permVersion + 1) u) husers
      (fun _ => ⟨rfl, rfl, fun _ => rfl, fun _ => rfl⟩)
  cases c with
  | createUser data =>
    refine ⟨u, ?_, rfl, rfl, fun _ => rfl, fun _ => rfl⟩
    rw [ht]
    exact Table.get_insertD_of_get hu
  | setVerified user =>
    exact hupdate User.id_setVerified rfl (fun hp => ⟨rfl, rfl,
      fun hother => absurd (of_decide_eq_true hp).symm (hother user rfl), fun _ => rfl⟩)
  | setPassword user hashedPassword =>
    exact hupdate (User.id_setPassword hashedPassword) rfl (fun hp => ⟨rfl, rfl, fun _ => rfl,
      fun hother => absurd (of_decide_eq_true hp).symm (hother user hashedPassword rfl)⟩)
  | syncRootTenantRole tenantId allowed =>
    rcases hrole : RoleRepository.getByName db.toTables "tenant-admin" (some tenantId) with _ | role
    · refine hsame ?_
      simp only [apply, hrole]
    · refine hbump (P := db.toTables.holds role.id) ?_
      simp only [apply, hrole]
      rfl
  | assignToUser roleId targetId | removeFromUser roleId targetId =>
    exact hbump (P := (· = targetId)) rfl
  | addPermission role permission | removePermission role permission =>
    exact hbump (P := db.toTables.holds role.id) rfl
  | grantPermission user permission | revokePermission user permission =>
    exact hupdate user.id_nextVersion rfl (fun _ => ⟨rfl, rfl, fun _ => rfl, fun _ => rfl⟩)
  | setUserActive user isActive =>
    exact hupdate (User.id_setActive isActive) rfl
      (fun _ => ⟨rfl, rfl, fun _ => rfl, fun _ => rfl⟩)
  | _ => exact hsame rfl

/-- Where no change of the kind is for this address, the row keeps its columns. -/
theorem account_path {P : Change → Prop} {es : List Event} (hpath : Path (ChangeStep P) db db' es)
    (hu : db.users.get userId = some u) :
    ∃ u', db'.users.get userId = some u' ∧ u'.username = u.username ∧ u'.email = u.email ∧
      ((∀ user, P (.setVerified user) → user.email ≠ u.email) →
        u'.isVerified = u.isVerified) ∧
      ((∀ user hashedPassword, P (.setPassword user hashedPassword) → user.email ≠ u.email) →
        u'.password = u.password) := by
  refine hpath.invariant (I := fun s => ∃ u', s.users.get userId = some u' ∧
    u'.username = u.username ∧ u'.email = u.email ∧
    ((∀ user, P (.setVerified user) → user.email ≠ u.email) → u'.isVerified = u.isVerified) ∧
    ((∀ user hashedPassword, P (.setPassword user hashedPassword) → user.email ≠ u.email) →
      u'.password = u.password)) ?_ ⟨u, hu, rfl, rfl, fun _ => rfl, fun _ => rfl⟩
  rintro s s' _ ⟨c, es, hP, hcur, hcommit⟩ ⟨v, hv, hname, hemail, hverified, hpassword⟩
  obtain ⟨v', hv', hstep⟩ := Change.account_step hcommit hv
  obtain rfl := Table.key_of_get hv
  refine ⟨v', hv', hstep.username.trans hname, hstep.email.trans hemail, fun hother => ?_,
    fun hother => ?_⟩
  · refine (hstep.isVerified ?_).trans (hverified hother)
    rintro user rfl hid
    have hrow : s.users.get user.id = some user := hcur
    rw [hid, hv] at hrow
    obtain rfl := Option.some.inj hrow
    exact hother v hP hemail
  · refine (hstep.password ?_).trans (hpassword hother)
    rintro user hashedPassword rfl hid
    have hrow : s.users.get user.id = some user := hcur
    rw [hid, hv] at hrow
    obtain rfl := Option.some.inj hrow
    exact hother v hashedPassword hP hemail

/-! ### Taking a link -/

theorem setVerified_run (hu : db.users.get u.id = some u) :
    ∃ after : Db, UserRepository.setVerified u db = (.ok (), after, []) ∧
      after.toTables = { db.toTables with
        users := db.users.update (fun v => v.id = u.id) (fun v => { v with isVerified := true })
          User.id_setVerified } := by
  have ht := updateUsers_constraints (fun v => v.id = u.id) User.id_setVerified db.constraints
    (fun _ => rfl) (fun _ => rfl) (fun _ => rfl) (fun _ => rfl)
  refine ⟨⟨_, ht⟩, transaction_commits ?_ ht, rfl⟩
  rw [UserRepository.setVerifiedTx, Tables.updateUser, if_pos (by rw [hu]; rfl)]
  rfl

theorem setPassword_run {hashedPassword : String} (hu : db.users.get u.id = some u) :
    ∃ after : Db, UserRepository.setPassword u hashedPassword db = (.ok (), after, []) ∧
      after.toTables = { db.toTables with
        users := db.users.update (fun v => v.id = u.id)
          (fun v => { v with password := some hashedPassword })
          (User.id_setPassword hashedPassword) } := by
  have ht := updateUsers_constraints (fun v => v.id = u.id) (User.id_setPassword hashedPassword)
    db.constraints (fun _ => rfl) (fun _ => rfl) (fun _ => rfl) (fun _ => rfl)
  refine ⟨⟨_, ht⟩, transaction_commits ?_ ht, rfl⟩
  rw [UserRepository.setPasswordTx, Tables.updateUser, if_pos (by rw [hu]; rfl)]
  rfl

variable {Link : Type} {serializer : TimedSerializer Link} {now : ℤ} {token : Link}
  {data : LinkData}

/-- A link for the address of an account verifies this account. -/
theorem verifyUserAccount_run (hdata : decodeUrlSafeToken serializer now token = .ok data)
    (haddress : addressOf data.email = some u.email) (hu : db.users.get u.id = some u) :
    ∃ after : Db, verifyUserAccount serializer now token db =
        (.ok (200, "Account verified successfully"), after, []) ∧
      after.toTables = { db.toTables with
        users := db.users.update (fun v => v.id = u.id) (fun v => { v with isVerified := true })
          User.id_setVerified } := by
  obtain ⟨after, hrun, ht⟩ := setVerified_run hu
  refine ⟨after, ?_, ht⟩
  rw [verifyUserAccount, hdata, Action.ofExcept_ok_bind, VerifyMail.verifyMail, haddress]
  dsimp only
  rw [query, Action.read_bind_apply, getByEmail_eq (Table.mem_of_get hu),
    Action.require_some_bind, Action.bind_apply_ok hrun]
  rfl

theorem resetPasswordUpdate_run {getPasswordHash : String → Except Err String}
    {userData : UserNewPassword} {hashedPassword : String}
    (hdata : decodePasswordResetToken serializer now token = .ok data)
    (haddress : addressOf data.email = some u.email)
    (hsame : userData.newPassword = userData.confirmPassword)
    (hhash : getPasswordHash userData.newPassword = .ok hashedPassword)
    (hu : db.users.get u.id = some u) :
    ∃ after : Db, resetPasswordUpdate serializer getPasswordHash now token userData db =
        (.ok (200, "Account Password Reset Successfully"), after, []) ∧
      after.toTables = { db.toTables with
        users := db.users.update (fun v => v.id = u.id)
          (fun v => { v with password := some hashedPassword })
          (User.id_setPassword hashedPassword) } := by
  obtain ⟨after, hrun, ht⟩ := setPassword_run hu
  refine ⟨after, ?_, ht⟩
  rw [resetPasswordUpdate, hdata, Action.ofExcept_ok_bind, PasswordReset.verifyPassword, haddress]
  dsimp only
  rw [query, Action.read_bind_apply, getByEmail_eq (Table.mem_of_get hu),
    Action.require_some_bind, Action.ensure_bind_apply hsame, hhash, Action.ofExcept_ok_bind,
    Action.bind_apply_ok hrun]
  rfl

end Rows

namespace Backend

/-! ### The links of a run -/

section Links

variable {Token Link : Type} (settings : AuthSettings Token) (serializer : TimedSerializer Link)

/-- An input, with the state that it met. -/
abbrev Entry (Token Link : Type) := Backend Token × Input Token Link

/-- The allowed inputs of a run, in their order. -/
inductive Trace : Backend Token → List (Entry Token Link) → Backend Token → Prop
  | nil (s : Backend Token) : Trace s [] s
  | snoc {s s' : Backend Token} {log : List (Entry Token Link)} (input : Input Token Link) :
      Trace s log s' → s'.Allows settings serializer input →
      Trace s (log ++ [(s', input)]) (s'.step settings serializer input)

/-- The input takes a link that verifies this address. -/
def Verifies (email : String) : Entry Token Link → Prop
  | (s, .verifyMail token) => ∃ data,
    decodeUrlSafeToken serializer (s.now / second) token = .ok data ∧
      addressOf data.email = some email
  | _ => False

/-- The hash that the input stores for the account with this address. -/
def resetTo (email : String) : Entry Token Link → Option String
  | (s, .verifyPassword getPasswordHash token userData) =>
    match decodePasswordResetToken serializer (s.now / second) token with
    | .ok data =>
      if addressOf data.email = some email ∧ userData.newPassword = userData.confirmPassword then
        (getPasswordHash userData.newPassword).toOption
      else none
    | .error _ => none
  | _ => none

/-- The row is what the links in the log make of the row before. -/
structure Follows (log : List (Entry Token Link)) (u u' : User) : Prop where
  username : u'.username = u.username
  email : u'.email = u.email
  isVerified : u'.isVerified = true ↔
    u.isVerified = true ∨ ∃ e ∈ log, Verifies serializer u.email e
  password : u'.password = (lastWrite (resetTo serializer u.email) log).or u.password

end Links

section Runs

variable {Token Link : Type} {settings : AuthSettings Token} {serializer : TimedSerializer Link}
  {s s' : Backend Token} {input : Input Token Link} {log : List (Entry Token Link)}
  {u u' u'' : User} {userId : Uuid}

theorem Follows.nil : Follows serializer ([] : List (Entry Token Link)) u u := by
  refine ⟨rfl, rfl, ?_, rfl⟩
  simp

theorem Follows.append {log' : List (Entry Token Link)} (h : Follows serializer log u u')
    (h' : Follows serializer log' u' u'') : Follows serializer (log ++ log') u u'' := by
  refine ⟨h'.username.trans h.username, h'.email.trans h.email, ?_, ?_⟩
  · rw [h'.isVerified, h.isVerified, h.email, or_assoc]
    simp only [List.mem_append, or_and_right, exists_or]
  · rw [h'.password, h.password, h.email, lastWrite_append, Option.or_assoc]

/-- The row of one input, by what the input does to it. -/
theorem Follows.single (hname : u'.username = u.username) (hemail : u'.email = u.email)
    (hverified : u'.isVerified = true ↔
      u.isVerified = true ∨ Verifies serializer u.email (s, input))
    (hpassword : u'.password = (resetTo serializer u.email (s, input)).or u.password) :
    Follows serializer [(s, input)] u u' := by
  refine ⟨hname, hemail, ?_, ?_⟩
  · rw [hverified]
    simp
  · rw [hpassword, lastWrite_singleton]

/-- The row of an input that takes no link for the account. -/
theorem Follows.kept (hname : u'.username = u.username) (hemail : u'.email = u.email)
    (hnone : ¬ Verifies serializer u.email (s, input))
    (hverified : u'.isVerified = u.isVerified)
    (hreset : resetTo serializer u.email (s, input) = none)
    (hpassword : u'.password = u.password) : Follows serializer [(s, input)] u u' := by
  refine .single hname hemail ?_ ?_
  · rw [hverified, or_iff_left hnone]
  · rw [hpassword, hreset, Option.none_or]

theorem resetTo_eq_some_iff {getPasswordHash : String → Except Err String} {token : Link}
    {userData : UserNewPassword} {email hashedPassword : String} :
    resetTo serializer email ((s, .verifyPassword getPasswordHash token userData) :
        Entry Token Link) = some hashedPassword ↔
      ∃ data, decodePasswordResetToken serializer (s.now / second) token = .ok data ∧
        addressOf data.email = some email ∧ userData.HashesTo getPasswordHash hashedPassword := by
  unfold resetTo
  constructor
  · intro h
    dsimp only at h
    split at h
    · rename_i data hdata
      split_ifs at h with htaken
      rcases hhash : getPasswordHash userData.newPassword with e | found
      · rw [hhash] at h
        cases h
      · rw [hhash] at h
        obtain rfl := Option.some.inj h
        exact ⟨data, hdata, htaken.1, htaken.2, hhash⟩
    · cases h
  · rintro ⟨data, hdata, haddress, hsame, hhash⟩
    dsimp only
    rw [hdata]
    dsimp only
    rw [if_pos ⟨haddress, hsame⟩, hhash]
    rfl

/-- One input does to the row what its link says. -/
theorem Sound.follows (hs : s.Sound settings) (hjwt : settings.jwt.Expires)
    (hallows : s.Allows settings serializer input) (hu : s.db.users.get userId = some u) :
    ∃ u', (s.step settings serializer input).db.users.get userId = some u' ∧
      Follows serializer [(s, input)] u u' := by
  obtain ⟨es, hpath⟩ := hs.step_path hjwt hallows
  obtain ⟨u', hu', hname, hemail, hverified, hpassword⟩ := account_path hpath hu
  obtain rfl := Table.key_of_get hu
  have hother (hnone : ¬ Verifies serializer u.email (s, input)) :
      ∀ user, s.Performs serializer input (.setVerified user) → user.email ≠ u.email := by
    intro user hperforms haddress
    refine hnone ?_
    cases input with
    | verifyMail token =>
      obtain ⟨data, hdata, hverifies⟩ := hperforms
      exact ⟨data, hdata, haddress ▸ hverifies⟩
    | verifyPassword =>
      obtain ⟨_, _, _, _, hresets⟩ := hperforms
      exact hresets
    | route _ _ _ call => cases call <;> exact hperforms.elim
    | _ => exact hperforms.elim
  have hkept (hnone : resetTo serializer u.email (s, input) = none) :
      ∀ user hashedPassword, s.Performs serializer input (.setPassword user hashedPassword) →
        user.email ≠ u.email := by
    intro user hashedPassword hperforms haddress
    cases input with
    | verifyMail =>
      obtain ⟨_, _, hverifies⟩ := hperforms
      exact hverifies
    | verifyPassword getPasswordHash token userData =>
      obtain ⟨data, hashed, hdata, hhashes, hresets⟩ := hperforms
      have htaken := resetTo_eq_some_iff.mpr ⟨data, hdata, haddress ▸ hresets.1, hhashes⟩
      rw [hnone] at htaken
      cases htaken
    | route _ _ _ call => cases call <;> exact hperforms.elim
    | _ => exact hperforms.elim
  by_cases hverifies : Verifies serializer u.email (s, input)
  · cases input with
    | verifyMail token =>
      obtain ⟨data, hdata, haddress⟩ := hverifies
      obtain ⟨after, hrun, ht⟩ := verifyUserAccount_run hdata haddress hu
      refine ⟨{ u with isVerified := true }, ?_, .single rfl rfl ?_ rfl⟩
      · change (verifyUserAccount serializer (s.now / second) token s.db).2.1.users.get u.id = _
        rw [hrun]
        change after.toTables.users.get u.id = _
        rw [ht, Table.get_update, hu]
        simp
      · simp only [true_iff]
        exact Or.inr ⟨data, hdata, haddress⟩
    | _ => exact hverifies.elim
  rcases hreset : resetTo serializer u.email (s, input) with _ | hashedPassword
  · exact ⟨u', hu', .kept hname hemail hverifies (hverified (hother hverifies)) hreset
      (hpassword (hkept hreset))⟩
  · cases input with
    | verifyPassword getPasswordHash token userData =>
      obtain ⟨data, hdata, haddress, hsame, hhash⟩ := resetTo_eq_some_iff.mp hreset
      obtain ⟨after, hrun, ht⟩ := resetPasswordUpdate_run hdata haddress hsame hhash hu
      refine ⟨{ u with password := some hashedPassword }, ?_, .single rfl rfl ?_ ?_⟩
      · change (resetPasswordUpdate serializer getPasswordHash (s.now / second) token userData
          s.db).2.1.users.get u.id = _
        rw [hrun]
        change after.toTables.users.get u.id = _
        rw [ht, Table.get_update, hu]
        simp
      · rw [or_iff_left hverifies]
      · rw [hreset]
        rfl
    | _ => cases hreset

theorem Trace.reached (h : Reached settings serializer s)
    (hrun : Trace settings serializer s log s') : Reached settings serializer s' := by
  induction hrun with
  | nil => exact h
  | snoc input _ hallows ih => exact .step input ih hallows

theorem Trace.entry {e : Entry Token Link} (h : Reached settings serializer s)
    (hrun : Trace settings serializer s log s') (he : e ∈ log) :
    Reached settings serializer e.1 ∧ e.1.Allows settings serializer e.2 := by
  induction hrun with
  | nil => cases he
  | snoc input htrace hallows ih =>
    rcases List.mem_append.mp he with hold | hlast
    · exact ih hold
    · obtain rfl := List.mem_singleton.mp hlast
      exact ⟨htrace.reached h, hallows⟩

theorem Trace.now_le (hrun : Trace settings serializer s log s') : s.now ≤ s'.now := by
  induction hrun with
  | nil => exact le_refl _
  | snoc input _ hallows ih => exact ih.trans (step_now hallows)

end Runs

/-! ### A short run

`cara` registers, follows the mail, asks for a reset and takes its link, and
logs in with the new password. -/

abbrev PlainTrace (s : Backend TokenPayload) (log : List (Entry TokenPayload PlainLink))
    (s' : Backend TokenPayload) : Prop :=
  Trace Sessions.plainSettings plainSerializer s log s'

def cara : UserRegister := ⟨"cara", "cara@example.com", "pw"⟩

def verifyMail : Mail := ⟨"cara@example.com", .verifyMail, 0⟩

def resetMail : Mail := ⟨"cara@example.com", .resetPassword, 0⟩

def renewed : UserNewPassword := ⟨"new", "new"⟩

def caraRegistered : Backend TokenPayload := plainStep (start 0) (.register .ok 1 cara 0 true)

def caraVerified : Backend TokenPayload :=
  plainStep caraRegistered (.verifyMail (verifyMail.link plainSerializer))

def caraMailed : Backend TokenPayload :=
  plainStep caraVerified (.resetPassword "cara@example.com" 0 true)

def caraRenewed : Backend TokenPayload :=
  plainStep caraMailed (.verifyPassword .ok (resetMail.link plainSerializer) renewed)

def caraBefore : User :=
  ⟨1, "cara", "cara@example.com", some "pw", false, false, true, none, none, 1⟩

def caraAfter : User :=
  ⟨1, "cara", "cara@example.com", some "new", true, false, true, none, none, 1⟩

def caraLog : List (Entry TokenPayload PlainLink) :=
  [(caraRegistered, .verifyMail (verifyMail.link plainSerializer)),
    (caraVerified, .resetPassword "cara@example.com" 0 true),
    (caraMailed, .verifyPassword .ok (resetMail.link plainSerializer) renewed)]

theorem exists_of_isOk {α : Type} {r : Except Err α} (h : r.isOk = true) : ∃ a, r = .ok a := by
  cases r with
  | error e => cases h
  | ok a => exact ⟨a, rfl⟩

theorem caraRegistered_reached : PlainReached caraRegistered :=
  plainReached_step (.start 0) _ (le_refl _)

theorem caraMailed_trace : PlainTrace caraRegistered
    [(caraRegistered, .verifyMail (verifyMail.link plainSerializer)),
      (caraVerified, .resetPassword "cara@example.com" 0 true)] caraMailed := by
  have hverified : PlainTrace caraRegistered _ caraVerified :=
    .snoc (.verifyMail (verifyMail.link plainSerializer)) (.nil caraRegistered)
      (Or.inl ⟨verifyMail, by decide +kernel, rfl⟩)
  exact .snoc (.resetPassword "cara@example.com" 0 true) hverified
    (by decide +kernel : caraVerified.now ≤ 0)

theorem resetMail_mailed : resetMail ∈ caraMailed.mails := by decide +kernel

theorem caraRenewed_trace : PlainTrace caraRegistered caraLog caraRenewed :=
  .snoc (.verifyPassword .ok (resetMail.link plainSerializer) renewed) caraMailed_trace
    (Or.inl ⟨resetMail, resetMail_mailed, rfl⟩)

/-! The run to the login of `ann`. -/

def annRow : User :=
  ⟨2, "ann", "ann@example.com", some "pw", true, false, true, some 1, none, 2⟩

def annLog : List (Entry TokenPayload PlainLink) :=
  [(start 0, .seed .ok 1 "root" "root@example.com" "pw"),
    (founded, .login true 60 0 0 0 "first" "root" "pw"),
    (rootIn, .route .ok rootToken .empty (.createRole ⟨"staff", ["user:create"]⟩)),
    (staffAuthored, .route .ok rootToken .empty (.createUser 2 ⟨"ann", "ann@example.com", "pw"⟩)),
    (annCreated, .route .ok rootToken .empty (.assignRole 2 1)),
    (annHired, .login true 60 0 0 0 "second" "ann" "pw")]

theorem plainTrace_route {s₀ s : Backend TokenPayload} {log : List (Entry TokenPayload PlainLink)}
    (h : PlainTrace s₀ log s) {token : TokenPayload} (htoken : token ∈ s.issued) (call : Call) :
    PlainTrace s₀ (log ++ [(s, .route .ok token .empty call)])
      (plainStep s (.route .ok token .empty call)) :=
  .snoc _ h (Or.inl htoken)

theorem plainTrace_login {s₀ s : Backend TokenPayload} {log : List (Entry TokenPayload PlainLink)}
    (h : PlainTrace s₀ log s) (hnow : s.now ≤ 0) (jti username password : String) :
    PlainTrace s₀ (log ++ [(s, .login true 60 0 0 0 jti username password)])
      (plainStep s (.login true 60 0 0 0 jti username password)) :=
  .snoc _ h ⟨hnow, le_refl _, le_refl _⟩

theorem annIn_trace : PlainTrace (start 0) annLog annIn := by
  have hfounded : PlainTrace (start 0) _ founded :=
    .snoc (.seed .ok 1 "root" "root@example.com" "pw") (.nil _) trivial
  have hroot : PlainTrace (start 0) _ rootIn :=
    plainTrace_login hfounded (by decide +kernel) "first" "root" "pw"
  have hauthored : PlainTrace (start 0) _ staffAuthored :=
    plainTrace_route hroot rootIn_issued (.createRole ⟨"staff", ["user:create"]⟩)
  have hcreated : PlainTrace (start 0) _ annCreated :=
    plainTrace_route hauthored (by decide +kernel)
      (.createUser 2 ⟨"ann", "ann@example.com", "pw"⟩)
  have hhired : PlainTrace (start 0) _ annHired :=
    plainTrace_route hcreated (by decide +kernel) (.assignRole 2 1)
  exact plainTrace_login hhired (by decide +kernel) "second" "ann" "pw"

/-! ### What becomes of an account -/

section Following

variable {Token Link : Type} {settings : AuthSettings Token} {serializer : TimedSerializer Link}
  {s s' : Backend Token} {log : List (Entry Token Link)} {u u' : User} {userId : Uuid}

/-- The accounts of a run are what the links make of them: nothing else that is
sent to the program verifies an account or changes a password. -/
theorem account_follows (hjwt : settings.jwt.Expires) (h : Reached settings serializer s)
    (hrun : Trace settings serializer s log s') (hu : s.db.users.get userId = some u) :
    ∃ u', s'.db.users.get userId = some u' ∧ Follows serializer log u u' := by
  induction hrun with
  | nil => exact ⟨u, hu, .nil⟩
  | snoc input htrace hallows ih =>
    obtain ⟨v, hv, hfollows⟩ := ih
    obtain ⟨u', hu', hstep⟩ := ((htrace.reached h).sound hjwt).follows hjwt hallows hv
    exact ⟨u', hu', hfollows.append hstep⟩

end Following

theorem cara_follows : ∃ u', caraRenewed.db.users.get 1 = some u' ∧
    Follows plainSerializer caraLog caraBefore u' :=
  account_follows plainJwt_expires caraRegistered_reached caraRenewed_trace (by decide +kernel)

/-! ### Who gets the links -/

section Mails

variable {Token Link : Type} {settings : AuthSettings Token} {serializer : TimedSerializer Link}
  {s s' : Backend Token} {input : Input Token Link} {log : List (Entry Token Link)}
  {u u' : User} {userId : Uuid}

/-- A link that loads for a purpose was mailed for it, lately. -/
theorem KnowsLink.live (purpose : Purpose) {token : Link} {data : LinkData}
    (hknows : s.KnowsLink serializer token)
    (hloads : serializer.loads purpose.salt (s.now / second) purpose.maxAge token = some data) :
    ∃ mail ∈ s.mails, token = mail.link serializer ∧
      mail.Live purpose (s.now / second) data.email := by
  rcases hknows with ⟨mail, hmail, rfl⟩ | hforged
  · exact ⟨mail, hmail, rfl, (loads_link_eq_some_iff purpose).mp hloads⟩
  · rw [hforged] at hloads
    cases hloads

theorem addressOf_eq_some {userEmail : Option String} {email : String}
    (h : addressOf userEmail = some email) : userEmail = some email :=
  (Option.filter_eq_some_iff.mp h).1

theorem Verifies.mailed {email : String} (hallows : s.Allows settings serializer input)
    (h : Verifies serializer email (s, input)) :
    ∃ mail ∈ s.mails, mail.Live .verifyMail (s.now / second) (some email) := by
  cases input with
  | verifyMail token =>
    obtain ⟨data, hdata, haddress⟩ := h
    obtain ⟨mail, hmail, _, hlive⟩ := KnowsLink.live .verifyMail hallows
      (decodeUrlSafeToken_eq_ok_iff.mp hdata)
    rw [addressOf_eq_some haddress] at hlive
    exact ⟨mail, hmail, hlive⟩
  | _ => exact h.elim

theorem resetTo.mailed {email hashedPassword : String}
    (hallows : s.Allows settings serializer input)
    (h : resetTo serializer email (s, input) = some hashedPassword) :
    ∃ mail ∈ s.mails, mail.Live .resetPassword (s.now / second) (some email) := by
  cases input with
  | verifyPassword getPasswordHash token userData =>
    obtain ⟨data, hdata, haddress, _⟩ := resetTo_eq_some_iff.mp h
    obtain ⟨mail, hmail, _, hlive⟩ := KnowsLink.live .resetPassword hallows
      (decodePasswordResetToken_eq_ok_iff.mp hdata)
    rw [addressOf_eq_some haddress] at hlive
    exact ⟨mail, hmail, hlive⟩
  | _ => cases h

/-- A mail that an input sends is for an account that is there. -/
theorem step_mails {mail : Mail} (hmail : mail ∈ (s.step settings serializer input).mails) :
    mail ∈ s.mails ∨ (mail.issuedAt = (s.step settings serializer input).now / second ∧
      ∃ u, (s.step settings serializer input).db.users.get u.id = some u ∧
        u.email = mail.recipient) := by
  have hsent {purpose : Purpose} {now : ℤ} {sent : Bool} {email : String}
      (hnew : mail ∈ sendMail purpose now sent email) :
      mail.issuedAt = now ∧ email = mail.recipient := by
    unfold sendMail at hnew
    split at hnew
    · obtain rfl := List.mem_singleton.mp hnew
      exact ⟨rfl, rfl⟩
    · cases hnew
  cases input with
  | register getPasswordHash newId userData sentAt sent =>
    rcases List.mem_append.mp hmail with hnew | hold
    · rcases hr : (RegisterUser.register getPasswordHash newId userData s.db).1 with e | answer
      · simp only [hr, handedOut, List.not_mem_nil] at hnew
      · simp only [hr, handedOut] at hnew
        obtain ⟨hissued, hemail⟩ := hsent hnew
        obtain ⟨hrow, _, haddress, _⟩ := does_register_outside.2 answer hr
        refine Or.inr ⟨hissued, answer.2, ?_, haddress.trans hemail⟩
        rw [Table.key_of_get hrow]
        exact hrow
    · exact Or.inl hold
  | resetPassword email sentAt sent =>
    rcases List.mem_append.mp hmail with hnew | hold
    · rcases hr : (ResetPassword.resetPassword email s.db).1 with e | answer
      · simp only [hr, handedOut, List.not_mem_nil] at hnew
      · simp only [hr, handedOut] at hnew
        obtain ⟨hissued, hemail⟩ := hsent hnew
        have hknown : UserRepository.existsByEmail s.db.toTables email = true := by
          by_contra hunknown
          rw [ResetPassword.resetPassword, query, Action.read_bind_apply,
            Action.ensure_bind_apply_not hunknown] at hr
          cases hr
        obtain ⟨u, hu, haddress⟩ := List.any_eq_true.mp hknown
        exact Or.inr ⟨hissued, u, Table.get_of_mem hu, (of_decide_eq_true haddress).trans hemail⟩
    · exact Or.inl hold
  | _ => exact Or.inl hmail

theorem Reached.mailed (hjwt : settings.jwt.Expires) (h : Reached settings serializer s) :
    ∀ mail ∈ s.mails, mail.issuedAt ≤ s.now / second ∧
      ∃ u, s.db.users.get u.id = some u ∧ u.email = mail.recipient := by
  induction h with
  | start => exact fun _ hmail => absurd hmail List.not_mem_nil
  | step input h hallows ih =>
    intro mail hmail
    rcases step_mails hmail with hold | ⟨hissued, hthere⟩
    · obtain ⟨hissued, u, hu, haddress⟩ := ih mail hold
      refine ⟨hissued.trans (Int.ediv_le_ediv (by decide) (step_now hallows)), ?_⟩
      obtain ⟨u', hu', hfollows⟩ := (h.sound hjwt).follows hjwt hallows hu
      refine ⟨u', ?_, hfollows.email.trans haddress⟩
      rw [Table.key_of_get hu']
      exact hu'
    · exact ⟨hissued.le, hthere⟩

/-- Who has not read a mail to the address of an account, of the last day or of
the last half hour, neither verifies it nor changes its password. -/
theorem account_changes_by_mail (hjwt : settings.jwt.Expires) (h : Reached settings serializer s)
    (hrun : Trace settings serializer s log s') (hu : s.db.users.get userId = some u)
    (hu' : s'.db.users.get userId = some u') :
    (u'.isVerified ≠ u.isVerified → ∃ e ∈ log, ∃ mail ∈ e.1.mails,
      mail.Live .verifyMail (e.1.now / second) (some u.email)) ∧
    (u'.password ≠ u.password → ∃ e ∈ log, ∃ mail ∈ e.1.mails,
      mail.Live .resetPassword (e.1.now / second) (some u.email)) := by
  obtain ⟨v, hv, hfollows⟩ := account_follows hjwt h hrun hu
  obtain rfl := Option.some.inj (hv.symm.trans hu')
  refine ⟨fun hne => ?_, fun hne => ?_⟩
  · have hverified := hfollows.isVerified
    by_cases hexists : ∃ e ∈ log, Verifies serializer u.email e
    · obtain ⟨e, he, hverifies⟩ := hexists
      exact ⟨e, he, hverifies.mailed (hrun.entry h he).2⟩
    · rw [or_iff_left hexists] at hverified
      exact absurd (Bool.eq_iff_iff.mpr hverified) hne
  · rcases hlast : lastWrite (resetTo serializer u.email) log with _ | hashedPassword
    · rw [hfollows.password, hlast, Option.none_or] at hne
      exact absurd rfl hne
    · obtain ⟨e, he, hreset⟩ := exists_of_lastWrite hlast
      exact ⟨e, he, resetTo.mailed (hrun.entry h he).2 hreset⟩

end Mails

theorem cara_renewed_by_mail : ∃ e ∈ caraLog, ∃ mail ∈ e.1.mails,
    mail.Live .resetPassword (e.1.now / second) (some "cara@example.com") := by
  have hbefore : caraRegistered.db.users.get 1 = some caraBefore := by decide +kernel
  have hafter : caraRenewed.db.users.get 1 = some caraAfter := by decide +kernel
  exact (account_changes_by_mail plainJwt_expires caraRegistered_reached caraRenewed_trace hbefore
    hafter).2 (by decide)

section Login

variable {Token Link : Type} {settings : AuthSettings Token} {serializer : TimedSerializer Link}
  {s s' : Backend Token} {log : List (Entry Token Link)}

/-- An account that was registered logs in after its mail was followed, with the
password of the last reset link taken for it or the one it was registered with. -/
theorem registered_login (hjwt : settings.jwt.Expires) (h : Reached settings serializer s)
    {getPasswordHash : String → Except Err String} {newId : Uuid} {userData : UserRegister}
    {sentAt : ℤ} {sent : Bool} (hsent : s.now ≤ sentAt) {answer : String × User}
    (hregistered : (RegisterUser.register getPasswordHash newId userData s.db).1 = .ok answer)
    (hrun : Trace settings serializer (s.step settings serializer
      (.register getPasswordHash newId userData sentAt sent)) log s')
    {isAllowed : Bool} {window : ℕ} {mintedAt issuedAt expiresFrom : ℤ}
    {jti password : String} {response : TokenResponse Token × Cookie}
    (hlogin : (LoginUser.login settings isAllowed window mintedAt issuedAt expiresFrom jti
      userData.username password s'.db).1 = .ok response) :
    (∃ e ∈ log, ∃ mail ∈ e.1.mails,
      mail.Live .verifyMail (e.1.now / second) (some userData.email)) ∧
    ∃ hashedPassword, getPasswordHash userData.password = .ok hashedPassword ∧
      verifyPassword settings password
        (some ((lastWrite (resetTo serializer userData.email) log).getD hashedPassword)) =
          .ok true := by
  have hreached : Reached settings serializer (s.step settings serializer
      (.register getPasswordHash newId userData sentAt sent)) := .step _ h hsent
  obtain ⟨hrow, hname, hemail, hunverified, hashedPassword, hhash, hpassword⟩ :=
    does_register_outside.2 answer hregistered
  obtain ⟨user, huser, hfollows⟩ := account_follows hjwt hreached hrun hrow
  obtain ⟨owner, _, howner, _, hname', hverified, hcompared⟩ := does_login.2 response hlogin
  have hsame : owner.toUser = user := by
    refine List.inj_on_of_nodup_map s'.db.constraints.username (Table.mem_of_get howner)
      (Table.mem_of_get huser) ?_
    rw [hname', hfollows.username, hname]
  rw [hsame] at hverified hcompared
  refine ⟨?_, hashedPassword, hhash, ?_⟩
  · have hexists := hfollows.isVerified.mp hverified
    rw [hunverified, hemail] at hexists
    obtain ⟨e, he, hverifies⟩ := hexists.resolve_left Bool.false_ne_true
    exact ⟨e, he, hverifies.mailed (hrun.entry hreached he).2⟩
  · rw [hfollows.password, hemail, hpassword] at hcompared
    rw [← hcompared]
    rcases lastWrite (resetTo serializer userData.email) log with _ | found <;> rfl

end Login

theorem cara_logs_in : (∃ e ∈ caraLog, ∃ mail ∈ e.1.mails,
      mail.Live .verifyMail (e.1.now / second) (some "cara@example.com")) ∧
    ∃ hashedPassword, .ok "pw" = (.ok hashedPassword : Except Err String) ∧
      verifyPassword Sessions.plainSettings "new"
        (some ((lastWrite (resetTo plainSerializer "cara@example.com") caraLog).getD
          hashedPassword)) = .ok true := by
  obtain ⟨answer, hanswer⟩ : ∃ answer, (RegisterUser.register .ok 1 cara
      (start 0 : Backend TokenPayload).db).1 = .ok answer :=
    exists_of_isOk (by decide +kernel)
  obtain ⟨response, hresponse⟩ : ∃ response, (LoginUser.login Sessions.plainSettings true 60 0 0 0
      "jti" "cara" "new" caraRenewed.db).1 = .ok response :=
    exists_of_isOk (by decide +kernel)
  exact registered_login plainJwt_expires (.start 0) (le_refl 0) hanswer caraRenewed_trace hresponse

section Reset

variable {Token Link : Type} {settings : AuthSettings Token} {serializer : TimedSerializer Link}
  {s s' : Backend Token} {log : List (Entry Token Link)}

/-- A reset link works until it expires, however often it was taken, and
replaces one column of one row: the sessions of the account stay. After that, or
where the link was mailed to verify the address, it changes nothing. -/
theorem reset_link_outcome (hjwt : settings.jwt.Expires) (h : Reached settings serializer s)
    {mail : Mail} (hmail : mail ∈ s.mails) (hrun : Trace settings serializer s log s')
    (getPasswordHash : String → Except Err String) (userData : UserNewPassword) :
    (mail.purpose = .resetPassword → mail.recipient ≠ "" →
      s'.now / second ≤ mail.issuedAt + resetMaxAge →
      ∀ hashedPassword, userData.HashesTo getPasswordHash hashedPassword →
      ∃ (u : User) (after : Db), s'.db.users.get u.id = some u ∧ u.email = mail.recipient ∧
        resetPasswordUpdate serializer getPasswordHash (s'.now / second) (mail.link serializer)
          userData s'.db = (.ok (200, "Account Password Reset Successfully"), after, []) ∧
        after.toTables = { s'.db.toTables with
          users := s'.db.users.update (fun v => v.id = u.id)
            (fun v => { v with password := some hashedPassword })
            (User.id_setPassword hashedPassword) }) ∧
    (mail.purpose = .verifyMail ∨ mail.issuedAt + resetMaxAge < s'.now / second →
      resetPasswordUpdate serializer getPasswordHash (s'.now / second) (mail.link serializer)
        userData s'.db = (.error (.httpException 400 "Link expired or already used"), s'.db, [])) := by
  refine ⟨?_, ?_⟩
  · intro hpurpose hnonempty hfresh hashedPassword hhashes
    obtain ⟨hissued, u, hu, haddress⟩ := h.mailed hjwt mail hmail
    obtain ⟨u', hu', hfollows⟩ := account_follows hjwt h hrun hu
    have hemail : u'.email = mail.recipient := hfollows.email.trans haddress
    have hnow : mail.issuedAt ≤ s'.now / second :=
      hissued.trans (Int.ediv_le_ediv (by decide) hrun.now_le)
    have hlive : mail.Live .resetPassword (s'.now / second) (some mail.recipient) :=
      ⟨hpurpose, rfl, hnow, hfresh⟩
    have hdata : decodePasswordResetToken serializer (s'.now / second) (mail.link serializer) =
        .ok ⟨some mail.recipient⟩ :=
      decodePasswordResetToken_eq_ok_iff.mpr ((loads_link_eq_some_iff .resetPassword).mpr hlive)
    have hrow : s'.db.users.get u'.id = some u' := by
      rw [Table.key_of_get hu']
      exact hu'
    have hto : addressOf (some mail.recipient) = some u'.email := by
      rw [hemail, addressOf, Option.filter_some, if_pos (by simp [hnonempty])]
    obtain ⟨after, hafter, ht⟩ := resetPasswordUpdate_run hdata hto hhashes.1 hhashes.2 hrow
    exact ⟨u', after, hrow, hemail, hafter, ht⟩
  · intro hdead
    have hnone : serializer.loads resetSalt (s'.now / second) resetMaxAge (mail.link serializer) =
        none := by
      rcases hloads : serializer.loads resetSalt (s'.now / second) resetMaxAge
        (mail.link serializer) with _ | data
      · rfl
      · have hlive := (loads_link_eq_some_iff .resetPassword).mp hloads
        rcases hdead with hpurpose | hold
        · rw [hlive.kind] at hpurpose
          cases hpurpose
        · exact absurd hlive.fresh hold.not_ge
    unfold resetPasswordUpdate decodePasswordResetToken
    rw [hnone]
    rfl

end Reset

theorem cara_renews_again : ∃ (u : User) (after : Db), caraRenewed.db.users.get u.id = some u ∧
    u.email = "cara@example.com" ∧
    resetPasswordUpdate plainSerializer .ok (caraRenewed.now / second)
      (resetMail.link plainSerializer) renewed caraRenewed.db =
        (.ok (200, "Account Password Reset Successfully"), after, []) ∧
    after.toTables = { caraRenewed.db.toTables with
      users := caraRenewed.db.users.update (fun v => v.id = u.id)
        (fun v => { v with password := some "new" }) (User.id_setPassword "new") } := by
  have hreached : PlainReached caraMailed := caraMailed_trace.reached caraRegistered_reached
  have hrun : PlainTrace caraMailed
      [(caraMailed, .verifyPassword .ok (resetMail.link plainSerializer) renewed)] caraRenewed :=
    .snoc (.verifyPassword .ok (resetMail.link plainSerializer) renewed) (.nil caraMailed)
      (Or.inl ⟨resetMail, resetMail_mailed, rfl⟩)
  have hfresh : caraRenewed.now / second ≤ resetMail.issuedAt + resetMaxAge := by decide +kernel
  obtain ⟨u, after, hrow, hemail, hreset, ht⟩ :=
    (reset_link_outcome plainJwt_expires hreached resetMail_mailed hrun .ok renewed).1 rfl
      (by decide) hfresh "new" ⟨rfl, rfl⟩
  exact ⟨u, after, hrow, hemail, hreset, ht⟩

end Backend
end FastapiTemplate
