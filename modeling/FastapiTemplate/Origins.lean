import FastapiTemplate.AccountRuns

/-!
Where the accounts come from. The name, the address, the tenant, the creator and
the superuser flag of an account never change. An account is opened by a
registration, a Google sign-in, the seed command, a user who creates it in their
own tenant, or a superuser who founds a tenant, and what it is follows from
which of these it was.
-/
namespace FastapiTemplate

open Library.KeyedTable Library.Committing

/-- The columns of an account that never change. -/
structure Identity where
  id : Uuid
  username : String
  email : String
  tenantId : Option Uuid
  isSuperuser : Bool
  createdById : Option Uuid

def User.identity (u : User) : Identity :=
  ⟨u.id, u.username, u.email, u.tenantId, u.isSuperuser, u.createdById⟩

/-! ### One change -/

section Changes

variable {c : Change} {t : Tables} {u' : User} {db db' : Db}

theorem Change.identity_row (hu' : u' ∈ (c.apply t).users.rows) :
    (∃ u ∈ t.users.rows, u.identity = u'.identity) ∨
      ∃ data, c = .createUser data ∧ u' = data.row := by
  have hupdate {p : User → Bool} {f : User → User} (hf : ∀ u, (f u).id = u.id)
      (hmem : u' ∈ (t.users.update p f hf).rows)
      (hidentity : ∀ u, (f u).identity = u.identity) :
      ∃ u ∈ t.users.rows, u.identity = u'.identity := by
    obtain ⟨u, hu, _, rfl | ⟨_, rfl⟩⟩ := Table.mem_update hmem
    · exact ⟨u', hu, rfl⟩
    · exact ⟨u, hu, (hidentity u).symm⟩
  cases c with
  | createUser data =>
    rcases Table.mem_insertD hu' with hold | hnew
    · exact Or.inl ⟨u', hold, rfl⟩
    · exact Or.inr ⟨data, rfl, hnew⟩
  | syncRootTenantRole tenantId allowed =>
    simp only [apply] at hu'
    split at hu'
    · exact Or.inl ⟨u', hu', rfl⟩
    · exact Or.inl (hupdate (by intro _; rfl) hu' (fun _ => rfl))
  | assignToUser | removeFromUser | addPermission | removePermission =>
    exact Or.inl (hupdate (by intro _; rfl) hu' (fun _ => rfl))
  | setVerified | setPassword | grantPermission | revokePermission | setUserActive =>
    exact Or.inl (hupdate (by intro _; rfl) hu' (fun _ => rfl))
  | _ => exact Or.inl ⟨u', hu', rfl⟩

/-- A new account that the change opens is one of `Q`. -/
def Change.Opens (Q : Identity → Prop) : Change → Prop
  | createUser data => Q data.row.identity
  | _ => True

/-- One commit that opens no account but those of `Q`. -/
def Opening (Q : Identity → Prop) (db db' : Db) (_ : List Event) : Prop :=
  ∃ (c : Change) (es : List Event), c.Opens Q ∧ c.Commits db db' es

variable {Q : Identity → Prop} {es : List Event}

theorem Opening.of_changes {P : Change → Prop} (hP : ∀ data, ¬ P (.createUser data))
    (h : Path (ChangeStep P) db db' es) : Path (Opening Q) db db' es := by
  refine h.mono ?_
  rintro s s' _ ⟨c, es, hc, _, hcommit⟩
  refine ⟨c, es, ?_, hcommit⟩
  cases c with
  | createUser data => exact absurd hc (hP data)
  | _ => trivial

/-- After such commits an account was there before or is one of `Q`. -/
theorem identity_of_opening (h : Path (Opening Q) db db' es) (hu' : u' ∈ db'.users.rows) :
    (∃ u ∈ db.users.rows, u.identity = u'.identity) ∨ Q u'.identity := by
  have hall : ∀ u ∈ db'.users.rows,
      (∃ v ∈ db.users.rows, v.identity = u.identity) ∨ Q u.identity := by
    refine h.invariant (I := fun s : Db => ∀ u ∈ s.users.rows,
      (∃ v ∈ db.users.rows, v.identity = u.identity) ∨ Q u.identity) ?_
      (fun u hu => Or.inl ⟨u, hu, rfl⟩)
    rintro s s' _ ⟨c, es, hopens, hcommit⟩ hs u hu
    obtain ⟨tokens, ht⟩ := Change.commits_apply hcommit
    rw [ht] at hu
    rcases Change.identity_row hu with ⟨v, hv, hsame⟩ | ⟨data, rfl, rfl⟩
    · rw [← hsame]
      exact hs v hv
    · exact Or.inr hopens
  exact hall u' hu'

end Changes

/-! ### The actions that open accounts -/

section Actions

variable {Q : Identity → Prop} {db : Db} {getPasswordHash : String → Except Err String}

theorem does_opening {α : Type} {body : Tx α} (c : Change) (hbody : c.Commits = Commits body)
    (hopens : c.Opens Q) : Does (Opening Q) (transaction body) db
      (fun a db' => ∃ es, body db.toTables = .ok (a, db'.toTables, es)) := by
  refine does_transaction ?_
  intro a db' es hcommit
  refine ⟨⟨c, es, hopens, ?_⟩, es, hcommit⟩
  rw [hbody]
  exact ⟨a, hcommit⟩

theorem does_register_opening {newId : Uuid} {userData : UserRegister}
    (h : Q ⟨newId, userData.username, userData.email, none, false, none⟩) :
    Does (Opening Q) (RegisterUser.register getPasswordHash newId userData) db
      (fun _ _ => True) := by
  refine does_query (Does.ensure_bind ?_)
  intro _
  refine does_query (Does.ensure_bind ?_)
  intro _
  refine Does.ofExcept_bind ?_
  intro hashed _
  exact Does.bind (does_opening (.createUser _) rfl h) (fun _ _ _ => Does.pure trivial)

theorem does_seed_opening {newId : Uuid} {username email password : String}
    (h : Q ⟨newId, username, email, none, true, none⟩) :
    Does (Opening Q) (seed getPasswordHash newId username email password) db
      (fun _ _ => True) := by
  refine does_query (Does.ite (fun _ => Does.pure trivial) ?_)
  intro _
  refine Does.ofExcept_bind ?_
  intro hashed _
  exact Does.bind (does_opening (.createUser _) rfl h) (fun _ _ _ => Does.pure trivial)

theorem does_handleCallback_opening {Token : Type} {settings : AuthSettings Token}
    {newUserId : Uuid} {mintedAt expiresFrom issuedAt : ℤ} {jti : String} {email : Option String}
    (h : ∀ username address, email = some address →
      Q ⟨newUserId, username, address, none, false, none⟩) :
    Does (Opening Q) (GoogleOAuthService.handleCallback settings newUserId mintedAt expiresFrom
      issuedAt jti email) db (fun _ _ => True) := by
  refine Does.ensure_bind ?_
  intro hnonempty
  obtain ⟨address, rfl⟩ : ∃ address, email = some address := by
    cases email with
    | none => exact absurd rfl hnonempty
    | some address => exact ⟨address, rfl⟩
  refine does_query ?_
  refine Does.bind (Q := fun _ _ => True) ?_ ?_
  · unfold GoogleOAuthService.account
    split
    · exact Does.pure trivial
    · refine does_query ((does_opening (.createUser _) rfl ?_).weaken (fun _ _ _ => trivial))
      exact h _ address rfl
  intro user s _
  refine does_query (Does.require_bind ?_)
  intro loaded _
  refine Does.bind (Q := fun _ _ => True) (does_query (Does.ofExcept (fun _ _ => trivial))) ?_
  intro access s _
  exact Does.bind (does_opening (.token (.create _ _ _)) rfl trivial)
    (fun _ _ _ => Does.pure trivial)

theorem does_createUser_opening {newId : Uuid} {actor : LoadedUser} {data : UserCreate}
    (h : Q ⟨newId, data.username, data.email, actor.tenantId, false, some actor.id⟩) :
    Does (Opening Q) (UserManagementService.createUser getPasswordHash newId actor data) db
      (fun _ _ => True) := by
  refine does_query (Does.ensure_bind ?_)
  intro _
  refine does_query (Does.ensure_bind ?_)
  intro _
  refine Does.ofExcept_bind ?_
  intro password _
  exact Does.bind (does_opening (.createUser _) rfl h) (fun _ _ _ => Does.read trivial)

theorem does_createTenantWithAdmin_opening {newTenantId newUserId : Uuid} {actor : LoadedUser}
    {data : TenantCreate} (h : actor.isSuperuser = true → Q ⟨newUserId, data.adminUsername,
      data.adminEmail, some newTenantId, false, some actor.id⟩) :
    Does (Opening Q) (TenantService.createTenantWithAdmin getPasswordHash newTenantId newUserId
      actor data) db (fun _ _ => True) := by
  refine Does.ensure_bind ?_
  intro hsuper
  refine does_query (Does.ensure_bind ?_)
  intro _
  refine does_query (Does.ensure_bind ?_)
  intro _
  refine does_query (Does.ensure_bind ?_)
  intro _
  refine Does.ofExcept_bind ?_
  intro requested _
  refine Does.bind (does_opening (.createTenant newTenantId data.name _) rfl trivial) ?_
  rintro tenant s ⟨_, hcommit⟩
  obtain ⟨_, _, _, rfl, _⟩ := TenantRepository.createTx_eq_ok hcommit
  refine Does.bind (does_opening (.createRootTenantRole newTenantId _) rfl trivial) ?_
  intro adminRole s _
  refine Does.ofExcept_bind ?_
  intro password _
  refine Does.bind (does_opening (.createUser _) rfl (h hsuper)) ?_
  intro adminUser s _
  exact Does.bind (does_opening (.assignToUser _ _) rfl trivial) (fun _ _ _ => Does.pure trivial)

end Actions

/-! ### The inputs that open accounts -/

namespace Backend

section Runs

variable {Token Link : Type} {settings : AuthSettings Token} {serializer : TimedSerializer Link}
  {s s' : Backend Token} {input : Input Token Link} {log : List (Entry Token Link)} {u' : User}

variable (settings) in
/-- The input opens this account. -/
def Opens : Entry Token Link → Identity → Prop
  | (_, .register _ newId userData _ _), account =>
    account = ⟨newId, userData.username, userData.email, none, false, none⟩
  | (_, .googleCallback newUserId _ _ _ _ email), account => ∃ username address,
    email = some address ∧ account = ⟨newUserId, username, address, none, false, none⟩
  | (_, .seed _ newId username email _), account =>
    account = ⟨newId, username, email, none, true, none⟩
  | (s, .route _ token cache (.createUser newId data)), account => ∃ payload actor,
    (s.bearer token cache).authenticate settings.jwt = .ok payload ∧
      s.db.users.get payload.id = some actor ∧
      account = ⟨newId, data.username, data.email, actor.tenantId, false, some actor.id⟩
  | (s, .route _ token cache (.createTenantWithAdmin newTenantId newUserId data)), account =>
    ∃ payload actor, (s.bearer token cache).authenticate settings.jwt = .ok payload ∧
      s.db.users.get payload.id = some actor ∧ actor.isSuperuser = true ∧
      account = ⟨newUserId, data.adminUsername, data.adminEmail, some newTenantId, false,
        some actor.id⟩
  | _, _ => False

theorem Sound.route_opening (hs : s.Sound settings) (hjwt : settings.jwt.Expires)
    {getPasswordHash : String → Except Err String} {token : Token} {cache : AuthzCache}
    {call : Call} (hknows : s.KnowsToken settings token) :
    ∃ es, Path (Opening (Opens settings
      ((s, .route getPasswordHash token cache call) : Entry Token Link))) s.db
      (call.route settings.jwt getPasswordHash (s.bearer token cache) s.db).2.1 es := by
  rcases hs.route_cases hjwt hknows getPasswordHash cache call with
    ⟨e, _, hrun⟩ | ⟨payload, owner, user, hauth, hadmission, hrun⟩
  · rw [hrun]
    exact ⟨[], .nil _⟩
  rw [hrun]
  refine gated_db (I := fun db => ∃ es, Path _ s.db db es) ⟨[], .nil _⟩ ?_
  intro _
  obtain ⟨hrow, _, hid⟩ := UserRepository.getByIdWithGrants_eq_some hadmission.describes.loaded
  have hother (hcall : ∀ data, ¬ call.Performs (.createUser data)) :
      ∃ es, Path (Opening (Opens settings
        ((s, .route getPasswordHash token cache call) : Entry Token Link))) s.db
        (request getPasswordHash payload.id call s.db).2.1 es := by
    exact ⟨_, Opening.of_changes hcall (ChangeStep.of_performed (path_of_request hrow rfl))⟩
  cases call with
  | createUser newId data =>
    refine ⟨_, (does_request_of hrow (fun _ => does_discard (does_createUser_opening ?_))).1⟩
    exact ⟨payload, user.toUser, hauth, hrow, rfl⟩
  | createTenantWithAdmin newTenantId newUserId data =>
    refine ⟨_, (does_request_of hrow
      (fun _ => does_discard (does_createTenantWithAdmin_opening ?_))).1⟩
    exact fun hsuper => ⟨payload, user.toUser, hauth, hrow, hsuper, rfl⟩
  | _ => exact hother (fun _ => id)

theorem Sound.opening (hs : s.Sound settings) (hjwt : settings.jwt.Expires)
    (hallows : s.Allows settings serializer input) :
    ∃ es, Path (Opening (Opens settings (s, input))) s.db
      (s.step settings serializer input).db es := by
  have hother (hperforms : ∀ data, ¬ s.Performs serializer input (.createUser data)) :
      ∃ es, Path (Opening (Opens settings (s, input))) s.db
        (s.step settings serializer input).db es := by
    obtain ⟨es, hpath⟩ := hs.step_path hjwt hallows
    exact ⟨es, Opening.of_changes hperforms hpath⟩
  cases input with
  | route => exact hs.route_opening hjwt hallows
  | register =>
    refine ⟨_, (does_register_opening ?_).1⟩
    rfl
  | seed =>
    refine ⟨_, (does_seed_opening ?_).1⟩
    rfl
  | googleCallback =>
    exact ⟨_, (does_handleCallback_opening (fun username address hemail =>
      ⟨username, address, hemail, rfl⟩)).1⟩
  | verifyMail | verifyPassword =>
    refine hother ?_
    rintro data ⟨_, h⟩
    simp [Change.Verifies, Change.Resets] at h
  | _ => exact hother (fun _ => id)

/-- An account that is there after a run was there before, or an input of the
run has opened it. -/
theorem account_origin (hjwt : settings.jwt.Expires) (h : Reached settings serializer s)
    (hrun : Trace settings serializer s log s') (hu' : u' ∈ s'.db.users.rows) :
    (∃ u ∈ s.db.users.rows, u.identity = u'.identity) ∨
      ∃ e ∈ log, Opens settings e u'.identity := by
  induction hrun generalizing u' with
  | nil => exact Or.inl ⟨u', hu', rfl⟩
  | snoc input htrace hallows ih =>
    obtain ⟨es, hopening⟩ := ((htrace.reached h).sound hjwt).opening hjwt hallows
    rcases identity_of_opening hopening hu' with ⟨v, hv, hsame⟩ | hopens
    · rw [← hsame]
      rcases ih hv with hold | ⟨e, he, hopens⟩
      · exact Or.inl hold
      · exact Or.inr ⟨e, List.mem_append_left _ he, hopens⟩
    · exact Or.inr ⟨_, List.mem_append_right _ (List.mem_singleton_self _), hopens⟩

end Runs

theorem annIn_origin : (∃ u ∈ (start 0 : Backend TokenPayload).db.users.rows,
      u.identity = annRow.identity) ∨
    ∃ e ∈ annLog, Opens Sessions.plainSettings e annRow.identity :=
  account_origin plainJwt_expires (.start 0) annIn_trace (by decide +kernel)

end Backend
end FastapiTemplate
