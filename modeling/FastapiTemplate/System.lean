import FastapiTemplate.Operations

/-!
Sequential runs of the program. The database starts from the migrated schema
with the catalogue synchronised; then requests of any actor follow each other,
successful or not, and between them the code outside the three services
commits its own changes. An invariant that every change keeps holds in every
reachable state.
-/
namespace FastapiTemplate

open Library.Committing

/-- The database after the first startup. -/
def synced : Db := (SyncPermissions.syncWithSession permissionRegistry Db.empty).2.1

/-- What code outside the services commits: accounts without a tenant
(registration, OAuth sign-in, the seed command), verified addresses and new
passwords, refresh tokens, and the catalogue at startup. -/
def Change.Outside : Change → Prop
  | createUser data => data.tenantId = none
  | setVerified _ => True
  | setPassword _ _ => True
  | createWithBit _ _ => True
  | token _ => True
  | _ => False

inductive Reachable : Db → Prop
  | synced : Reachable synced
  | request {db : Db} (getPasswordHash : String → Except Err String) (actorId : Uuid)
      (call : Call) : Reachable db → Reachable (request getPasswordHash actorId call db).2.1
  | outside {db db' : Db} {es : List Event} (c : Change) : c.Outside → c.Current db.toTables →
      c.Commits db db' es → Reachable db → Reachable db'

theorem Change.commits_transaction {α : Type} {body : Tx α} (c : Change)
    (hbody : c.Commits = FastapiTemplate.Commits body) (db : Db) :
    (FastapiTemplate.transaction body db).2.1 = db ∨
      ∃ es, c.Commits db (FastapiTemplate.transaction body db).2.1 es := by
  unfold FastapiTemplate.transaction Action.transact
  rcases hcommit : commit body db with e | ⟨a, db', es⟩
  · exact Or.inl rfl
  · right
    rw [hbody]
    exact ⟨es, a, commit_eq_ok_iff.mp hcommit⟩

theorem Reachable.transaction {α : Type} {body : Tx α} {db : Db} (c : Change)
    (hbody : c.Commits = Commits body) (houtside : c.Outside) (hcur : c.Current db.toTables)
    (h : Reachable db) : Reachable (FastapiTemplate.transaction body db).2.1 := by
  rcases c.commits_transaction hbody db with hsame | ⟨es, hcommits⟩
  · rw [hsame]
    exact h
  · exact .outside c houtside hcur hcommits h

theorem ran_ok {ran : Except Err Unit × Db × List Event} (h : ran.1 = .ok ()) :
    ran = (.ok (), ran.2.1, ran.2.2) := by
  obtain ⟨r, db, es⟩ := ran
  cases h
  rfl

/-- An invariant of every change holds in every reachable state. -/
theorem Reachable.invariant {I : Db → Prop} (hsynced : I FastapiTemplate.synced)
    (hstep : ∀ (c : Change) (db db' : Db) (es : List Event), c.Current db.toTables →
      c.Commits db db' es → I db → I db') {db : Db} (h : Reachable db) : I db := by
  induction h with
  | synced => exact hsynced
  | @request db getPasswordHash actorId call _ ih =>
    rcases hrun : FastapiTemplate.request getPasswordHash actorId call db with ⟨r, db', es⟩
    rcases request_path hrun with ⟨_, _, rfl, _⟩ | ⟨user, _, hpath⟩
    · exact ih
    · refine hpath.invariant ?_ ih
      rintro s s' es ⟨c, _, hcur, _, hcommit⟩
      exact hstep c s s' es hcur hcommit
  | outside c _ hcur hcommit _ ih => exact hstep c _ _ _ hcur hcommit ih

/-! ### A short run

The seed command adds a superuser, who authors the global role `reader` and
gives it to a new user. -/

def root : UserRepository.NewUser where
  id := 1
  username := "root"
  email := "root@example.com"
  password := none
  isVerified := true
  isSuperuser := true

def seeded : Db := (UserRepository.create root synced).2.1

theorem seeded_reachable : Reachable seeded := by
  unfold seeded UserRepository.create
  exact .transaction (.createUser root) rfl rfl trivial .synced

def authored : Db := (request .ok 1 (.createRole ⟨"reader", ["role:read"]⟩) seeded).2.1

def joined : Db := (request .ok 1 (.createUser 2 ⟨"ann", "ann@example.com", "pw"⟩) authored).2.1

def staffed : Db := (request .ok 1 (.assignRole 2 1) joined).2.1

theorem staffed_reachable : Reachable staffed := by
  have hauthored : Reachable authored := .request _ _ _ seeded_reachable
  have hjoined : Reachable joined := .request _ _ _ hauthored
  exact .request _ _ _ hjoined

end FastapiTemplate
