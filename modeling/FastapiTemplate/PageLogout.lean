import FastapiTemplate.PageSession
import Mathlib.Data.Fintype.EquivFin

/-!
Logging out of a page session. `handleLogout` clears the store, and without a
refresh token nothing can fill it again but a login; only a refresh whose POST
is in flight at that moment still holds one. Its answer stores new tokens on the
page that has logged out.
-/
namespace FastapiTemplate.Frontend

/-- A login has succeeded. -/
def Event.isLogin : Event → Bool
  | .loggedIn _ _ _ => true
  | _ => false

/-- No tokens, and none on their way. -/
structure Client.LoggedOut (c : Client) : Prop where
  store : c.store = .clear
  idle : ∀ j refreshToken, ¬ c.Posting j refreshToken

theorem Client.LoggedOut.quiet {c c' : Client} (h : c.LoggedOut) (hquiet : c.Quiet c') :
    c'.LoggedOut := by
  cases hquiet with
  | same => exact h
  | refresh =>
    rcases c.refresh_cases with hsame | ⟨_, ⟨token, htoken, _⟩ | hstart⟩
    · rw [hsame]
      exact h
    · rw [h.store] at htoken
      cases htoken
    · rw [hstart]
      refine ⟨h.store, ?_⟩
      intro j token hposting
      rcases get_append hposting with ⟨_, hcall⟩ | hold
      · cases hcall
      · exact h.idle j token hold
  | refreshed j accessToken refreshToken hrefreshed =>
    obtain ⟨⟨old, hposting⟩, _⟩ := refreshed_eq_some hrefreshed
    exact absurd hposting (h.idle j old)
  | refreshFailed j hfailed =>
    obtain ⟨⟨old, hposting⟩, _⟩ := refreshFailed_eq_some hfailed
    exact absurd hposting (h.idle j old)
  | settle j hsettle =>
    obtain ⟨newToken, _, rfl⟩ := settle_eq_some hsettle
    refine ⟨h.store, ?_⟩
    intro k token hposting
    rcases get_set hposting with ⟨_, hcall⟩ | ⟨_, hold⟩
    · cases hcall
    · exact h.idle k token hold
  | clear => exact ⟨rfl, h.idle⟩

/-- The answer of a POST in flight stores its tokens, whatever the store holds. -/
theorem Client.Posting.refreshed {c : Client} {j : ℕ} {old refreshToken : String}
    (h : c.Posting j old) (hnew : refreshToken ∉ c.issued) (accessToken : String) :
    ∃ c', c.refreshed j accessToken refreshToken = some c' ∧
      c'.store = .setTokens accessToken refreshToken := by
  unfold Posting at h
  simp only [Client.refreshed, receive, h, if_neg hnew, Option.bind_eq_bind, Option.bind_some]
  exact ⟨_, rfl, rfl⟩

namespace Page

variable {mergeConfig : RequestConfig → RequestConfig} {page cleared : Page} {i : ℕ}

theorem step_cleared (h : page.step mergeConfig (.cleared i) = some cleared) :
    cleared.toClient = page.toClient.clear := by
  obtain ⟨_, _, hrest⟩ := Option.bind_eq_some_iff.mp h
  obtain ⟨request, _, hrest⟩ := Option.bind_eq_some_iff.mp hrest
  obtain ⟨_, _, hset⟩ := Option.bind_eq_some_iff.mp hrest
  obtain rfl := Option.some.inj hset
  rfl

/-- The server can always issue a token that is new. -/
theorem refreshed_after_clear (mergeConfig : RequestConfig → RequestConfig) {j : ℕ} {old : String}
    (hclient : cleared.toClient = page.toClient.clear) (hposting : page.toClient.Posting j old) :
    ∃ accessToken refreshToken page',
      cleared.step mergeConfig (.refreshed j accessToken refreshToken) = some page' ∧
        page'.store = .setTokens accessToken refreshToken := by
  obtain ⟨refreshToken, hnew⟩ := Infinite.exists_notMem_finset page.issued.toFinset
  rw [List.mem_toFinset] at hnew
  have hcleared : cleared.toClient.Posting j old := by
    rw [hclient]
    exact hposting
  have hissued : refreshToken ∉ cleared.issued := by
    rw [hclient]
    exact hnew
  obtain ⟨c, hrefreshed, hstore⟩ := hcleared.refreshed hissued "access"
  refine ⟨"access", refreshToken, cleared.withClient c, ?_, hstore⟩
  simp only [step, hrefreshed, Option.bind_eq_bind, Option.bind_some]
  rfl

/-- After `clear()` in `handleLogout` the store stays empty until the next login,
whatever happens in between, just when no refresh was in flight. -/
theorem logout_lasts_iff (hclear : page.step mergeConfig (.cleared i) = some cleared) :
    (∀ events page', (∀ e ∈ events, e.isLogin = false) →
      cleared.run mergeConfig events = some page' → page'.store = .clear) ↔
      ∀ j refreshToken, ¬ page.toClient.Posting j refreshToken := by
  have hclient := step_cleared hclear
  constructor
  · intro hlasts j refreshToken hposting
    obtain ⟨accessToken, newToken, page', hstep, hstore⟩ :=
      refreshed_after_clear mergeConfig hclient hposting
    have hempty := hlasts [.refreshed j accessToken newToken] page' (by simp [Event.isLogin])
      (by simp [run, hstep])
    rw [hstore] at hempty
    cases hempty
  · intro hidle events page' hquiet hrun
    have hout : page'.toClient.LoggedOut := by
      refine run_invariant (I := fun p => p.toClient.LoggedOut) ?_ hrun ?_
      · intro p p' e he hstep h
        rcases (step_cases hstep).2 with hstep | ⟨_, _, _, rfl, _⟩
        · exact h.quiet hstep
        · cases hquiet _ he
      · rw [hclient]
        exact ⟨rfl, hidle⟩
    exact hout.store

def calmLogout : List Event :=
  [.request (some "/auth/login"), .loggedIn 0 "access-1" "refresh-1", .handleLogout, .answered 1]

theorem logout_lasts_iff_calmLogout : ∃ page cleared,
    run (fun config => config) initial calmLogout = some page ∧
      page.step (fun config => config) (.cleared 1) = some cleared ∧
      ((∀ events page', (∀ e ∈ events, e.isLogin = false) →
        cleared.run (fun config => config) events = some page' → page'.store = .clear) ↔
        ∀ j refreshToken, ¬ page.toClient.Posting j refreshToken) := by
  have hclears : ((run (fun config => config) initial calmLogout).bind
      (fun page => page.step (fun config => config) (.cleared 1))).isSome = true := by
    decide +kernel
  obtain ⟨cleared, hcleared⟩ := Option.isSome_iff_exists.mp hclears
  obtain ⟨page, hrun, hclear⟩ := Option.bind_eq_some_iff.mp hcleared
  exact ⟨page, cleared, hrun, hclear, logout_lasts_iff hclear⟩

/-! A request is refused while its user logs out: the answer of its refresh comes
after the logout. -/

def refusedWhileLoggingOut : List Event :=
  [.request (some "/auth/login"), .loggedIn 0 "access-1" "refresh-1", .request (some "/users/"),
    .handleLogout, .unauthorized 1, .answered 2, .cleared 2]

def loggedOut : Option Page := run (fun config => config) initial refusedWhileLoggingOut

/-- The page holds tokens again, and the request goes out with them. -/
theorem logout_undone :
    loggedOut.map (fun page => page.store) = some .clear ∧
      (loggedOut.bind (fun page => page.run (fun config => config)
        [.refreshed 0 "access-2" "refresh-2", .settled 0, .resumed 1])).map
          (fun page => page.store) = some (.setTokens "access-2" "refresh-2") := by
  decide +kernel

end Page
end FastapiTemplate.Frontend
