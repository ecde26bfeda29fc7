import Mathlib.Data.List.Basic
import Mathlib.Data.List.Infix
import Mathlib.Data.List.Nodup

/-!
One page session of the admin client: `lib/api.ts`, `lib/auth-store.ts` and
their callers `handleSubmit` and `handleLogout`. A block of code between two
awaits runs without interruption, so a run is a sequence of such blocks in any
order that the awaits allow: requests are sent and answered, a 401 starts or
joins a refresh, the refresh returns, its `finally` runs, and then the requests
that wait for it go on. The state keeps, besides the variables of the program,
the refresh tokens that were posted and those that the server has issued.
-/
namespace FastapiTemplate.Frontend

/-- The tokens in memory, `null` at first. -/
structure AuthState where
  accessToken : Option String
  refreshToken : Option String
  deriving DecidableEq

def AuthState.setTokens (accessToken refreshToken : String) : AuthState :=
  ⟨some accessToken, some refreshToken⟩

def AuthState.clear : AuthState := ⟨none, none⟩

/-- An empty string is falsy, as `null` is. -/
def truthy (value : Option String) : Option String := value.filter (fun text => text ≠ "")

/-- The configuration of a request; `retry` is `_retry`, false when absent. -/
structure RequestConfig where
  url : Option String
  authorization : Option String
  retry : Bool
  deriving DecidableEq

/-- The request interceptor. -/
def attachToken (store : AuthState) (config : RequestConfig) : RequestConfig :=
  match truthy store.accessToken with
  | some token => { config with authorization := some ("Bearer " ++ token) }
  | none => config

/-- `text.includes(part)`. -/
def includes (text part : String) : Bool := decide (part.toList <:+: text.toList)

def isAuthEndpoint (url : Option String) : Bool :=
  match url with
  | some url => includes url "/auth/login" || includes url "/auth/refresh"
  | none => false

/-! ### The refresh -/

/-- A call of `refreshAccessToken`: its POST is in flight, or it has returned
and the callback of `finally` is still to run or has run. -/
inductive RefreshCall
  | posting (refreshToken : String)
  | returned (newToken : Option String)
  | finished (newToken : Option String)
  deriving DecidableEq

/-- The store, the module variable `refreshPromise` as the index of its call,
the calls so far, and the two histories. -/
structure Client where
  store : AuthState
  refreshPromise : Option ℕ
  refreshes : List RefreshCall
  posts : List String
  issued : List String
  deriving DecidableEq

/-- The call up to its first await, with what it posts. -/
def refreshAccessToken (store : AuthState) : RefreshCall × List String :=
  match truthy store.refreshToken with
  | some refreshToken => (.posting refreshToken, [refreshToken])
  | none => (.returned none, [])

namespace Client

def initial : Client := ⟨.clear, none, [], [], []⟩

/-- Start a refresh unless one is there, and return the call to wait for. -/
def refresh (c : Client) : Client × ℕ :=
  match c.refreshPromise with
  | some j => (c, j)
  | none =>
    let (call, post) := refreshAccessToken c.store
    ({ c with
      refreshPromise := some c.refreshes.length
      refreshes := c.refreshes ++ [call]
      posts := c.posts ++ post }, c.refreshes.length)

/-- The tokens of a login or a refresh, with a refresh token that is new. -/
def receive (c : Client) (accessToken refreshToken : String) : Option Client :=
  if refreshToken ∈ c.issued then none
  else some { c with
    store := .setTokens accessToken refreshToken
    issued := c.issued ++ [refreshToken] }

/-- The POST of call `j` succeeds. -/
def refreshed (c : Client) (j : ℕ) (accessToken refreshToken : String) : Option Client := do
  let .posting _ ← c.refreshes[j]? | none
  let c ← c.receive accessToken refreshToken
  return { c with refreshes := c.refreshes.set j (.returned (some accessToken)) }

/-- The POST of call `j` fails. -/
def refreshFailed (c : Client) (j : ℕ) : Option Client := do
  let .posting _ ← c.refreshes[j]? | none
  return { c with store := .clear, refreshes := c.refreshes.set j (.returned none) }

/-- The callback of `finally` for call `j`. -/
def settle (c : Client) (j : ℕ) : Option Client := do
  let .returned newToken ← c.refreshes[j]? | none
  return { c with refreshPromise := none, refreshes := c.refreshes.set j (.finished newToken) }

def clear (c : Client) : Client := { c with store := .clear }

end Client

/-! ### The page -/

/-- Sent and not answered, waiting for a refresh call, or over. -/
inductive Phase
  | sent
  | waiting (refresh : ℕ)
  | ended
  deriving DecidableEq

/-- A request of a caller, across its retries. -/
structure Request where
  config : RequestConfig
  phase : Phase
  resends : ℕ
  deriving DecidableEq

/-- `logouts` are the calls of `handleLogout` that await their request. -/
structure Page extends Client where
  requests : List Request
  logouts : List ℕ
  deriving DecidableEq

inductive Event
  | request (url : Option String)
  /-- Any answer but a 401, or none. -/
  | answered (i : ℕ)
  | unauthorized (i : ℕ)
  | resumed (i : ℕ)
  | refreshed (j : ℕ) (accessToken refreshToken : String)
  | refreshFailed (j : ℕ)
  | settled (j : ℕ)
  | loggedIn (i : ℕ) (accessToken refreshToken : String)
  | handleLogout
  | cleared (i : ℕ)
  deriving DecidableEq

namespace Page

def initial : Page := { Client.initial with requests := [], logouts := [] }

def withClient (page : Page) (c : Client) : Page := { page with toClient := c }

def setRequest (page : Page) (i : ℕ) (request : Request) : Page :=
  { page with requests := page.requests.set i request }

/-- A new request of a caller. -/
def send (page : Page) (url : Option String) : Page :=
  { page with
    requests := page.requests ++ [⟨attachToken page.store ⟨url, none, false⟩, .sent, 0⟩] }

/-- The request of index `i`, when its answer is due. -/
def awaiting (page : Page) (i : ℕ) : Option Request :=
  page.requests[i]?.filter (fun request => request.phase = .sent)

/-- The response interceptor on a 401, up to its await. -/
def unauthorized (page : Page) (i : ℕ) (request : Request) : Page :=
  if request.config.retry = false ∧ isAuthEndpoint request.config.url = false then
    let (c, j) := page.toClient.refresh
    (page.withClient c).setRequest i
      { request with config := { request.config with retry := true }, phase := .waiting j }
  else page.setRequest i { request with phase := .ended }

section Step

-- what axios makes of the configuration of a request that is sent again
variable (mergeConfig : RequestConfig → RequestConfig)

/-- The response interceptor after its await. -/
def resume (page : Page) (i : ℕ) (request : Request) (newToken : Option String) : Page :=
  match truthy newToken with
  | some token =>
    let original := { request.config with authorization := some ("Bearer " ++ token) }
    page.setRequest i
      ⟨attachToken page.store (mergeConfig original), .sent, request.resends + 1⟩
  | none => page.setRequest i { request with phase := .ended }

/-- The next block of the page; `none` when it cannot run. -/
def step (page : Page) : Event → Option Page
  | .request url => some (page.send url)
  | .answered i => do
    let request ← page.awaiting i
    return page.setRequest i { request with phase := .ended }
  | .unauthorized i => do
    let request ← page.awaiting i
    return page.unauthorized i request
  | .resumed i => do
    let request ← page.requests[i]?
    let .waiting j := request.phase | none
    let .finished newToken ← page.refreshes[j]? | none
    return page.resume mergeConfig i request newToken
  | .refreshed j accessToken refreshToken => do
    let c ← page.toClient.refreshed j accessToken refreshToken
    return page.withClient c
  | .refreshFailed j => do
    let c ← page.toClient.refreshFailed j
    return page.withClient c
  | .settled j => do
    let c ← page.toClient.settle j
    return page.withClient c
  | .loggedIn i accessToken refreshToken => do
    let request ← page.awaiting i
    guard (request.config.url = some "/auth/login")
    let c ← page.toClient.receive accessToken refreshToken
    return (page.withClient c).setRequest i { request with phase := .ended }
  | .handleLogout =>
    some { page.send (some "/auth/logout") with logouts := page.logouts ++ [page.requests.length] }
  | .cleared i => do
    guard (i ∈ page.logouts)
    let request ← page.requests[i]?
    guard (request.phase = .ended)
    return { page.withClient page.toClient.clear with logouts := page.logouts.erase i }

def run (page : Page) (events : List Event) : Option Page :=
  events.foldlM (fun page event => page.step mergeConfig event) page

end Step

end Page

/-! ### What an event does -/

/-- What any event but a login may do to the client. -/
inductive Client.Quiet : Client → Client → Prop
  | same (c : Client) : Quiet c c
  | refresh (c : Client) : Quiet c c.refresh.1
  | refreshed {c c' : Client} (j : ℕ) (accessToken refreshToken : String) :
      c.refreshed j accessToken refreshToken = some c' → Quiet c c'
  | refreshFailed {c c' : Client} (j : ℕ) : c.refreshFailed j = some c' → Quiet c c'
  | settle {c c' : Client} (j : ℕ) : c.settle j = some c' → Quiet c c'
  | clear (c : Client) : Quiet c c.clear

/-- What an event may do to one request. -/
inductive Request.Moves (mergeConfig : RequestConfig → RequestConfig) : Request → Request → Prop
  | ended (request : Request) : Moves mergeConfig request { request with phase := .ended }
  | wait (request : Request) (j : ℕ) : request.phase = .sent → request.config.retry = false →
      Moves mergeConfig request
        { request with config := { request.config with retry := true }, phase := .waiting j }
  | resend (request : Request) (j : ℕ) (store : AuthState) (authorization : Option String) :
      request.phase = .waiting j → Moves mergeConfig request
        ⟨attachToken store (mergeConfig { request.config with authorization := authorization }),
          .sent, request.resends + 1⟩

/-- What an event may do to the list of requests. -/
inductive RequestsStep (mergeConfig : RequestConfig → RequestConfig) :
    List Request → List Request → Prop
  | same (requests : List Request) : RequestsStep mergeConfig requests requests
  | send (requests : List Request) (config : RequestConfig) :
      RequestsStep mergeConfig requests (requests ++ [⟨config, .sent, 0⟩])
  | move (requests : List Request) (i : ℕ) (request request' : Request) :
      requests[i]? = some request → request.Moves mergeConfig request' →
      RequestsStep mergeConfig requests (requests.set i request')

section Inversion

variable {mergeConfig : RequestConfig → RequestConfig} {page page' : Page} {e : Event}

theorem Page.awaiting_eq_some {i : ℕ} {request : Request} (h : page.awaiting i = some request) :
    page.requests[i]? = some request ∧ request.phase = .sent := by
  obtain ⟨hget, hsent⟩ := Option.filter_eq_some_iff.mp h
  exact ⟨hget, of_decide_eq_true hsent⟩

theorem Page.unauthorized_cases (i : ℕ) (request : Request) :
    (request.config.retry = false ∧
      page.unauthorized i request = (page.withClient page.toClient.refresh.1).setRequest i
        { request with
          config := { request.config with retry := true }
          phase := .waiting page.toClient.refresh.2 }) ∨
      page.unauthorized i request = page.setRequest i { request with phase := .ended } := by
  unfold unauthorized
  by_cases h : request.config.retry = false ∧ isAuthEndpoint request.config.url = false
  · rw [if_pos h]
    exact Or.inl ⟨h.1, rfl⟩
  · rw [if_neg h]
    exact Or.inr rfl

theorem Page.resume_cases (i : ℕ) (request : Request) (newToken : Option String) :
    (∃ authorization, page.resume mergeConfig i request newToken = page.setRequest i
      ⟨attachToken page.store (mergeConfig { request.config with authorization := authorization }),
        .sent, request.resends + 1⟩) ∨
      page.resume mergeConfig i request newToken =
        page.setRequest i { request with phase := .ended } := by
  unfold resume
  split
  · exact Or.inl ⟨_, rfl⟩
  · exact Or.inr rfl

/-- Every event changes the client and the requests in one of the ways above;
only a login brings tokens that no refresh has asked for. -/
theorem Page.step_cases (h : page.step mergeConfig e = some page') :
    RequestsStep mergeConfig page.requests page'.requests ∧
      (page.toClient.Quiet page'.toClient ∨
        ∃ i accessToken refreshToken, e = .loggedIn i accessToken refreshToken ∧
          page.toClient.receive accessToken refreshToken = some page'.toClient) := by
  cases e with
  | request url =>
    obtain rfl := Option.some.inj h
    exact ⟨.send _ _, Or.inl (.same _)⟩
  | answered i =>
    obtain ⟨request, hrequest, hset⟩ := Option.bind_eq_some_iff.mp h
    obtain rfl := Option.some.inj hset
    exact ⟨.move _ i request _ (awaiting_eq_some hrequest).1 (.ended _), Or.inl (.same _)⟩
  | unauthorized i =>
    obtain ⟨request, hrequest, hset⟩ := Option.bind_eq_some_iff.mp h
    obtain rfl := Option.some.inj hset
    obtain ⟨hget, hsent⟩ := awaiting_eq_some hrequest
    rcases @unauthorized_cases page i request with ⟨hretry, heq⟩ | heq
    · rw [heq]
      exact ⟨.move _ i request _ hget (.wait _ _ hsent hretry), Or.inl (.refresh _)⟩
    · rw [heq]
      exact ⟨.move _ i request _ hget (.ended _), Or.inl (.same _)⟩
  | resumed i =>
    obtain ⟨request, hget, hrest⟩ := Option.bind_eq_some_iff.mp h
    split at hrest
    · rename_i j hwaiting
      obtain ⟨call, _, hset⟩ := Option.bind_eq_some_iff.mp hrest
      split at hset
      · rename_i newToken _
        obtain rfl := Option.some.inj hset
        rcases @resume_cases mergeConfig page i request newToken with ⟨authorization, heq⟩ | heq
        · rw [heq]
          exact ⟨.move _ i request _ hget (.resend _ j _ _ hwaiting), Or.inl (.same _)⟩
        · rw [heq]
          exact ⟨.move _ i request _ hget (.ended _), Or.inl (.same _)⟩
      · cases hset
    · cases hrest
  | refreshed j accessToken refreshToken =>
    obtain ⟨c, hc, hset⟩ := Option.bind_eq_some_iff.mp h
    obtain rfl := Option.some.inj hset
    exact ⟨.same _, Or.inl (.refreshed j accessToken refreshToken hc)⟩
  | refreshFailed j =>
    obtain ⟨c, hc, hset⟩ := Option.bind_eq_some_iff.mp h
    obtain rfl := Option.some.inj hset
    exact ⟨.same _, Or.inl (.refreshFailed j hc)⟩
  | settled j =>
    obtain ⟨c, hc, hset⟩ := Option.bind_eq_some_iff.mp h
    obtain rfl := Option.some.inj hset
    exact ⟨.same _, Or.inl (.settle j hc)⟩
  | loggedIn i accessToken refreshToken =>
    obtain ⟨request, hrequest, hrest⟩ := Option.bind_eq_some_iff.mp h
    obtain ⟨_, _, hrest⟩ := Option.bind_eq_some_iff.mp hrest
    obtain ⟨c, hc, hset⟩ := Option.bind_eq_some_iff.mp hrest
    obtain rfl := Option.some.inj hset
    exact ⟨.move _ i request _ (awaiting_eq_some hrequest).1 (.ended _),
      Or.inr ⟨i, accessToken, refreshToken, rfl, hc⟩⟩
  | handleLogout =>
    obtain rfl := Option.some.inj h
    exact ⟨.send _ _, Or.inl (.same _)⟩
  | cleared i =>
    obtain ⟨_, _, hrest⟩ := Option.bind_eq_some_iff.mp h
    obtain ⟨request, _, hrest⟩ := Option.bind_eq_some_iff.mp hrest
    obtain ⟨_, _, hset⟩ := Option.bind_eq_some_iff.mp hrest
    obtain rfl := Option.some.inj hset
    exact ⟨.same _, Or.inl (.clear _)⟩

/-- An invariant of every event holds after a run. -/
theorem Page.run_invariant {I : Page → Prop} {events : List Event}
    (hstep : ∀ page page' e, e ∈ events → page.step mergeConfig e = some page' → I page → I page')
    (hrun : page.run mergeConfig events = some page') (hpage : I page) : I page' := by
  induction events generalizing page with
  | nil =>
    obtain rfl := Option.some.inj hrun
    exact hpage
  | cons e events ih =>
    obtain ⟨next, hnext, hrest⟩ := Option.bind_eq_some_iff.mp hrun
    exact ih (fun p p' e' he' => hstep p p' e' (by simp [he'])) hrest
      (hstep page next e (by simp) hnext hpage)

end Inversion

/-! ### One refresh at a time -/

namespace Client

/-- The POST of call `j` is in flight, with this token. -/
def Posting (c : Client) (j : ℕ) (refreshToken : String) : Prop :=
  c.refreshes[j]? = some (.posting refreshToken)

/-- The callback of `finally` has yet to run for call `j`. -/
def Running (c : Client) (j : ℕ) : Prop :=
  (∃ refreshToken, c.Posting j refreshToken) ∨
    ∃ newToken, c.refreshes[j]? = some (.returned newToken)

/-- The promise is that of the one call that is running. A stored token that was
posted is the one in flight, so the next refresh cannot post it again. -/
structure SingleFlight (c : Client) : Prop where
  running : ∀ j, c.Running j → c.refreshPromise = some j
  nodup : c.posts.Nodup
  posted : ∀ refreshToken ∈ c.posts, refreshToken ∈ c.issued
  stored : ∀ refreshToken, c.store.refreshToken = some refreshToken → refreshToken ∈ c.issued ∧
    (refreshToken ∈ c.posts → ∃ j, c.Posting j refreshToken)

variable {c c' : Client} {j : ℕ} {accessToken refreshToken : String}

theorem Posting.running (h : c.Posting j refreshToken) : c.Running j := Or.inl ⟨_, h⟩

theorem refreshed_eq_some (h : c.refreshed j accessToken refreshToken = some c') :
    (∃ old, c.Posting j old) ∧ refreshToken ∉ c.issued ∧
      c' = { c with
        store := .setTokens accessToken refreshToken
        refreshes := c.refreshes.set j (.returned (some accessToken))
        issued := c.issued ++ [refreshToken] } := by
  obtain ⟨call, hcall, hrest⟩ := Option.bind_eq_some_iff.mp h
  split at hrest
  · rename_i old
    obtain ⟨received, hreceive, hset⟩ := Option.bind_eq_some_iff.mp hrest
    unfold receive at hreceive
    split at hreceive
    · cases hreceive
    · rename_i hnew
      obtain rfl := Option.some.inj hreceive
      exact ⟨⟨old, hcall⟩, hnew, (Option.some.inj hset).symm⟩
  · cases hrest

theorem receive_eq_some (h : c.receive accessToken refreshToken = some c') :
    refreshToken ∉ c.issued ∧ c' = { c with
      store := .setTokens accessToken refreshToken
      issued := c.issued ++ [refreshToken] } := by
  unfold receive at h
  split at h
  · cases h
  · rename_i hnew
    exact ⟨hnew, (Option.some.inj h).symm⟩

theorem refreshFailed_eq_some (h : c.refreshFailed j = some c') : (∃ old, c.Posting j old) ∧
    c' = { c with store := .clear, refreshes := c.refreshes.set j (.returned none) } := by
  obtain ⟨call, hcall, hset⟩ := Option.bind_eq_some_iff.mp h
  split at hset
  · exact ⟨⟨_, hcall⟩, (Option.some.inj hset).symm⟩
  · cases hset

theorem settle_eq_some (h : c.settle j = some c') : ∃ newToken,
    c.refreshes[j]? = some (.returned newToken) ∧
      c' = { c with
        refreshPromise := none
        refreshes := c.refreshes.set j (.finished newToken) } := by
  obtain ⟨call, hcall, hset⟩ := Option.bind_eq_some_iff.mp h
  split at hset
  · exact ⟨_, hcall, (Option.some.inj hset).symm⟩
  · cases hset

theorem SingleFlight.unique (h : c.SingleFlight) {i : ℕ} (hi : c.Running i) (hj : c.Running j) :
    i = j := by
  have hpromise := h.running i hi
  rw [h.running j hj] at hpromise
  exact (Option.some.inj hpromise).symm

/-- A call of the changed list is the changed one or an old one. -/
theorem get_set {refreshes : List RefreshCall} {call x : RefreshCall} {k : ℕ}
    (h : (refreshes.set j call)[k]? = some x) :
    (k = j ∧ x = call) ∨ (k ≠ j ∧ refreshes[k]? = some x) := by
  rw [List.getElem?_set] at h
  by_cases hk : j = k
  · rw [if_pos hk] at h
    split at h
    · exact Or.inl ⟨hk.symm, (Option.some.inj h).symm⟩
    · cases h
  · rw [if_neg hk] at h
    exact Or.inr ⟨Ne.symm hk, h⟩

/-- A call of the extended list is the new one or an old one. -/
theorem get_append {refreshes : List RefreshCall} {call x : RefreshCall} {k : ℕ}
    (h : (refreshes ++ [call])[k]? = some x) :
    (k = refreshes.length ∧ x = call) ∨ refreshes[k]? = some x := by
  by_cases hk : k < refreshes.length
  · rw [List.getElem?_append_left hk] at h
    exact Or.inr h
  · have hlt : k < (refreshes ++ [call]).length := by
      by_contra hge
      rw [List.getElem?_eq_none (by omega)] at h
      cases h
    rw [List.length_append, List.length_singleton] at hlt
    have hlast : k = refreshes.length := by omega
    subst hlast
    rw [List.getElem?_concat_length] at h
    exact Or.inl ⟨rfl, (Option.some.inj h).symm⟩

/-- A call that returns was running before. -/
theorem Running.of_set {newToken : Option String} {k : ℕ} (hj : c.Running j)
    (hrefreshes : c'.refreshes = c.refreshes.set j (.returned newToken)) (hk : c'.Running k) :
    c.Running k := by
  rcases hk with ⟨token, hget⟩ | ⟨newToken', hget⟩
  · rw [Posting, hrefreshes] at hget
    rcases get_set hget with ⟨_, hcall⟩ | ⟨_, hold⟩
    · cases hcall
    · exact Posting.running hold
  · rw [hrefreshes] at hget
    rcases get_set hget with ⟨rfl, _⟩ | ⟨_, hold⟩
    · exact hj
    · exact Or.inr ⟨_, hold⟩

theorem truthy_eq_some {value : Option String} {text : String} (h : truthy value = some text) :
    value = some text :=
  (Option.filter_eq_some_iff.mp h).1

/-- A new call posts the stored token, or returns at once without one. -/
theorem refresh_cases (c : Client) : c.refresh.1 = c ∨ c.refreshPromise = none ∧
    ((∃ token, c.store.refreshToken = some token ∧ c.refresh.1 = { c with
        refreshPromise := some c.refreshes.length
        refreshes := c.refreshes ++ [.posting token]
        posts := c.posts ++ [token] }) ∨
      c.refresh.1 = { c with
        refreshPromise := some c.refreshes.length
        refreshes := c.refreshes ++ [.returned none] }) := by
  rcases hpromise : c.refreshPromise with _ | j
  · refine Or.inr ⟨rfl, ?_⟩
    rcases htruthy : truthy c.store.refreshToken with _ | token
    · right
      simp only [refresh, hpromise, refreshAccessToken, htruthy, List.append_nil]
    · left
      refine ⟨token, truthy_eq_some htruthy, ?_⟩
      simp only [refresh, hpromise, refreshAccessToken, htruthy]
  · left
    simp only [refresh, hpromise]

theorem SingleFlight.refresh (h : c.SingleFlight) : c.refresh.1.SingleFlight := by
  rcases refresh_cases c with hsame | ⟨hpromise, hstarted⟩
  · rw [hsame]
    exact h
  -- no call is running, so no token in the store has been posted
  have hidle : ∀ j, ¬ c.Running j := by
    intro j hj
    have hsome := h.running j hj
    rw [hpromise] at hsome
    cases hsome
  have hunposted : ∀ token, c.store.refreshToken = some token → token ∉ c.posts := by
    intro token htoken hposted
    obtain ⟨j, hj⟩ := (h.stored token htoken).2 hposted
    exact hidle j hj.running
  have hlast {c' : Client} {call : RefreshCall} (hrefreshes : c'.refreshes = c.refreshes ++ [call])
      {k : ℕ} (hk : c'.Running k) : k = c.refreshes.length := by
    rcases hk with ⟨token, hget⟩ | ⟨newToken, hget⟩
    · rw [Posting, hrefreshes] at hget
      rcases get_append hget with ⟨hlength, _⟩ | hold
      · exact hlength
      · exact absurd (Posting.running hold) (hidle k)
    · rw [hrefreshes] at hget
      rcases get_append hget with ⟨hlength, _⟩ | hold
      · exact hlength
      · exact absurd (Or.inr ⟨_, hold⟩) (hidle k)
  rcases hstarted with ⟨token, htoken, hstart⟩ | hstart
  · rw [hstart]
    refine ⟨fun k hk => congrArg some (hlast rfl hk).symm, ?_, ?_, ?_⟩
    · change (c.posts ++ [token]).Nodup
      rw [← List.concat_eq_append, List.nodup_concat]
      exact ⟨hunposted token htoken, h.nodup⟩
    · intro posted hposted
      rcases List.mem_append.mp hposted with hold | hnew
      · exact h.posted posted hold
      · rw [List.mem_singleton.mp hnew]
        exact (h.stored token htoken).1
    · intro token' htoken'
      obtain rfl : token = token' := Option.some.inj (htoken.symm.trans htoken')
      refine ⟨(h.stored token htoken).1, ?_⟩
      intro _
      exact ⟨c.refreshes.length, List.getElem?_concat_length⟩
  · rw [hstart]
    refine ⟨fun k hk => congrArg some (hlast rfl hk).symm, h.nodup, h.posted, ?_⟩
    intro token htoken
    refine ⟨(h.stored token htoken).1, ?_⟩
    intro hposted
    exact absurd hposted (hunposted token htoken)

theorem SingleFlight.receive (h : c.SingleFlight)
    (hreceive : c.receive accessToken refreshToken = some c') : c'.SingleFlight := by
  obtain ⟨hnew, rfl⟩ := receive_eq_some hreceive
  refine ⟨h.running, h.nodup, ?_, ?_⟩
  · intro token htoken
    exact List.mem_append_left _ (h.posted token htoken)
  · intro token htoken
    obtain rfl : refreshToken = token := Option.some.inj htoken
    refine ⟨List.mem_append_right _ (List.mem_singleton_self _), ?_⟩
    intro hposted
    exact absurd (h.posted refreshToken hposted) hnew

theorem SingleFlight.refreshed (h : c.SingleFlight)
    (hrefreshed : c.refreshed j accessToken refreshToken = some c') : c'.SingleFlight := by
  obtain ⟨⟨old, hposting⟩, hnew, rfl⟩ := refreshed_eq_some hrefreshed
  have hreceived : Client.SingleFlight { c with
      store := .setTokens accessToken refreshToken
      issued := c.issued ++ [refreshToken] } :=
    h.receive (by rw [Client.receive, if_neg hnew])
  refine ⟨fun k hk => h.running k (hposting.running.of_set rfl hk), h.nodup, hreceived.posted, ?_⟩
  intro token htoken
  refine ⟨(hreceived.stored token htoken).1, ?_⟩
  intro hposted
  obtain rfl : refreshToken = token := Option.some.inj htoken
  exact absurd (h.posted refreshToken hposted) hnew

theorem SingleFlight.refreshFailed (h : c.SingleFlight) (hfailed : c.refreshFailed j = some c') :
    c'.SingleFlight := by
  obtain ⟨⟨old, hposting⟩, rfl⟩ := refreshFailed_eq_some hfailed
  exact ⟨fun k hk => h.running k (hposting.running.of_set rfl hk), h.nodup, h.posted, nofun⟩

/-- When the promise is dropped, its call was the only one. -/
theorem SingleFlight.settle (h : c.SingleFlight) (hsettle : c.settle j = some c') :
    c'.SingleFlight := by
  obtain ⟨newToken, hreturned, rfl⟩ := settle_eq_some hsettle
  have hj : c.Running j := Or.inr ⟨newToken, hreturned⟩
  refine ⟨?_, h.nodup, h.posted, ?_⟩
  · intro k hk
    rcases hk with ⟨token, hget⟩ | ⟨newToken', hget⟩
    · rcases get_set hget with ⟨_, hcall⟩ | ⟨hne, hold⟩
      · cases hcall
      · exact absurd (h.unique (Posting.running hold) hj) hne
    · rcases get_set hget with ⟨_, hcall⟩ | ⟨hne, hold⟩
      · cases hcall
      · exact absurd (h.unique (Or.inr ⟨_, hold⟩) hj) hne
  · intro token htoken
    obtain ⟨hissued, hposting⟩ := h.stored token htoken
    refine ⟨hissued, ?_⟩
    intro hposted
    obtain ⟨k, hk⟩ := hposting hposted
    rw [h.unique hk.running hj, Posting, hreturned] at hk
    cases hk

theorem SingleFlight.quiet (h : c.SingleFlight) (hquiet : c.Quiet c') : c'.SingleFlight := by
  cases hquiet with
  | same => exact h
  | refresh => exact h.refresh
  | refreshed j accessToken refreshToken hrefreshed => exact h.refreshed hrefreshed
  | refreshFailed j hfailed => exact h.refreshFailed hfailed
  | settle j hsettle => exact h.settle hsettle
  | clear => exact ⟨h.running, h.nodup, h.posted, nofun⟩

end Client

/-! ### One retry for each request -/

/-- A request that goes out again, or is about to, carries the mark. -/
def Request.Once (request : Request) : Prop :=
  match request.phase with
  | .sent => request.resends = 0 ∨ (request.resends = 1 ∧ request.config.retry = true)
  | .waiting _ => request.resends = 0 ∧ request.config.retry = true
  | .ended => request.resends ≤ 1

/-- axios copies the custom field of a configuration that it sends again. -/
def KeepsRetry (mergeConfig : RequestConfig → RequestConfig) : Prop :=
  ∀ config, config.retry = true → (mergeConfig config).retry = true

section Once

variable {mergeConfig : RequestConfig → RequestConfig} {request request' : Request}

theorem Request.Once.resends_le (h : request.Once) : request.resends ≤ 1 := by
  unfold Once at h
  split at h <;> omega

theorem attachToken_retry (store : AuthState) (config : RequestConfig) :
    (attachToken store config).retry = config.retry := by
  unfold attachToken
  split <;> rfl

theorem Request.Once.moves (hmerge : KeepsRetry mergeConfig) (h : request.Once)
    (hmoves : request.Moves mergeConfig request') : request'.Once := by
  cases hmoves with
  | ended => exact h.resends_le
  | wait j hsent hretry =>
    unfold Once at h
    rw [hsent] at h
    rcases h with hzero | ⟨_, hmarked⟩
    · exact ⟨hzero, rfl⟩
    · rw [hretry] at hmarked
      cases hmarked
  | resend j store authorization hwaiting =>
    unfold Once at h
    rw [hwaiting] at h
    refine Or.inr ⟨congrArg (· + 1) h.1, ?_⟩
    change (attachToken store _).retry = true
    rw [attachToken_retry]
    exact hmerge _ h.2

theorem RequestsStep.once {requests requests' : List Request} (hmerge : KeepsRetry mergeConfig)
    (h : ∀ request ∈ requests, request.Once) (hstep : RequestsStep mergeConfig requests requests') :
    ∀ request ∈ requests', request.Once := by
  cases hstep with
  | same => exact h
  | send config =>
    intro request hrequest
    rcases List.mem_append.mp hrequest with hold | hnew
    · exact h request hold
    · rw [List.mem_singleton.mp hnew]
      exact Or.inl rfl
  | move i request request' hget hmoves =>
    intro x hx
    rcases List.mem_or_eq_of_mem_set hx with hold | rfl
    · exact h x hold
    · exact (h request (List.mem_of_getElem? hget)).moves hmerge hmoves

end Once

/-! ### The session -/

namespace Page

variable {mergeConfig : RequestConfig → RequestConfig} {events : List Event} {page : Page}

theorem singleFlight_of_run (hrun : run mergeConfig initial events = some page) :
    page.toClient.SingleFlight := by
  refine run_invariant (I := fun p => p.toClient.SingleFlight) ?_ hrun
    ⟨nofun, List.nodup_nil, nofun, nofun⟩
  intro p p' e _ hstep h
  rcases (step_cases hstep).2 with hquiet | ⟨_, _, _, _, hreceive⟩
  · exact h.quiet hquiet
  · exact h.receive hreceive

/-- However the answers arrive: no refresh token is posted twice, one POST is in
flight at most, and no request is sent again more than once. -/
theorem refresh_once (hmerge : KeepsRetry mergeConfig)
    (hrun : run mergeConfig initial events = some page) :
    page.posts.Nodup ∧
      (∀ i j refreshToken refreshToken', page.toClient.Posting i refreshToken →
        page.toClient.Posting j refreshToken' → i = j) ∧
      ∀ request ∈ page.requests, request.resends ≤ 1 := by
  have hsingle := singleFlight_of_run hrun
  have honce : ∀ request ∈ page.requests, request.Once := by
    refine run_invariant (I := fun p => ∀ request ∈ p.requests, request.Once) ?_ hrun nofun
    intro p p' e _ hstep h
    exact (step_cases hstep).1.once hmerge h
  refine ⟨hsingle.nodup, ?_, fun request hrequest => (honce request hrequest).resends_le⟩
  intro i j refreshToken refreshToken' hi hj
  exact hsingle.unique hi.running hj.running

/-- Two requests share a refresh; the second 401 of one of them is final. -/
def sharedRefresh : List Event :=
  [.request (some "/auth/login"), .loggedIn 0 "access-1" "refresh-1", .request (some "/users/"),
    .request (some "/roles/"), .unauthorized 1, .unauthorized 2, .refreshed 0 "access-2" "refresh-2",
    .settled 0, .resumed 1, .unauthorized 1, .resumed 2]

theorem refresh_once_sharedRefresh : ∃ page,
    run (fun config => config) initial sharedRefresh = some page ∧ page.posts = ["refresh-1"] ∧
      page.posts.Nodup ∧
      (∀ i j refreshToken refreshToken', page.toClient.Posting i refreshToken →
        page.toClient.Posting j refreshToken' → i = j) ∧
      ∀ request ∈ page.requests, request.resends ≤ 1 := by
  have hposts : (run (fun config => config) initial sharedRefresh).map (fun p => p.posts) =
      some ["refresh-1"] := by
    decide +kernel
  obtain ⟨page, hrun, hpage⟩ := Option.map_eq_some_iff.mp hposts
  exact ⟨page, hrun, hpage, refresh_once (fun _ h => h) hrun⟩

end Page
end FastapiTemplate.Frontend
