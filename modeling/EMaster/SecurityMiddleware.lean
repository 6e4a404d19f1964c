import EMaster.Permissions

/-!
# Access decisions of the security middleware

The middleware runs before every handler of the configuration app: preflight,
body ceiling, rate limit, route policy, authentication, authorization. The
rate limiter and the session store are supplied as answers to one request.
-/

set_option autoImplicit false

namespace EMaster.SecurityMiddleware
open Permissions List

structure AuthConfig where
  (enabled publicAppRoutes rateLimitEnabled : Bool)
  (maxBodyBytes maxLuaBodyBytes : ℤ)

structure Session where
  username : Text
  role : Role

structure Request where
  (method url : Text)
  bodySize : ℕ
  authorization : Text

inductive Verdict where
  | preflight
  | denied (code : ℕ) (error : String)
  | handled (session : Option Session)

def Verdict.isHandled : Verdict → Bool
  | .handled _ => true
  | _ => false

def pathOf (req : Request) : Text := req.url.takeWhile (· ≠ '?')

def isTokenSpace (c : Char) : Bool := c = ' ' || c = '\t' || c = '\r' || c = '\n'

def bearerToken (req : Request) : Text :=
  let header := req.authorization
  if header.length ≤ 7 then []
  else if (header.take 7).map Char.toLower ≠ "bearer " then []
  else (((header.drop 7).dropWhile isTokenSpace).reverse.dropWhile isTokenSpace).reverse

variable (config : AuthConfig)

def bodyLimit (path : Text) : ℤ :=
  if "/api/lua" <+: path then max 1024 config.maxLuaBodyBytes
  else max 1024 config.maxBodyBytes

/-- A script-served route is public only when the installation says so. -/
def routePolicy (path method : Text) : RoutePolicy :=
  let policy := policyFor path method
  if config.publicAppRoutes && decide ("/api/app" <+: path) then
    { policy with guard := .kPublic }
  else policy

def authorize (policy : RoutePolicy) (session : Session) : Verdict :=
  if policy.guard = .kPermission ∧ roleHasPermission session.role policy.permission = false then
    .denied 403 "FORBIDDEN"
  else .handled (some session)

def authenticated (policy : RoutePolicy) (authenticate : Text → Option Session)
    (token : Text) : Verdict :=
  if token = [] then .denied 401 "UNAUTHENTICATED"
  else match authenticate token with
    | none => .denied 401 "UNAUTHENTICATED"
    | some session => authorize policy session

/-- An API-key route is passed on: its handler checks its own scheme. -/
def guarded (policy : RoutePolicy) (authenticate : Text → Option Session)
    (token : Text) : Verdict :=
  match policy.guard with
  | .kPublic => .handled none
  | .kApiKey => .handled none
  | _ => authenticated policy authenticate token

def beforeHandle (allow : Bool → Bool)
    (authenticate : Text → Option Session) (req : Request) : Verdict :=
  let path := pathOf req
  if req.method = "OPTIONS" then .preflight
  else if bodyLimit config path < req.bodySize then .denied 413 "REQUEST_TOO_LARGE"
  else if config.rateLimitEnabled && !allow (decide (path = "/api/auth/login")) then
    .denied 429 "TOO_MANY_REQUESTS"
  else if config.enabled = false then .handled none
  else guarded (routePolicy config path req.method) authenticate (bearerToken req)

def publicApiRoutes : List (Text × Text) :=
  [("/api/auth/login","POST"),("/api/auth/mode","GET"),
   ("/api/health","GET")]

/-- Only the listed entries are public; every other request under the API
needs a session or an API key. -/
def ApiGuarded (path method : Text) : Prop :=
  ((policyFor path method).guard = .kPublic → (path,method) ∈ publicApiRoutes) ∧
    ((path,method) ∉ publicApiRoutes →
      (policyFor path method).guard ∈ [Guard.kAuthenticated,.kPermission,.kApiKey])

variable {path method : Text}

theorem api_guarded_of_public
    (h : (policyFor path method).guard = .kPublic → (path,method) ∈ publicApiRoutes) :
    ApiGuarded path method := by
  refine ⟨h,fun hl => ?_⟩
  cases hg : (policyFor path method).guard with
  | kPublic => exact absurd (h hg) hl
  | kAuthenticated => decide
  | kPermission => decide
  | kApiKey => decide

theorem public_policies :
    routePolicies.filter (fun policy => policy.guard = .kPublic) =
      [⟨"/","",.kPublic,.kCount⟩,⟨"/css/*","",.kPublic,.kCount⟩,
       ⟨"/js/*","",.kPublic,.kCount⟩,⟨"*.html","",.kPublic,.kCount⟩,
       ⟨"/favicon.ico","",.kPublic,.kCount⟩,
       ⟨"/api/auth/login","POST",.kPublic,.kCount⟩,
       ⟨"/api/auth/mode","GET",.kPublic,.kCount⟩,
       ⟨"/api/health","GET",.kPublic,.kCount⟩] := by
  decide

theorem matches_exact {policy : RoutePolicy} {path method : Text}
    (h : matchesRequest path method policy = true) (hn : policy.pattern.toList ≠ [])
    (hh : policy.pattern.toList.head? ≠ some '*')
    (hl : policy.pattern.toList.getLast? ≠ some '*') : path = policy.pattern.toList := by
  simp only [matchesRequest,Bool.and_eq_true] at h
  exact (path_matches_exact path hn hh hl).mp h.1

variable {policy : RoutePolicy}

theorem matches_single_method (h : matchesRequest path method policy = true)
    (hn : policy.methods.toList ≠ []) (hc : ',' ∉ policy.methods.toList) : method = policy.methods.toList := by
  simp only [matchesRequest,Bool.and_eq_true] at h
  exact (method_matches_single _ hn hc).mp h.2

theorem api_head (h : "/api/" <+: path) :
    ∃ rest, path = '/' :: 'a' :: 'p' :: 'i' :: '/' :: rest := by
  obtain ⟨rest,hr⟩ := h
  exact ⟨rest,hr.symm⟩

theorem prefix_conflict (stem path : Text) (hs : stem.take 2 ≠ "/a")
    (hl : 2 ≤ stem.length) (hp : "/api/" <+: path) : ¬stem <+: path := by
  intro h
  obtain ⟨rest,rfl⟩ := api_head hp
  obtain ⟨tail,ht⟩ := h
  apply hs
  have := congrArg (take 2) ht
  rwa [take_append_of_le_length hl] at this

/-- A public entry that matches a path under the API is one of the listed
ones or the page rule. -/
theorem public_match (hm : policy ∈ routePolicies) (hg : policy.guard = .kPublic)
    (hmt : matchesRequest path method policy = true) (hp : "/api/" <+: path)
    (hh : ¬".html" <:+ path) : (path,method) ∈ publicApiRoutes := by
  have hf : policy ∈ routePolicies.filter (fun policy => policy.guard = .kPublic) :=
    mem_filter.mpr ⟨hm,by simpa using hg⟩
  rw [public_policies] at hf
  have hpt := hmt
  simp only [matchesRequest,Bool.and_eq_true] at hpt
  obtain ⟨rest,rfl⟩ := api_head hp
  simp only [mem_cons,not_mem_nil,or_false] at hf
  rcases hf with rfl | rfl | rfl | rfl | rfl | rfl | rfl | rfl
  · have := matches_exact hmt (by decide) (by decide) (by decide)
    exact absurd (congrArg length this) (by simp)
  · have := (path_matches_stem "/css/" _ (by decide) (by decide)).mp hpt.1
    exact absurd this (prefix_conflict _ _ (by decide) (by decide) hp)
  · have := (path_matches_stem "/js/" _ (by decide) (by decide)).mp hpt.1
    exact absurd this (prefix_conflict _ _ (by decide) (by decide) hp)
  · exact absurd ((path_matches_suffix _ _).mp hpt.1) hh
  · have := matches_exact hmt (by decide) (by decide) (by decide)
    exact absurd (congrArg (take 2) this) (by simp)
  all_goals
    rw [matches_exact hmt (by decide) (by decide) (by decide),
      matches_single_method hmt (by decide) (by decide)]
    decide

theorem unmatched_path (method : Text) (h : pathMatches policy.pattern.toList path ≠ true) : ¬matchesRequest path method policy = true := by
  simp only [matchesRequest,Bool.and_eq_true]
  exact fun hm => h hm.1

theorem html_policy (method : Text) (hp : "/api/" <+: path) (hh : ".html" <:+ path) :
    policyFor path method = ⟨"*.html","",.kPublic,.kCount⟩ := by
  obtain ⟨rest,hs⟩ : ∃ rest, routePolicies = ⟨"/","",.kPublic,.kCount⟩::
      ⟨"/css/*","",.kPublic,.kCount⟩::⟨"/js/*","",.kPublic,.kCount⟩::
      ⟨"*.html","",.kPublic,.kCount⟩::rest := ⟨routePolicies.drop 4,rfl⟩
  have hr : pathMatches "/" path ≠ true := by
    rw [Ne,path_matches_exact path (by decide) (by decide) (by decide)]
    rintro rfl
    exact absurd hp (by decide)
  have hc : pathMatches "/css/*" path ≠ true := fun h =>
    prefix_conflict "/css/" path (by decide) (by decide) hp
      ((path_matches_stem _ path (by decide) (by decide)).mp h)
  have hjs : pathMatches "/js/*" path ≠ true := fun h =>
    prefix_conflict "/js/" path (by decide) (by decide) hp
      ((path_matches_stem _ path (by decide) (by decide)).mp h)
  have hht : matchesRequest path method ⟨"*.html","",.kPublic,.kCount⟩ = true := by
    rw [matchesRequest,Bool.and_eq_true]
    exact ⟨(path_matches_suffix _ path).mpr hh,method_matches_any _⟩
  rw [policyFor,hs,
    find?_cons_of_neg (unmatched_path _ hr),
    find?_cons_of_neg (unmatched_path _ hc),
    find?_cons_of_neg (unmatched_path _ hjs),
    find?_cons_of_pos hht]
  rfl

/-- The table protects a path under the API exactly when the path does not
end like a page. The page rule precedes every protected prefix. -/
theorem api_guarded_iff (path method : Text) (hp : "/api/" <+: path) :
    ApiGuarded path method ↔ ¬".html" <:+ path := by
  constructor
  · intro hgr hh
    have hg : (policyFor path method).guard = .kPublic := by rw [html_policy _ hp hh]
    have hl := hgr.1 hg
    simp only [publicApiRoutes,mem_cons,Prod.mk.injEq,not_mem_nil,or_false] at hl
    rcases hl with ⟨rfl,_⟩ | ⟨rfl,_⟩ | ⟨rfl,_⟩ <;> exact absurd hh (by decide)
  · intro hh
    apply api_guarded_of_public
    intro hg
    rcases policy_for_cases path _ with hf | ⟨hm,hmt⟩
    · rw [hf] at hg
      exact absurd hg (by decide)
    · exact public_match hm hg hmt hp hh

theorem api_guarded_rollback :
    "/api/".toList <+: "/api/plugins/rollback/hsf.driver.modbus".toList ∧
      ApiGuarded "/api/plugins/rollback/hsf.driver.modbus" "POST" :=
  ⟨by decide,(api_guarded_iff _ _ (by decide)).mpr (by decide)⟩

/-- A rollback of the plugin directory named like a page needs no session. -/
theorem rollback_page_public : ¬ApiGuarded "/api/plugins/rollback/x.html" "POST" := by
  intro h
  exact absurd (h.1 (by decide)) (by decide)

def letsThrough (config : AuthConfig) (allow : Bool → Bool) (username : Text) (role : Role)
    (req : Request) : Bool :=
  (beforeHandle config allow (fun _ => some ⟨username,role⟩) req).isHandled

def RoleMonotone (path method : Text) : Prop :=
  ∀ (config : AuthConfig) (allow : Bool → Bool) (username : Text) (req : Request),
    pathOf req = path → req.method = method →
      (letsThrough config allow username .kUser req = true →
        letsThrough config allow username .kOperator req = true) ∧
      (letsThrough config allow username .kOperator req = true →
        letsThrough config allow username .kAdmin req = true)

def configTransferRoutes : List (Text × Text) :=
  [("/api/config/export","GET"),("/api/config/import","POST"),
   ("/api/lua/scripts/import","POST"),
   ("/api/lua/packages/import","POST"),
   ("/api/plugins/import","POST")]

def Stronger (weak strong : Role) (permission : Permission) : Prop :=
  roleHasPermission weak permission = true → roleHasPermission strong permission = true

theorem admin_stronger (permission : Permission) : Stronger .kOperator .kAdmin permission :=
  fun _ => rfl

theorem operator_stronger {permission : Permission} (he : permission ≠ .kConfigExport)
    (hi : permission ≠ .kConfigImport) : Stronger .kUser .kOperator permission := by
  intro h
  cases permission with
  | kConfigExport => exact absurd rfl he
  | kConfigImport => exact absurd rfl hi
  | _ => revert h; decide

theorem authorize_handled (policy : RoutePolicy) (session : Session) :
    (authorize policy session).isHandled = true ↔
      (policy.guard = .kPermission → roleHasPermission session.role policy.permission = true) := by
  unfold authorize
  split_ifs with h
  · simp [Verdict.isHandled,h.1,h.2]
  · rw [not_and,Bool.not_eq_false] at h
    simpa [Verdict.isHandled] using h

variable {user : Text} {weak strong : Role}

theorem guarded_stronger {tok : Text}
    (hs : policy.guard = .kPermission → Stronger weak strong policy.permission)
    (h : (guarded policy (fun _ => some ⟨user,weak⟩) tok).isHandled = true) :
    (guarded policy (fun _ => some ⟨user,strong⟩) tok).isHandled = true := by
  have ha (hw : (authenticated policy (fun _ => some ⟨user,weak⟩) tok).isHandled = true) :
      (authenticated policy (fun _ => some ⟨user,strong⟩) tok).isHandled = true := by
    unfold authenticated at hw ⊢
    split_ifs at hw ⊢ with ht
    · exact hw
    · rw [authorize_handled] at hw ⊢
      exact fun hg => hs hg (hw hg)
  unfold guarded at h ⊢
  split at h
  · exact h
  · exact h
  · exact ha h

/-- The role enters the decision only through the permission of the policy. -/
theorem lets_through_stronger {cfg : AuthConfig} {allow : Bool → Bool} {req : Request}
    (hs : (policyFor (pathOf req) req.method).guard = .kPermission → Stronger weak strong (policyFor (pathOf req) req.method).permission)
    (h : letsThrough cfg allow user weak req = true) :
    letsThrough cfg allow user strong req = true := by
  have hp : (routePolicy cfg (pathOf req) req.method).guard = .kPermission →
      Stronger weak strong (routePolicy cfg (pathOf req) req.method).permission := by
    unfold routePolicy
    split_ifs with ha
    · exact fun hg => nomatch hg
    · exact hs
  unfold letsThrough beforeHandle at h ⊢
  dsimp only at h ⊢
  split_ifs at h ⊢
  · exact h
  · exact h
  · exact h
  · exact h
  · exact guarded_stronger hp h

theorem config_policies :
    routePolicies.filter (fun policy => policy.permission = .kConfigExport ∨
        policy.permission = .kConfigImport) =
      [⟨"/api/config/export","GET",.kPermission,.kConfigExport⟩,
       ⟨"/api/config/import","POST",.kPermission,.kConfigImport⟩,
       ⟨"/api/lua/scripts/import","POST",.kPermission,.kConfigImport⟩,
       ⟨"/api/lua/packages/import","POST",.kPermission,.kConfigImport⟩,
       ⟨"/api/plugins/import","POST",.kPermission,.kConfigImport⟩] := by
  decide

theorem config_policy_route
    (h : (policyFor path method).permission = .kConfigExport ∨ (policyFor path method).permission = .kConfigImport) :
    (path,method) ∈ configTransferRoutes := by
  rcases policy_for_cases path _ with hf | ⟨hm,hmt⟩
  · rw [hf] at h
    exact absurd h (by decide)
  · generalize policyFor path method = pol at h hm hmt
    have hmm : pol ∈ routePolicies.filter (fun pol =>
        pol.permission = .kConfigExport ∨ pol.permission = .kConfigImport) :=
      mem_filter.mpr ⟨hm,decide_eq_true h⟩
    rw [config_policies] at hmm
    simp only [mem_cons,not_mem_nil,or_false] at hmm
    rcases hmm with rfl | rfl | rfl | rfl | rfl <;>
      rw [matches_exact hmt (by decide) (by decide) (by decide),
        matches_single_method hmt (by decide) (by decide)] <;>
      decide

def openConfig : AuthConfig := ⟨true,false,false,1048576,1048576⟩

theorem transfer_policies : ∀ route ∈ configTransferRoutes,
    route.2 ≠ "OPTIONS" ∧ '?' ∉ route.1 ∧
      (policyFor route.1 route.2).guard = .kPermission ∧
      roleHasPermission .kUser (policyFor route.1 route.2).permission = true ∧
      roleHasPermission .kOperator (policyFor route.1 route.2).permission = false := by
  decide +kernel

theorem lets_through_permission (role : Role) (hm : method ≠ "OPTIONS")
    (hpt : pathOf ⟨method,path,0,"Bearer t"⟩ = path)
    (hg : (policyFor path method).guard = .kPermission) :
    letsThrough openConfig (fun _ => true) [] role ⟨method,path,0,"Bearer t"⟩ =
      roleHasPermission role (policyFor path method).permission := by
  have hl : ¬bodyLimit openConfig path < ((0 : ℕ) : ℤ) := by
    rw [bodyLimit]
    split_ifs <;> decide
  have hp : routePolicy openConfig path method = policyFor path method := rfl
  have ht : bearerToken ⟨method,path,0,"Bearer t"⟩ ≠ [] :=
    (by decide : bearerToken ⟨[],[],0,"Bearer t"⟩ ≠ [])
  rw [letsThrough,beforeHandle]
  dsimp only
  rw [hpt,if_neg hm,if_neg hl,if_neg (by decide),if_neg (by decide),hp,guarded,hg]
  dsimp only
  rw [authenticated,if_neg ht,Bool.eq_iff_iff,authorize_handled]
  exact ⟨fun h => h hg,fun h _ => h⟩

theorem transfer_route_inverted (path method : Text) (h : (path,method) ∈ configTransferRoutes) :
    letsThrough openConfig (fun _ => true) [] .kUser ⟨method,path,0,"Bearer t"⟩ = true ∧
      letsThrough openConfig (fun _ => true) [] .kOperator ⟨method,path,0,"Bearer t"⟩ =
        false ∧
      pathOf ⟨method,path,0,"Bearer t"⟩ = path := by
  obtain ⟨hm,hq,hg,hu,ho⟩ := transfer_policies _ h
  have hp : pathOf ⟨method,path,0,"Bearer t"⟩ = path := by
    rw [pathOf,takeWhile_eq_self_iff]
    exact fun c hc => decide_eq_true fun hcq => hq (hcq ▸ hc)
  rw [lets_through_permission _ hm hp hg,lets_through_permission _ hm hp hg]
  exact ⟨hu,ho,hp⟩

/-- Authority grows with the role on every route but the five that carry the
configuration in or out: the viewer holds their permission, the operator does not. -/
theorem role_monotone_iff (path method : Text) :
    RoleMonotone path method ↔ (path,method) ∉ configTransferRoutes := by
  constructor
  · intro hm hr
    obtain ⟨hu,ho,hp⟩ := transfer_route_inverted path _ hr
    have := (hm _ _ _ _ hp rfl).1 hu
    rw [ho] at this
    exact absurd this (by decide)
  · rintro hr config allow username req rfl rfl
    constructor
    · apply lets_through_stronger
      intro _
      apply operator_stronger
      · exact fun he => hr (config_policy_route (Or.inl he))
      · exact fun hi => hr (config_policy_route (Or.inr hi))
    · apply lets_through_stronger
      exact fun _ => admin_stronger _

/-- A viewer may import a plugin; an operator may not. -/
theorem plugin_import_inverted : ¬RoleMonotone "/api/plugins/import" "POST" := by
  intro h
  obtain ⟨hu,ho,hp⟩ := transfer_route_inverted "/api/plugins/import"
    "POST" (by decide)
  have := (h _ _ _ _ hp rfl).1 hu
  rw [ho] at this
  exact absurd this (by decide)

end EMaster.SecurityMiddleware
