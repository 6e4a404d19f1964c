import EMaster.Text

/-!
# The route policy table of the configuration API

The table is ordered and the first matching entry decides. Patterns are exact
paths, prefixes (trailing star) or suffixes (leading star). Request paths and
methods are arbitrary byte strings; no route registration is assumed.
-/

set_option autoImplicit false

namespace EMaster.Permissions

inductive Permission where
  | kSystemConfigRead
  | kSystemConfigWrite
  | kConfigExport
  | kConfigImport
  | kDeviceRead
  | kDeviceControl
  | kRelayControl
  | kZkProtocolTest
  | kRabbitmqTest
  | kLuaRead
  | kLuaWrite
  | kLuaRun
  | kLuaCompile
  | kLuaDeploy
  | kLuaRollback
  | kLogRead
  | kLogManage
  | kCardClientRead
  | kCardClientWrite
  | kUpdateRead
  | kUpdateInstall
  | kUserRead
  | kUserWrite
  | kCount
  deriving DecidableEq, Repr

inductive Role where
  | kAdmin
  | kOperator
  | kUser
  | kCount
  deriving DecidableEq, Repr

inductive Guard where
  | kPublic
  | kAuthenticated
  | kPermission
  | kApiKey
  deriving DecidableEq, Repr

structure RoutePolicy where
  (pattern methods : String)
  guard : Guard
  permission : Permission
  deriving DecidableEq, Repr

def kOperatorPermissions : List Permission :=
  [.kSystemConfigRead,.kDeviceRead,.kDeviceControl,
   .kRelayControl,.kZkProtocolTest,.kLuaRead,
   .kLogRead,.kCardClientRead,.kUpdateRead]

def kUserPermissions : List Permission :=
  [.kDeviceRead,.kLuaRead,.kLogRead,.kUpdateRead,.kConfigExport,.kConfigImport]

def roleHasPermission : Role → Permission → Bool
  | .kAdmin, _ => true
  | .kOperator, permission => kOperatorPermissions.contains permission
  | .kUser, permission => kUserPermissions.contains permission
  | .kCount, _ => false

def routePolicies : List RoutePolicy :=
  [ ⟨"/","",.kPublic,.kCount⟩,
    ⟨"/css/*","",.kPublic,.kCount⟩,
    ⟨"/js/*","",.kPublic,.kCount⟩,
    ⟨"*.html","",.kPublic,.kCount⟩,
    ⟨"/favicon.ico","",.kPublic,.kCount⟩,
    ⟨"/api/auth/login","POST",.kPublic,.kCount⟩,
    ⟨"/api/auth/mode","GET",.kPublic,.kCount⟩,
    ⟨"/api/health","GET",.kPublic,.kCount⟩,
    ⟨"/api/card/input","POST",.kApiKey,.kCount⟩,
    ⟨"/api/auth/logout","",.kAuthenticated,.kCount⟩,
    ⟨"/api/auth/me","",.kAuthenticated,.kCount⟩,
    ⟨"/api/auth/password","POST",.kAuthenticated,.kCount⟩,
    ⟨"/api/users","GET",.kPermission,.kUserRead⟩,
    ⟨"/api/users*","",.kPermission,.kUserWrite⟩,
    ⟨"/api/audit","",.kPermission,.kUserRead⟩,
    ⟨"/api/config","GET",.kPermission,.kSystemConfigRead⟩,
    ⟨"/api/config","POST",.kPermission,.kSystemConfigWrite⟩,
    ⟨"/api/config/export","GET",.kPermission,.kConfigExport⟩,
    ⟨"/api/config/import","POST",.kPermission,.kConfigImport⟩,
    ⟨"/api/status","",.kPermission,.kDeviceRead⟩,
    ⟨"/api/variables","",.kPermission,.kDeviceRead⟩,
    ⟨"/api/serial/ports","",.kPermission,.kSystemConfigRead⟩,
    ⟨"/api/logs/clear","POST",.kPermission,.kLogManage⟩,
    ⟨"/api/logs*","",.kPermission,.kLogRead⟩,
    ⟨"/api/lua/scripts/file","GET",.kPermission,.kLuaRead⟩,
    ⟨"/api/lua/scripts/file","",.kPermission,.kLuaWrite⟩,
    ⟨"/api/lua/scripts/import","POST",.kPermission,.kConfigImport⟩,
    ⟨"/api/lua/script","GET",.kPermission,.kLuaRead⟩,
    ⟨"/api/lua/script","POST",.kPermission,.kLuaWrite⟩,
    ⟨"/api/lua/scripts-dir","GET",.kPermission,.kLuaRead⟩,
    ⟨"/api/lua/scripts-dir","POST",.kPermission,.kLuaWrite⟩,
    ⟨"/api/lua/scripts/rename","",.kPermission,.kLuaWrite⟩,
    ⟨"/api/lua/scripts/folder/delete","POST",.kPermission,.kLuaWrite⟩,
    ⟨"/api/lua/scripts/set-default","",.kPermission,.kLuaWrite⟩,
    ⟨"/api/lua/clear-default","",.kPermission,.kLuaWrite⟩,
    ⟨"/api/lua/validate","",.kPermission,.kLuaWrite⟩,
    ⟨"/api/lua/scripts/run","",.kPermission,.kLuaRun⟩,
    ⟨"/api/lua/scripts/stop","",.kPermission,.kLuaRun⟩,
    ⟨"/api/lua/run","",.kPermission,.kLuaRun⟩,
    ⟨"/api/lua/stop","",.kPermission,.kLuaRun⟩,
    ⟨"/api/lua/restart","",.kPermission,.kLuaRun⟩,
    ⟨"/api/lua/runtimes/prune","",.kPermission,.kLuaRun⟩,
    ⟨"/api/lua/scripts","",.kPermission,.kLuaRead⟩,
    ⟨"/api/lua/runtime*","",.kPermission,.kLuaRead⟩,
    ⟨"/api/lua/projects*","GET",.kPermission,.kLuaRead⟩,
    ⟨"/api/lua/projects*","PUT",.kPermission,.kSystemConfigWrite⟩,
    ⟨"/api/lua/packages","GET",.kPermission,.kLuaRead⟩,
    ⟨"/api/lua/packages/import","POST",.kPermission,.kConfigImport⟩,
    ⟨"/api/lua/compile","",.kPermission,.kLuaCompile⟩,
    ⟨"/api/lua/packages/build","",.kPermission,.kLuaCompile⟩,
    ⟨"/api/lua/packages/rollback","",.kPermission,.kLuaRollback⟩,
    ⟨"/api/lua/packages/keys","",.kPermission,.kUserWrite⟩,
    ⟨"/api/lua/packages/deploy","",.kPermission,.kLuaDeploy⟩,
    ⟨"/api/lua/packages/stop","POST",.kPermission,.kLuaDeploy⟩,
    ⟨"/api/lua/packages/start","POST",.kPermission,.kLuaDeploy⟩,
    ⟨"/api/lua/packages/delete","",.kPermission,.kLuaDeploy⟩,
    ⟨"/api/plugins/import","POST",.kPermission,.kConfigImport⟩,
    ⟨"/api/plugins*","GET",.kPermission,.kDeviceRead⟩,
    ⟨"/api/plugins*","POST",.kPermission,.kDeviceControl⟩,
    ⟨"/api/app*","",.kAuthenticated,.kCount⟩,
    ⟨"/api/update/status","",.kPermission,.kUpdateRead⟩,
    ⟨"/api/update/check","",.kPermission,.kUpdateRead⟩,
    ⟨"/api/update/dismiss","",.kPermission,.kUpdateRead⟩,
    ⟨"/api/update/install","",.kPermission,.kUpdateInstall⟩,
    ⟨"/api/card/clients","GET",.kPermission,.kCardClientRead⟩,
    ⟨"/api/card/clients*","",.kPermission,.kCardClientWrite⟩,
    ⟨"/api/card/cache","GET",.kPermission,.kDeviceRead⟩,
    ⟨"/api/card/cache","",.kPermission,.kDeviceControl⟩,
    ⟨"/api/modbus/io","",.kPermission,.kDeviceRead⟩,
    ⟨"/api/modbus/output","",.kPermission,.kDeviceControl⟩,
    ⟨"/api/modbus/register","",.kPermission,.kDeviceControl⟩,
    ⟨"/api/modbus/test","",.kPermission,.kDeviceControl⟩,
    ⟨"/api/test/relay*","",.kPermission,.kRelayControl⟩,
    ⟨"/api/test/aux-relay*","",.kPermission,.kRelayControl⟩,
    ⟨"/api/test/beeper","",.kPermission,.kRelayControl⟩,
    ⟨"/api/test/zk/door","",.kPermission,.kRelayControl⟩,
    ⟨"/api/test/zk/device/control","",.kPermission,.kRelayControl⟩,
    ⟨"/api/test/zk*","",.kPermission,.kZkProtocolTest⟩,
    ⟨"/api/test/rabbitmq*","",.kPermission,.kRabbitmqTest⟩,
    ⟨"/api/mq/test","",.kPermission,.kRabbitmqTest⟩,
    ⟨"/api/mq/publish","",.kPermission,.kRabbitmqTest⟩,
    ⟨"/api/test/aux-input/status","",.kPermission,.kDeviceRead⟩,
    ⟨"/api/test/button/status","",.kPermission,.kDeviceRead⟩,
    ⟨"/api/test/log","GET",.kPermission,.kLogRead⟩,
    ⟨"/api/test/log","",.kPermission,.kLogManage⟩,
    ⟨"/api/test/scenario*","",.kPermission,.kDeviceControl⟩,
    ⟨"/api/test/serial","",.kPermission,.kDeviceControl⟩,
    ⟨"/api/test/modbus","",.kPermission,.kDeviceControl⟩,
    ⟨"/api/test/rest","",.kPermission,.kSystemConfigRead⟩,
    ⟨"/api/serial/test","",.kPermission,.kDeviceControl⟩,
    ⟨"/api/serial2/led-test","",.kPermission,.kDeviceControl⟩,
    ⟨"/api/rfid/test","",.kPermission,.kDeviceControl⟩,
    ⟨"/api/rest/test","",.kPermission,.kSystemConfigRead⟩ ]

/-- The token loop of `MethodMatches`: a token ends at a comma, and the empty
remainder after a final comma is not a token. -/
def methodIn (method : Text) : Text → Text → Bool
  | token, [] => token = method
  | token, c::rest =>
    if c = ',' then token = method || (rest ≠ [] && methodIn method [] rest)
    else methodIn method (token++[c]) rest

def methodMatches (methods method : Text) : Bool := methods = [] || methodIn method [] methods

def pathMatches (pattern path : Text) : Bool :=
  if pattern.length = 0 then false
  else if pattern.head? = some '*' then
    if path.length < pattern.length-1 then false
    else path.drop (path.length-(pattern.length-1)) = pattern.drop 1
  else if pattern.getLast? = some '*' then
    path.take (pattern.length-1) = pattern.take (pattern.length-1)
  else path = pattern

def fallback : RoutePolicy := ⟨"","",.kAuthenticated,.kCount⟩

def matchesRequest (path method : Text) (policy : RoutePolicy) : Bool :=
  pathMatches policy.pattern.toList path && methodMatches policy.methods.toList method

def policyFor (path method : Text) : RoutePolicy :=
  (routePolicies.find? (matchesRequest path method)).getD fallback

theorem path_matches_suffix (suffix path : Text) :
    pathMatches ('*'::suffix) path = true ↔ suffix <:+ path := by
  rw [List.suffix_iff_eq_drop]
  by_cases hl : path.length < suffix.length
  · have hne : suffix ≠ path.drop (path.length-suffix.length) := by
      intro he
      have := congrArg List.length he
      rw [List.length_drop] at this
      omega
    simp [pathMatches,hl,hne]
  · simp [pathMatches,hl,eq_comm]

theorem path_matches_stem (stem path : Text) (hs : stem ≠ []) (hh : stem.head? ≠ some '*') :
    pathMatches (stem++['*']) path = true ↔ stem <+: path := by
  have hhd : (stem++['*']).head? = stem.head? := by
    cases stem with
    | nil => exact absurd rfl hs
    | cons c rest => rfl
  rw [List.prefix_iff_eq_take]
  simp [pathMatches,hhd,hh,eq_comm]

variable (method path : Text)

theorem path_matches_exact {pattern : Text} (hn : pattern ≠ []) (hh : pattern.head? ≠ some '*')
    (hl : pattern.getLast? ≠ some '*') : pathMatches pattern path = true ↔ path = pattern := by
  have hln : pattern.length ≠ 0 := by simpa using hn
  simp [pathMatches,hln,hh,hl]

variable {methods : Text}

theorem method_in_single (tok : Text) (hc : ',' ∉ methods) :
    methodIn method tok methods = true ↔ method = tok++methods := by
  induction methods generalizing tok with
  | nil => simp [methodIn,eq_comm]
  | cons c rest ih =>
    have hne : c ≠ ',' := fun h => hc (by simp [h])
    rw [methodIn, if_neg hne, ih (tok++[c]) (fun h => hc (by simp [h]))]
    simp

theorem method_matches_any : methodMatches [] method = true := by
  simp [methodMatches]

theorem method_matches_single (hn : methods ≠ []) (hc : ',' ∉ methods) :
    methodMatches methods method = true ↔ method = methods := by
  simp [methodMatches, hn, method_in_single method [] hc]

theorem policy_for_cases (method : Text) :
    policyFor path method = fallback ∨
      (policyFor path method ∈ routePolicies ∧
        matchesRequest path method (policyFor path method) = true) := by
  unfold policyFor
  cases hf : routePolicies.find? (matchesRequest path method) with
  | none => exact .inl rfl
  | some pol => exact .inr ⟨List.mem_of_find?_eq_some hf,List.find?_some hf⟩

end EMaster.Permissions
