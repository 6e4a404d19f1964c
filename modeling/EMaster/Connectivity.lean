import EMaster.Decimal
import EMaster.KeyedTable
import EMaster.RustText
import EMaster.Runs

/-!
# Handles, managers and broker sessions

Lua holds numeric handles. A registry keeps them, three managers keep the connections they
stand for under the decimal text of the handle, and the transports keep the broker sessions.
-/

set_option autoImplicit false

namespace EMaster.Connectivity
open KeyedTable RustText Text

inductive Kind where
  | rest
  | mqtt
  | rabbitMq
  deriving DecidableEq, Repr

inductive ManagerError where
  | invalidConfiguration
  | invalidUrl
  | malformed
  | invalidName
  | notFound
  | alreadyExists
  | notConnected
  | transport
  deriving DecidableEq, Repr

inductive ConnectionState where
  | created
  | connected
  | disconnected
  | failed
  | unknown
  deriving DecidableEq, Repr

inductive Endpoint where
  | rest (url : Text)
  | mqtt (host clientId : Text) (port : ℕ)
  | rabbitMq (host username virtualHost : Text) (port : ℕ)
  deriving DecidableEq, Repr

structure Config where
  (name owner : Text)
  (timeoutMs maxRetries : ℕ)
  endpoint : Endpoint
  deriving DecidableEq, Repr

def Config.kind (config : Config) : Kind :=
  match config.endpoint with
  | .rest _ => .rest
  | .mqtt .. => .mqtt
  | .rabbitMq .. => .rabbitMq

/-- What follows the scheme of an address, where the scheme is one of the two known. -/
def authority (url : Text) : Option Text :=
  if "http://" <+: url then some (url.drop 7)
  else if "https://" <+: url then some (url.drop 8) else none

def blank (text : Text) : Bool := RustText.trim text = []

def Config.validate (config : Config) : Option ManagerError :=
  match config.endpoint with
  | .rest url =>
    if blank ((authority url).getD []) then some .invalidUrl
    else if blank config.name || blank config.owner || config.timeoutMs == 0 then some .malformed
    else none
  | .mqtt host clientId port =>
    if [config.name,config.owner,host,clientId].any blank || port == 0 || config.timeoutMs == 0
    then some .invalidConfiguration else none
  | .rabbitMq host username virtualHost port =>
    if [config.name,config.owner,host,username,virtualHost].any blank || port == 0 ||
      config.timeoutMs == 0
    then some .invalidConfiguration else none

inductive QoS where
  | atMostOnce
  | atLeastOnce
  | exactlyOnce
  deriving DecidableEq, Repr

inductive Slot where
  | filter (topic : Text)
  | exchange (name : Text)
  | queue (name : Text)
  | consumer (tag : Text)
  deriving DecidableEq, Repr

inductive Item where
  | subscription (topicFilter : Text) (qos : QoS)
  | exchange (name : Text)
  | queue (name : Text)
  | consumer (source consumerTag : Text)
  deriving DecidableEq, Repr

def Item.slot : Item → Slot
  | .subscription topicFilter _ => .filter topicFilter
  | .exchange name => .exchange name
  | .queue name => .queue name
  | .consumer _ tag => .consumer tag

def validText (limit : ℕ) (text : Text) : Bool :=
  !blank text && (text.map Char.utf8Size).sum ≤ limit && !text.contains (Char.ofNat 0)

def Item.valid : Item → Bool
  | .subscription topicFilter _ => validText 65535 topicFilter
  | .exchange name | .queue name => validText 255 name
  | .consumer source tag => validText 255 source && validText 255 tag

/-- Only the filter of a subscription is looked at before it ends. -/
def Slot.valid : Slot → Bool
  | .filter topic => validText 65535 topic
  | _ => true

/-- The order of a restore: exchanges and queues as they were declared, subscriptions and
consumers, which the source has in maps, by their keys. -/
def Item.precedes : Item → Item → Bool
  | .subscription topic _, .subscription other _ => topic < other
  | .consumer _ tag, .consumer _ other => tag < other
  | first, second => first.ctorIdx ≤ second.ctorIdx

/-- What is declared again stays where it is. -/
def record (item : Item) (items : List Item) : List Item :=
  if item ∈ items then items
  else
    let others := items.filter (fun other => other.slot ≠ item.slot)
    others.takeWhile (·.precedes item)++item::others.dropWhile (·.precedes item)

theorem mem_record {item x : Item} {items : List Item} :
    x ∈ record item items ↔ x = item ∨ x ∈ items ∧ (item ∈ items ∨ x.slot ≠ item.slot) := by
  rw [record]
  split_ifs with h
  · constructor
    · exact fun hx => .inr ⟨hx,.inl h⟩
    · rintro (rfl | hx)
      · exact h
      · exact hx.1
  · have hm : x ∈ items.filter (fun other => other.slot ≠ item.slot) ↔
        x ∈ items ∧ (item ∈ items ∨ x.slot ≠ item.slot) := by simp [h]
    dsimp only
    rw [List.mem_append,List.mem_cons,or_left_comm,← List.mem_append,
      List.takeWhile_append_dropWhile,hm]

def erase (slot : Slot) (items : List Item) : List Item :=
  items.filter (fun other => other.slot ≠ slot)

structure Connection where
  config : Config
  state : ConnectionState
  recorded : List Item
  deriving DecidableEq, Repr

structure Answers where
  (connect disconnect deliver : Bool)
  restore : Item → Bool

abbrev Shelf (V : Type) := Kind → Text → Option V

def setAt {V : Type} (m : Shelf V) (k : Kind) (id : Text) (v : Option V) : Shelf V :=
  fun k' id' => if k' = k ∧ id' = id then v else m k' id'

/-- The connections of the three managers, and what has been set up on the session that the
transport holds for a connection. -/
structure Managers where
  connections : Shelf Connection
  sessions : Shelf (List Item)

abbrev Outcome := Managers×Option ManagerError

namespace Managers

variable (m : Managers) (a : Answers) (k : Kind) (id : Text)

def put (v : Option Connection) (w : Option (List Item)) : Managers :=
  ⟨setAt m.connections k id v,setAt m.sessions k id w⟩

/-- The transport takes no part in the change of a connection. -/
def write (v : Option Connection) : Managers := m.put k id v (m.sessions k id)

def initialState (k : Kind) : ConnectionState := if k = .rabbitMq then .disconnected else .created

def create (config : Config) : Outcome :=
  match config.validate with
  | some e => (m,some e)
  | none =>
    if (m.connections config.kind id).isSome then (m,some .alreadyExists)
    else (m.write config.kind id (some ⟨config,initialState config.kind,[]⟩),none)

def start : Outcome :=
  match m.connections k id with
  | none => (m,some .notFound)
  | some c =>
    if k = .rest then (m.write k id (some { c with state := .connected }),none)
    else if !a.connect then (m,some .transport)
    else
      (m.put k id (some { c with state := .connected }) (some (c.recorded.takeWhile a.restore)),
        if c.recorded.all a.restore then none else some .transport)

def stop : Outcome :=
  match m.connections k id with
  | none => (m,some .notFound)
  | some c =>
    if k = .rest then (m.write k id (some { c with state := .disconnected }),none)
    else if !a.disconnect then (m,some .transport)
    else (m.put k id (some { c with state := .disconnected }) none,none)

def restart : Outcome :=
  match m.stop a k id with
  | (m',some e) => (m',some e)
  | (m',none) => m'.start a k id

def destroy : Outcome :=
  match m.connections k id with
  | none => (m,some .notFound)
  | some _ => (m.write k id none,none)

def destroyOwner (owner : Text) : Managers :=
  { m with connections := fun k' id' =>
      if k' = k then (m.connections k' id').filter (fun c => c.config.owner ≠ owner)
      else m.connections k' id' }

def connected (act : Connection → Managers) : Outcome :=
  match m.connections k id with
  | none => (m,some .notFound)
  | some c =>
    if c.state ≠ .connected then (m,some .notConnected)
    else if !a.deliver then (m,some .transport) else (act c,none)

def revise (change : List Item → List Item) : Outcome :=
  m.connected a k id fun c =>
    m.put k id (some { c with recorded := change c.recorded }) ((m.sessions k id).map change)

def setUp (item : Item) : Outcome :=
  if !item.valid then (m,some .invalidName)
  else m.revise a k id (record item)

def takeDown (slot : Slot) : Outcome :=
  if !slot.valid then (m,some .invalidName)
  else m.revise a k id (erase slot)

def publish : Outcome := m.connected a k id (fun _ => m)

/-- The attempts left, numbered from the last. A reply is a status, or nothing if the transport
failed. -/
def attempts (reply : ℕ → Option ℕ) : ℕ → Option ℕ
  | 0 => none
  | n+1 =>
    match reply n with
    | some status => if status < 500 ∨ n = 0 then some status else attempts reply n
    | none => attempts reply n

def request (path method : Text) (reply : ℕ → Option ℕ) : Outcome :=
  match m.connections .rest id with
  | none => (m,some .notFound)
  | some c =>
    if c.state ≠ .connected then (m,some .notConnected)
    else if path.head? ≠ some '/' ∨ blank method then (m,some .malformed)
    else
      match attempts reply (min (c.config.maxRetries+1) (2^32-1)) with
      | some _ => (m,none)
      | none => (m.write .rest id (some { c with state := .failed }),some .transport)

end Managers

inductive HandleState where
  | created
  | started
  | stopped
  deriving DecidableEq, Repr

structure Handle where
  id : ℕ
  (owner name : Text)
  kind : Kind
  state : HandleState
  deriving DecidableEq, Repr

inductive Error where
  | runtime
  | alreadyExists
  | invalidHandle
  | ownerMismatch
  | connectivity (e : ManagerError)
  deriving DecidableEq, Repr

abbrev Registry := Table Handle Handle.id

namespace Registry

variable (r : Registry) (owner : Text)

def push (kind : Kind) (name : Text) : Registry :=
  r.insert (fun id => ⟨id,owner,name,kind,.created⟩) (fun _ => rfl)

def create (kind : Kind) (name : Text) : Except Error Registry :=
  if blank owner || blank name then .error .runtime
  else if r.rows.any (fun h => h.owner = owner ∧ h.name = name) then .error .alreadyExists
  else if 2^64 ≤ r.last+2 then .error .runtime
  else .ok (r.push owner kind name)

def authorized (id : ℕ) : Option Handle :=
  r.one (fun h => h.id = id ∧ h.owner = owner)

def setState (id : ℕ) (state : HandleState) : Registry :=
  r.modify id (fun h => { h with state }) (fun _ => rfl)

def destroy (id : ℕ) : Registry := r.retain (fun h => ¬(h.id = id ∧ h.owner = owner))

end Registry

structure Runtime where
  registry : Registry
  managers : Managers

def Runtime.new : Runtime := ⟨⟨[],0,List.nodup_nil,by simp⟩,fun _ _ => none,fun _ _ => none⟩

inductive Op where
  | create (owner : Text) (config : Config)
  | start (owner : Text) (handle : ℕ) (a : Answers)
  | stop (owner : Text) (handle : ℕ) (a : Answers)
  | destroy (owner : Text) (handle : ℕ)
  | destroyOwner (owner : Text)

/-- An operation on a handle: the manager first, then the registry if that went well. -/
def Runtime.dispatch (s : Runtime) (owner : Text) (handle : ℕ)
    (act : Kind → Text → Outcome) (settle : Registry → Registry) : Runtime×Option Error :=
  match s.registry.authorized owner handle with
  | none => (s,some .invalidHandle)
  | some h =>
    match act h.kind (ofNat handle) with
    | (m,some e) => ({ s with managers := m },some (.connectivity e))
    | (m,none) => (⟨settle s.registry,m⟩,none)

def Runtime.create (s : Runtime) (owner : Text) (config : Config) : Runtime×Option Error :=
  if config.owner ≠ owner then (s,some .ownerMismatch)
  else
    match s.registry.create owner config.kind config.name with
    | .error e => (s,some e)
    | .ok r =>
      let handle := s.registry.last+1
      match s.managers.create (ofNat handle) config with
      | (m,some e) => (⟨r.destroy owner handle,m⟩,some (.connectivity e))
      | (m,none) => (⟨r,m⟩,none)

def Runtime.perform (s : Runtime) : Op → Runtime×Option Error
  | .create owner config => s.create owner config
  | .start owner handle a =>
    s.dispatch owner handle (s.managers.start a) (·.setState handle .started)
  | .stop owner handle a =>
    s.dispatch owner handle (s.managers.stop a) (·.setState handle .stopped)
  | .destroy owner handle =>
    s.dispatch owner handle s.managers.destroy (·.destroy owner handle)
  | .destroyOwner owner =>
    (⟨s.registry.retain (fun h => h.owner ≠ owner),
      ((s.managers.destroyOwner .rest owner).destroyOwner .mqtt owner).destroyOwner .rabbitMq
        owner⟩,none)

end EMaster.Connectivity
