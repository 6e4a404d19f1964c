import EMaster.Custody

/-!
# Loading, starting and unloading plugins

Calls from any threads work on the same records. A section under the lock is one step, and
so is each call into a plugin or its library. The number of a library is also that of the
one instance created in it. Which functions a driver has, and whether a call of the
plugin succeeds, is left open.
-/

set_option autoImplicit false

namespace EMaster.PluginLifecycle
open Custody Function Runs

variable {Id Thread : Type} [DecidableEq Id] [DecidableEq Thread]

inductive PluginState where
  | DISCOVERED
  | VALIDATED
  | INSTALLED
  | DISABLED
  | ENABLED
  | RUNNING
  | FAILED
  deriving DecidableEq, Repr

structure Loaded where
  handle : ℕ
  driver : Bool
  deriving DecidableEq, Repr

structure Entry where
  loaded : Option Loaded
  state : PluginState
  (enabled hasEntry : Bool)
  deriving DecidableEq, Repr

structure Found (Id : Type) where
  id : Id
  (ok hasEntry : Bool)

inductive Call (Id : Type) where
  | load (id : Id)
  | unload (id : Id)
  | enable (id : Id)
  | disable (id : Id)
  | healthCheck (id : Id)
  | install (id : Id) (found : List (Found Id))

inductive Point (Id : Type) where
  | idle
  | load (id : Id) (enables : Bool)
  | create (id : Id) (enables : Bool)
  | getDriver (id : Id) (enables : Bool) (handle : ℕ)
  | loadFailed (id : Id)
  | store (id : Id) (enables : Bool) (loaded : Loaded)
  | unload (id : Id) (found : Option (List (Found Id)))
  | stopping (loaded : Loaded) (found : Option (List (Found Id)))
  | destroying (handle : ℕ) (found : Option (List (Found Id)))
  | closing (handle : ℕ) (found : Option (List (Found Id)))
  | enable (id : Id)
  | noDriver (id : Id)
  | setUp (id : Id) (handle : ℕ)
  | start (id : Id) (handle : ℕ)
  | started (id : Id) (ok : Bool)
  | disable (id : Id)
  | stopDriver (id : Id) (handle : ℕ)
  | disabled (id : Id)
  | health (id : Id)
  | probe (id : Id) (handle : ℕ)
  | discover (found : List (Found Id))

/-- What the plugin does next: it may succeed, and the function may be there at all. -/
structure Choice where
  (ok present : Bool)
  deriving DecidableEq, Repr

structure Manager (Id Thread : Type) where
  entries : Id → Option Entry
  threads : Thread → Point Id
  log : List Event
  next : ℕ

inductive Step (Id Thread : Type) where
  | call (t : Thread) (call : Call Id)
  | advance (t : Thread) (choice : Choice)

namespace Manager

def goto (s : Manager Id Thread) (t : Thread) (p : Point Id) : Manager Id Thread :=
  { s with threads := Function.update s.threads t p }

def setEntry (s : Manager Id Thread) (id : Id) (e : Entry) : Manager Id Thread :=
  { s with entries := Function.update s.entries id (some e) }

def note (s : Manager Id Thread) (e : Event) : Manager Id Thread := { s with log := e::s.log }

def callDriver (s : Manager Id Thread) (choice : Choice) (handle : ℕ) : Manager Id Thread :=
  if choice.present then s.note (.used handle) else s

def setState (s : Manager Id Thread) (id : Id) (state : PluginState) : Manager Id Thread :=
  match s.entries id with
  | none => s
  | some e => s.setEntry id { e with state := state }

end Manager

open Manager

def begins : Call Id → Point Id
  | .load id => .load id false
  | .unload id => .unload id none
  | .enable id => .load id true
  | .disable id => .disable id
  | .healthCheck id => .health id
  | .install id found => .unload id (some found)

def afterLoad (id : Id) (enables : Bool) : Point Id := if enables then .enable id else .idle

def afterUnload : Option (List (Found Id)) → Point Id
  | none => .idle
  | some found => .discover found

def driverOf (e : Entry) : Option ℕ := (e.loaded.filter Loaded.driver).map Loaded.handle

def discoverOne (entries : Id → Option Entry) (found : Found Id) : Id → Option Entry :=
  let slot := (entries found.id).getD ⟨none,.DISCOVERED,false,false⟩
  if slot.state = .RUNNING ∨ found.ok = true ∧ slot.state = .ENABLED then
    Function.update entries found.id (some slot)
  else Function.update entries found.id (some { slot with
    state := if found.ok then .VALIDATED else .FAILED, hasEntry := found.hasEntry })

def advance (s : Manager Id Thread) (t : Thread) (choice : Choice) : Manager Id Thread :=
  match s.threads t with
  | .idle => s
  | .load id enables =>
    match s.entries id with
    | none => s.goto t .idle
    | some e =>
      if e.loaded.isSome then s.goto t (afterLoad id enables)
      else if e.state = .FAILED ∧ e.hasEntry = false then s.goto t .idle
      else s.goto t (.create id enables)
  | .create id enables =>
    -- the library is opened, and closed again if anything in it is refused
    if choice.ok then
      { s with log := .created s.next::s.log, next := s.next+1 }.goto t
        (.getDriver id enables s.next)
    else s.goto t (.loadFailed id)
  | .getDriver id enables handle =>
    (s.callDriver choice handle).goto t (.store id enables ⟨handle,choice.present && choice.ok⟩)
  | .loadFailed id => (s.setState id .FAILED).goto t .idle
  | .store id enables loaded =>
    match s.entries id with
    | none => ((s.note (.destroyed loaded.handle)).note (.closed loaded.handle)).goto t .idle
    | some e =>
      -- assigning the new library closes the one that was there
      { s with log := closes (e.loaded.map Loaded.handle)++s.log }.setEntry id
        { e with loaded := some loaded, state := .INSTALLED } |>.goto t (afterLoad id enables)
  | .unload id found =>
    match s.entries id with
    | none => s.goto t (afterUnload found)
    | some e =>
      match e.loaded with
      | none => (s.setEntry id { e with state := .VALIDATED }).goto t (afterUnload found)
      | some loaded =>
        (s.setEntry id { e with loaded := none,state := .VALIDATED }).goto t
          (.stopping loaded found)
  | .stopping loaded found =>
    (if loaded.driver then s.callDriver choice loaded.handle else s).goto t
      (.destroying loaded.handle found)
  | .destroying handle found => (s.note (.destroyed handle)).goto t (.closing handle found)
  | .closing handle found => (s.note (.closed handle)).goto t (afterUnload found)
  | .enable id =>
    match s.entries id with
    | none => s.goto t .idle
    | some e =>
      if e.state = .RUNNING then (s.setEntry id { e with enabled := true }).goto t .idle
      else (s.setEntry id { e with enabled := true,state := .ENABLED }).goto t
        (match driverOf e with
          | none => .noDriver id
          | some handle => .setUp id handle)
  | .noDriver id => (s.setState id .RUNNING).goto t .idle
  | .setUp id handle =>
    (s.callDriver choice handle).goto t
      (if choice.present && !choice.ok then .started id false else .start id handle)
  | .start id handle =>
    (s.callDriver choice handle).goto t (.started id (!choice.present || choice.ok))
  | .started id ok => (s.setState id (if ok then .RUNNING else .ENABLED)).goto t .idle
  | .disable id =>
    match s.entries id with
    | none => s.goto t .idle
    | some e =>
      (s.setEntry id { e with enabled := false }).goto t
        (match driverOf e with
          | none => .disabled id
          | some handle => .stopDriver id handle)
  | .stopDriver id handle => (s.callDriver choice handle).goto t (.disabled id)
  | .disabled id => (s.setState id .DISABLED).goto t .idle
  | .health id =>
    s.goto t (match s.entries id with
      | none => .idle
      | some e =>
        if e.state ≠ .RUNNING then .idle
        else match driverOf e with
          | none => .idle
          | some handle => .probe id handle)
  | .probe _ handle => (s.callDriver choice handle).goto t .idle
  | .discover found => { s with entries := found.foldl discoverOne s.entries }.goto t .idle

def step (s : Manager Id Thread) : Step Id Thread → Manager Id Thread
  | .call t call =>
    match s.threads t with
    | .idle => s.goto t (begins call)
    | _ => s
  | .advance t choice => advance s t choice

/-! ## Who holds which instance -/

inductive Place (Id Thread : Type) where
  | entry (id : Id)
  | thread (t : Thread)
  deriving DecidableEq

/-- The instance a thread has in hand, before it is stored or after it was taken out. -/
def Point.held : Point Id → Option ℕ
  | .getDriver _ _ handle => some handle
  | .store _ _ loaded => some loaded.handle
  | .stopping loaded _ => some loaded.handle
  | .destroying handle _ => some handle
  | _ => none

def Point.closes : Point Id → Option ℕ
  | .closing handle _ => some handle
  | _ => none

def Entry.held (e : Entry) : Option ℕ := e.loaded.map Loaded.handle

def holder (s : Manager Id Thread) : Place Id Thread → Option ℕ
  | .entry id => (s.entries id).bind Entry.held
  | .thread t => (s.threads t).held

def closing (s : Manager Id Thread) : Place Id Thread → Option ℕ
  | .entry _ => none
  | .thread t => (s.threads t).closes

def ledger (s : Manager Id Thread) : Ledger (Place Id Thread) := ⟨holder s,closing s,s.log,s.next⟩

def callOps (choice : Choice) (handle : ℕ) : List (Op (Place Id Thread)) :=
  if choice.present then [.use handle] else []

def ops (s : Manager Id Thread) : Step Id Thread → List (Op (Place Id Thread))
  | .call _ _ => []
  | .advance t choice =>
    match s.threads t with
    | .create _ _ => if choice.ok then [.create (.thread t)] else []
    | .getDriver _ _ handle => callOps choice handle
    | .store id _ _ =>
      match s.entries id with
      | none => [.destroy (.thread t),.close (.thread t)]
      | some _ => [.move (.thread t) (.entry id)]
    | .unload id _ =>
      match s.entries id with
      | none => []
      | some e => if e.loaded.isSome then [.move (.entry id) (.thread t)] else []
    | .stopping loaded _ => if loaded.driver then callOps choice loaded.handle else []
    | .destroying _ _ => [.destroy (.thread t)]
    | .closing _ _ => [.close (.thread t)]
    | .setUp _ handle => callOps choice handle
    | .start _ handle => callOps choice handle
    | .stopDriver _ handle => callOps choice handle
    | .probe _ handle => callOps choice handle
    | _ => []

variable (s : Manager Id Thread) (choice : Choice) (id : Id) (t : Thread) (handle : ℕ)
  (p : Point Id)

theorem ledger_goto :
    ledger (s.goto t p) = ⟨update (holder s) (.thread t) p.held,
      update (closing s) (.thread t) p.closes,s.log,s.next⟩ := by
  have hh : holder (s.goto t p) = update (holder s) (.thread t) p.held := by
    funext place
    cases place with
    | entry id => simp [holder,goto]
    | thread u => by_cases hu : u = t <;> simp [holder,goto,hu]
  have hc : closing (s.goto t p) = update (closing s) (.thread t) p.closes := by
    funext place
    cases place with
    | entry id => simp [closing]
    | thread u => by_cases hu : u = t <;> simp [closing,goto,hu]
  unfold ledger
  rw [hh,hc]
  rfl

theorem ledger_set_entry (e : Entry) :
    ledger (s.setEntry id e) = ⟨update (holder s) (.entry id) e.held,closing s,s.log,s.next⟩ := by
  have hh : holder (s.setEntry id e) = update (holder s) (.entry id) e.held := by
    funext place
    cases place with
    | thread t => simp [holder,setEntry]
    | entry o => by_cases ho : o = id <;> simp [holder,setEntry,ho]
  have hc : closing (s.setEntry id e) = closing s := by
    funext place
    cases place <;> rfl
  unfold ledger
  rw [hh,hc]
  rfl

def EmptyHanded (p : Point Id) : Prop := p.held = none ∧ p.closes = none

theorem ledger_goto_same (hs : EmptyHanded (s.threads t)) (hp : EmptyHanded p) :
    ledger (s.goto t p) = ledger s := by
  have hh : p.held = holder s (.thread t : Place Id Thread) := hp.1.trans hs.1.symm
  have hc : p.closes = closing s (.thread t : Place Id Thread) := hp.2.trans hs.2.symm
  rw [ledger_goto,hh,hc,update_eq_self,update_eq_self]
  rfl

theorem ledger_set_entry_same {e e' : Entry} (he : s.entries id = some e)
    (hs : e'.loaded = e.loaded) :
    ledger (s.setEntry id e') = ledger s := by
  have hh : e'.held = holder s (.entry id : Place Id Thread) := by
    simp [holder,he,Entry.held,hs]
  rw [ledger_set_entry,hh,update_eq_self]
  rfl

theorem ledger_set_state (state : PluginState) : ledger (s.setState id state) = ledger s := by
  unfold setState
  cases he : s.entries id with
  | none => rfl
  | some e => exact ledger_set_entry_same s id he rfl

theorem ledger_call_driver :
    ledger (s.callDriver choice handle) = run apply (ledger s) (callOps choice handle) := by
  unfold callDriver callOps
  split_ifs <;> rfl

theorem discover_one_held (ens : Id → Option Entry) (found : Found Id) (id : Id) :
    (discoverOne ens found id).bind Entry.held = (ens id).bind Entry.held := by
  unfold discoverOne
  by_cases hid : id = found.id
  · subst hid
    cases ens found.id with
    | none => split_ifs <;> simp [Entry.held]
    | some e => split_ifs <;> simp [Entry.held]
  · split_ifs <;> simp [hid]

theorem discover_held (found : List (Found Id)) (ens : Id → Option Entry) (id : Id) :
    (found.foldl discoverOne ens id).bind Entry.held = (ens id).bind Entry.held := by
  induction found generalizing ens with
  | nil => rfl
  | cons first found ih => exact (ih (discoverOne ens first)).trans (discover_one_held ens first id)

omit [DecidableEq Thread] in
theorem ledger_discover (found : List (Found Id)) :
    ledger { s with entries := found.foldl discoverOne s.entries } = ledger s := by
  have hh : holder { s with entries := found.foldl discoverOne s.entries } = holder s := by
    funext place
    cases place with
    | entry id => exact discover_held found _ id
    | thread t => rfl
  have hc : closing { s with entries := found.foldl discoverOne s.entries } = closing s := by
    funext place
    cases place <;> rfl
  unfold ledger
  rw [hh,hc]

omit [DecidableEq Id] in
theorem begins_empty (call : Call Id) : EmptyHanded (begins call) := by
  cases call <;> exact ⟨rfl,rfl⟩

omit [DecidableEq Id] in
theorem after_load_empty (enables : Bool) : EmptyHanded (afterLoad id enables) := by
  cases enables <;> exact ⟨rfl,rfl⟩

omit [DecidableEq Id] in
theorem after_unload_empty (found : Option (List (Found Id))) : EmptyHanded (afterUnload found) := by
  cases found <;> exact ⟨rfl,rfl⟩

omit [DecidableEq Id] in
theorem call_driver_goto (t : Thread) (p : Point Id) :
    (s.callDriver choice handle).goto t p = (s.goto t p).callDriver choice handle := by
  unfold callDriver
  split_ifs <;> rfl

theorem ledger_called {t : Thread} {p : Point Id} (hs : EmptyHanded (s.threads t))
    (hp : EmptyHanded p) :
    ledger ((s.callDriver choice handle).goto t p) =
      run apply (ledger s) (callOps choice handle) := by
  rw [call_driver_goto,ledger_call_driver,ledger_goto_same s t p hs hp]

theorem ledger_entry_goto (e : Entry) (t : Thread) (p : Point Id) :
    ledger ((s.setEntry id e).goto t p) =
      ⟨update (update (holder s) (.entry id) e.held) (.thread t) p.held,
        update (closing s) (.thread t) p.closes,s.log,s.next⟩ := by
  have hs := ledger_set_entry s id e
  have hh := congrArg Ledger.holder hs
  have hc := congrArg Ledger.closing hs
  simp only [ledger] at hh hc
  rw [ledger_goto,hh,hc]
  rfl

variable {enables : Bool}

theorem ledger_stored {id : Id} {loaded : Loaded} (hp : s.threads t = .store id enables loaded)
    (choice : Choice) :
    ledger (advance s t choice) = run apply (ledger s) (ops s (.advance t choice)) := by
  have hh : holder s (.thread t : Place Id Thread) = some loaded.handle := by
    simp [holder,hp,Point.held]
  have hc : closing s (.thread t : Place Id Thread) = none := by
    simp [closing,hp,Point.closes]
  have hem : update (closing s) (.thread t) none = closing s := by
    rw [← hc,update_eq_self]
  simp only [advance,ops,hp]
  cases he : s.entries id with
  | none =>
    refine (ledger_goto _ t .idle).trans ?_
    simp only [run,apply,ledger,hh,update_self,update_idem]
    rfl
  | some e =>
    have hen : holder s (.entry id : Place Id Thread) = e.held := by simp [holder,he]
    obtain ⟨hn,hnn⟩ := after_load_empty id enables
    refine (ledger_entry_goto _ id _ t _).trans ?_
    rw [hn,hnn]
    simp only [run,apply,ledger,hh,hen]
    exact congrArg (fun closing => (⟨_,closing,_,_⟩ : Ledger (Place Id Thread))) hem

theorem ledger_taken {id : Id} {found : Option (List (Found Id))}
    (hp : s.threads t = .unload id found) (choice : Choice) :
    ledger (advance s t choice) = run apply (ledger s) (ops s (.advance t choice)) := by
  have hs : EmptyHanded (s.threads t) := by rw [hp]; exact ⟨rfl,rfl⟩
  have hh : holder s (.thread t : Place Id Thread) = none := hs.1
  have ha := after_unload_empty found
  simp only [advance,ops,hp]
  cases he : s.entries id with
  | none => exact ledger_goto_same s t _ hs ha
  | some e =>
    dsimp only
    cases hl : e.loaded with
    | none =>
      have hgo := ledger_goto_same (s.setEntry id { e with loaded := none,state := .VALIDATED }) t
        (afterUnload found) hs ha
      exact hgo.trans (ledger_set_entry_same s id he hl.symm)
    | some loaded =>
      have hen : holder s (.entry id : Place Id Thread) = some loaded.handle := by
        simp [holder,he,Entry.held,hl]
      have hc : closing s (.thread t : Place Id Thread) = none := hs.2
      have hem : update (closing s) (.thread t) none = closing s := by
        rw [← hc,update_eq_self]
      refine (ledger_entry_goto s id _ t _).trans ?_
      simp only [run,apply,ledger,hh,hen,Option.isSome_some,if_true]
      rw [update_comm (by simp)]
      exact congrArg (fun closing => (⟨_,closing,_,_⟩ : Ledger (Place Id Thread))) hem

theorem ledger_created {id : Id} (hp : s.threads t = .create id enables) (choice : Choice) :
    ledger (advance s t choice) = run apply (ledger s) (ops s (.advance t choice)) := by
  have hs : EmptyHanded (s.threads t) := by rw [hp]; exact ⟨rfl,rfl⟩
  have hc : closing s (.thread t : Place Id Thread) = none := hs.2
  have he : update (closing s) (.thread t) none = closing s := by
    rw [← hc,update_eq_self]
  simp only [advance,ops,hp]
  split_ifs
  · refine (ledger_goto _ t _).trans ?_
    exact congrArg (fun closing => (⟨_,closing,_,_⟩ : Ledger (Place Id Thread))) he
  · exact ledger_goto_same s t _ hs ⟨rfl,rfl⟩

theorem ledger_goto_held (hhl : p.held = (s.threads t).held) (hcl : p.closes = (s.threads t).closes) :
    ledger (s.goto t p) = ledger s := by
  have hh : p.held = holder s (.thread t : Place Id Thread) := hhl
  have hc : p.closes = closing s (.thread t : Place Id Thread) := hcl
  rw [ledger_goto,hh,hc,update_eq_self,update_eq_self]
  rfl

theorem ledger_released (choice : Choice)
    (h : (∃ loaded found, s.threads t = .stopping loaded found) ∨ (∃ handle found, s.threads t = .destroying handle found) ∨ ∃ handle found, s.threads t = .closing handle found) :
    ledger (advance s t choice) = run apply (ledger s) (ops s (.advance t choice)) := by
  rcases h with ⟨loaded,found,hp⟩ | ⟨handle,found,hp⟩ | ⟨handle,found,hp⟩ <;>
    simp only [advance,ops,hp]
  · have hgo := ledger_goto_held s t (.destroying loaded.handle found)
      (by simp [hp,Point.held]) (by simp [hp,Point.closes])
    split_ifs
    · rw [call_driver_goto,ledger_call_driver,hgo]
    · exact hgo
  · have hh : holder s (.thread t : Place Id Thread) = some handle := by
      simp [holder,hp,Point.held]
    refine (ledger_goto _ t _).trans ?_
    simp only [run,apply,ledger,hh]
    rfl
  · have hh : holder s (.thread t : Place Id Thread) = none := by
      simp [holder,hp,Point.held]
    have hc : closing s (.thread t : Place Id Thread) = some handle := by
      simp [closing,hp,Point.closes]
    have he : update (holder s) (.thread t) none = holder s := by
      rw [← hh,update_eq_self]
    obtain ⟨hn,hnn⟩ := after_unload_empty found
    refine (ledger_goto _ t _).trans ?_
    rw [hn,hnn]
    simp only [run,apply,ledger,hc]
    exact congrArg (fun holder => (⟨holder,_,_,_⟩ : Ledger (Place Id Thread))) he

variable {s t} {id : Id}

theorem ledger_entry_same {e e' : Entry} (hs : EmptyHanded (s.threads t))
    (he : s.entries id = some e) (hsm : e'.loaded = e.loaded) {p : Point Id} (hp : EmptyHanded p) :
    ledger ((s.setEntry id e').goto t p) = ledger s :=
  (ledger_goto_same (s.setEntry id e') t p hs hp).trans (ledger_set_entry_same s id he hsm)

omit [DecidableEq Thread] in
theorem set_state_threads (state : PluginState) : (s.setState id state).threads = s.threads := by
  unfold setState
  cases s.entries id <;> rfl

theorem ledger_state_same (hs : EmptyHanded (s.threads t)) (state : PluginState) :
    ledger ((s.setState id state).goto t .idle) = ledger s := by
  rw [ledger_goto_same _ t .idle (by rw [set_state_threads]; exact hs) ⟨rfl,rfl⟩]
  exact ledger_set_state s id state

theorem ledger_loading (hp : s.threads t = .load id enables) (choice : Choice) :
    ledger (advance s t choice) = ledger s := by
  have hs : EmptyHanded (s.threads t) := by rw [hp]; exact ⟨rfl,rfl⟩
  simp only [advance,hp]
  cases s.entries id with
  | none => exact ledger_goto_same s t _ hs ⟨rfl,rfl⟩
  | some e =>
    dsimp only
    split_ifs
    · exact ledger_goto_same s t _ hs (after_load_empty id enables)
    · exact ledger_goto_same s t _ hs ⟨rfl,rfl⟩
    · exact ledger_goto_same s t _ hs ⟨rfl,rfl⟩

theorem ledger_enabling (hp : s.threads t = .enable id) (choice : Choice) :
    ledger (advance s t choice) = ledger s := by
  have hs : EmptyHanded (s.threads t) := by rw [hp]; exact ⟨rfl,rfl⟩
  simp only [advance,hp]
  cases he : s.entries id with
  | none => exact ledger_goto_same s t _ hs ⟨rfl,rfl⟩
  | some e =>
    dsimp only
    split_ifs
    · exact ledger_entry_same hs he (by rfl) (by exact ⟨rfl,rfl⟩)
    · refine ledger_entry_same hs he (by rfl) ?_
      cases driverOf e <;> exact ⟨rfl,rfl⟩

theorem ledger_disabling (hp : s.threads t = .disable id) (choice : Choice) :
    ledger (advance s t choice) = ledger s := by
  have hs : EmptyHanded (s.threads t) := by rw [hp]; exact ⟨rfl,rfl⟩
  simp only [advance,hp]
  cases he : s.entries id with
  | none => exact ledger_goto_same s t _ hs ⟨rfl,rfl⟩
  | some e =>
    dsimp only
    refine ledger_entry_same hs he (by rfl) ?_
    cases driverOf e <;> exact ⟨rfl,rfl⟩

theorem ledger_health (hp : s.threads t = .health id) (choice : Choice) :
    ledger (advance s t choice) = ledger s := by
  have hs : EmptyHanded (s.threads t) := by rw [hp]; exact ⟨rfl,rfl⟩
  simp only [advance,hp]
  refine ledger_goto_same s t _ hs ?_
  cases s.entries id with
  | none => exact ⟨rfl,rfl⟩
  | some e =>
    dsimp only
    split_ifs
    · exact ⟨rfl,rfl⟩
    · cases driverOf e <;> exact ⟨rfl,rfl⟩

variable (s t)

theorem ledger_advance (choice : Choice) :
    ledger (advance s t choice) = run apply (ledger s) (ops s (.advance t choice)) := by
  have hs {p : Point Id} (h : s.threads t = p) (hp : EmptyHanded p) : EmptyHanded (s.threads t) :=
    h ▸ hp
  cases hpn : s.threads t with
  | idle => simp [advance,ops,hpn,run]
  | load id enables => simpa only [ops,hpn,run] using ledger_loading hpn choice
  | create id enables => exact ledger_created s t hpn choice
  | getDriver id enables handle =>
    have hgo := ledger_goto_held s t (.store id enables ⟨handle,choice.present && choice.ok⟩)
      (by simp [hpn,Point.held]) (by simp [hpn,Point.closes])
    simp only [advance,ops,hpn]
    rw [call_driver_goto,ledger_call_driver,hgo]
  | loadFailed id => simpa only [advance,ops,hpn,run] using ledger_state_same (hs hpn ⟨rfl,rfl⟩) _
  | store id enables loaded => exact ledger_stored s t hpn choice
  | unload id found => exact ledger_taken s t hpn choice
  | stopping loaded found => exact ledger_released s t choice (.inl ⟨loaded,found,hpn⟩)
  | destroying handle found =>
    exact ledger_released s t choice (.inr (.inl ⟨handle,found,hpn⟩))
  | closing handle found =>
    exact ledger_released s t choice (.inr (.inr ⟨handle,found,hpn⟩))
  | enable id => simpa only [ops,hpn,run] using ledger_enabling hpn choice
  | noDriver id => simpa only [advance,ops,hpn,run] using ledger_state_same (hs hpn ⟨rfl,rfl⟩) _
  | setUp id handle =>
    simp only [advance,ops,hpn]
    refine ledger_called s choice handle (hs hpn ⟨rfl,rfl⟩) ?_
    split_ifs <;> exact ⟨rfl,rfl⟩
  | start id handle =>
    simpa only [advance,ops,hpn] using ledger_called s choice handle (hs hpn ⟨rfl,rfl⟩) ⟨rfl,rfl⟩
  | started id ok => simpa only [advance,ops,hpn,run] using ledger_state_same (hs hpn ⟨rfl,rfl⟩) _
  | disable id => simpa only [ops,hpn,run] using ledger_disabling hpn choice
  | stopDriver id handle =>
    simpa only [advance,ops,hpn] using ledger_called s choice handle (hs hpn ⟨rfl,rfl⟩) ⟨rfl,rfl⟩
  | disabled id => simpa only [advance,ops,hpn,run] using ledger_state_same (hs hpn ⟨rfl,rfl⟩) _
  | health id => simpa only [ops,hpn,run] using ledger_health hpn choice
  | probe id handle =>
    simpa only [advance,ops,hpn] using ledger_called s choice handle (hs hpn ⟨rfl,rfl⟩) ⟨rfl,rfl⟩
  | discover found =>
    simp only [advance,ops,hpn,run]
    have hf := ledger_discover s found
    refine (ledger_goto_same _ t .idle ?_ ⟨rfl,rfl⟩).trans hf
    exact hs hpn ⟨rfl,rfl⟩

variable (e : Step Id Thread)

theorem ledger_step : ledger (step s e) = run apply (ledger s) (ops s e) := by
  cases e with
  | advance t choice => exact ledger_advance s t _
  | call t call =>
    cases hp : s.threads t <;> simp only [step,hp,ops,run]
    exact ledger_goto_same s t _ (by rw [hp]; exact ⟨rfl,rfl⟩) (begins_empty call)

theorem call_ops_free (l : Ledger (Place Id Thread)) :
    Runs.Meets apply Free l (callOps choice handle) := by
  unfold callOps
  split_ifs
  · exact ⟨trivial,trivial⟩
  · trivial

/-- A thread creates and destroys with free hands. -/
theorem ops_free : Runs.Meets apply Free (ledger s) (ops s e) := by
  cases e with
  | call t call => trivial
  | advance t choice =>
    cases hp : s.threads t with
    | create id enables =>
      simp only [ops,hp]
      split_ifs
      · exact ⟨by simp [Free,ledger,holder,hp,Point.held],trivial⟩
      · trivial
    | getDriver id enables handle =>
      simp only [ops,hp]
      exact call_ops_free _ _ _
    | store id enables loaded =>
      simp only [ops,hp]
      cases s.entries id with
      | none => exact ⟨by simp [Free,ledger,closing,hp,Point.closes],trivial,trivial⟩
      | some e => exact ⟨by simp [Free],trivial⟩
    | unload id found =>
      simp only [ops,hp]
      cases s.entries id with
      | none => trivial
      | some e =>
        dsimp only
        split_ifs
        · exact ⟨by simp [Free],trivial⟩
        · trivial
    | stopping loaded found =>
      simp only [ops,hp]
      split_ifs
      · exact call_ops_free _ _ _
      · trivial
    | destroying handle found =>
      simp only [ops,hp]
      exact ⟨by simp [Free,ledger,closing,hp,Point.closes],trivial⟩
    | closing handle found =>
      simp only [ops,hp]
      exact ⟨trivial,trivial⟩
    | setUp id handle => simpa only [ops,hp] using call_ops_free _ _ _
    | start id handle => simpa only [ops,hp] using call_ops_free _ _ _
    | stopDriver id handle => simpa only [ops,hp] using call_ops_free _ _ _
    | probe id handle => simpa only [ops,hp] using call_ops_free _ _ _
    | _ => simp only [ops,hp]; trivial

/-- The instance whose driver a thread has copied out of the record. -/
def Point.copied : Point Id → Option ℕ
  | .setUp _ handle => some handle
  | .start _ handle => some handle
  | .stopDriver _ handle => some handle
  | .probe _ handle => some handle
  | _ => none

/-- It was created, and neither a record nor a thread has it any more. -/
def Lost (s : Manager Id Thread) (handle : ℕ) : Prop :=
  .created handle ∈ s.log ∧ ∀ place, holder s place ≠ some handle

/-- A library is stored where there is none, and a driver that was copied out of a record is
called while the record, or a thread that unloads it, still has the instance. -/
def Undisturbed (s : Manager Id Thread) : Step Id Thread → Prop
  | .call _ _ => True
  | .advance t choice =>
    match s.threads t with
    | .store id _ _ => (s.entries id).bind Entry.held = none
    | p => choice.present = true → ∀ handle, p.copied = some handle → ¬Lost s handle

omit [DecidableEq Id] [DecidableEq Thread] in
theorem call_ops_allowed [DecidableEq (Place Id Thread)] (choice : Choice) (handle : ℕ)
    (l : Ledger (Place Id Thread)) :
    Runs.Meets apply Allowed l (callOps choice handle) ↔
      (choice.present = true → .destroyed handle ∉ l.log) := by
  unfold callOps
  cases choice.present <;> simp [Runs.Meets,Allowed]

variable {s}

/-- A driver in hand is called just when its instance is not lost. -/
theorem copied_allowed_iff (h : Sound (ledger s)) {t : Thread} {handle : ℕ}
    (hp : (s.threads t).copied = some handle) (choice : Choice) :
    Runs.Meets apply Allowed (ledger s) (callOps choice handle) ↔
      (choice.present = true → ∀ n, (s.threads t).copied = some n → ¬Lost s n) := by
  rw [call_ops_allowed,destroyed_iff h,hp]
  simp [Lost,ledger]

/-- The instance that a thread has in hand may be used. -/
theorem ops_allowed_iff (h : Sound (ledger s)) :
    Runs.Meets apply Allowed (ledger s) (ops s e) ↔ Undisturbed s e := by
  cases e with
  | call t call => exact iff_of_true trivial trivial
  | advance t choice =>
    have hcall {handle : ℕ} (hp : (s.threads t).copied = some handle) :=
      copied_allowed_iff h hp choice
    cases hp : s.threads t with
    | create id enables =>
      simp only [ops,Undisturbed,hp]
      split_ifs <;> simp [Runs.Meets,Allowed,Point.copied]
    | getDriver id enables handle =>
      simp only [ops,Undisturbed,hp]
      have hh : (ledger s).holder (.thread t) = some handle := by
        simp [ledger,holder,hp,Point.held]
      refine iff_of_true ?_ (by simp [Point.copied])
      exact (call_ops_allowed _ _ _).mpr (fun _ => (h.alive _ _ hh).2)
    | store id enables loaded =>
      simp only [ops,Undisturbed,hp]
      cases he : s.entries id with
      | none => exact iff_of_true ⟨trivial,trivial,trivial⟩ rfl
      | some e => simp [Runs.Meets,Allowed,ledger,holder,he]
    | unload id found =>
      simp only [ops,Undisturbed,hp]
      refine iff_of_true ?_ (by simp [Point.copied])
      cases s.entries id with
      | none => trivial
      | some e =>
        dsimp only
        split_ifs
        · exact ⟨by simp [Allowed,ledger,holder,hp,Point.held],trivial⟩
        · trivial
    | stopping loaded found =>
      simp only [ops,Undisturbed,hp]
      have hh : (ledger s).holder (.thread t) = some loaded.handle := by
        simp [ledger,holder,hp,Point.held]
      refine iff_of_true ?_ (by simp [Point.copied])
      split_ifs
      · exact (call_ops_allowed _ _ _).mpr (fun _ => (h.alive _ _ hh).2)
      · trivial
    | setUp id handle => simpa only [ops,Undisturbed,hp] using hcall (by rw [hp]; rfl)
    | start id handle => simpa only [ops,Undisturbed,hp] using hcall (by rw [hp]; rfl)
    | stopDriver id handle => simpa only [ops,Undisturbed,hp] using hcall (by rw [hp]; rfl)
    | probe id handle => simpa only [ops,Undisturbed,hp] using hcall (by rw [hp]; rfl)
    | _ => simp [ops,Undisturbed,hp,Runs.Meets,Allowed,Point.copied]

def unloaded (e : Entry) : Entry := { e with loaded := none }

def scanned (entries : Id → Option Entry) : Manager Id Thread :=
  ⟨fun id => (entries id).map unloaded,fun _ => .idle,[],0⟩

omit [DecidableEq Id] [DecidableEq Thread] in
theorem scanned_sound [DecidableEq (Place Id Thread)] (ens : Id → Option Entry) :
    Sound (ledger (scanned ens : Manager Id Thread)) := by
  have hn (p : Place Id Thread) : (ledger (scanned ens : Manager Id Thread)).holder p = none := by
    cases p with
    | thread t => rfl
    | entry id => cases he : ens id <;> simp [ledger,holder,scanned,he,unloaded,Entry.held]
  constructor
  case kept => exact ⟨trivial,by simp [ledger,scanned]⟩
  case unique => simp [hn]
  case alive => simp [hn]
  case ended =>
    intro p n hp
    cases p <;> simp [ledger,closing,scanned,Point.closes] at hp
  case fresh => simp [ledger,scanned]

/-- In every state of a run, instances are destroyed once, used only before, their libraries
are closed only after, and none is lost, exactly if no step is disturbed by another call. -/
theorem instances_kept_iff (entries : Id → Option Entry) (steps : List (Step Id Thread)) :
    (∀ before after, steps = before++after →
      Kept (ledger (Runs.run step (scanned entries : Manager Id Thread) before))) ↔
      Runs.Meets step Undisturbed (scanned entries : Manager Id Thread) steps := by
  refine Runs.always_iff_meets step Undisturbed (fun s => Sound (ledger s)) (fun s => Kept (ledger s))
    ?_ (fun _ h => h.kept) ?_ _ steps (scanned_sound entries)
  · intro s e hs hsf
    rw [ledger_step]
    exact sound_run (ops s e) _ hs (ops_free s e) ((ops_allowed_iff e hs).mpr hsf)
  · intro s e hs hn
    rw [ledger_step]
    exact not_kept_of_not_allowed _ _ hs (ops_free s e)
      (fun hm => hn ((ops_allowed_iff e hs).mp hm))

def validated : Unit → Option Entry := fun _ => some ⟨none,.VALIDATED,false,true⟩

/-- The next parts of a thread's call, with every function there and every answer good. -/
def proceed (t : Bool) (parts : ℕ) : List (Step Unit Bool) :=
  List.replicate parts (.advance t ⟨true,true⟩)

def twoLoads : List (Step Unit Bool) :=
  [.call false (.load ()),.call true (.load ())]++proceed false 1++proceed true 1++
    proceed false 3++proceed true 3

/-- One thread has copied the driver out of the record when the other unloads it. -/
def enableOvertaken : List (Step Unit Bool) :=
  [.call false (.enable ()),.call true (.unload ())]++proceed false 5++proceed true 4++
    proceed false 1

/-- Of two loads the second closes the library of the first, whose instance is never
destroyed; and a driver is initialised after its instance has been destroyed. -/
theorem instance_lost_or_used_late :
    ¬Kept (ledger (Runs.run step (scanned validated) twoLoads)) ∧
      ¬Kept (ledger (Runs.run step (scanned validated) enableOvertaken)) := by
  have hl : ¬Proper (Runs.run step (scanned validated) twoLoads).log := by decide +kernel
  have hlt : ¬Proper (Runs.run step (scanned validated) enableOvertaken).log := by
    decide +kernel
  exact ⟨fun h => hl h.proper,fun h => hlt h.proper⟩

end EMaster.PluginLifecycle
