import EMaster.ConnectivityLinks

/-!
# Broker sessions over whole histories

What the managers report about a connection, what the registry reports about its handle and
what the transport holds for it need not be the same. For each of the three comparisons the
operations that bring the difference about are the exact ones.
-/

set_option autoImplicit false

namespace EMaster.Connectivity
open KeyedTable Text List Managers Option

inductive Task where
  | create (id : Text) (config : Config)
  | start (k : Kind) (id : Text) (a : Answers)
  | stop (k : Kind) (id : Text) (a : Answers)
  | restart (k : Kind) (id : Text) (a : Answers)
  | destroy (k : Kind) (id : Text)
  | destroyOwner (k : Kind) (owner : Text)
  | setUp (k : Kind) (id : Text) (item : Item) (a : Answers)
  | takeDown (k : Kind) (id : Text) (slot : Slot) (a : Answers)
  | publish (k : Kind) (id : Text) (a : Answers)
  | request (id path method : Text) (reply : ℕ → Option ℕ)

def Managers.serve (m : Managers) : Task → Outcome
  | .create id config => m.create id config
  | .start k id a => m.start a k id
  | .stop k id a => m.stop a k id
  | .restart k id a => m.restart a k id
  | .destroy k id => m.destroy k id
  | .destroyOwner k owner => (m.destroyOwner k owner,none)
  | .setUp k id item a => m.setUp a k id item
  | .takeDown k id slot a => m.takeDown a k id slot
  | .publish k id a => m.publish a k id
  | .request id path method reply => m.request id path method reply

/-! ## A connection reported as connected -/

/-- The connection whose start has just failed at the connect or at the restore. -/
def Managers.failedStart (m : Managers) : Task → Option (Kind×Text)
  | .start k id a => if (m.start a k id).2 = some .transport then some (k,id) else none
  | .restart k id a =>
    if (m.stop a k id).2 = none ∧ (m.restart a k id).2 = some .transport then some (k,id) else none
  | _ => none

structure Watch where
  managers : Managers
  failed : Option (Kind×Text)

def Watch.step (w : Watch) (t : Task) : Watch := ⟨(w.managers.serve t).1,w.managers.failedStart t⟩

/-- A connected broker connection has a session with all that is recorded for it. -/
def Ready (m : Managers) : Prop :=
  ∀ k id c, k ≠ .rest → m.connections k id = some c → c.state = .connected →
    ∃ items, m.sessions k id = some items ∧ ∀ item ∈ c.recorded, item ∈ items

def Watch.Honest (w : Watch) : Prop :=
  Ready w.managers ∧ ∀ k id c, w.failed = some (k,id) → w.managers.connections k id = some c →
    c.state ≠ .connected

/-- A start restores all that is recorded, or is refused while the connection is down. -/
def Restores (m : Managers) : Task → Prop
  | .start k id a => ∀ c, k ≠ .rest → m.connections k id = some c →
      if a.connect then c.recorded.all a.restore else c.state ≠ .connected
  | .restart k id a => ∀ c, k ≠ .rest → m.connections k id = some c →
      a.disconnect → a.connect → c.recorded.all a.restore
  | _ => True

variable (m : Managers) (a : Answers) (k : Kind) (id : Text)

theorem ready_put {v : Option Connection} {w : Option (List Item)} (h : Ready m)
    (hat : ∀ c, k ≠ .rest → v = some c → c.state = .connected →
      ∃ items, w = some items ∧ ∀ item ∈ c.recorded, item ∈ items) : Ready (m.put k id v w) := by
  intro k' id' c hk hc hs
  simp only [put,setAt] at hc ⊢
  by_cases hp : k' = k ∧ id' = id
  · rw [if_pos hp] at hc ⊢
    exact hat c (hp.1 ▸ hk) hc hs
  · rw [if_neg hp] at hc ⊢
    exact h k' id' c hk hc hs

theorem connected_cases (act : Connection → Managers) :
    (∃ e, m.connected a k id act = (m,some e)) ∨ ∃ c, m.connections k id = some c ∧
      c.state = .connected ∧ m.connected a k id act = (act c,none) := by
  rw [connected]
  cases hc : m.connections k id with
  | none => exact .inl ⟨_,rfl⟩
  | some c =>
    dsimp only
    split_ifs with hs
    · exact .inl ⟨_,rfl⟩
    · exact .inl ⟨_,rfl⟩
    · exact .inr ⟨c,rfl,not_not.mp hs,rfl⟩

theorem ready_revise {chg : List Item → List Item} (h : Ready m)
    (hm : ∀ xs ys : List Item, xs ⊆ ys → chg xs ⊆ chg ys) :
    Ready (m.revise a k id chg).1 := by
  rw [revise]
  rcases connected_cases m a k id _ with ⟨e,he⟩ | ⟨c,hc,hs,hr⟩
  · rw [he]; exact h
  · rw [hr]
    refine ready_put m k id h fun c' hk hc' _ => ?_
    obtain ⟨items,hi,hsb⟩ := h k id c hk hc hs
    obtain rfl := some.inj hc'
    exact ⟨_,by rw [hi]; rfl,fun x hx => hm _ _ hsb hx⟩

theorem ready_stop (h : Ready m) : Ready (m.stop a k id).1 := by
  rcases stop_cases m a k id with ⟨e,he⟩ | ⟨c,w,_,hr,_⟩
  · rw [he]; exact h
  · rw [hr]
    refine ready_put m k id h fun c' _ hc' hs => ?_
    obtain rfl := some.inj hc'
    exact nomatch hs

theorem ready_start (h : Ready m) (hr : ∀ c, k ≠ .rest → m.connections k id = some c →
    a.connect → c.recorded.all a.restore) : Ready (m.start a k id).1 := by
  rcases start_cases m a k id with ⟨e,he,_⟩ | ⟨c,w,e,hc,hs,hcs⟩
  · rw [he]; exact h
  · rw [hs]
    refine ready_put m k id h fun c' hk hc' _ => ?_
    obtain ⟨_,ha,rfl,_⟩ := hcs.resolve_left (fun hr => hk hr.1)
    obtain rfl := some.inj hc'
    refine ⟨_,rfl,fun item hi => ?_⟩
    rwa [takeWhile_eq_self_iff.mpr (all_eq_true.mp (hr c hk hc ha))]

/-- A start that gets through but does not restore everything leaves the connection connected
without its complete session. -/
theorem start_breaks (h : ¬∀ c, k ≠ .rest → m.connections k id = some c →
    a.connect → c.recorded.all a.restore) : ¬Ready (m.start a k id).1 := by
  push Not at h
  obtain ⟨c,hk,hc,ha,hal⟩ := h
  intro hr
  have hs := hr k id { c with state := .connected } hk
  simp only [start,hc,hk,if_false,ha,Bool.not_true,Bool.false_eq_true,
    put,setAt,and_self,if_true] at hs
  obtain ⟨items,hi,hm⟩ := hs trivial trivial
  refine hal (all_eq_true.mpr fun item hit => ?_)
  exact mem_takeWhile_imp (some.inj hi ▸ hm item hit)

theorem restart_cases : ((m.stop a k id).2 ≠ none ∧ (m.restart a k id).1 = m) ∨
    ∃ c, m.connections k id = some c ∧ (k ≠ .rest → a.disconnect) ∧
      (m.stop a k id).2 = none ∧
      (m.stop a k id).1.connections k id = some { c with state := .disconnected } ∧
      m.restart a k id = (m.stop a k id).1.start a k id := by
  rw [restart]
  rcases stop_cases m a k id with ⟨e,he⟩ | ⟨c,w,hc,hr,hd⟩
  · rw [he]
    exact .inl ⟨nofun,rfl⟩
  · rw [hr]
    exact .inr ⟨c,hc,hd,rfl,by simp [put,setAt],rfl⟩

theorem ready_destroy_owner (own : Text) (h : Ready m) : Ready (m.destroyOwner k own) := by
  intro k' id' c hk hc
  simp only [destroyOwner] at hc
  split_ifs at hc
  · exact h k' id' c hk (eq_some_of_filter_eq_some hc)
  · exact h k' id' c hk hc

theorem request_cases (path method : Text) (reply : ℕ → Option ℕ) :
    (m.request id path method reply).1 = m ∧ (m.request id path method reply).2 ≠ some .transport ∨
    ∃ c, m.connections .rest id = some c ∧ c.state = .connected ∧
      m.request id path method reply =
        (m.write .rest id (some { c with state := .failed }),some .transport) := by
  simp only [request]
  cases m.connections .rest id with
  | none => exact .inl ⟨rfl,nofun⟩
  | some c =>
    dsimp only
    split_ifs with hs
    · exact .inl ⟨rfl,nofun⟩
    · exact .inl ⟨rfl,nofun⟩
    · cases attempts reply (min (c.config.maxRetries+1) (2^32-1)) with
      | some st => exact .inl ⟨rfl,nofun⟩
      | none => exact .inr ⟨c,rfl,not_not.mp hs,rfl⟩

theorem ready_serve {t : Task} (h : Ready m) (ht : Restores m t) : Ready (m.serve t).1 := by
  cases t with
  | create id cfg =>
    rw [serve]
    rcases create_cases m id cfg with ⟨e,he⟩ | hm
    · rw [he]; exact h
    · rw [hm]
      refine ready_put m _ id h fun c _ hc hs => ?_
      obtain rfl := some.inj hc
      simp only [initialState] at hs
      split_ifs at hs
  | start k id a =>
    refine ready_start m a k id h fun c hk hc hcn => ?_
    simpa [hcn] using ht c hk hc
  | stop k id a => exact ready_stop m a k id h
  | restart k id a =>
    rw [serve]
    rcases restart_cases m a k id with ⟨_,he⟩ | ⟨c,hc,hd,_,haf,hr⟩
    · rw [he]; exact h
    · rw [hr]
      refine ready_start _ a k id (ready_stop m a k id h) fun c' hk hc' ha => ?_
      obtain rfl := some.inj (haf.symm.trans hc')
      exact ht c hk hc (hd hk) ha
  | destroy k id =>
    rw [serve]
    rcases destroy_cases m k id with he | hr
    · rw [he]; exact h
    · rw [hr]; exact ready_put m k id h fun c _ hc _ => nomatch hc
  | destroyOwner k owner => exact ready_destroy_owner m k owner h
  | setUp k id item a =>
    rw [serve,setUp]
    split_ifs
    · exact h
    · refine ready_revise m a k id h fun xs ys hsb x hx => ?_
      rw [mem_record] at hx ⊢
      exact hx.imp_right (And.imp (fun ho => hsb ho) (Or.imp_left (fun ho => hsb ho)))
  | takeDown k id slot a =>
    rw [serve,takeDown]
    split_ifs
    · exact h
    · refine ready_revise m a k id h fun xs ys hsb x hx => ?_
      simp only [erase,mem_filter] at hx ⊢
      exact ⟨hsb hx.1,hx.2⟩
  | publish k id a =>
    rw [serve,publish]
    rcases connected_cases m a k id (fun _ => m) with ⟨e,he⟩ | ⟨c,_,_,hr⟩
    · rw [he]; exact h
    · rw [hr]; exact h
  | request id path method reply =>
    rw [serve]
    rcases request_cases m id path method reply with ⟨he,_⟩ | ⟨c,_,_,hr⟩
    · rw [he]; exact h
    · rw [hr]; exact ready_put m _ id h fun _ hk _ _ => absurd rfl hk

variable (w : Watch)

theorem honest_step {t : Task} (h : w.Honest) (ht : Restores w.managers t) : (w.step t).Honest := by
  refine ⟨ready_serve w.managers h.1 ht,fun k' id' c' hf hc' => ?_⟩
  cases t with
  | start k id a =>
    simp only [Watch.step,failedStart] at hf hc'
    split_ifs at hf with he
    obtain ⟨rfl,rfl⟩ := Prod.ext_iff.mp (some.inj hf)
    rcases start_cases w.managers a k id with ⟨e,hr,hd⟩ | ⟨c,v,e,hc,hr,⟨_,rfl⟩ | ⟨hk,ha,_,rfl⟩⟩
    · rw [hr] at he
      obtain ⟨hk,ha⟩ := hd (some.inj he)
      simp only [serve,hr] at hc'
      simpa [ha] using ht c' hk hc'
    · rw [hr] at he; exact nomatch he
    · rw [hr, if_pos (by simpa [ha] using ht c hk hc)] at he; exact nomatch he
  | restart k id a =>
    simp only [Watch.step,failedStart,serve] at hf hc'
    split_ifs at hf with he
    obtain ⟨rfl,rfl⟩ := Prod.ext_iff.mp (some.inj hf)
    obtain ⟨c,hc,hdw,_,haf,hr⟩ := (restart_cases w.managers a k id).resolve_left
      (fun hs => hs.1 he.1)
    rw [hr] at he hc'
    rcases start_cases _ a k id with ⟨e,hs,_⟩ | ⟨d,v,e,hd,hs,⟨_,rfl⟩ | ⟨hk,ha,_,rfl⟩⟩
    · rw [hs] at hc'
      simp [← some.inj (haf.symm.trans hc')]
    · rw [hs] at he; exact nomatch he.2
    · obtain rfl := some.inj (haf.symm.trans hd)
      rw [hs,if_pos (ht c hk hc (hdw hk) ha)] at he; exact nomatch he.2
  | _ => exact nomatch hf

theorem honest_breaks {t : Task} (ht : ¬Restores w.managers t) : ¬(w.step t).Honest := by
  intro h
  cases t with
  | start k id a =>
    refine ht fun c hk hc => ?_
    by_cases ha : a.connect = true
    · rw [if_pos ha]
      by_contra hal
      exact start_breaks w.managers a k id (fun hr => hal (hr c hk hc ha)) h.1
    · have hs : w.managers.start a k id = (w.managers,some .transport) := by
        simp [start,hc,hk,ha]
      rw [if_neg ha]
      exact h.2 k id c (by simp [Watch.step,failedStart,hs]) (by simp [Watch.step,serve,hs,hc])
  | restart k id a =>
    refine ht fun c hk hc hd ha => ?_
    have hs : (w.managers.stop a k id).2 = none := by simp [stop,hc,hk,hd]
    obtain ⟨c',hc',_,_,haf,hr⟩ := (restart_cases w.managers a k id).resolve_left
      (fun hst => hst.1 hs)
    obtain rfl := some.inj (hc.symm.trans hc')
    by_contra hal
    refine start_breaks (w.managers.stop a k id).1 a k id
      (fun hrs => hal (hrs { c with state := .disconnected } hk haf ha)) ?_
    rw [← hr]
    exact h.1
  | _ => exact ht trivial

/-- From managers without connections, a connection is reported as connected with its session
complete, and a failed start leaves it down, exactly as long as every start that gets through
restores all that is recorded and none is refused while the connection is up. -/
theorem connected_honest_iff (sessions : Shelf (List Item)) (ts : List Task) :
    (∀ us vs, ts = us++vs → (Runs.run Watch.step ⟨⟨fun _ _ => none,sessions⟩,none⟩ us).Honest) ↔
    Runs.Meets Watch.step (fun w => Restores w.managers) ⟨⟨fun _ _ => none,sessions⟩,none⟩ ts :=
  Runs.always_iff_meets Watch.step _ Watch.Honest Watch.Honest
    (fun w _ h ht => honest_step w h ht) (fun _ h => h) (fun w _ _ ht => honest_breaks w ht)
    _ ts ⟨fun _ _ _ _ hc => (nomatch hc),fun _ _ _ hf => nomatch hf⟩

def good : Answers := ⟨true,true,true,fun _ => true⟩

def broker : Config := ⟨"line","plc",1000,0,.mqtt "host" "client" 1883⟩

def topic : Item := .subscription "state" .atLeastOnce

/-- The broker refuses the one subscription after the restart. -/
theorem connected_without_subscription :
    let m := (Runs.run Watch.step ⟨⟨fun _ _ => none,fun _ _ => none⟩,none⟩
      [.create ['1'] broker,.start .mqtt ['1'] good,.setUp .mqtt ['1'] topic good,
        .restart .mqtt ['1'] { good with restore := fun _ => false }]).managers
    m.connections .mqtt ['1'] = some ⟨broker,.connected,[topic]⟩ ∧
    m.sessions .mqtt ['1'] = some [] := by
  decide +kernel

end EMaster.Connectivity
