import EMaster.Connectivity

/-!
# One connection for every handle

Whatever is created, refused, started, stopped and destroyed, the handles of the registry and
the connections of the managers correspond.
-/

set_option autoImplicit false

namespace EMaster.Connectivity
open KeyedTable Text List Registry Option

def Managers.view {α : Type} (m : Managers) (f : Connection → α) (k : Kind) (id : Text) :
    Option α := (m.connections k id).map f

abbrev Managers.config (m : Managers) : Kind → Text → Option Config := m.view Connection.config

variable {α : Type} (f : Connection → α) (m : Managers) (a : Answers) (k : Kind) (id : Text)

theorem view_put (v : Option Connection) (w : Option (List Item)) :
    (m.put k id v w).view f = setAt (m.view f) k id (v.map f) := by
  funext k' id'
  simp only [Managers.view,Managers.put,setAt]
  split_ifs <;> rfl

theorem config_write (v : Option Connection) :
    (m.write k id v).config = setAt m.config k id (v.map Connection.config) :=
  view_put _ m k id v _

theorem view_kept {c c' : Connection} (w : Option (List Item))
    (h : m.connections k id = some c) (hc : f c' = f c) :
    (m.put k id (some c') w).view f = m.view f := by
  rw [view_put]
  funext k' id'
  rw [setAt]
  split_ifs with hat
  · rw [hat.1,hat.2,Managers.view,h,map_some,map_some,hc]
  · rfl

/-- A start that changes anything finds the connection and leaves it connected. -/
theorem start_cases :
    (∃ e, m.start a k id = (m,some e) ∧ (e = .transport → k ≠ .rest ∧ a.connect = false)) ∨
    ∃ c w e, m.connections k id = some c ∧
      m.start a k id = (m.put k id (some { c with state := .connected }) w,e) ∧
      (k = .rest ∧ e = none ∨ k ≠ .rest ∧ a.connect ∧
        w = some (c.recorded.takeWhile a.restore) ∧
        e = if c.recorded.all a.restore then none else some .transport) := by
  rw [Managers.start]
  cases hc : m.connections k id with
  | none => exact .inl ⟨_,rfl,nofun⟩
  | some c =>
    dsimp only
    by_cases hk : k = .rest
    · rw [if_pos hk]
      exact .inr ⟨c,_,_,rfl,rfl,.inl ⟨hk,rfl⟩⟩
    · rw [if_neg hk]
      cases ha : a.connect
      · exact .inl ⟨_,rfl,fun _ => ⟨hk,rfl⟩⟩
      · exact .inr ⟨c,_,_,rfl,rfl,.inr ⟨hk,rfl,rfl,rfl⟩⟩

theorem stop_cases : (∃ e, m.stop a k id = (m,some e)) ∨
    ∃ c w, m.connections k id = some c ∧
      m.stop a k id = (m.put k id (some { c with state := .disconnected }) w,none) ∧
      (k ≠ .rest → a.disconnect) := by
  rw [Managers.stop]
  cases hc : m.connections k id with
  | none => exact .inl ⟨_,rfl⟩
  | some c =>
    dsimp only
    by_cases hk : k = .rest
    · rw [if_pos hk]
      exact .inr ⟨c,_,rfl,rfl,fun h => absurd hk h⟩
    · rw [if_neg hk]
      cases ha : a.disconnect
      · exact .inl ⟨_,rfl⟩
      · exact .inr ⟨c,_,rfl,rfl,fun _ => rfl⟩

theorem start_config : (m.start a k id).1.config = m.config := by
  rcases start_cases m a k id with ⟨e,h,_⟩ | ⟨c,w,e,hc,h,_⟩ <;> rw [h]
  exact view_kept _ m k id w hc rfl

theorem stop_config : (m.stop a k id).1.config = m.config := by
  rcases stop_cases m a k id with ⟨e,h⟩ | ⟨c,w,hc,h,_⟩ <;> rw [h]
  exact view_kept _ m k id w hc rfl

theorem create_cases (config : Config) :
    (∃ e, m.create id config = (m,some e)) ∨ m.create id config = (m.write config.kind id
      (some ⟨config,Managers.initialState config.kind,[]⟩),none) := by
  rw [Managers.create]
  cases config.validate with
  | some e => exact .inl ⟨e,rfl⟩
  | none =>
    dsimp only
    split_ifs
    · exact .inl ⟨_,rfl⟩
    · exact .inr rfl

theorem destroy_cases : m.destroy k id = (m,some .notFound) ∨
    m.destroy k id = (m.write k id none,none) := by
  rw [Managers.destroy]
  cases m.connections k id with
  | none => exact .inl rfl
  | some c => exact .inr rfl

theorem destroy_owner_connections (own : Text) :
    (((m.destroyOwner .rest own).destroyOwner .mqtt own).destroyOwner .rabbitMq
      own).connections k id = (m.connections k id).filter (fun c => c.config.owner ≠ own) := by
  cases k <;> rfl

/-- Whose handle it is, and what it is called. -/
def Handle.tag (h : Handle) : Text×Text := (h.owner,h.name)

def Config.tag (c : Config) : Text×Text := (c.owner,c.name)

structure Linked (s : Runtime) : Prop where
  same : ∀ k i, (s.managers.config k (ofNat i)).map Config.tag =
    ((s.registry.get i).filter (fun h => h.kind = k)).map Handle.tag
  stray : ∀ k id, (∀ i, id ≠ ofNat i) → s.managers.config k id = none
  once : ∀ h ∈ s.registry.rows, ∀ g ∈ s.registry.rows, h.tag = g.tag → h = g

/-- What the registry knows of a number, without the state of the handle. -/
def Registry.named (r : Registry) (i : ℕ) : Option (Kind×Text×Text) :=
  (r.get i).map (fun h => (h.kind,h.tag))

variable (s : Runtime)

theorem linked_kept {r : Registry} (h : Linked s) (hm : m.config = s.managers.config)
    (hr : r.named = s.registry.named) : Linked ⟨r,m⟩ := by
  have hg : ∀ i, (r.get i).map (fun h => (h.kind,h.tag)) =
      (s.registry.get i).map (fun h => (h.kind,h.tag)) := fun i => congrFun hr i
  refine ⟨fun k i => ?_,fun k id hid => ?_,fun x hx y hy ht => ?_⟩
  · rw [hm,h.same]
    have := hg i
    cases hn : r.get i <;> cases ho : s.registry.get i <;> simp_all [Option.filter]
  · rw [hm]
    exact h.stray k id hid
  · have hf : ∀ z ∈ r.rows, ∃ w ∈ s.registry.rows, w.id = z.id ∧ w.tag = z.tag := by
      intro z hz
      have hz' := hg z.id
      rw [get_key r z hz] at hz'
      cases hw : s.registry.get z.id with
      | none => rw [hw] at hz'; exact nomatch hz'
      | some w =>
        obtain ⟨hmm,hid⟩ := (get_some _ _ _).mp hw
        rw [hw] at hz'
        exact ⟨w,hmm,hid,(Prod.ext_iff.mp (some.inj hz')).2.symm⟩
    obtain ⟨v,hv,hvd,hvt⟩ := hf x hx
    obtain ⟨w,hw,hwd,hwt⟩ := hf y hy
    have hs := h.once v hv w hw (by rw [hvt,hwt,ht])
    exact key_injective r x hx hy (by rw [← hvd,← hwd,hs])

theorem named_set_state (r : Registry) (i : ℕ) (state : HandleState) :
    (r.setState i state).named = r.named := by
  funext j
  rw [named,named,setState,get_modify]
  cases r.get j with
  | none => rfl
  | some h =>
    simp only [map_some,patchRow]
    split_ifs <;> rfl

theorem authorized_iff (r : Registry) (owner : Text) (i : ℕ) (h : Handle) :
    r.authorized owner i = some h ↔ r.get i = some h ∧ h.owner = owner := by
  constructor
  · intro hon
    obtain ⟨hm,hp⟩ := one_some r _ h hon
    obtain ⟨hid,ho⟩ := of_decide_eq_true hp
    exact ⟨(get_some r i h).mpr ⟨hm,hid⟩,ho⟩
  · rintro ⟨hgt,ho⟩
    obtain ⟨hm,hid⟩ := (get_some r i h).mp hgt
    cases hon : r.authorized owner i with
    | none => exact absurd ((one_none r _).mp hon h hm) (by simp [hid,ho])
    | some g =>
      obtain ⟨hg,hp⟩ := one_some r _ g hon
      rw [key_injective r g hg hm (by rw [hid]; exact (of_decide_eq_true hp).1)]

theorem get_fresh (r : Registry) : r.get (r.last+1) = none := by
  refine (one_none r _).mpr fun h hh => decide_eq_false fun hid => ?_
  have := r.bounded h hh
  omega

theorem get_push (r : Registry) (owner name : Text) (kind : Kind) (i : ℕ) :
    (r.push owner kind name).get i =
      if i = r.last+1 then some ⟨i,owner,name,kind,.created⟩ else r.get i :=
  get_insert r _ i

theorem get_refused (r : Registry) (own name : Text) (kind : Kind) (i : ℕ) :
    ((r.push own kind name).destroy own (r.last+1)).get i = r.get i := by
  rw [destroy,get_retain,get_push]
  by_cases hi : i = r.last+1
  · simp [hi,get_fresh]
  · rw [if_neg hi]
    cases hg : r.get i with
    | none => rfl
    | some h =>
      have hid : h.id ≠ r.last+1 := by rw [((get_some r i h).mp hg).2]; exact hi
      simp [hid]

variable (owner : Text)

/-- A create that is refused, by whichever side, leaves what the two sides hold. -/
theorem create_result (config : Config) :
    (∃ r e, s.create owner config = (⟨r,s.managers⟩,some e) ∧ s.registry.last ≤ r.last ∧
      ∀ i, r.get i = s.registry.get i) ∨
    config.owner = owner ∧ (∀ g ∈ s.registry.rows, g.tag ≠ (owner,config.name)) ∧
      s.create owner config = (⟨s.registry.push owner config.kind config.name,
        s.managers.write config.kind (ofNat (s.registry.last+1))
          (some ⟨config,Managers.initialState config.kind,[]⟩)⟩,none) := by
  have hs : ∀ e : Error, ∃ r e', (s,some e) = ((⟨r,s.managers⟩ : Runtime),some e') ∧
      s.registry.last ≤ r.last ∧ ∀ i, r.get i = s.registry.get i := fun e =>
    ⟨s.registry,e,rfl,le_rfl,fun _ => rfl⟩
  rw [Runtime.create,create]
  split_ifs with ho hb ht hl
  · exact .inl (hs _)
  · exact .inl (hs _)
  · exact .inl (hs _)
  · exact .inl (hs _)
  · dsimp only
    rcases create_cases _ _ _ with ⟨e,he⟩ | hm
    · rw [he]
      exact .inl ⟨_,_,rfl,Nat.le_succ _,get_refused _ owner _ _⟩
    · rw [hm]
      refine .inr ⟨not_not.mp ho,fun g hg htg => ?_,rfl⟩
      exact ht (any_eq_true.mpr ⟨g,hg,by simpa [Handle.tag] using htg⟩)

theorem linked_create (config : Config) (h : Linked s) : Linked (s.create owner config).1 := by
  rcases create_result s owner _ with ⟨r,e,hr,_,hg⟩ | ⟨ho,hf,hm⟩
  · rw [hr]
    exact linked_kept _ s h rfl (funext fun i => by rw [named,named,hg])
  · rw [hm]
    dsimp only
    have hfr := get_fresh s.registry
    refine ⟨fun k i => ?_,fun k id hid => ?_,fun x hx y hy ht => ?_⟩
    · rw [config_write,get_push,setAt]
      by_cases hi : i = s.registry.last+1
      · by_cases hk : k = config.kind
        · simp [hi,hk,Config.tag,Handle.tag,ho]
        · have hol := h.same k i
          rw [hi,hfr] at hol
          simpa [hi,hk,Option.filter,Ne.symm hk] using hol
      · rw [if_neg hi,if_neg (fun hat => hi (of_nat_injective hat.2))]
        exact h.same k i
    · rw [config_write,setAt,if_neg (fun hat => hid _ hat.2)]
      exact h.stray k id hid
    · rcases (mem_insert _ _ x).mp hx with hx | rfl <;>
        rcases (mem_insert _ _ y).mp hy with hy | rfl
      · exact h.once x hx y hy ht
      · exact absurd ht (hf x hx)
      · exact absurd ht.symm (hf y hy)
      · rfl

theorem linked_destroy {i : ℕ} {g : Handle} (h : Linked s)
    (hg : s.registry.get i = some g) (ho : g.owner = owner) :
    Linked ⟨s.registry.destroy owner i,s.managers.write g.kind (ofNat i) none⟩ := by
  refine ⟨fun k j => ?_,fun k id hid => ?_,fun x hx y hy => ?_⟩
  · rw [config_write,destroy,get_retain,setAt]
    by_cases hj : j = i
    · subst hj
      have hol := h.same k j
      have hid := ((get_some _ j g).mp hg).2
      by_cases hk : k = g.kind
      · simp [hk,hg,hid,ho]
      · simpa [hk,hg,hid,ho,Option.filter,Ne.symm hk] using hol
    · rw [if_neg (fun hat => hj (of_nat_injective hat.2)),h.same]
      cases hgt : s.registry.get j with
      | none => rfl
      | some x =>
        have hid : x.id ≠ i := by rw [((get_some _ j x).mp hgt).2]; exact hj
        simp [Option.filter,hid]
  · rw [config_write,setAt]
    split_ifs
    · rfl
    · exact h.stray k id hid
  · exact h.once x (mem_of_mem_filter hx) y (mem_of_mem_filter hy)

theorem linked_destroy_owner (h : Linked s) : Linked (s.perform (.destroyOwner owner)).1 := by
  have hcn : ∀ k id, (s.perform (.destroyOwner owner)).1.managers.config k id =
      (s.managers.config k id).filter (fun c => c.owner ≠ owner) := by
    intro k id
    simp only [Managers.config,Managers.view,Runtime.perform,destroy_owner_connections]
    cases s.managers.connections k id with
    | none => rfl
    | some c => simp only [Option.filter_some,Option.map_some]; split_ifs <;> rfl
  refine ⟨fun k i => ?_,fun k id hid => ?_,fun x hx y hy => ?_⟩
  · have hol := h.same k i
    rw [hcn]
    show _ = Option.map _ (Option.filter _ ((s.registry.retain _).get i))
    rw [get_retain]
    cases hg : s.registry.get i with
    | none =>
      rw [hg] at hol
      rw [Option.map_eq_none_iff.mp hol]
      rfl
    | some g =>
      rw [hg] at hol
      by_cases hk : g.kind = k
      · rw [Option.filter_some_pos (by simpa using hk)] at hol
        obtain ⟨c,hc,ht⟩ := Option.map_eq_some_iff.mp hol
        have how : c.owner = g.owner := congrArg Prod.fst ht
        by_cases ho : g.owner = owner <;> simp [hc,Option.filter,how,ho,hk,ht]
      · rw [Option.filter_some_neg (by simpa using hk)] at hol
        rw [Option.map_eq_none_iff.mp hol]
        by_cases ho : g.owner = owner <;> simp [Option.filter,ho,hk]
  · rw [hcn,h.stray k id hid]
    rfl
  · exact h.once x (mem_of_mem_filter hx) y (mem_of_mem_filter hy)

def step (s : Runtime) (op : Op) : Runtime := (s.perform op).1

/-- What an operation on a handle does, whose handle it is decided first. -/
theorem dispatch_cases (i : ℕ) (act : Kind → Text → Outcome)
    (settle : Registry → Registry) :
    s.dispatch owner i act settle = (s,some .invalidHandle) ∨
      ∃ g, s.registry.get i = some g ∧ g.owner = owner ∧
        ((∃ e, (act g.kind (ofNat i)).2 = some e ∧ s.dispatch owner i act settle =
            (⟨s.registry,(act g.kind (ofNat i)).1⟩,some (.connectivity e))) ∨
          (act g.kind (ofNat i)).2 = none ∧ s.dispatch owner i act settle =
            (⟨settle s.registry,(act g.kind (ofNat i)).1⟩,none)) := by
  rw [Runtime.dispatch]
  cases ha : s.registry.authorized owner i with
  | none => exact .inl rfl
  | some g =>
    obtain ⟨hg,ho⟩ := (authorized_iff _ owner i g).mp ha
    refine .inr ⟨g,hg,ho,?_⟩
    rcases hac : act g.kind (ofNat i) with ⟨m,_ | e⟩
    · exact .inr ⟨rfl,by dsimp only; rw [hac]⟩
    · exact .inl ⟨e,rfl,by dsimp only; rw [hac]⟩

theorem linked_dispatch (i : ℕ) {act : Kind → Text → Outcome} (state : HandleState)
    (ha : ∀ k id, (act k id).1.config = s.managers.config) (h : Linked s) :
    Linked (s.dispatch owner i act (·.setState i state)).1 := by
  rcases dispatch_cases s owner i act _ with hd |
    ⟨g,_,_,⟨e,_,hd⟩ | ⟨_,hd⟩⟩ <;> rw [hd]
  · exact h
  · exact linked_kept _ s h (ha _ _) rfl
  · exact linked_kept _ s h (ha _ _) (named_set_state _ i state)

theorem linked_step (op : Op) (h : Linked s) : Linked (step s op) := by
  cases op with
  | create owner cfg => exact linked_create s owner cfg h
  | start owner i a => exact linked_dispatch s owner i _ (start_config _ a) h
  | stop owner i a => exact linked_dispatch s owner i _ (stop_config _ a) h
  | destroy owner i =>
    rw [step,Runtime.perform]
    rcases dispatch_cases s owner i _ _ with hd |
      ⟨g,hgt,ho,⟨e,he,hd⟩ | ⟨he,hd⟩⟩ <;> rw [hd]
    · exact h
    · rcases destroy_cases _ _ _ with hn | hg
      · rw [hn]; exact h
      · rw [hg] at he; exact nomatch he
    · rcases destroy_cases _ _ _ with hn | hg
      · rw [hn] at he; exact nomatch he
      · rw [hg]
        exact linked_destroy s owner h hgt ho
  | destroyOwner owner => exact linked_destroy_owner s owner h

/-- A number given out before is only known as long as it has been known all along. -/
def Continues (r r' : Registry) : Prop :=
  r.last ≤ r'.last ∧ ∀ i ≤ r.last, ∀ t, r'.named i = some t → r.named i = some t

theorem Continues.trans {r r' r'' : Registry} (h : Continues r r') (h' : Continues r' r'') :
    Continues r r'' :=
  ⟨h.1.trans h'.1,fun i hi t ht => h.2 i hi t (h'.2 i (hi.trans h.1) t ht)⟩

variable (r : Registry)

theorem continues_refl : Continues r r := ⟨le_rfl,fun _ _ _ h => h⟩

theorem continues_retain (keep : Handle → Bool) : Continues r (r.retain keep) := by
  refine ⟨le_rfl,fun i _ t h => ?_⟩
  rw [named,get_retain] at h
  rw [named]
  cases hg : r.get i with
  | none => rw [hg] at h; exact nomatch h
  | some g =>
    rw [hg,filter_some] at h
    split_ifs at h
    · exact h
    · exact nomatch h

theorem continues_push (own name : Text) (kind : Kind) : Continues r (r.push own kind name) := by
  refine ⟨Nat.le_succ _,fun i hi t h => ?_⟩
  rw [named,get_push,if_neg (by omega)] at h
  exact h

theorem continues_dispatch (own : Text) (i : ℕ) (act : Kind → Text → Outcome)
    {settle : Registry → Registry} (h : Continues s.registry (settle s.registry)) :
    Continues s.registry (s.dispatch own i act settle).1.registry := by
  rcases dispatch_cases s own i act _ with hd | ⟨g,_,_,⟨e,_,hd⟩ | ⟨_,hd⟩⟩ <;> rw [hd]
  · exact continues_refl _
  · exact continues_refl _
  · exact h

theorem continues_step (op : Op) : Continues s.registry (step s op).registry := by
  have hs : ∀ i state, Continues s.registry (s.registry.setState i state) := fun i state =>
    ⟨le_rfl,fun _ _ _ h => by rwa [named_set_state] at h⟩
  cases op with
  | create owner cfg =>
    rw [step,Runtime.perform]
    rcases create_result s owner cfg with ⟨r,e,hr,hl,hg⟩ | ⟨_,_,hm⟩
    · rw [hr]
      exact ⟨hl,fun i _ t h => by rwa [named,hg] at h⟩
    · rw [hm]
      exact continues_push _ owner _ _
  | start owner i a => exact continues_dispatch s owner i _ (hs i _)
  | stop owner i a => exact continues_dispatch s owner i _ (hs i _)
  | destroy owner i => exact continues_dispatch s owner i _ (continues_retain _ _)
  | destroyOwner owner => exact continues_retain _ _

theorem linked_new : Linked .new :=
  ⟨fun _ _ => rfl,fun _ _ _ => rfl,fun _ h => absurd h not_mem_nil⟩

theorem linked_run (es : List Op) : Linked (Runs.run step .new es) :=
  Runs.run_invariant step _ _ (fun s op h _ => linked_step s op h) _ es
    linked_new (Runs.meets_of_forall _ _ _ _ (fun _ _ _ => trivial))

/-- In every run the handles and the connections correspond, a number given out does not come
back for anything else, and an operation on the handle of another owner does nothing. -/
theorem handles_and_connections (es fs : List Op) :
    Linked (Runs.run step .new es) ∧
    Continues (Runs.run step .new es).registry (Runs.run step .new (es++fs)).registry ∧
    ∀ h ∈ (Runs.run step .new es).registry.rows, ∀ owner, h.owner ≠ owner → ∀ a,
      ∀ op ∈ [Op.start owner h.id a,.stop owner h.id a,.destroy owner h.id],
        (Runs.run step .new es).perform op = (Runs.run step .new es,some .invalidHandle) := by
  refine ⟨linked_run es,?_,?_⟩
  · rw [Runs.run_append]
    exact Runs.run_invariant step _
      (fun s => Continues (Runs.run step .new es).registry s.registry)
      (fun s op h _ => h.trans (continues_step s op)) _ fs (continues_refl _)
      (Runs.meets_of_forall _ _ _ _ (fun _ _ _ => trivial))
  · intro h hh owner ho a op hop
    have hn : (Runs.run step .new es).registry.authorized owner h.id = none := by
      cases ha : (Runs.run step .new es).registry.authorized owner h.id with
      | none => rfl
      | some g =>
        obtain ⟨hgt,hg⟩ := (authorized_iff _ owner h.id g).mp ha
        rw [get_key _ h hh] at hgt
        exact absurd (by rw [Option.some.inj hgt,hg]) ho
    simp only [mem_cons,not_mem_nil,or_false] at hop
    rcases hop with rfl | rfl | rfl <;> simp only [Runtime.perform,Runtime.dispatch,hn]

end EMaster.Connectivity
