import EMaster.Runs

/-!
# Resources with one holder

Resources are numbered as they are created, and each is held in one place until it is
destroyed. A place that has destroyed a resource still has to close what the resource
lived in. Moving a resource to a place that already holds one closes what that one lives
in, and nobody holds it any more.
-/

set_option autoImplicit false

namespace EMaster.Custody
open List

variable {Place : Type*} [DecidableEq Place]

inductive Event where
  | created (n : ℕ)
  | used (n : ℕ)
  | destroyed (n : ℕ)
  | closed (n : ℕ)
  deriving DecidableEq, Repr

structure Ledger (Place : Type*) where
  (holder closing : Place → Option ℕ)
  log : List Event
  next : ℕ

inductive Op (Place : Type*) where
  | use (n : ℕ)
  | create (p : Place)
  | move (p q : Place)
  | destroy (p : Place)
  | close (p : Place)

def destroys (n : Option ℕ) : List Event := n.toList.map Event.destroyed

def closes (n : Option ℕ) : List Event := n.toList.map Event.closed

def apply (l : Ledger Place) : Op Place → Ledger Place
  | .use n => { l with log := .used n::l.log }
  | .create p =>
    ⟨Function.update l.holder p (some l.next),l.closing,.created l.next::l.log,l.next+1⟩
  | .move p q =>
    { l with
      holder := Function.update (Function.update l.holder q (l.holder p)) p none
      log := closes (l.holder q)++l.log }
  | .destroy p =>
    { l with
      holder := Function.update l.holder p none
      closing := Function.update l.closing p (l.holder p)
      log := destroys (l.holder p)++l.log }
  | .close p =>
    { l with
      closing := Function.update l.closing p none
      log := closes (l.closing p)++l.log }

/-- What may come after these events: a resource is destroyed once, nothing is used after
that, and what it lived in is closed after that. -/
def Fits (log : List Event) : Event → Prop
  | .created n => .created n ∉ log
  | .used n => .destroyed n ∉ log
  | .destroyed n => .created n ∈ log ∧ .destroyed n ∉ log
  | .closed n => .created n ∈ log → .destroyed n ∈ log

instance decidableFits (log : List Event) (e : Event) : Decidable (Fits log e) := by
  cases e <;> unfold Fits <;> infer_instance

def Proper : List Event → Prop
  | [] => True
  | e::log => Fits log e ∧ Proper log

instance decidableProper : DecidablePred Proper
  | [] => .isTrue trivial
  | e::log => @instDecidableAnd (Fits log e) (Proper log) _ (decidableProper log)

/-- Everything happened in order, and what was created is destroyed or still held. -/
structure Kept (l : Ledger Place) : Prop where
  proper : Proper l.log
  held : ∀ n, .created n ∈ l.log → .destroyed n ∈ l.log ∨ ∃ p, l.holder p = some n

/-- The places an operation works on are free for it. -/
def Free (l : Ledger Place) : Op Place → Prop
  | .create p => l.holder p = none
  | .move p q => p ≠ q
  | .destroy p => l.closing p = none
  | _ => True

/-- What is used has not been destroyed, and what is moved goes to an empty place. -/
def Allowed (l : Ledger Place) : Op Place → Prop
  | .use n => .destroyed n ∉ l.log
  | .move _ q => l.holder q = none
  | _ => True

structure Sound (l : Ledger Place) : Prop where
  kept : Kept l
  unique : ∀ p q n, l.holder p = some n → l.holder q = some n → p = q
  alive : ∀ p n, l.holder p = some n → .created n ∈ l.log ∧ .destroyed n ∉ l.log
  ended : ∀ p n, l.closing p = some n → .destroyed n ∈ l.log
  fresh : ∀ n, .created n ∈ l.log ∨ .destroyed n ∈ l.log → n < l.next

variable {l : Ledger Place} (p : Place)

theorem sound_use {n : ℕ} (h : Sound l) (hn : .destroyed n ∉ l.log) : Sound (apply l (.use n)) where
  kept := by
    refine ⟨⟨hn,h.kept.proper⟩,?_⟩
    intro m hm
    simpa [apply] using h.kept.held m (by simpa [apply] using hm)
  unique := h.unique
  alive p m hp := by simpa [apply] using h.alive p m hp
  ended p m hp := by simpa [apply] using h.ended p m hp
  fresh m hm := h.fresh m (by simpa [apply] using hm)

theorem sound_create (h : Sound l) (hp : l.holder p = none) : Sound (apply l (.create p)) := by
  have hnw : .created l.next ∉ l.log := fun hm => absurd (h.fresh l.next (.inl hm)) (by simp)
  have hl : .destroyed l.next ∉ l.log := fun hm => absurd (h.fresh l.next (.inr hm)) (by simp)
  have ho (q : Place) (n : ℕ) (hq : l.holder q = some n) : n ≠ l.next :=
    Nat.ne_of_lt (h.fresh n (.inl (h.alive q n hq).1))
  constructor
  case kept =>
    refine ⟨⟨hnw,h.kept.proper⟩,?_⟩
    intro n hn
    rcases mem_cons.mp hn with heq | hn
    · exact .inr ⟨p,by simp [apply,Event.created.inj heq]⟩
    · rcases h.kept.held n hn with hd | ⟨q,hq⟩
      · exact .inl (mem_cons_of_mem _ hd)
      · have hne : q ≠ p := fun heq => by simp [heq,hp] at hq
        exact .inr ⟨q,by simpa [apply,hne] using hq⟩
  case unique =>
    intro q r n hq hr
    by_cases hqp : q = p <;> by_cases hrp : r = p <;> simp_all [apply]
    · exact absurd rfl (ho r _ hr)
    · exact absurd rfl (ho q _ hq)
    · exact h.unique q r n hq hr
  case alive =>
    intro q n hq
    by_cases hqp : q = p
    · subst hqp
      have heq : l.next = n := by simpa [apply] using hq
      subst heq
      simpa [apply] using hl
    · have hq' : l.holder q = some n := by simpa [apply,hqp] using hq
      simpa [apply] using ⟨.inr (h.alive q n hq').1,(h.alive q n hq').2⟩
  case ended =>
    intro q n hq
    exact mem_cons_of_mem _ (h.ended q n hq)
  case fresh =>
    intro n hn
    have hold : n = l.next ∨ .created n ∈ l.log ∨ .destroyed n ∈ l.log := by
      simpa [apply,or_assoc] using hn
    rcases hold with rfl | hold
    · exact Nat.lt_succ_self _
    · exact Nat.lt_succ_of_lt (h.fresh n hold)

theorem sound_move {q : Place} (h : Sound l) (hpq : p ≠ q) (hq : l.holder q = none) :
    Sound (apply l (.move p q)) := by
  -- the resource is found where it was, or at the new place
  have hp (r : Place) (n : ℕ) : (apply l (.move p q)).holder r = some n ↔
      (r = q ∧ l.holder p = some n) ∨ (r ≠ q ∧ r ≠ p ∧ l.holder r = some n) := by
    by_cases hrp : r = p
    · subst hrp
      simp [apply,hpq]
    · by_cases hrq : r = q <;> simp [apply,hrp,hrq]
      simp [hpq.symm]
  have hl : (apply l (.move p q)).log = l.log := by simp [apply,hq,closes]
  constructor
  case kept =>
    refine ⟨by rw [hl]; exact h.kept.proper,?_⟩
    intro n hn
    rw [hl] at hn ⊢
    rcases h.kept.held n hn with hd | ⟨r,hr⟩
    · exact .inl hd
    · by_cases hrp : r = p
      · exact .inr ⟨q,(hp q n).mpr (.inl ⟨rfl,hrp ▸ hr⟩)⟩
      · have hrq : r ≠ q := fun heq => by simp [heq,hq] at hr
        exact .inr ⟨r,(hp r n).mpr (.inr ⟨hrq,hrp,hr⟩)⟩
  case unique =>
    intro r r' n hr hr'
    rcases (hp r n).mp hr with ⟨rfl,hn⟩ | ⟨_,hrp,hn⟩ <;>
      rcases (hp r' n).mp hr' with ⟨rfl,hn'⟩ | ⟨_,hrp',hn'⟩
    · rfl
    · exact absurd (h.unique r' p n hn' hn) hrp'
    · exact absurd (h.unique r p n hn hn') hrp
    · exact h.unique r r' n hn hn'
  case alive =>
    intro r n hr
    rw [hl]
    rcases (hp r n).mp hr with ⟨_,hn⟩ | ⟨_,_,hn⟩
    · exact h.alive p n hn
    · exact h.alive r n hn
  case ended =>
    intro r n hr
    rw [hl]
    exact h.ended r n hr
  case fresh =>
    intro n hn
    rw [hl] at hn
    exact h.fresh n hn

theorem sound_destroy (h : Sound l) (hp : l.closing p = none) : Sound (apply l (.destroy p)) := by
  cases hh : l.holder p with
  | none =>
    have hhl : Function.update l.holder p none = l.holder := by
      rw [← hh,Function.update_eq_self]
    have hc : Function.update l.closing p none = l.closing := by
      rw [← hp,Function.update_eq_self]
    have hs : apply l (.destroy p) = l := by
      simp [apply,hh,destroys,hhl,hc]
    rwa [hs]
  | some n =>
    have hl : (apply l (.destroy p)).log = .destroyed n::l.log := by
      simp [apply,hh,destroys]
    have hpl (r : Place) (m : ℕ) : (apply l (.destroy p)).holder r = some m ↔
        r ≠ p ∧ l.holder r = some m := by
      by_cases hrp : r = p <;> simp [apply,hrp]
    have ha := h.alive p n hh
    constructor
    case kept =>
      refine ⟨by rw [hl]; exact ⟨ha,h.kept.proper⟩,?_⟩
      intro m hm
      rw [hl] at hm ⊢
      rcases h.kept.held m (by simpa using hm) with hd | ⟨r,hr⟩
      · exact .inl (mem_cons_of_mem _ hd)
      · by_cases hrp : r = p
        · subst hrp
          obtain rfl := Option.some.inj (hh.symm.trans hr)
          exact .inl mem_cons_self
        · exact .inr ⟨r,(hpl r m).mpr ⟨hrp,hr⟩⟩
    case unique =>
      intro r r' m hr hr'
      exact h.unique r r' m ((hpl r m).mp hr).2 ((hpl r' m).mp hr').2
    case alive =>
      intro r m hr
      obtain ⟨hrp,hm⟩ := (hpl r m).mp hr
      have hne : m ≠ n := fun heq => hrp (h.unique r p m hm (heq ▸ hh))
      rw [hl]
      simpa [hne] using h.alive r m hm
    case ended =>
      intro r m hr
      rw [hl]
      by_cases hrp : r = p
      · have heq : n = m := by simpa [apply,hrp,hh] using hr
        simp [heq]
      · have hm : l.closing r = some m := by simpa [apply,hrp] using hr
        exact mem_cons_of_mem _ (h.ended r m hm)
    case fresh =>
      intro m hm
      rw [hl] at hm
      have hold : m = n ∨ .created m ∈ l.log ∨ .destroyed m ∈ l.log := by
        simp only [mem_cons,reduceCtorEq,false_or,Event.destroyed.injEq] at hm
        tauto
      rcases hold with rfl | hold
      · exact h.fresh m (.inl ha.1)
      · exact h.fresh m hold

theorem sound_close (h : Sound l) : Sound (apply l (.close p)) := by
  have hm (e : Event) (he : ∀ n, e ≠ .closed n) : e ∈ (apply l (.close p)).log ↔ e ∈ l.log := by
    cases hc : l.closing p <;> simp [apply,hc,closes,he]
  have hcr (n : ℕ) := hm (.created n) (by simp)
  have hd (n : ℕ) := hm (.destroyed n) (by simp)
  constructor
  case kept =>
    refine ⟨?_,?_⟩
    · cases hc : l.closing p with
      | none => simpa [apply,hc,closes] using h.kept.proper
      | some n =>
        have hp : Proper (.closed n::l.log) := ⟨fun _ => h.ended p n hc,h.kept.proper⟩
        simpa [apply,hc,closes] using hp
    · intro n hn
      rw [hcr] at hn
      rw [hd]
      exact h.kept.held n hn
  case unique => exact h.unique
  case alive =>
    intro r n hr
    rw [hcr,hd]
    exact h.alive r n hr
  case ended =>
    intro r n hr
    rw [hd]
    by_cases hrp : r = p
    · simp [apply,hrp] at hr
    · exact h.ended r n (by simpa [apply,hrp] using hr)
  case fresh =>
    intro n hn
    rw [hcr,hd] at hn
    exact h.fresh n hn

theorem sound_apply (op : Op Place) (h : Sound l) (hf : Free l op) (ha : Allowed l op) :
    Sound (apply l op) := by
  cases op with
  | use n => exact sound_use h ha
  | create p => exact sound_create p h hf
  | move p q => exact sound_move p h hf ha
  | destroy p => exact sound_destroy p h hf
  | close p => exact sound_close p h

theorem not_proper_of_not_allowed (op : Op Place) (h : Sound l) (hnt : ¬Allowed l op) :
    ¬Proper (apply l op).log := by
  cases op with
  | use n => exact fun hp => hnt hp.1
  | move p q =>
    intro hp
    obtain ⟨n,hn⟩ := Option.ne_none_iff_exists'.mp hnt
    obtain ⟨hc,hl⟩ := h.alive q n hn
    have hlg : (apply l (.move p q)).log = .closed n::l.log := by simp [apply,hn,closes]
    rw [hlg] at hp
    exact hl (hp.1 hc)
  | create p => exact absurd trivial hnt
  | destroy p => exact absurd trivial hnt
  | close p => exact absurd trivial hnt

theorem proper_of_append (later log : List Event) (h : Proper (later++log)) : Proper log := by
  induction later with
  | nil => exact h
  | cons e later ih => exact ih h.2

theorem apply_log (l : Ledger Place) (op : Op Place) : ∃ later, (apply l op).log = later++l.log := by
  cases op with
  | use n => exact ⟨[.used n],rfl⟩
  | create p => exact ⟨[.created l.next],rfl⟩
  | move p q => exact ⟨closes (l.holder q),rfl⟩
  | destroy p => exact ⟨destroys (l.holder p),rfl⟩
  | close p => exact ⟨closes (l.closing p),rfl⟩

variable (ops : List (Op Place))

theorem proper_of_run (l : Ledger Place) (h : Proper (Runs.run apply l ops).log) : Proper l.log := by
  induction ops generalizing l with
  | nil => exact h
  | cons op ops ih =>
    obtain ⟨later,hl⟩ := apply_log l op
    have hn := ih (apply l op) h
    rw [hl] at hn
    exact proper_of_append later l.log hn

theorem destroyed_created {log : List Event} {n : ℕ} (h : Proper log) (hd : .destroyed n ∈ log) :
    .created n ∈ log := by
  induction log with
  | nil => cases hd
  | cons e log ih =>
    rcases mem_cons.mp hd with rfl | hd
    · exact mem_cons_of_mem _ h.1.1
    · exact mem_cons_of_mem _ (ih h.2 hd)

omit [DecidableEq Place] in
/-- What was created is destroyed once nobody holds it any more. -/
theorem destroyed_iff {n : ℕ} (h : Sound l) :
    .destroyed n ∈ l.log ↔ .created n ∈ l.log ∧ ∀ p, l.holder p ≠ some n := by
  constructor
  · exact fun hd => ⟨destroyed_created h.kept.proper hd,fun p hp => (h.alive p n hp).2 hd⟩
  · rintro ⟨hc,hn⟩
    exact (h.kept.held n hc).resolve_right fun ⟨p,hp⟩ => hn p hp

theorem sound_run (l : Ledger Place) (h : Sound l) (hf : Runs.Meets apply Free l ops)
    (ha : Runs.Meets apply Allowed l ops) : Sound (Runs.run apply l ops) := by
  induction ops generalizing l with
  | nil => exact h
  | cons op ops ih =>
    exact ih (apply l op) (sound_apply op h hf.1 ha.1) hf.2 ha.2

theorem not_kept_of_not_allowed (l : Ledger Place) (h : Sound l) (hf : Runs.Meets apply Free l ops)
    (hn : ¬Runs.Meets apply Allowed l ops) : ¬Kept (Runs.run apply l ops) := by
  induction ops generalizing l with
  | nil => exact absurd trivial hn
  | cons op ops ih =>
    by_cases hop : Allowed l op
    · have hrs : ¬Runs.Meets apply Allowed (apply l op) ops := fun hr => hn ⟨hop,hr⟩
      exact ih (apply l op) (sound_apply op h hf.1 hop) hf.2 hrs
    · intro hk
      exact not_proper_of_not_allowed op h hop (proper_of_run ops _ hk.proper)

end EMaster.Custody
