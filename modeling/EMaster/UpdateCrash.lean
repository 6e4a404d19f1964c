import EMaster.UpdateInstaller

/-!
# Interrupted installations

A release that was never confirmed is guarded when the state file names it as pending,
with a rollback target if there was one. The `current` link is renamed before the state
file, so between the two renames the new release is current and not on trial.
-/

set_option autoImplicit false

namespace EMaster.Updates
open List

/-- There is a release to fall back to: the running one, if it is another version, or the
one recorded before. -/
def hasTarget (layout : Layout) (before : BootState) (version : Text) : Bool :=
  (activeVersion layout ≠ [] && activeVersion layout ≠ version) || before.previous ≠ []

def targets (layout : Layout) (before : BootState) (version : Text) (old : Text → Bool) :
    Text → Bool :=
  fun r => if r = version then hasTarget layout before version else old r

def Guarded (confirmed target : Text → Bool) (d : Disk) : Prop :=
  confirmed d.current = true ∨
    d.state.pending = d.current ∧ (target d.current = true → d.state.previous ≠ [])

instance (confirmed target : Text → Bool) (d : Disk) : Decidable (Guarded confirmed target d) :=
  inferInstanceAs (Decidable (_ ∨ _))

/-- The link was renamed and the state file was not. -/
def InWindow (ops : List Op) : Prop := .renameLink ∈ ops ∧ .renameState ∉ ops

/-- The version that is being installed was confirmed before, or is on trial already. -/
def AlreadyGuarded (confirmed : Text → Bool) (layout : Layout) (before : BootState)
    (version : Text) : Prop :=
  confirmed version = true ∨ before.pending = version ∧
    (hasTarget layout before version = true → before.previous ≠ [])

/-- The state file is renamed after the link in every beginning of the operations. -/
def LinkFirst (ops : List Op) : Prop := ∀ n, .renameState ∈ ops.take n → .renameLink ∈ ops.take n

theorem link_first_absent {ops : List Op} (h : .renameState ∉ ops) : LinkFirst ops :=
  fun _ hm => absurd (mem_of_mem_take hm) h

theorem link_first_cons (op : Op) (ops : List Op) (hop : op ≠ .renameState)
    (h : LinkFirst ops ∨ op = .renameLink) : LinkFirst (op::ops) := by
  intro n hm
  cases n with
  | zero => cases hm
  | succ n =>
    rw [take_succ_cons] at hm ⊢
    rcases mem_cons.mp hm with he | hm
    · exact absurd he.symm hop
    · rcases h with h | rfl
      · exact mem_cons_of_mem _ (h n hm)
      · exact mem_cons_self

variable (o : Outcome)

theorem link_first_attempt (op : Op) (ops : List Op) (hop : op ≠ .renameState) (h : LinkFirst ops) : LinkFirst (attempt o op++ops) := by
  rw [attempt]
  split_ifs
  · exact link_first_cons op ops hop (.inl h)
  · exact h

theorem link_first_nil : LinkFirst [] := link_first_absent not_mem_nil

theorem link_first_only {op : Op} (hop : op ≠ .renameState) : LinkFirst (attempt o op) := by
  have h := link_first_attempt o op [] hop link_first_nil
  rwa [append_nil] at h

theorem link_first_ite (b : Bool) {ops o : List Op} (h : LinkFirst ops)
    (ho : LinkFirst o) : LinkFirst (if b then ops else o) := by
  cases b
  · exact ho
  · exact h

theorem swap_link_first : LinkFirst (swapOps o) := by
  apply link_first_attempt o .clearLink _ nofun
  apply link_first_ite _ _ link_first_nil
  apply link_first_cons .makeLink _ nofun (.inl _)
  apply link_first_ite
  · exact link_first_cons _ _ nofun (.inr rfl)
  · exact link_first_only o nofun

theorem activate_link_first : LinkFirst (activateOps o) :=
  link_first_attempt o _ _ nofun
    (link_first_attempt o _ _ nofun (link_first_attempt o _ _ nofun (swap_link_first o)))

theorem place_link_first : LinkFirst (placeOps o) := by
  apply link_first_attempt o .removeDestination _ nofun
  apply link_first_ite
  · exact link_first_cons _ _ nofun (.inl (activate_link_first o))
  · apply link_first_ite
    · exact link_first_cons _ _ nofun (.inl (activate_link_first o))
    · exact link_first_only o nofun

theorem unpack_link_first : LinkFirst (unpackOps o) := by
  apply link_first_attempt o .clearStaging _ nofun
  apply link_first_ite _ _ link_first_nil
  apply link_first_cons .makeStaging _ nofun (.inl _)
  apply link_first_ite _ _ link_first_nil
  apply link_first_cons .unpack _ nofun (.inl _)
  apply link_first_ite
  · exact place_link_first o
  · exact link_first_only o nofun

theorem install_link_first (layout : Layout) (ver : Text) (o : Outcome) :
    LinkFirst (installOps layout ver o) :=
  link_first_ite _ (unpack_link_first o) link_first_nil

theorem recorded_previous_target {layout : Layout} {before : BootState} {ver : Text}
    (h : hasTarget layout before ver = true) :
    recordedPrevious layout before ver ≠ [] := by
  rw [recordedPrevious]
  by_cases hs : activeVersion layout = [] ∨ activeVersion layout = ver
  · rw [if_pos hs]
    simp only [hasTarget,Bool.or_eq_true,Bool.and_eq_true,decide_eq_true_eq] at h
    rcases h with ⟨hne,ho⟩ | hp
    · exact absurd hs (not_or.mpr ⟨hne,ho⟩)
    · exact hp
  · rw [if_neg hs]
    exact (not_or.mp hs).1

/-- At every point of every installation the current release is confirmed or on trial,
exactly unless the point lies between the two renames and the version is new. -/
theorem interrupted_guarded_iff (layout : Layout) (version now : Text) (o : Outcome)
    (confirmed old : Text → Bool) (d : Disk) (n : ℕ)
    (h : Guarded confirmed (targets layout d.state version old) d) :
    Guarded confirmed (targets layout d.state version old) (diskAfter layout version now o d n) ↔
      (InWindow ((installOps layout version o).take n) →
        AlreadyGuarded confirmed layout d.state version) := by
  have hc := perform_current version (trialState layout d.state version now) d
    ((installOps layout version o).take n)
  have hs := perform_state version (trialState layout d.state version now) d
    ((installOps layout version o).take n)
  rw [Guarded,diskAfter,hc,hs]
  by_cases hl : .renameLink ∈ (installOps layout version o).take n
  · by_cases hwr : .renameState ∈ (installOps layout version o).take n
    · rw [if_pos hl,if_pos hwr]
      constructor
      · intro _ hw
        exact absurd hwr hw.2
      · intro _
        right
        refine ⟨rfl,?_⟩
        intro ht
        rw [targets,if_pos rfl] at ht
        exact recorded_previous_target ht
    · rw [if_pos hl,if_neg hwr,targets,if_pos rfl]
      constructor
      · intro hg _
        exact hg
      · intro hg
        exact hg ⟨hl,hwr⟩
  · have hwr : .renameState ∉ (installOps layout version o).take n :=
      fun hm => hl (install_link_first _ _ o n hm)
    rw [if_neg hl,if_neg hwr]
    constructor
    · intro _ hw
      exact absurd hw.1 hl
    · intro _
      exact h

def settledLayout : Layout := runningFrom firstRelease

def settledDisk : Disk := onlyRelease firstRelease

def onlyFirst (r : Text) : Bool := r = firstRelease

def settledTargets : Text → Bool :=
  targets settledLayout settledDisk.state nextRelease (fun _ => false)

theorem completed_install_guarded :
    Guarded onlyFirst settledTargets settledDisk ∧
      (Guarded onlyFirst settledTargets
          (diskAfter settledLayout nextRelease [] allSucceed settledDisk 13) ↔
        (InWindow ((installOps settledLayout nextRelease allSucceed).take 13) →
          AlreadyGuarded onlyFirst settledLayout settledDisk.state nextRelease)) :=
  ⟨by decide,interrupted_guarded_iff _ _ [] _ _ _ _ 13 (by decide)⟩

/-- Power is lost after the link was renamed: the new release boots and is not on trial. -/
theorem swapped_not_on_trial :
    Guarded onlyFirst settledTargets settledDisk ∧
      (diskAfter settledLayout nextRelease [] allSucceed settledDisk 11).current = nextRelease ∧
      (diskAfter settledLayout nextRelease [] allSucceed settledDisk 11).state.pending = [] ∧
      ¬Guarded onlyFirst settledTargets
        (diskAfter settledLayout nextRelease [] allSucceed settledDisk 11) := by
  decide

end EMaster.Updates
