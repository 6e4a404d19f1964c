import EMaster.UpdateInstaller
import EMaster.Runs

/-!
# Boots after an installation

A boot runs the release that `current` names; what version that release reports is a
parameter. After an installation the new release is on trial until it is confirmed or the
boots run out. The rollback goes to the release recorded by the installation.
-/

set_option autoImplicit false

namespace EMaster.Updates
open Runs List

inductive Life where
  | boot
  | confirm
  deriving DecidableEq

def lifeStep (layout : Layout) (reports : Text → Text) (maxAttempts : ℤ) (d : Disk) : Life → Disk
  | .boot => (checkBoot layout d (reports d.current) maxAttempts).1
  | .confirm => confirmHealthy layout d (reports d.current)

def NotConfirmed (reports : Text → Text) (d : Disk) : Life → Prop
  | .boot => True
  | .confirm => d.state.pending = [] ∨ d.state.pending ≠ reports d.current

theorem safe_version_nonempty {ver : Text} (h : isSafeVersionString ver = true) : ver ≠ [] := by
  rintro rfl
  cases h

section Trial
variable (layout : Layout) (reports : Text → Text) (maxAttempts : ℤ)

def leftRunning (version : Text) (d : Disk) : List Life → ℕ
  | [] => 0
  | e::es =>
    (if e = .boot ∧ d.current = version ∧
        (checkBoot layout d (reports d.current) maxAttempts).2 = false then 1 else 0)+
      leftRunning version (lifeStep layout reports maxAttempts d e) es

structure TrialRules (version : Text) (d : Disk) : Prop where
  bounded : ∀ es, Meets (lifeStep layout reports maxAttempts) (NotConfirmed reports) d es →
    leftRunning layout reports maxAttempts version d es ≤ maxAttempts.toNat
  fallsBack : ∀ es, Meets (lifeStep layout reports maxAttempts) (NotConfirmed reports) d es →
    es.count .boot = maxAttempts.toNat+1 →
    (d.releases d.state.previous = true →
        (run (lifeStep layout reports maxAttempts) d es).current = d.state.previous) ∧
      (run (lifeStep layout reports maxAttempts) d es).state.pending = []
  confirmedKept : ∀ es fs,
    ¬NotConfirmed reports (run (lifeStep layout reports maxAttempts) d es) .confirm →
      (run (lifeStep layout reports maxAttempts) d (es++.confirm::fs)).current =
        (run (lifeStep layout reports maxAttempts) d es).current
  fallbackFree : ∀ es fs,
    (checkBoot layout (run (lifeStep layout reports maxAttempts) d es)
      (reports (run (lifeStep layout reports maxAttempts) d es).current) maxAttempts).2 = true →
      (run (lifeStep layout reports maxAttempts) d (es++.boot::fs)).state.pending = []

variable {layout reports maxAttempts}

theorem idle_boot {d : Disk} (running : Text) (h : d.state.pending = []) :
    checkBoot layout d running maxAttempts = (d,false) := by
  rw [checkBoot]
  exact if_pos (.inr h)

theorem idle_step {d : Disk} (e : Life) (h : d.state.pending = []) :
    lifeStep layout reports maxAttempts d e = d := by
  cases e with
  | boot => rw [lifeStep,idle_boot _ h]
  | confirm =>
    rw [lifeStep,confirmHealthy]
    exact if_pos (.inr (.inl h))

theorem idle_run (d : Disk) (es : List Life) (h : d.state.pending = []) :
    run (lifeStep layout reports maxAttempts) d es = d := by
  induction es with
  | nil => rfl
  | cons e es ih => rw [run,idle_step e h,ih]

theorem idle_other (ver : Text) (d : Disk) (es : List Life) (h : d.state.pending = [])
    (hv : d.current ≠ ver) : leftRunning layout reports maxAttempts ver d es = 0 := by
  induction es with
  | nil => rfl
  | cons e es ih =>
    rw [leftRunning,idle_step e h,ih]
    simp [hv]

theorem idle_same (ver : Text) (d : Disk) (n : ℕ) (h : d.state.pending = [])
    (hv : d.current = ver) :
    leftRunning layout reports maxAttempts ver d (List.replicate n .boot) = n := by
  induction n with
  | zero => rfl
  | succ n ih =>
    rw [replicate_succ,leftRunning,idle_step _ h,ih,idle_boot _ h]
    simp [hv]
    omega

theorem unconfirmed_step (d : Disk) (h : NotConfirmed reports d .confirm) :
    lifeStep layout reports maxAttempts d .confirm = d := by
  rw [lifeStep,confirmHealthy]
  exact if_pos (.inr h)

theorem confirm_clears (d : Disk) (hm : layout.managed = true)
    (h : ¬NotConfirmed reports d .confirm) :
    (lifeStep layout reports maxAttempts d .confirm).state.pending = [] ∧
      (lifeStep layout reports maxAttempts d .confirm).current = d.current := by
  have hng : ¬(layout.managed = false ∨ d.state.pending = [] ∨
      d.state.pending ≠ reports d.current) := by
    rintro (hf | hn)
    · rw [hm] at hf
      cases hf
    · exact h hn
  rw [lifeStep,confirmHealthy,if_neg hng]
  exact ⟨rfl,rfl⟩

theorem rolled_back_cleared {d : Disk} {running : Text}
    (h : (checkBoot layout d running maxAttempts).2 = true) :
    (checkBoot layout d running maxAttempts).1.state.pending = [] := by
  rw [checkBoot] at h ⊢
  split_ifs at h ⊢
  split at h
  · cases h
  · rfl

structure OnTrial (version previous : Text) (k : ℕ) (d : Disk) : Prop where
  current : d.current = version
  pending : d.state.pending = version
  previous : d.state.previous = previous
  attempts : d.state.attempts = k

section Boots
variable {ver prev : Text} {k : ℕ} {d : Disk} (hm : layout.managed = true)
  (hv : ver ≠ []) (h : OnTrial ver prev k d)
include hm hv h

theorem trial_started (running : Text) :
    checkBoot layout d running maxAttempts =
      if ver ≠ running then
        ({ d with state := { d.state with pending := [], lastResult := "abandoned" } },
          false)
      else if (k : ℤ)+1 ≤ maxAttempts then
        ({ d with state := { d.state with attempts := k+1 } },false)
      else if prev = [] then
        ({ d with state := { d.state with
            pending := []
            attempts := k+1
            lastResult := "failed-no-rollback-target" } },false)
      else
        match activate layout d prev with
        | none => (d,false)
        | some back =>
          ({ back with state := { d.state with
              pending := []
              attempts := 0
              lastResult := "rolled-back:"++running } },true) := by
  obtain ⟨_,rfl,rfl,ha⟩ := h
  have hng : ¬(layout.managed = false ∨ d.state.pending = []) := by
    rintro (hf | hn)
    · rw [hm] at hf
      cases hf
    · exact hv hn
  rw [checkBoot,← ha]
  exact if_neg hng

theorem trial_boot_abandoned (hr : reports ver ≠ ver) :
    (checkBoot layout d (reports d.current) maxAttempts).2 = false ∧
      (lifeStep layout reports maxAttempts d .boot).current = ver ∧
      (lifeStep layout reports maxAttempts d .boot).state.pending = [] := by
  rw [lifeStep,h.current,trial_started hm hv h,if_pos (Ne.symm hr)]
  exact ⟨rfl,h.current,rfl⟩

theorem trial_boot_counted (hr : reports ver = ver) (hk : (k : ℤ)+1 ≤ maxAttempts) :
    (checkBoot layout d (reports d.current) maxAttempts).2 = false ∧
      OnTrial ver prev (k+1) (lifeStep layout reports maxAttempts d .boot) ∧
      (lifeStep layout reports maxAttempts d .boot).releases = d.releases := by
  rw [lifeStep,h.current,hr,trial_started hm hv h,if_neg (not_not.mpr rfl),if_pos hk]
  refine ⟨rfl,⟨h.current,h.pending,h.previous,?_⟩,rfl⟩
  push_cast
  rfl

theorem trial_boot_untargeted (hr : reports ver = ver) (hk : ¬(k : ℤ)+1 ≤ maxAttempts)
    (hp : prev = []) :
    (checkBoot layout d (reports d.current) maxAttempts).2 = false ∧
      (lifeStep layout reports maxAttempts d .boot).current = ver ∧
      (lifeStep layout reports maxAttempts d .boot).state.pending = [] := by
  rw [lifeStep,h.current,hr,trial_started hm hv h,if_neg (not_not.mpr rfl),if_neg hk,if_pos hp]
  exact ⟨rfl,h.current,rfl⟩

theorem trial_boot_refused (hr : reports ver = ver) (hk : ¬(k : ℤ)+1 ≤ maxAttempts)
    (hp : prev ≠ []) (ha : activate layout d prev = none) :
    (checkBoot layout d (reports d.current) maxAttempts).2 = false ∧
      lifeStep layout reports maxAttempts d .boot = d := by
  rw [lifeStep,h.current,hr,trial_started hm hv h,if_neg (not_not.mpr rfl),if_neg hk,if_neg hp,ha]
  exact ⟨rfl,rfl⟩

theorem trial_boot_rolled (hr : reports ver = ver) (hk : ¬(k : ℤ)+1 ≤ maxAttempts)
    (hp : prev ≠ []) (hs : isSafeVersionString prev = true)
    (hi : d.releases prev = true) :
    (checkBoot layout d (reports d.current) maxAttempts).2 = true ∧
      (lifeStep layout reports maxAttempts d .boot).current = prev ∧
      (lifeStep layout reports maxAttempts d .boot).state.pending = [] := by
  have ha : activate layout d prev = some { d with current := prev } := by
    rw [activate,hm,hs,hi]
    rfl
  rw [lifeStep,h.current,hr,trial_started hm hv h,if_neg (not_not.mpr rfl),if_neg hk,if_neg hp,ha]
  exact ⟨rfl,rfl,rfl⟩

end Boots

section Sequences
variable {version prev : Text} (hm : layout.managed = true) (hv : version ≠ [])
include hm hv

theorem trial_runs (hr : reports version = version) (hp : prev ≠ [])
    (hs : isSafeVersionString prev = true) (hne : prev ≠ version) (es : List Life)
    (k : ℕ) (d : Disk) (h : OnTrial version prev k d) (hk : k ≤ maxAttempts.toNat)
    (hi : d.releases prev = true)
    (hes : Meets (lifeStep layout reports maxAttempts) (NotConfirmed reports) d es) :
    leftRunning layout reports maxAttempts version d es+k ≤ maxAttempts.toNat ∧
      (maxAttempts.toNat < es.count .boot+k →
        (run (lifeStep layout reports maxAttempts) d es).current = prev ∧
          (run (lifeStep layout reports maxAttempts) d es).state.pending = []) := by
  induction es generalizing k d with
  | nil =>
    simp [leftRunning]
    omega
  | cons e es ih =>
    cases e with
    | confirm =>
      have hst : lifeStep layout reports maxAttempts d .confirm = d := unconfirmed_step d hes.1
      rw [Meets,hst] at hes
      rw [leftRunning,run,hst]
      simpa using ih k d h hk hi hes.2
    | boot =>
      by_cases hl : (k : ℤ)+1 ≤ maxAttempts
      · obtain ⟨hlf,hon,hsm⟩ := trial_boot_counted hm hv h hr hl
        have hrs := ih (k+1) _ hon (by omega) (hsm ▸ hi) hes.2
        rw [leftRunning,run,if_pos ⟨rfl,h.current,hlf⟩,count_cons_self]
        constructor
        · omega
        · intro hmn
          exact hrs.2 (by omega)
      · obtain ⟨hrl,hb,hc⟩ := trial_boot_rolled hm hv h hr hl hp hs hi
        rw [leftRunning,run,idle_other version _ es hc (hb ▸ hne),hrl,idle_run _ es hc]
        refine ⟨by simpa using hk,fun _ => ⟨hb,hc⟩⟩

/-- Without a release that the rollback can activate the one on trial runs on. -/
theorem untargeted_left (hr : reports version = version) (n k : ℕ) (d : Disk)
    (h : OnTrial version prev k d)
    (ht : isSafeVersionString prev = true → d.releases prev = false) :
    leftRunning layout reports maxAttempts version d (List.replicate n .boot) = n := by
  induction n generalizing k d with
  | zero => rfl
  | succ n ih =>
    by_cases hls : (k : ℤ)+1 ≤ maxAttempts
    · obtain ⟨hl,hon,hrl⟩ := trial_boot_counted hm hv h hr hls
      rw [replicate_succ,leftRunning,if_pos ⟨rfl,h.current,hl⟩,ih (k+1) _ hon (hrl ▸ ht)]
      omega
    · by_cases hp : prev = []
      · obtain ⟨hl,hc,hcl⟩ := trial_boot_untargeted hm hv h hr hls hp
        rw [replicate_succ,leftRunning,if_pos ⟨rfl,h.current,hl⟩,idle_same version _ n hcl hc]
        omega
      · have ha : activate layout d prev = none := by
          rw [activate,if_neg]
          simp only [Bool.and_eq_true,not_and,Bool.not_eq_true]
          exact fun hs => ht hs.2
        obtain ⟨hl,hst⟩ := trial_boot_refused hm hv h hr hls hp ha
        rw [replicate_succ,leftRunning,if_pos ⟨rfl,h.current,hl⟩,hst,ih k d h ht]
        omega

theorem own_target_left (hr : reports version = version)
    (hs : isSafeVersionString version = true) (j n k : ℕ) (d : Disk)
    (h : OnTrial version version k d) (hj : j+k = maxAttempts.toNat)
    (hi : d.releases version = true) :
    leftRunning layout reports maxAttempts version d (List.replicate (j+1+n) .boot) = j+n := by
  induction j generalizing k d with
  | zero =>
    have hl : ¬(k : ℤ)+1 ≤ maxAttempts := by omega
    obtain ⟨hrl,hb,hc⟩ := trial_boot_rolled hm hv h hr hl hv hs hi
    rw [show 0+1+n = n+1 by omega,replicate_succ,leftRunning,idle_same version _ n hc hb,hrl]
    simp
  | succ j ih =>
    have hmr : (k : ℤ)+1 ≤ maxAttempts := by omega
    obtain ⟨hlf,hon,hsm⟩ := trial_boot_counted hm hv h hr hmr
    rw [show j+1+1+n = j+1+n+1 by omega,replicate_succ,leftRunning,
      if_pos ⟨rfl,h.current,hlf⟩,ih (k+1) _ hon (by omega) (hsm ▸ hi)]
    omega

theorem abandoned_left (hr : reports version ≠ version) {k : ℕ} (n : ℕ) {d : Disk}
    (h : OnTrial version prev k d) :
    leftRunning layout reports maxAttempts version d (List.replicate n .boot) = n := by
  cases n with
  | zero => rfl
  | succ n =>
    obtain ⟨hl,hc,hcl⟩ := trial_boot_abandoned hm hv h hr
    rw [replicate_succ,leftRunning,if_pos ⟨rfl,h.current,hl⟩,idle_same version _ n hcl hc]
    omega

/-- What a trial needs in order to end: the release reports the version it was installed
as, and the recorded release is another one, installed, whose name the activation accepts. -/
structure EndsTrial (reports : Text → Text) (version previous : Text) (d : Disk) : Prop where
  reported : reports version = version
  accepted : isSafeVersionString previous = true
  installed : d.releases previous = true
  other : previous ≠ version

theorem trial_rules_iff_ends (hs : isSafeVersionString version = true) {d : Disk}
    (h : OnTrial version prev 0 d) (hi : d.releases version = true) :
    TrialRules layout reports maxAttempts version d ↔ EndsTrial reports version prev d := by
  constructor
  · intro hru
    have hb (n : ℕ) : leftRunning layout reports maxAttempts version d
        (List.replicate n .boot) ≤ maxAttempts.toNat := by
      apply hru.bounded
      apply meets_of_forall
      intro e he s
      rw [(mem_replicate.mp he).2]
      trivial
    have hrp : reports version = version := by
      by_contra hr
      have := hb (maxAttempts.toNat+1)
      rw [abandoned_left hm hv hr _ h] at this
      omega
    have ht : isSafeVersionString prev = true ∧ d.releases prev = true := by
      by_contra hn
      have := hb (maxAttempts.toNat+1)
      rw [untargeted_left hm hv hrp _ 0 d h (by simpa using hn)] at this
      omega
    refine ⟨hrp,ht.1,ht.2,?_⟩
    rintro rfl
    have := hb (maxAttempts.toNat+1+1)
    rw [own_target_left hm hv hrp hs maxAttempts.toNat 1 0 d h rfl hi] at this
    omega
  · intro hen
    have hrn (es : List Life)
        (hes : Meets (lifeStep layout reports maxAttempts) (NotConfirmed reports) d es) :=
      trial_runs hm hv hen.reported (safe_version_nonempty hen.accepted) hen.accepted hen.other es
        0 d h (Nat.zero_le maxAttempts.toNat) hen.installed hes
    exact {
      bounded := fun es hes => (hrn es hes).1
      fallsBack := fun es hes hcn => by
        obtain ⟨hc,hp⟩ := (hrn es hes).2 (by omega)
        exact ⟨fun _ => hc.trans h.previous.symm,hp⟩
      confirmedKept := fun es fs hc => by
        obtain ⟨hcl,hsm⟩ := @confirm_clears layout reports maxAttempts _ hm hc
        rw [run_append,run,idle_run _ fs hcl,hsm]
      fallbackFree := fun es fs hrl => by
        have hcl := rolled_back_cleared hrl
        rw [run_append,run,lifeStep,idle_run _ fs hcl]
        exact hcl }

end Sequences

end Trial

def installedDisk (layout : Layout) (version now : Text) (d : Disk) : Disk :=
  diskAfter layout version now allSucceed d (installOps layout version allSucceed).length

section Installed
variable (layout : Layout) (version now : Text) (d : Disk) (hm : layout.managed = true)
  (hs : isSafeVersionString version = true)
include hm hs

variable {layout version}

theorem installed_ops : installOps layout version allSucceed =
    [.clearStaging,.makeStaging,.unpack,.removeDestination,.moveRelease,.dropStaging,.setMode,
      .seedData,.clearLink,.makeLink,.renameLink,.writeState,.renameState] := by
  rw [installOps,hm,hs]
  rfl

theorem installed_on_trial :
    OnTrial version (recordedPrevious layout d.state version) 0
      (installedDisk layout version now d) := by
  rw [installedDisk,diskAfter,take_length,installed_ops hm hs]
  exact ⟨rfl,rfl,rfl,rfl⟩

theorem installed_releases (r : Text) :
    (installedDisk layout version now d).releases r = true ↔ d.releases r = true ∨ r = version := by
  rw [installedDisk,diskAfter,take_length,installed_ops hm hs]
  by_cases hr : r = version <;> simp [perform,setRelease,hr]

end Installed

/-- Over every sequence of boots and confirmations after an installation, for any number of
attempts: the trial is bounded and ends in the rollback, a confirmed release stays and the
fallback is not on trial, exactly when the release reports its version and the recorded
release is another one that is installed and that the activation accepts. -/
theorem trial_rules_iff (layout : Layout) (reports : Text → Text) (maxAttempts : ℤ)
    (version now : Text) (d : Disk) (hm : layout.managed = true)
    (hs : isSafeVersionString version = true) :
    TrialRules layout reports maxAttempts version (installedDisk layout version now d) ↔
      EndsTrial reports version (recordedPrevious layout d.state version) d := by
  have hr := installed_releases now d hm hs
  rw [trial_rules_iff_ends hm (safe_version_nonempty hs) hs
    (installed_on_trial now d hm hs) ((hr version).mpr (Or.inr rfl))]
  constructor
  · rintro ⟨hrp,ha,hi,ho⟩
    exact ⟨hrp,ha,((hr _).mp hi).resolve_right ho,ho⟩
  · rintro ⟨hrp,ha,hi,ho⟩
    exact ⟨hrp,ha,(hr _).mpr (.inl hi),ho⟩

def oddRelease : Text := "1.0.0+build_7"

theorem early_release_rules :
    TrialRules (runningFrom firstRelease) id 2 nextRelease
      (installedDisk (runningFrom firstRelease) nextRelease [] (onlyRelease firstRelease)) :=
  (trial_rules_iff _ id 2 nextRelease [] _ rfl (by decide)).mpr
    ⟨rfl,by decide,by decide,by decide⟩

/-- The installation records a release whose name the activation refuses: three boots with
two attempts leave the new release running, on trial, though the old one is installed. -/
theorem odd_release_not_restored :
    recordedPrevious (runningFrom oddRelease) (onlyRelease oddRelease).state nextRelease =
        oddRelease ∧
      (onlyRelease oddRelease).releases oddRelease = true ∧
      ¬TrialRules (runningFrom oddRelease) id 2 nextRelease
        (installedDisk (runningFrom oddRelease) nextRelease [] (onlyRelease oddRelease)) := by
  refine ⟨by decide,by decide,fun h => ?_⟩
  have hp := (h.fallsBack (List.replicate 3 .boot) ⟨trivial,trivial,trivial,trivial⟩ rfl).2
  revert hp
  decide

/-- The release is taken for the one on trial: its first boot is counted, a confirmation
after it ends the trial, and no boot or confirmation gives the update up. -/
structure Recognised (layout : Layout) (reports : Text → Text) (maxAttempts : ℤ) (d : Disk) :
    Prop where
  counted : 1 ≤ maxAttempts → lifeStep layout reports maxAttempts d .boot =
    { d with state := { d.state with attempts := d.state.attempts+1 } }
  confirmed : 1 ≤ maxAttempts →
    (run (lifeStep layout reports maxAttempts) d [.boot,.confirm]).state.lastResult =
      "confirmed"
  kept : ∀ es, (run (lifeStep layout reports maxAttempts) d es).state.lastResult ≠
    "abandoned"

section Recognition
variable {layout : Layout} {reports : Text → Text} {most : ℤ} {ver : Text}

structure Known (version : Text) (d : Disk) : Prop where
  kept : d.state.lastResult ≠ "abandoned"
  pending : d.state.pending = [] ∨ d.state.pending = version ∧ d.current = version

theorem known_boot (hr : reports ver = ver) {d : Disk} (h : Known ver d) :
    Known ver (lifeStep layout reports most d .boot) := by
  obtain ⟨hk,hi | ⟨hp,hc⟩⟩ := h
  · rw [idle_step .boot hi]
    exact ⟨hk,.inl hi⟩
  · rw [lifeStep,hc,hr,checkBoot]
    split_ifs with hof ho hmr hn
    · exact ⟨hk,.inr ⟨hp,hc⟩⟩
    · exact absurd hp ho
    · exact ⟨hk,.inr ⟨hp,hc⟩⟩
    · exact ⟨show "failed-no-rollback-target".toList ≠ _ by decide,.inl rfl⟩
    · split
      · exact ⟨hk,.inr ⟨hp,hc⟩⟩
      · refine ⟨?_,.inl rfl⟩
        intro ha
        cases ha

theorem known_confirm {d : Disk} (h : Known ver d) :
    Known ver (lifeStep layout reports most d .confirm) := by
  rw [lifeStep,confirmHealthy]
  split_ifs
  · exact h
  · exact ⟨show "confirmed".toList ≠ _ by decide,.inl rfl⟩

theorem known_run (hr : reports ver = ver) {d : Disk} (es : List Life)
    (h : Known ver d) : Known ver (run (lifeStep layout reports most) d es) := by
  apply run_invariant _ _ (Known ver) _ d es h
  · exact meets_of_forall _ _ d es (fun _ _ _ => trivial)
  · intro s e hs _
    cases e with
    | boot => exact known_boot hr hs
    | confirm => exact known_confirm hs

end Recognition

/-- After an installation the release is recognised, on its first boot and by its
confirmation, exactly when it reports the very text it was installed as. -/
theorem recognised_iff (layout : Layout) (reports : Text → Text) (maxAttempts : ℤ)
    (version now : Text) (d : Disk) (hm : layout.managed = true)
    (hs : isSafeVersionString version = true) :
    Recognised layout reports maxAttempts (installedDisk layout version now d) ↔
      reports version = version := by
  have hv := safe_version_nonempty hs
  have h := installed_on_trial now d hm hs
  constructor
  · intro hrc
    by_contra hr
    apply hrc.kept [.boot]
    rw [run,run,lifeStep,h.current,trial_started hm hv h,if_pos (Ne.symm hr)]
  · intro hr
    have hrs : (installedDisk layout version now d).state.lastResult = [] := by
      rw [installedDisk,diskAfter,take_length,installed_ops hm hs]
      rfl
    have hc (hmn : 1 ≤ maxAttempts) : lifeStep layout reports maxAttempts
        (installedDisk layout version now d) .boot = { installedDisk layout version now d with
          state := { (installedDisk layout version now d).state with
            attempts := (installedDisk layout version now d).state.attempts+1 } } := by
      have hf : ((0 : ℕ) : ℤ)+1 ≤ maxAttempts := by omega
      conv_lhs => rw [lifeStep,h.current,hr,trial_started hm hv h,if_neg (not_not.mpr rfl),
        if_pos hf]
      rw [h.attempts]
    refine ⟨hc,?_,?_⟩
    · intro hmn
      rw [run,hc hmn,run,run,lifeStep,confirmHealthy,h.current,hr,if_neg]
      simp [hm,h.pending,hv]
    · intro es
      have hk : Known version (installedDisk layout version now d) :=
        ⟨by simp [hrs],Or.inr ⟨h.pending,h.current⟩⟩
      exact (known_run hr es hk).kept

def taggedRelease : Text := "v1.1.0"

theorem next_release_recognised :
    isNewer nextRelease firstRelease = true ∧
      (Recognised (runningFrom firstRelease) id 2
          (installedDisk (runningFrom firstRelease) nextRelease [] (onlyRelease firstRelease)) ↔
        id nextRelease = nextRelease) :=
  ⟨by decide,recognised_iff _ id 2 nextRelease [] _ rfl (by decide)⟩

/-- A manifest names the release by its tag and the release reports the number alone: the
update is given up on the first boot. -/
theorem tagged_release_abandoned :
    isNewer taggedRelease firstRelease = true ∧ isSafeVersionString taggedRelease = true ∧
      Version.parse taggedRelease = Version.parse nextRelease ∧
      (run (lifeStep (runningFrom firstRelease) (fun _ => nextRelease) 2)
        (installedDisk (runningFrom firstRelease) taggedRelease [] (onlyRelease firstRelease))
        [.boot]).state.lastResult = "abandoned" ∧
      (run (lifeStep (runningFrom firstRelease) (fun _ => nextRelease) 2)
        (installedDisk (runningFrom firstRelease) taggedRelease [] (onlyRelease firstRelease))
        [.boot]).state.pending = [] := by
  decide

end EMaster.Updates
