import EMaster.OverrideFrame
import EMaster.Runs

/-!
# The admin machine in the main loop

Each pass polls the reader and then lets the machine time out. A pass may take any
time, so a card can be polled after its timeout has run out and before anybody
noticed. The cards handled so far are recorded beside the machine, and when the timeouts
were looked at since the last of them.
-/

set_option autoImplicit false

namespace EMaster.AdminLoop
open LockerTime LockerConfig Database Modbus List
open ContractorUsage AdminAccess Access OverrideFrame Runs

/-- One pass: what the poll finds, and when the timeouts are looked at after it. -/
structure Pass where
  clock : Clock
  answers : Answers
  db : Db
  runtime : Locker.Runtime
  sequence : Sequence
  card : Option (Text × Option ℕ)
  checkedAt : ℤ

structure Scan where
  code : Text
  time : ℤ
  deriving DecidableEq, Repr

def poll (config : Config) (s : AdminAccess.State) (p : Pass) : Option Presented :=
  p.card.map (fun card =>
    onCard config p.clock p.answers ⟨p.db,p.runtime,p.sequence,s⟩ card.1 card.2)

def afterPoll (config : Config) (s : AdminAccess.State) (p : Pass) : AdminAccess.State :=
  match poll config s p with
  | none => s
  | some presented => presented.state.admin

/-- The card this pass handles; an empty code is refused before anybody looks at it. -/
def scanOf (p : Pass) : Option Scan :=
  p.card.bind (fun card => if card.1 = [] then none else some ⟨card.1,p.clock.now⟩)

/-- The machine, the cards handled so far with the newest first, and when the timeouts were
looked at since then. -/
structure Loop where
  admin : AdminAccess.State
  cards : List Scan
  checks : List ℤ

def polled (config : Config) (s : Loop) (p : Pass) : Loop where
  admin := afterPoll config s.admin p
  cards := (scanOf p).toList++s.cards
  checks := if (scanOf p).isSome then [] else s.checks

def turn (config : Config) (scanTimeout : ℤ) (s : Loop) (p : Pass) : Loop :=
  let s := polled config s p
  { s with
    admin := (processTimeout scanTimeout s.admin p.checkedAt).1
    checks := p.checkedAt::s.checks }

def start : Loop := ⟨toNormal,[],[]⟩

variable (cfg : Config) (clk : Clock)

variable {p : Pass}

variable {scan : Scan}

variable {config : Config} {gap : ℤ} {s : Loop}

/-- Each of these scans, the newest first, comes in time after the one before. -/
def Spaced (scanTimeout : ℤ) (cards : List Scan) : Prop :=
  List.IsChain (fun later earlier => later.time-earlier.time ≤ scanTimeout) cards

/-- The last so many cards are scans of this admin card. -/
structure Repeated (config : Config) (code : Text) (count : ℕ) (cards : List Scan) : Prop where
  length : (cards.take count).length = count
  same : ∀ scan ∈ cards.take count,
    isAdminCard config scan.code = true ∧ normalizeCode scan.code = some code

variable {code : Text}

/-- If this pass polls a card more than so long after the card before, then the timeouts were
looked at in between when that time had already run out. -/
def Noticed (limit : ℤ) (s : Loop) (p : Pass) : Prop :=
  ∀ last ∈ s.cards.head?, ∀ scan ∈ scanOf p,
    limit < scan.time-last.time → ∃ t ∈ s.checks, limit < t-last.time

/-- No card is polled while a timeout has run out and nobody has looked. -/
def Prompt (config : Config) (scanTimeout : ℤ) (s : Loop) (p : Pass) : Prop :=
  Noticed scanTimeout s p ∧ Noticed config.admin.overrideTimeout s p

instance decidableNoticed (limit : ℤ) (s : Loop) (p : Pass) : Decidable (Noticed limit s p) :=
  inferInstanceAs (Decidable (∀ last ∈ s.cards.head?, ∀ scan ∈ scanOf p,
    limit < scan.time-last.time → ∃ t ∈ s.checks, limit < t-last.time))

instance decidablePrompt (config : Config) (scanTimeout : ℤ) (s : Loop) (p : Pass) :
    Decidable (Prompt config scanTimeout s p) :=
  inferInstanceAs (Decidable (Noticed scanTimeout s p ∧ Noticed config.admin.overrideTimeout s p))

def enters (config : Config) (s : AdminAccess.State) (p : Pass) : Bool :=
  !isOverrideActive s && isOverrideActive (afterPoll config s p)

def opensUnder (config : Config) (s : AdminAccess.State) (p : Pass) : Bool :=
  isOverrideActive s && (poll config s p).any (fun presented => !(pulses presented.writes).isEmpty)

/-- What the cards handled so far say about a pass: the mode is entered by the last
cards being so many scans of one admin card, each in time after the one before, and a
locker is opened in time after the last card. -/
structure InTime (config : Config) (scanTimeout : ℤ) (s : Loop) (p : Pass) : Prop where
  entered : enters config s.admin p = true →
    (∃ code, Repeated config code (scanTarget config) ((scanOf p).toList++s.cards)) ∧
      Spaced scanTimeout (((scanOf p).toList++s.cards).take (scanTarget config))
  opened : opensUnder config s.admin p = true → ∃ last, s.cards.head? = some last ∧
    p.clock.now ≤ last.time+config.admin.overrideTimeout

end EMaster.AdminLoop
