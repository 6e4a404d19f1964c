import EMaster.Text

/-!
# Settings of the locker application

One record per section of the settings file, restricted to the keys that the
modelled functions read. A key that the source compares with `false` or `true`
is a Boolean after that comparison. Durations are whole seconds.
-/

set_option autoImplicit false

namespace EMaster.LockerConfig

inductive Space where
  | coil
  | discreteInput
  | inputRegister
  | holding
  deriving DecidableEq, Repr

structure AddressRange where
  (first last : ℤ)
  space : Space
  base : ℤ
  deriving DecidableEq, Repr

inductive AddressMode where
  | modicon
  | lockerIo
  | raw
  deriving DecidableEq, Repr

structure PlcSettings where
  addressMode : AddressMode
  addressRanges : List AddressRange

structure FemalePriority where
  enabled : Bool
  (first last : ℕ)

structure LockerSettings where
  (assignOnScan allowCrossType enforceBlock autoReclaim : Bool)
  contractorMode : ℤ
  holdHours : ℚ
  (doorOpenTimeout doorCloseTimeout : ℤ)
  femalePriority : FemalePriority

inductive OnRemoved where
  | release
  | keep
  deriving DecidableEq, Repr

structure SyncSettings where
  (assignOnSync allowEmptyList expireAtEndOfDay : Bool)
  onRemoved : Option OnRemoved

inductive ClockSetting where
  | text (value : Text)
  | minutes (value : ℤ)
  deriving DecidableEq, Repr

structure ContractorSettings where
  (enforceStartDate usageTimeoutEnabled allowOt overtimeExpiresDaily : Bool)
  (morningStart morningEnd afternoonStart afternoonEnd : Option ClockSetting)
  (completeScanCount completeScanTimeout : ℤ)

structure AdminSettings where
  enabled : Bool
  cards : List Text
  (unlockAllScanCount overrideTimeout : ℤ)
  (scanOpensExpired overrideExpired : Bool)

structure Block where
  id : ℕ
  type : Text
  deriving DecidableEq, Repr

structure Config where
  plc : PlcSettings
  locker : LockerSettings
  sync : SyncSettings
  contractor : ContractorSettings
  admin : AdminSettings
  defaultBlock : Option ℕ
  blocks : List Block

inductive Event where
  | ACCESS_GRANTED
  | ACCESS_DENIED
  | CARD_NOT_FOUND
  | CARD_INACTIVE
  | CARD_EXPIRED
  | NO_LOCKER_ASSIGNED
  | WRONG_LOCKER_TYPE
  | LOCKER_ERROR
  | USAGE_NOT_STARTED
  | USAGE_OUT_OF_HOURS
  | ADMIN_CARD_SCAN
  | ADMIN_SCAN_SEQUENCE
  | ADMIN_MODE_ENTER
  | ADMIN_OVERRIDE_ACCESS
  | ADMIN_OVERRIDE_DENIED
  | ADMIN_EXPIRED_LOCKER_OPEN
  deriving DecidableEq, Repr

def Config.block (config : Config) (blockId : ℕ) : Option Block :=
  config.blocks.find? (fun block => decide (block.id = blockId))

def cabinetConfig : Config where
  plc := ⟨.lockerIo,[]⟩
  locker := ⟨true,false,false,true,1,24,30,60,⟨false,1,6⟩⟩
  sync := ⟨true,false,true,some .release⟩
  contractor := ⟨true,false,true,true,none,none,none,none,3,10⟩
  admin := ⟨false,[],5,60,true,true⟩
  defaultBlock := some 1
  blocks := [⟨1,"employee"⟩]

end EMaster.LockerConfig
