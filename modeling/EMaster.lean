import EMaster.SecurityMiddleware
import EMaster.PluginDiscovery
import EMaster.UpdateSignature
import EMaster.UpdateCrash
import EMaster.UpdateTrial
import EMaster.ModbusRtuWrite
import EMaster.ModbusCodec
import EMaster.ModbusRtuCrc
import EMaster.ModbusClientStream
import EMaster.ModbusTcp
import EMaster.ZkOutputs
import EMaster.C3Reader
import EMaster.C3Scan
import EMaster.RTLogParser
import EMaster.ZkEvents
import EMaster.ZkStop
import EMaster.ModbusDeclarations
import EMaster.DayCompletion
import EMaster.SyncAgreement
import EMaster.AssignmentReport
import EMaster.AdminLoop
import EMaster.SqlDatabase
import EMaster.PluginHandlers
import EMaster.NativeDrivers
import EMaster.ModbusDriverStream
import EMaster.C3DriverStream
import EMaster.UpdateRequests
import EMaster.LuaModules
import EMaster.PackageRaces
import EMaster.LuaRestart
import EMaster.LuaRuntimes
import EMaster.LoginLockout
import EMaster.SessionHistory
import EMaster.UserAdmin
import EMaster.RateLimiter
import EMaster.MqInbox
import EMaster.MqConsumer
import EMaster.DynamicMasking
import EMaster.ApplicationConfig
import EMaster.ApplicationManager
import EMaster.CardFormat
import EMaster.ConnectivityRuns
