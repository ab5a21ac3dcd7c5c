import Urheilulaatikko.Lib.Trace
import Urheilulaatikko.Lib.Simulation
import Urheilulaatikko.Lib.Progress
import Urheilulaatikko.Lib.Broadcast
import Urheilulaatikko.Lib.TokenBucket
import Urheilulaatikko.Lib.Positional
import Urheilulaatikko.Lib.Machine
import Urheilulaatikko.Lib.Text
import Urheilulaatikko.Lib.Buffer
import Urheilulaatikko.Server.Error
import Urheilulaatikko.Server.Auth.Introspection
import Urheilulaatikko.Server.Auth.SingleFlight
import Urheilulaatikko.Server.Auth.Inflight
import Urheilulaatikko.Server.Auth.Provenance
import Urheilulaatikko.Server.Auth.Dedup
import Urheilulaatikko.Server.Auth.Revocation
import Urheilulaatikko.Server.Auth.Progress
import Urheilulaatikko.Server.Auth.Middleware
import Urheilulaatikko.Server.Config
import Urheilulaatikko.Server.Settings
import Urheilulaatikko.Server.RateLimit
import Urheilulaatikko.Server.Budget
import Urheilulaatikko.Server.Totp
import Urheilulaatikko.Server.Crypto
import Urheilulaatikko.Server.SecretStore
import Urheilulaatikko.Server.Routes
import Urheilulaatikko.Server.Router
import Urheilulaatikko.Server.Audit
import Urheilulaatikko.Server.SecretHistory
import Urheilulaatikko.Server.LastUsed
import Urheilulaatikko.Server.Refinement
import Urheilulaatikko.Server.System
import Urheilulaatikko.Server.EndToEnd
import Urheilulaatikko.Server.Admission
import Urheilulaatikko.Server.Statuses
import Urheilulaatikko.Server.Startup
import Urheilulaatikko.Server.Restarts
import Urheilulaatikko.Server.Provisioning
import Urheilulaatikko.Server.Inserts
import Urheilulaatikko.Server.Liveness
import Urheilulaatikko.Lock.Wiegand
import Urheilulaatikko.Lock.PinEntry
import Urheilulaatikko.Lock.Totp
import Urheilulaatikko.Lock.SkewWindow
import Urheilulaatikko.Lock.Controller
import Urheilulaatikko.Lock.Firmware
import Urheilulaatikko.Lock.WiegandCapture
import Urheilulaatikko.Lock.Clock
import Urheilulaatikko.Lock.Device
import Urheilulaatikko.Lock.Keypad
import Urheilulaatikko.Lock.WiegandScript
import Urheilulaatikko.Agreement
import Urheilulaatikko.PinToBolt
import Urheilulaatikko.SimTests
import Urheilulaatikko.RequestToBolt
