import Rtbus.Serial.Transparency
import Rtbus.Pool.Room
import Rtbus.Emos.Reindex
import Rtbus.Emos.Draining
import Rtbus.Native.Stop
import Rtbus.Cli.Dfu
import Rtbus.Cli.Rejected
import Rtbus.Native.Sleep
import Rtbus.Native.Pairing
import Rtbus.Cli.Framing
import Rtbus.Cli.Grammar
import Rtbus.Cli.Doorbell
import Rtbus.Host.Packing
import Rtbus.Host.Storing
import Rtbus.Host.Hex
import Rtbus.Host.Deploy
import Rtbus.Image.Retry
import Rtbus.Ymodem.Metadata
import Rtbus.Ymodem.Safety
import Rtbus.Serial.Splitting
import Rtbus.Ymodem.Lossy
import Rtbus.Ymodem.Bursts
import Rtbus.Ble.Failures
import Rtbus.Native.Timeout
import Rtbus.Emos.Registries
import Rtbus.Emos.Fairness
import Rtbus.Ble.Bringup
import Rtbus.Arduino.Lookahead
import Rtbus.Ymodem.FinalStatus
import Rtbus.Native.Remote
import Rtbus.Ble.Connections
import Rtbus.Ble.Inbox
import Rtbus.Cli.Multiplex
import Rtbus.Cli.Output
import Rtbus.Arduino.Print
import Rtbus.Serial.Bringup
import Rtbus.Host.MapFile
