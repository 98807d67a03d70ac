import ChromeEc.Shmalloc.Reachable
import ChromeEc.Queue.Runs
import ChromeEc.UsbSm.Discipline
import ChromeEc.Rollback.Safety
import ChromeEc.UpdateFw.Confinement
import ChromeEc.UsbUpdate.Reassembly
import ChromeEc.UsbPrl.Progress
import ChromeEc.UsbPrl.Reassembly
import ChromeEc.UsbPrl.RoundTrip
import ChromeEc.UsbPrl.HardReset
import ChromeEc.ChargeManager.BestPort
import ChromeEc.ChargeManager.Hunt
import ChromeEc.ChargeManager.Consistency
import ChromeEc.MotionSense.Pairing
import ChromeEc.MotionSense.Spreading
import ChromeEc.MotionSense.Metadata
import ChromeEc.Mkbp.Service
import ChromeEc.Mkbp.SafetyNet
import ChromeEc.EventLog.Writers
import ChromeEc.Cbi.Atomicity
import ChromeEc.Cbi.Parsing
import ChromeEc.Cbi.Store
import ChromeEc.FpSensor.Isolation
import ChromeEc.FpSensor.ReleaseOnce
import ChromeEc.FpSensor.Authentication
import ChromeEc.FpSensor.Confirmation
import ChromeEc.FpSensor.Confidentiality
import ChromeEc.Tcpci.Alert
import ChromeEc.Tcpci.Cache
import ChromeEc.Task.Mutex
import ChromeEc.Task.Scheduler
import ChromeEc.Task.WaitEvent
import ChromeEc.Task.Reset
import ChromeEc.PdTimer.Transparency
import ChromeEc.Ucsi.Alerts
import ChromeEc.Ucsi.Consistency
import ChromeEc.Flash.Model
import ChromeEc.Flash.CbiSection
import ChromeEc.VbootHash.Model
import ChromeEc.VbootHash.Sha256
import ChromeEc.VbootHash.Soundness
import ChromeEc.HostCommand.Model
import ChromeEc.HostCommand.Framing
import ChromeEc.Lib.Laps
import ChromeEc.PreservedRingBuf.Contents
import ChromeEc.Mkbp.Queue
import ChromeEc.Lib.Frames
import ChromeEc.Cec.RxQueue
import ChromeEc.JumpTag.Store
import ChromeEc.Timer.Wheel
import ChromeEc.ChargeControl.Model
import ChromeEc.ChargeControl.Requests
import ChromeEc.ChargeControl.Run
import ChromeEc.HostEvent.Notify
import ChromeEc.UsbcOcp.Latch
import ChromeEc.Vstore.WriteOnce
import ChromeEc.KeyboardScan.Column
import ChromeEc.KeyboardScan.History
import ChromeEc.KeyboardScan.Expiry
import ChromeEc.KeyboardScan.Debounce
import ChromeEc.UsbHostCommand.Framing
import ChromeEc.Lib.Settle
import ChromeEc.UsbcDpm.Balance
import ChromeEc.UsbcDpm.Settle
import ChromeEc.ChargeRamp.Limit
import ChromeEc.Lib.Relay
import ChromeEc.OneWireUart.Model
import ChromeEc.OneWireUart.Delivery
import ChromeEc.Console.Words
import ChromeEc.Lib.Distinct
import ChromeEc.PdDiscovery.Svids
import ChromeEc.Port80.History
import ChromeEc.ApVdm.Hpd
import ChromeEc.OneWireUart.Framing
import ChromeEc.PdRequest.BestPdo
import ChromeEc.PdRequest.Request
import ChromeEc.Dps.Model
import ChromeEc.Dps.Scan
import ChromeEc.Dps.Requests
import ChromeEc.Console.Editor
import ChromeEc.Console.Display
import ChromeEc.Queue.Peek
import ChromeEc.Shmalloc.Stray
import ChromeEc.Shmalloc.BestFit
import ChromeEc.ChargeManager.DpsPort
import ChromeEc.ChargeManager.Ceilings
import ChromeEc.Lib.CheckSymbol
import ChromeEc.Lib.Bits
import ChromeEc.Base32.Model
import ChromeEc.Base32.Symbols
import ChromeEc.Base32.RoundTrip
import ChromeEc.Rwsig.Soundness
import ChromeEc.Util.Divmod
import ChromeEc.Printf.Model
import ChromeEc.Printf.Safety
import ChromeEc.Lib.Numeral
import ChromeEc.Printf.Strtoi
import ChromeEc.Printf.RoundTrip
import ChromeEc.Lib.CInt
import ChromeEc.Util.Base3
import ChromeEc.Flash.BankMap
import ChromeEc.Hooks.Notify
import ChromeEc.Lib.Alarms
import ChromeEc.Hooks.Deferred
import ChromeEc.Ucsi.Registers
import ChromeEc.I2c.Passthru
import ChromeEc.PdPhy.Model
import ChromeEc.PdPhy.RoundTrip
import ChromeEc.FpSensor.Transfer
import ChromeEc.Util.Sqrt
import ChromeEc.HostCommand.Lookup
import ChromeEc.Lib.Crc
import ChromeEc.PdPhy.Crc32
import ChromeEc.PdPhy.Acceptance
import ChromeEc.SpiNor.Model
import ChromeEc.SpiNor.Sfdp
import ChromeEc.SpiNor.Programs
import ChromeEc.SpiNor.Ranges
import ChromeEc.Lightbar.Model
import ChromeEc.Lightbar.Safety
import ChromeEc.Lightbar.Exit
import ChromeEc.Printf.Snprintf
import ChromeEc.Stdlib.Blocks
import ChromeEc.Stdlib.Strings
import ChromeEc.Cbi.Damage
