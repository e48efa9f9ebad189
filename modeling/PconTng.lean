import PconTng.Foundations.Run
import PconTng.Foundations.Semaphore
import PconTng.Foundations.CArray
import PconTng.Foundations.Keyed
import PconTng.Foundations.Timetable
import PconTng.Foundations.CMemory
import PconTng.Foundations.Lexer
import PconTng.Foundations.Cursor
import PconTng.Foundations.Chain
import PconTng.Foundations.Positional
import PconTng.Foundations.Running
import PconTng.Foundations.Rounding
import PconTng.Foundations.Hysteresis
import PconTng.Foundations.Terminal
import PconTng.Typedefs
import PconTng.SlabControl
import PconTng.SlabBand
import PconTng.Sch.Template
import PconTng.Sch.Lookup
import PconTng.Sch.Sensor
import PconTng.Sch.Table
import PconTng.Sch.Store
import PconTng.Sch.Accesses
import PconTng.ListMaint
import PconTng.ChannelList
import PconTng.CmdFsm.Tables
import PconTng.CmdFsm.Actions
import PconTng.CmdFsm.Fsm
import PconTng.CmdFsm.Frame
import PconTng.CmdFsm.Ranges
import PconTng.CmdFsm.Session
import PconTng.CmdFsm.Edit
import PconTng.CmdFsm.Schedules
import PconTng.CmdFsm.Rejected
import PconTng.CmdFsm.Selection
import PconTng.CmdFsm.Restore
import PconTng.CmdFsm.Reach
import PconTng.CmdFsm.Clock
import PconTng.CharFsm.Buffer
import PconTng.CharFsm.Cutter
import PconTng.CharFsm.Stored
import PconTng.CharFsm.Tokenizer
import PconTng.CharFsm.Bounds
import PconTng.Ipc.Locking
import PconTng.Ipc.Backup
import PconTng.Dcon.UpdateRelays
import PconTng.Dcon.Pins
import PconTng.Dcon.Isolation
import PconTng.Dcon.ForceUpdate
import PconTng.Dcon.Unsupported
import PconTng.Dcon.Repeat
import PconTng.Dcon.Modes
import PconTng.CmdFsm.EndToEnd
import PconTng.CmdFsm.Controls
import PconTng.Dcon.Loop
import PconTng.Scon.Request
import PconTng.Scon.Fields
import PconTng.Scon.Termination
import PconTng.Scon.RoundTrip
import PconTng.Scon.Isolation
import PconTng.Scon.Numeral
import PconTng.Sensor.Index
import PconTng.Sensor.Editing
import PconTng.Sensor.Assignment
import PconTng.Sensor.Group
import PconTng.CmdFsm.Library
import PconTng.CmdFsm.OneField
import PconTng.CmdFsm.Destinations
import PconTng.CmdFsm.Classes
import PconTng.Pcon.LineEditor
import PconTng.Pcon.Keys
import PconTng.Pcon.Bounds
import PconTng.Pcon.History
import PconTng.Pcon.Recall
import PconTng.Pcon.Typing
import PconTng.Pcon.Console
import PconTng.Pcon.Recalled
import PconTng.Pcon.Display
import PconTng.System.Switch
import PconTng.System.Program
import PconTng.Esp8266.Dht22
import PconTng.Esp8266.Post
import PconTng.System.Feedback
import PconTng.Topic.Queue
import PconTng.Topic.Levels
import PconTng.Master.Process
import PconTng.System.Summary
