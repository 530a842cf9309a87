import BleSpeaker.Lib.Transition
import BleSpeaker.Lib.Segments
import BleSpeaker.Lib.CString
import BleSpeaker.Lib.Ring
import BleSpeaker.Lib.Memory
import BleSpeaker.Lib.Frames
import BleSpeaker.Lib.Copying
import BleSpeaker.Lib.Calendar
import BleSpeaker.Lib.Tokens
import BleSpeaker.Lib.Orbit
import BleSpeaker.Lib.Blocks
import BleSpeaker.Lib.Words
import BleSpeaker.Kernel.Ipc
import BleSpeaker.Kernel.Serial
import BleSpeaker.Kernel.Heap
import BleSpeaker.Kernel.Time
import BleSpeaker.Kernel.Days
import BleSpeaker.Kernel.Rtc
import BleSpeaker.Kernel.Kservice
import BleSpeaker.Kernel.Layout
import BleSpeaker.Kernel.Release
import BleSpeaker.Kernel.Headers
import BleSpeaker.Kernel.Arena
import BleSpeaker.Kernel.Objects
import BleSpeaker.Kernel.Capacity
import BleSpeaker.Kernel.Timer
import BleSpeaker.Kernel.Scheduler
import BleSpeaker.Kernel.Schedule
import BleSpeaker.Kernel.Threads
import BleSpeaker.Kernel.Ticks
import BleSpeaker.Kernel.Interleavings
import BleSpeaker.Kernel.RoundRobin
import BleSpeaker.Kernel.Bystanders
import BleSpeaker.Kernel.Mailboxes
import BleSpeaker.Ble.Parsing
import BleSpeaker.Ble.Receive
import BleSpeaker.Ble.Board
import BleSpeaker.Ble.Conservation
import BleSpeaker.Ble.Delivery
import BleSpeaker.Ble.Fanout
import BleSpeaker.Ble.Relay
import BleSpeaker.Ble.EndToEnd
import BleSpeaker.Ble.Scheduled
import BleSpeaker.Speech.Syn6288
import BleSpeaker.Speech.Speak
import BleSpeaker.Speech.Receive
import BleSpeaker.Display.Text
import BleSpeaker.Display.Copies
import BleSpeaker.Display.Scroll
import BleSpeaker.Clock.Date
import BleSpeaker.Clock.ChangeTime
import BleSpeaker.Clock.Leak
import BleSpeaker.Clock.Accept
import BleSpeaker.Clock.Slots
import BleSpeaker.Clock.Leftovers
import BleSpeaker.Clock.Passing
import BleSpeaker.Clock.Horizon
