import RemoteBoot.Config.RoundTrip
import RemoteBoot.Config.Stores
import RemoteBoot.Config.Reading
import RemoteBoot.Console.Session
import RemoteBoot.Console.Receive
import RemoteBoot.Console.Saving
import RemoteBoot.Console.Discipline
import RemoteBoot.Console.Escape
import RemoteBoot.Console.Bounds
import RemoteBoot.Console.Getchar
import RemoteBoot.Wake.EndToEnd
import RemoteBoot.Wake.MacText
import RemoteBoot.Wake.Commands
import RemoteBoot.Monitor.Verdict
import RemoteBoot.Monitor.Status
import RemoteBoot.Monitor.Scan
import RemoteBoot.Monitor.Ping
import RemoteBoot.Monitor.Lookup
import RemoteBoot.Monitor.Handover
import RemoteBoot.Mqtt.Lifecycle
import RemoteBoot.Mqtt.Control
import RemoteBoot.Mqtt.Publish
import RemoteBoot.Mqtt.Requests
import RemoteBoot.Mqtt.Connect
import RemoteBoot.Mqtt.Topic
import RemoteBoot.Mqtt.Cycle
import RemoteBoot.Mqtt.Hostile
import RemoteBoot.Ui.Keys
import RemoteBoot.Texts
import RemoteBoot.Board.SdMount
import RemoteBoot.Boot.Signals
import RemoteBoot.Boot.Repeat
import RemoteBoot.Kernel.MailQueue
import RemoteBoot.Kernel.CountingSem
import RemoteBoot.Kernel.RingFifo
import RemoteBoot.Mqtt.Outbox
import RemoteBoot.Kernel.Pipe
import RemoteBoot.Net.ArpRuns
import RemoteBoot.Kernel.MemheapService
