import Dossh.Lib.Ring
import Dossh.Lib.History
import Dossh.Machine
import Dossh.Net.Conn
import Dossh.Net.Api
import Dossh.Net.Acts
import Dossh.Net.Send
import Dossh.Lib.Serial
import Dossh.Net.Rollback
import Dossh.AnsiKey
import Dossh.Lib.Frames
import Dossh.Lib.Terminal
import Dossh.Render.Ansi
import Dossh.Render.Mirror
import Dossh.Ssh.Acts
import Dossh.Ssh.Agreement
import Dossh.Ssh.AuthGate
import Dossh.Ssh.Bounds
import Dossh.Ssh.Decode
import Dossh.Ssh.Flood
import Dossh.Ssh.Latch
import Dossh.Telnet.Gate
import Dossh.Csi
import Dossh.Net.Broadcast
import Dossh.Net.Closing
import Dossh.Net.Midnight
import Dossh.Render.Frame
import Dossh.Render.Cursor
import Dossh.Render.Midnight
import Dossh.Render.Silence
import Dossh.Ssh.Channels
import Dossh.Ssh.Credit
import Dossh.Ssh.Delivery
import Dossh.Ssh.Discipline
import Dossh.Net.Checksum
import Dossh.Ssh.Authkeys
import Dossh.Ssh.Budget
import Dossh.Ssh.Framing
import Dossh.Ssh.Negotiation
import Dossh.Ssh.Nonce
import Dossh.Ssh.Output
import Dossh.Ssh.Prefix
import Dossh.Ssh.Version
import Dossh.Ssh.Window
import Dossh.Telnet.Backlog
import Dossh.Telnet.Decode
import Dossh.Telnet.Framing
import Dossh.Telnet.Console
import Dossh.Worker.Model
import Dossh.Worker.Pacing
import Dossh.Worker.Steps
import Dossh.Ssh.Shell
import Dossh.Ssh.Client
import Dossh.Lib.Base64
import Dossh.Ssh.Strings
import Dossh.Ssh.KeyLine
import Dossh.Lib.Mpint
import Dossh.Ssh.Mpint
import Dossh.KeyRing
import Dossh.Render.Room
import Dossh.Worker.Slots
import Dossh.Worker.Console
import Dossh.Worker.Keys
import Dossh.Worker.Output
import Dossh.Crypto.Sha256
import Dossh.Ssh.Transcript
import Dossh.Lib.Chain
import Dossh.Tsr.Install
import Dossh.Tsr.Reach
