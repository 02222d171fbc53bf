import Ikofi.Lib.Runs
import Ikofi.Service.Model
import Ikofi.Service.OneServer
import Ikofi.Lib.Cut
import Ikofi.Service.CrashLoop
import Ikofi.Service.StopFinal
import Ikofi.Text
import Ikofi.PasswordFile.Native
import Ikofi.PasswordFile.Settings
import Ikofi.PasswordFile.Agreement
import Ikofi.Auth.Session
import Ikofi.Auth.Handling
import Ikofi.Auth.Complete
import Ikofi.Auth.SingleUse
import Ikofi.Auth.Sound
import Ikofi.PasswordFile.Written
import Ikofi.Auth.Saved
import Ikofi.Lib.Match
import Ikofi.Options.Model
import Ikofi.Options.Bounds
import Ikofi.Channel.Session
import Ikofi.Lib.Shell
import Ikofi.Channel.Confined
import Ikofi.PasswordFile.History
import Ikofi.Auth.Offered
import Ikofi.Auth.Methods
import Ikofi.Service.PidFile
import Ikofi.Keys.Import
import Ikofi.PasswordFile.Replace
import Ikofi.Options.Listeners
import Ikofi.Service.Foreground
import Ikofi.Options.Displayed
import Ikofi.Service.OnlyOurs
import Ikofi.Service.Sole
import Ikofi.Service.StartMode
import Ikofi.Auth.Half
import Ikofi.Screen.Storage
import Ikofi.Screen.Summary
import Ikofi.Channel.Environment
import Ikofi.Channel.Redirect
import Ikofi.Options.Tokens
import Ikofi.Options.Quoting
import Ikofi.Auth.Guessing
import Ikofi.Auth.Switch
import Ikofi.Options.PortField
import Ikofi.Lib.Limit
import Ikofi.Screen.Addresses
import Ikofi.Lib.Generations
import Ikofi.Screen.LogView
import Ikofi.Screen.LogShown
import Ikofi.Lib.Ring
import Ikofi.Flow.CircBuffer
import Ikofi.Flow.Model
import Ikofi.Flow.Window
import Ikofi.Flow.Handling
import Ikofi.Flow.Link
import Ikofi.Flow.Delivery
import Ikofi.Packet.Model
import Ikofi.Packet.Framing
import Ikofi.Packet.Reading
import Ikofi.Packet.Pipe
import Ikofi.Packet.InOrder
import Ikofi.Packet.Anything
import Ikofi.Packet.Genuine
import Ikofi.Lib.Both
import Ikofi.Lib.Log
import Ikofi.Kex.AlgoList
import Ikofi.Kex.Negotiate
import Ikofi.Kex.Chosen
import Ikofi.Kex.Agreement
import Ikofi.Transport.Outgoing
import Ikofi.Transport.Model
import Ikofi.Transport.Phases
import Ikofi.Transport.Turns
import Ikofi.Transport.Exchange
import Ikofi.Transport.Strict
import Ikofi.Transport.Login
import Ikofi.Keys.Decode
import Ikofi.Keys.Authorized
import Ikofi.Keys.Listed
import Ikofi.Keys.Plain
import Ikofi.Keys.Login
import Ikofi.Keys.Settings
import Ikofi.Keys.Enforced
import Ikofi.Listener.Model
import Ikofi.Listener.Limits
