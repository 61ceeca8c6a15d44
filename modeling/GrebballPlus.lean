import GrebballPlus.Config.Format
import GrebballPlus.Config.Ownership
import GrebballPlus.Config.ShortRead
import GrebballPlus.Cpp.Agree
import GrebballPlus.Cpp.Main
import GrebballPlus.Cpp.TestCurl
import GrebballPlus.Cpp.Token
import GrebballPlus.Football.Games
import GrebballPlus.Football.History
import GrebballPlus.Football.Memory
import GrebballPlus.Football.Results
import GrebballPlus.Football.Service
import GrebballPlus.Football.Url
import GrebballPlus.Gateway.Deadline
import GrebballPlus.Gateway.Discord
import GrebballPlus.Gateway.Duration
import GrebballPlus.Gateway.Endless
import GrebballPlus.Gateway.Polls
import GrebballPlus.Gateway.Stream
import GrebballPlus.Main
import GrebballPlus.Odin.Chronology
