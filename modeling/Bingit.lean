import Bingit.ConfigLayout
import Bingit.Registration
import Bingit.RequestLine
import Bingit.StaticRoot
import Bingit.ByteStream
import Bingit.Counters
import Bingit.UserText
import Bingit.MemeRoutes
import Bingit.PageStructure
import Bingit.MemeRefinement
import Bingit.ListenPort
import Bingit.HandlerReplies
import Bingit.HeaderLines
import Bingit.RequestForm
import Bingit.CreateRequests
import Bingit.ChangeReports
import Bingit.MemeSearch
import Bingit.EditSubstitution
import Bingit.RedirectLoop
import Bingit.ParserSafety
import Bingit.EventLoop
import Bingit.LoopRefinement
import Bingit.SessionLifecycle
import Bingit.ConnectionOrder
import Bingit.Startup
import Bingit.ReplyCount
import Bingit.WorkerProgress
import Bingit.CriticalSections
import Bingit.LockedServer
import Bingit.ReplyStream
import Bingit.MemeVisibility
import Bingit.SearchForm
import Bingit.StatusPage
import Bingit.ProxyTarget
