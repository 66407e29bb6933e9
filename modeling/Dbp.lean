import Dbp.Base.Config
import Dbp.Base.Desktop
import Dbp.Base.DesktopBounds
import Dbp.Base.DesktopDirectory
import Dbp.Base.DesktopEscape
import Dbp.Base.DesktopLines
import Dbp.Base.DesktopLocal
import Dbp.Base.DesktopMerge
import Dbp.Base.DesktopOverride
import Dbp.Base.DesktopParse
import Dbp.Base.DesktopPhases
import Dbp.Base.DesktopRoundTrip
import Dbp.Base.DesktopSections
import Dbp.Base.DirectorySetup
import Dbp.Base.Loop
import Dbp.Base.LoopAnswers
import Dbp.Base.LoopMount
import Dbp.C.Decimal
import Dbp.C.Memory
import Dbp.C.Path
import Dbp.C.Scanf
import Dbp.C.String
import Dbp.Cmd.Command
import Dbp.Cmd.PackageMeta
import Dbp.Cmd.Sessions
import Dbp.Daemon.Comm
import Dbp.Daemon.ExecOwners
import Dbp.Daemon.ExecTemplate
import Dbp.Daemon.FollowFiles
import Dbp.Daemon.FreshImage
import Dbp.Daemon.Grace
import Dbp.Daemon.Inotify
import Dbp.Daemon.Instances
import Dbp.Daemon.KernelRun
import Dbp.Daemon.LookupMount
import Dbp.Daemon.Machine
import Dbp.Daemon.MainLoop
import Dbp.Daemon.Meta
import Dbp.Daemon.MetaFiles
import Dbp.Daemon.MetaIsolation
import Dbp.Daemon.MountEscape
import Dbp.Daemon.MountTable
import Dbp.Daemon.MountTracking
import Dbp.Daemon.Mountwatch
import Dbp.Daemon.Ownership
import Dbp.Daemon.RegisterPath
import Dbp.Daemon.Registry
import Dbp.Daemon.RegistryIds
import Dbp.Daemon.ReleaseMount
import Dbp.Daemon.RunFailure
import Dbp.Daemon.RunIdentity
import Dbp.Daemon.Startup
import Dbp.Daemon.State
import Dbp.Daemon.StateRestart
import Dbp.Daemon.Teardown
import Dbp.Daemon.Types
import Dbp.Daemon.WatchList
import Dbp.Daemon.WatchShutdown
import Dbp.Daemon.WatchThreads
import Dbp.Desktopd.Calls
import Dbp.Desktopd.Converge
import Dbp.Desktopd.Launchers
import Dbp.Lib.BucketTrie
import Dbp.Lib.Chain
import Dbp.Lib.Compare
import Dbp.Lib.Fair
import Dbp.Lib.Find
import Dbp.Lib.Follower
import Dbp.Lib.Group
import Dbp.Lib.Iterate
import Dbp.Lib.Lease
import Dbp.Lib.Mirror
import Dbp.Lib.Namespace
import Dbp.Lib.Nodes
import Dbp.Lib.Options
import Dbp.Lib.Placeholder
import Dbp.Lib.Run
import Dbp.Lib.Sweep
import Dbp.Lib.TableSearch
import Dbp.Lib.Tokens
import Dbp.Lib.Tracker
import Dbp.Mgr.Debian
import Dbp.Mgr.Depend
import Dbp.Mgr.DependGrammar
import Dbp.Mgr.DependLists
import Dbp.Mgr.DependState
import Dbp.Mgr.Installed
import Dbp.Mgr.PackageTree
import Dbp.Mgr.Registered
import Dbp.Mgr.Server
import Dbp.Mgr.Version
import Dbp.Mgr.VersionNumbers
import Dbp.Mgr.VersionOrder
import Dbp.Mgr.VersionPolicy
import Dbp.Mgr.VersionTokens
import Dbp.Run.Appdata
import Dbp.Run.Client
import Dbp.Run.ConfigFile
import Dbp.Run.ExecLine
import Dbp.Run.ExecQuote
import Dbp.Run.Main
import Dbp.Thumbnailer.ThumbQueue
import Dbp.Validate.Accepted
import Dbp.Validate.Categories
import Dbp.Validate.DesktopFile
import Dbp.Validate.PackageData
