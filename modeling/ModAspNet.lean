import ModAspNet.Core.Assoc
import ModAspNet.Core.Intern
import ModAspNet.Core.Refs
import ModAspNet.Core.Prog
import ModAspNet.Core.RelyGuarantee
import ModAspNet.Core.Follow
import ModAspNet.Core.Record
import ModAspNet.Core.Progress
import ModAspNet.Core.Relational
import ModAspNet.Core.Delimited
import ModAspNet.Core.Tokens
import ModAspNet.L1Text.CStr
import ModAspNet.L1Text.Managed
import ModAspNet.L1Text.Decoding
import ModAspNet.L2Config.DirConf
import ModAspNet.L2Config.Inherit
import ModAspNet.L2Config.Mount
import ModAspNet.L3Router.Handler
import ModAspNet.L3Router.AccessGate
import ModAspNet.L3Router.Selection
import ModAspNet.L3Router.Coverage
import ModAspNet.L3Router.Reach
import ModAspNet.L4Factory.HostFactory
import ModAspNet.L4Factory.Outline
import ModAspNet.L4Factory.Mounting
import ModAspNet.L4Factory.Recovery
import ModAspNet.L4Factory.AtMostOnce
import ModAspNet.L4Factory.Hosts
import ModAspNet.L4Factory.Live
import ModAspNet.L4Factory.Configured
import ModAspNet.L4Factory.Entries
import ModAspNet.L4Factory.Isolation
import ModAspNet.L4Factory.Monitor
import ModAspNet.L4Factory.Progress
import ModAspNet.L4Factory.Outcome
import ModAspNet.L4Factory.Shutdown
import ModAspNet.L4Factory.Invoked
import ModAspNet.L4Factory.Tenure
import ModAspNet.L5Worker.Headers
import ModAspNet.L5Worker.Brigade
import ModAspNet.L5Worker.Body
import ModAspNet.L5Worker.CopyLoops
import ModAspNet.L5Worker.Ends
import ModAspNet.L5Worker.Accounting
import ModAspNet.L5Worker.Preload
import ModAspNet.L5Worker.Paths
import ModAspNet.L5Worker.Boundary
import ModAspNet.L5Worker.RequestHeaders
import ModAspNet.L5Worker.Completion
import ModAspNet.L5Worker.FileRange
import ModAspNet.L5Worker.NativeText
import ModAspNet.L5Worker.HeaderCopies
import ModAspNet.L5Worker.HandlerRun
import ModAspNet.L5Worker.Answers
import ModAspNet.L5Worker.ResponseBody
import ModAspNet.L5Worker.ServerVariables
import ModAspNet.L5Worker.HostAnswer
import ModAspNet.L6Process.Passes
import ModAspNet.L6Process.Records
import ModAspNet.L6Process.HostKeys
import ModAspNet.L6Process.VirtualHosts
import ModAspNet.L6Process.Engine
import ModAspNet.L6Process.EngineLife
import ModAspNet.L6Process.Membership
import ModAspNet.L6Process.OneText
import ModAspNet.L6Process.Server
import ModAspNet.L6Process.Accounted
import ModAspNet.L6Process.Fallback
import ModAspNet.L6Process.RuntimeVersion
import ModAspNet.L6Process.GlobalConf
import ModAspNet.L7Installer.QuickSearch
import ModAspNet.L7Installer.DriveSearch
import ModAspNet.L7Installer.VerifyPath
import ModAspNet.L7Installer.ComboRows
import ModAspNet.L7Installer.Found
