import OpenRupiv.Lib.HashChain
import OpenRupiv.Audit.RoundTrip
import OpenRupiv.Audit.Attributes
import OpenRupiv.Lib.Prog
import OpenRupiv.Lib.Transactions
import OpenRupiv.Lib.Protocol
import OpenRupiv.Lib.Confinement
import OpenRupiv.Lib.Noninterference
import OpenRupiv.Runtime.Db
import OpenRupiv.Runtime.Errors
import OpenRupiv.Runtime.Naming
import OpenRupiv.Runtime.Records
import OpenRupiv.Runtime.Database
import OpenRupiv.Runtime.Audit
import OpenRupiv.Runtime.Workflows
import OpenRupiv.Runtime.Calls
import OpenRupiv.Runtime.Observation
import OpenRupiv.Runtime.Protocol
import OpenRupiv.Runtime.Follows
import OpenRupiv.Runtime.History
import OpenRupiv.Runtime.Appenders
import OpenRupiv.Runtime.Changes
import OpenRupiv.Runtime.Atomicity
import OpenRupiv.Compiler.Sql
import OpenRupiv.Compiler.Names
import OpenRupiv.Compiler.Rewrites
import OpenRupiv.Spec.Facts
import OpenRupiv.Runtime.Registration
import OpenRupiv.Runtime.Routes
import OpenRupiv.Runtime.States
import OpenRupiv.Runtime.StatePaths
import OpenRupiv.Runtime.Interference
import OpenRupiv.Runtime.Principals
import OpenRupiv.Audit.Literal
import OpenRupiv.Policy.Authz
import OpenRupiv.Runtime.Admin
import OpenRupiv.Agents.Runtime
import OpenRupiv.Mcp.Server
import OpenRupiv.Runtime.A2a
import OpenRupiv.Runtime.Gates
import OpenRupiv.Agents.Proposals
import OpenRupiv.Agents.Influence
import OpenRupiv.Runtime.StateLog
import OpenRupiv.Runtime.Approvals
import OpenRupiv.Runtime.Rounds
import OpenRupiv.Js.Print
import OpenRupiv.Audit.Export
import OpenRupiv.Runtime.Export
import OpenRupiv.Lib.Interleaving
import OpenRupiv.Sandbox.Concurrency
import OpenRupiv.Sandbox.Server
import OpenRupiv.Sandbox.Slots
import OpenRupiv.Js.Base64
import OpenRupiv.Js.Utf8
import OpenRupiv.Js.Parse
import OpenRupiv.Runtime.Session
import OpenRupiv.Runtime.Tasks
import OpenRupiv.Compiler.Migration
import OpenRupiv.Compiler.Tables
import OpenRupiv.Runtime.Constraints
import OpenRupiv.Runtime.Verification
import OpenRupiv.Lib.Topological
import OpenRupiv.Compiler.Order
import OpenRupiv.Js.Calendar
import OpenRupiv.Js.Magnitude
import OpenRupiv.Runtime.Guards
import OpenRupiv.Generator.Compare
import OpenRupiv.Compiler.Readme
import OpenRupiv.Lib.Reordering
import OpenRupiv.Lib.Tabulate
import OpenRupiv.Spec.Acceptance
import OpenRupiv.Spec.Reordered
import OpenRupiv.Compiler.Acceptance
import OpenRupiv.Js.Pointer
import OpenRupiv.Spec.Document
import OpenRupiv.Spec.Locations
import OpenRupiv.Js.Indent
import OpenRupiv.Js.Access
import OpenRupiv.Spec.Reread
import OpenRupiv.Compiler.SpecTest
import OpenRupiv.Html.Tokens
import OpenRupiv.Html.Translation
import OpenRupiv.Html.Template
import OpenRupiv.Runtime.Pages
import OpenRupiv.Runtime.Interpolation
import OpenRupiv.Runtime.Injection
import OpenRupiv.Runtime.Limiter
import OpenRupiv.Runtime.Remembered
import OpenRupiv.Runtime.OwnKeys
import OpenRupiv.Generator.NormalForm
import OpenRupiv.Js.Trim
import OpenRupiv.Sandbox.Jail
import OpenRupiv.Js.Consume
import OpenRupiv.Generator.Extract
import OpenRupiv.Generator.Extraction
import OpenRupiv.Generator.Answers
import OpenRupiv.Sandbox.Deadline
import OpenRupiv.Sandbox.Chunks
import OpenRupiv.Sandbox.RunId
import OpenRupiv.Lib.Runs
import OpenRupiv.Agents.ToolCalls
import OpenRupiv.Mcp.Connections
import OpenRupiv.Mcp.SafeFetch
import OpenRupiv.Lib.Interpret
import OpenRupiv.Runtime.TaskRuns
import OpenRupiv.Runtime.TaskReplies
import OpenRupiv.Js.StructuredData
import OpenRupiv.Runtime.Syslog
import OpenRupiv.Js.Redaction
import OpenRupiv.Audit.Secrets
import OpenRupiv.Runtime.Subjects
import OpenRupiv.Audit.Location
import OpenRupiv.Sandbox.Handles
import OpenRupiv.Lib.SqlTokens
import OpenRupiv.Compiler.Literals
import OpenRupiv.Lib.FileTree
import OpenRupiv.Sandbox.Files
import OpenRupiv.Js.Url
import OpenRupiv.Runtime.Login
import OpenRupiv.Lib.Sequential
import OpenRupiv.Runtime.Migrate
import OpenRupiv.Lib.Descent
import OpenRupiv.Js.Heap
import OpenRupiv.Runtime.Logger
import OpenRupiv.Lib.ClassicBpf
import OpenRupiv.Sandbox.Seccomp
import OpenRupiv.Lib.Letters
import OpenRupiv.Sandbox.Bwrap
import OpenRupiv.Sandbox.Isolation
import OpenRupiv.Js.Reread
import OpenRupiv.Sandbox.Canary
import OpenRupiv.Sandbox.Wire
import OpenRupiv.Lib.OwnHistory
import OpenRupiv.Compiler.Reloaded
import OpenRupiv.Compiler.Recompiled
import OpenRupiv.Runtime.AppDir
