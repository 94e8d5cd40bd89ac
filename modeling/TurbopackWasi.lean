import TurbopackWasi.Lib.Machine
import TurbopackWasi.Lib.Code
import TurbopackWasi.Lib.Bytes
import TurbopackWasi.Plugin.Channel
import TurbopackWasi.Plugin.Rendezvous
import TurbopackWasi.Plugin.World
import TurbopackWasi.Plugin.Bridge
import TurbopackWasi.Plugin.Protocol
import TurbopackWasi.Plugin.Conformance
import TurbopackWasi.Plugin.Parking
import TurbopackWasi.Plugin.Failure
import TurbopackWasi.Plugin.Direct
import TurbopackWasi.Plugin.Refine
import TurbopackWasi.Plugin.Simulation
import TurbopackWasi.Plugin.Driver
import TurbopackWasi.Plugin.Lifetime
import TurbopackWasi.Lib.Server
import TurbopackWasi.Plugin.Progress
import TurbopackWasi.HostPool.Session
import TurbopackWasi.Lib.Lanes
import TurbopackWasi.HostPool.Exit
import TurbopackWasi.HostPool.System
import TurbopackWasi.HostPool.Commands
import TurbopackWasi.HostPool.Fidelity
import TurbopackWasi.Plugin.Layout
import TurbopackWasi.Workers.Rpc
import TurbopackWasi.Workers.Correlation
import TurbopackWasi.Loader.Init
import TurbopackWasi.Loader.Readiness
import TurbopackWasi.Lib.Leb128
import TurbopackWasi.Link.Sections
import TurbopackWasi.Link.Lookup
import TurbopackWasi.Link.Read
import TurbopackWasi.Lib.Promise
import TurbopackWasi.Loader.Fetch
import TurbopackWasi.Loader.Settling
import TurbopackWasi.Plugin.Windows
import TurbopackWasi.Plugin.Dispatch
import TurbopackWasi.Loader.Limits
import TurbopackWasi.Loader.Tables
import TurbopackWasi.HostPool.Orphans
import TurbopackWasi.HostPool.Wait
import TurbopackWasi.Loader.Body
import TurbopackWasi.Loader.Fallback
import TurbopackWasi.Fs.ReadDir
import TurbopackWasi.Lib.Scan
import TurbopackWasi.Publish.Script
import TurbopackWasi.Publish.Builds
import TurbopackWasi.Publish.Latest
import TurbopackWasi.HostPool.Ids
import TurbopackWasi.Lib.RefCount
import TurbopackWasi.Napi.Buffer
import TurbopackWasi.Napi.Release
import TurbopackWasi.Napi.Home
import TurbopackWasi.Napi.Leak
import TurbopackWasi.Napi.Tokio
import TurbopackWasi.Loader.Hook
import TurbopackWasi.Loader.Transparent
import TurbopackWasi.Loader.Jest
import TurbopackWasi.Lib.Comm
import TurbopackWasi.Publish.Watch
import TurbopackWasi.Napi.Tsfn
import TurbopackWasi.Napi.Deletion
import TurbopackWasi.Napi.Assertion
import TurbopackWasi.Fetch.Client
import TurbopackWasi.Fetch.Answers
import TurbopackWasi.Fetch.Answerable
import TurbopackWasi.Napi.Promise
import TurbopackWasi.Plugin.Wasi
import TurbopackWasi.Napi.Deferred
import TurbopackWasi.Napi.Verdict
import TurbopackWasi.Napi.Outlived
import TurbopackWasi.Napi.Abort
import TurbopackWasi.Napi.Aborted
