import MikroLLM.Proxy.Pick
import MikroLLM.Go.Json
import MikroLLM.Queue.Agreement
import MikroLLM.Queue.Bounds
import MikroLLM.Queue.Fifo
import MikroLLM.Queue.Wakeup
import MikroLLM.Store.Models
import MikroLLM.Store.Security
import MikroLLM.Proxy.Selection
import MikroLLM.A2A.Conservation
import MikroLLM.A2A.Order
import MikroLLM.A2A.Correlation
import MikroLLM.Domain.A2A
import MikroLLM.Library.OrderBy
import MikroLLM.Store.A2A
import MikroLLM.A2A.Groups
import MikroLLM.A2A.Reading
import MikroLLM.A2A.Isolation
import MikroLLM.Library.Naming
import MikroLLM.Domain.Media
import MikroLLM.Store.Registry
import MikroLLM.Proxy.Names
import MikroLLM.Domain.Provider
import MikroLLM.Go.Writer
import MikroLLM.PromptCache.Prepare
import MikroLLM.Guard.Apply
import MikroLLM.Proxy.Upstream
import MikroLLM.Proxy.Delegates
import MikroLLM.Proxy.Forward
import MikroLLM.Proxy.Answers
import MikroLLM.Proxy.Hops
import MikroLLM.Proxy.Course
import MikroLLM.Proxy.Framing
import MikroLLM.Proxy.Balance
import MikroLLM.Proxy.Alike
import MikroLLM.PromptCache.Hints
import MikroLLM.Proxy.Fallback
import MikroLLM.A2A.Paging
import MikroLLM.A2A.Polling
import MikroLLM.A2A.Deciding
import MikroLLM.Domain.Hub
import MikroLLM.Hub.Settings
import MikroLLM.Store.HubRows
import MikroLLM.Store.Backends
import MikroLLM.Hub.Sharing
import MikroLLM.Proxy.Sessions
import MikroLLM.Go.Url
import MikroLLM.Go.Utf8
import MikroLLM.Hub.Relay
import MikroLLM.Go.Quote
import MikroLLM.Hub.Envelope
import MikroLLM.Library.Slots
import MikroLLM.Hub.Completion
import MikroLLM.Hub.Merging
import MikroLLM.Hub.Collapse
import MikroLLM.Proxy.RoundRobin
import MikroLLM.Queue.Alone
import MikroLLM.Store.Rowids
import MikroLLM.Mcp.Providers
import MikroLLM.Mcp.Models
import MikroLLM.Mcp.Queues
import MikroLLM.Jobs.Pulling
import MikroLLM.Codex.Answer
import MikroLLM.Proxy.Rewriting
import MikroLLM.Params.Extending
import MikroLLM.Params.Locking
import MikroLLM.PromptCache.Sparing
import MikroLLM.Proxy.Prompting
import MikroLLM.Store.Atomicity
import MikroLLM.Jobs.Writing
import MikroLLM.PromptCache.Tail
import MikroLLM.Guard.Injection
import MikroLLM.Guard.Masking
import MikroLLM.Jobs.Exclusive
import MikroLLM.Library.Association
import MikroLLM.Auth.Rate
import MikroLLM.Auth.Lockout
import MikroLLM.Guard.Words
import MikroLLM.Hub.Caps
import MikroLLM.Hub.Windows
import MikroLLM.Store.Connecting
import MikroLLM.Proxy.Connected
import MikroLLM.Domain.Skills
import MikroLLM.Proxy.Images
import MikroLLM.Library.Tally
import MikroLLM.Library.Calendar
import MikroLLM.Go.Date
import MikroLLM.Domain.Billing
import MikroLLM.Store.Billing
import MikroLLM.Store.BillingView
import MikroLLM.Go.Base64
import MikroLLM.Go.Members
import MikroLLM.Auth.Session
import MikroLLM.Auth.Admin
import MikroLLM.Auth.Cookies
import MikroLLM.Tls.File
import MikroLLM.Tls.Reloading
import MikroLLM.Tls.Handshakes
import MikroLLM.Go.Marshal
import MikroLLM.Codex.Streaming
import MikroLLM.Codex.Streamed
import MikroLLM.Proxy.Connections
import MikroLLM.Codex.Credentials
import MikroLLM.Grok.Credentials
import MikroLLM.Library.Custody
import MikroLLM.Proxy.Logins
import MikroLLM.Proxy.Subscriptions
import MikroLLM.Proxy.Refreshing
import MikroLLM.Library.Gathering
import MikroLLM.Health.Contexts
