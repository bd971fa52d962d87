import AgentVerse.Effects.Pool
import AgentVerse.Effects.History
import AgentVerse.Hitl.Queue
import AgentVerse.Workers
import AgentVerse.Session.Frame
import AgentVerse.Agent.Invoke
import AgentVerse.Agent.Sessions
import AgentVerse.Agent.StrategyFootprint
import AgentVerse.Agent.Approval
import AgentVerse.Agent.Pending
import AgentVerse.Agent.Retry
import AgentVerse.Agent.ModifiedDecision
import AgentVerse.Agent.ApprovedDecision
import AgentVerse.Consolidation
import AgentVerse.Agent.Consumption
import AgentVerse.Agent.Gates
import AgentVerse.Hitl.Agreement
import AgentVerse.Agent.PhaseGate
import AgentVerse.Session.Appends
import AgentVerse.Agent.Binding
import AgentVerse.Agent.OpeningOnce
import AgentVerse.Agent.Mandatory
import AgentVerse.Agent.Transparency
import AgentVerse.Agent.Outcomes
import AgentVerse.Model.Connection
import AgentVerse.Model.Attempts
import AgentVerse.Model.Discipline
import AgentVerse.Model.Breaker
import AgentVerse.Session.Migration
import AgentVerse.Agent.Reload
import AgentVerse.Agent.ReloadCoherence
import AgentVerse.Retention
import AgentVerse.React.Conversation
import AgentVerse.Agent.Buffers
import AgentVerse.Agent.Dialogue
import AgentVerse.Session.Cascade
import AgentVerse.Agent.Erasure
import AgentVerse.Agent.EraseAll
import AgentVerse.Effects.Unwinding
import AgentVerse.Session.Part
import AgentVerse.Session.Entries
import AgentVerse.Agent.Ownership
import AgentVerse.Agent.Confinement
import AgentVerse.Agent.TwoRuns
import AgentVerse.Agent.Isolation
import AgentVerse.Effects.Marks
import AgentVerse.Plan.Order
import AgentVerse.Subagent.Tokens
import AgentVerse.Idle
import AgentVerse.Effects.Loop
import AgentVerse.Maintenance
import AgentVerse.Core.Json
import AgentVerse.Model.OpenAI
import AgentVerse.Model.Wire
import AgentVerse.Model.Anthropic
import AgentVerse.Model.RoundTrip
import AgentVerse.Tools.StrictSchema
import AgentVerse.Tools.Locations
import AgentVerse.Tools.Closure
import AgentVerse.Tools.Idempotence
import AgentVerse.Tools.Validation
import AgentVerse.Tools.Meaning
import AgentVerse.React.Preamble
import AgentVerse.Agent.Priming
import AgentVerse.Guardrails.RateLimiter
import AgentVerse.Longterm.Embedder
import AgentVerse.Core.Document
import AgentVerse.Session.Codec
import AgentVerse.Core.Text
import AgentVerse.Agent.Directives
import AgentVerse.Plan.Planner
import AgentVerse.Http.Messages
import AgentVerse.Core.Unicode
import AgentVerse.Tools.SearchIndex
import AgentVerse.Tools.Search
import AgentVerse.Skill.Router
import AgentVerse.Mcp.Remote
import AgentVerse.Mcp.Config
import AgentVerse.Skill.Frontmatter
import AgentVerse.Agent.Allowlist
import AgentVerse.Agent.Blocklist
import AgentVerse.Agent.Settlement
import AgentVerse.Core.Values
import AgentVerse.Effects.Duplex
import AgentVerse.Http.Accounting
import AgentVerse.Http.Admission
import AgentVerse.Mcp.Stdio
import AgentVerse.Longterm.Backends
import AgentVerse.Integration.Feedback
import AgentVerse.Agent.Filtered
import AgentVerse.Model.Metrics
import AgentVerse.Model.Gemini
import AgentVerse.Agent.Textual
