import Aegis.Lib.Transducer
import Aegis.Lib.Keyed
import Aegis.Lib.Table
import Aegis.Lib.Text
import Aegis.Lib.FloatVal
import Aegis.Lib.Printf
import Aegis.Lib.Inet
import Aegis.Lib.Buffer
import Aegis.Lib.Json
import Aegis.Lib.Fields
import Aegis.Lib.TextReader
import Aegis.Lib.MultiMap
import Aegis.Lib.SharedStream
import Aegis.Capture.FlowTracker
import Aegis.Capture.FlowAccumulator
import Aegis.Capture.PcapSniffer
import Aegis.Inference.OnnxEngine
import Aegis.Inference.Infer
import Aegis.DataPlane.Callback
import Aegis.DataPlane.Provenance
import Aegis.DataPlane.Isolation
import Aegis.DataPlane.Cleanup
import Aegis.DataPlane.Attribution
import Aegis.Mcp.SecTools
import Aegis.Mcp.ProcNetTcp
import Aegis.Mcp.NetTools
import Aegis.Mcp.Stdout
import Aegis.Ebpf.XdpFilter
import Aegis.Soc.AlertDedup
import Aegis.Soc.MessagePump
import Aegis.Waf.Tokenize
import Aegis.Waf.Proxy
import Aegis.DataPlane.Truncation
import Aegis.Waf.Forwarding
import Aegis.Waf.QueryRules
import Aegis.Soc.ProbeTools
import Aegis.Ebpf.XdpLoader
import Aegis.Soc.Agent
import Aegis.DataPlane.Segmentation
import Aegis.Lib.Completion
import Aegis.Mcp.Registry
import Aegis.Mcp.Dispatcher
import Aegis.Mcp.StdioTransport
import Aegis.Core.AlertQueue
import Aegis.Mcp.PidLookup
import Aegis.Mcp.Blocking
import Aegis.Capture.TcpHeader
import Aegis.Waf.AlertLog
import Aegis.Waf.RuleScore
import Aegis.Soc.Suppression
import Aegis.Capture.Tokenizer
import Aegis.Capture.BufferCap
import Aegis.Ebpf.SharedHook
import Aegis.Soc.ToolNames
import Aegis.Inference.Scoring
import Aegis.Waf.OnnxScore
import Aegis.Lib.Strtoul
import Aegis.Mcp.SessionId
import Aegis.Mcp.Pagination
import Aegis.Mcp.Methods
import Aegis.Mcp.Serving
import Aegis.Lib.Mailbox
import Aegis.Mcp.SseServer
import Aegis.Lib.EventStream
import Aegis.Lib.Chunked
import Aegis.Mcp.SseStream
import Aegis.Lib.Topics
import Aegis.Mcp.Subscriptions
import Aegis.Lib.Tickets
import Aegis.Mcp.ClientRequests
import Aegis.Lib.StreamLines
import Aegis.DataPlane.Alerts
import Aegis.Mcp.StdoutLines
import Aegis.Soc.AlertPath
import Aegis.Lib.LongestMatch
import Aegis.EtBert.Tokenizers
import Aegis.EtBert.Vocab
import Aegis.EtBert.Datagram
import Aegis.EtBert.DatagramTokens
import Aegis.Lib.Overwrite
import Aegis.EtBert.Masking
import Aegis.EtBert.BurstFeature
