import RsProxy.Control.Query
import RsProxy.Engine.Aggregation
import RsProxy.Engine.Attachment
import RsProxy.Engine.Bridged
import RsProxy.Engine.ChunkedBody
import RsProxy.Engine.Edits
import RsProxy.Engine.H2Election
import RsProxy.Engine.LeafCertificates
import RsProxy.Engine.Mock
import RsProxy.Engine.PoolKey
import RsProxy.Engine.Probe
import RsProxy.Engine.RequestHeaders
import RsProxy.Engine.RequestUrl
import RsProxy.Engine.SharedCounters
import RsProxy.Engine.TlsTunnel
import RsProxy.Engine.Trailers
import RsProxy.Net.Framing
import RsProxy.Rules.BodyPlanning
import RsProxy.Rules.BodyScan
import RsProxy.Rules.GlobTranslation
import RsProxy.Rules.HostLanguage
import RsProxy.Rules.Lint.ShadowSound
import RsProxy.Rules.Lint.SkipSound
import RsProxy.Trace.Publication
import RsProxy.Trace.StoreProgress
