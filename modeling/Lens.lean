import Lens.Http1.Switch
import Lens.Store.Metadata
import Lens.Redact.SameTokens
import Lens.Http2.Reported
import Lens.Http2.Declared
import Lens.Http2.Boundaries
import Lens.Http1.Exchanges
import Lens.Store.Replies
import Lens.Redis.Retained
import Lens.Store.Credentials
import Lens.Postgres.Cap
import Lens.Store.Growth
import Lens.Replay.Formats
import Lens.Http1.Limits
import Lens.Redact.Pairs
import Lens.Store.Labels
import Lens.Cli.Precedence
import Lens.Platform.Redirect
import Lens.Http2.Settings
import Lens.Replay.Guards
import Lens.Redis.Slices
import Lens.Proxy.PrefixedIo
import Lens.Ebpf.Discovery
import Lens.Tui.App
