import HpkeDemo.AuthMode.Network
import HpkeDemo.Connect.Injection
import HpkeDemo.Bwc.Batch
import HpkeDemo.Bwc.Bootstrap
import HpkeDemo.Bwc.Concurrent
import HpkeDemo.Bwc.Credentials
import HpkeDemo.Bwc.Deliveries
import HpkeDemo.Bwc.Exchange
import HpkeDemo.Bwc.Isolation
import HpkeDemo.Bwc.Mailbox
import HpkeDemo.Bwc.Replies
import HpkeDemo.Bwc.Restart
import HpkeDemo.Signing.Replies
import HpkeDemo.Signing.ReplyKeys
import HpkeDemo.Signing.Framing
import HpkeDemo.Transparent
import HpkeDemo.Upgrade.HexExact
import HpkeDemo.Upgrade.Main
import HpkeDemo.Upgrade.Secrets
import HpkeDemo.Upgrade.VersionGate
import HpkeDemo.Upgrade.Versioned
import HpkeDemo.Upgrade.NoPanic
import HpkeDemo.Replay.Forgetting
import HpkeDemo.Replay.History
import HpkeDemo.Bwc.Basic
import HpkeDemo.Bwc.Oblivious
import HpkeDemo.Signing.Main
import HpkeDemo.Upgrade.Forward
import HpkeDemo.Upgrade.KeyUse
import HpkeDemo.Upgrade.Network
import HpkeDemo.Bwc.Acknowledged
import HpkeDemo.Bwc.CacheSize
import HpkeDemo.Bwc.Tampering
import HpkeDemo.AuthMode.Main
