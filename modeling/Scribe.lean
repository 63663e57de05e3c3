import Scribe.Auth.ClientIP
import Scribe.Editor.Agreement
import Scribe.Editor.Boxes
import Scribe.Editor.Invariant
import Scribe.Editor.Metrics
import Scribe.Editor.SessionCache
import Scribe.Editor.Texts
import Scribe.Hocr.Safety
import Scribe.Server.CommittedOwners
import Scribe.Server.ExactSplits
import Scribe.Server.IdleSave
import Scribe.Server.MirrorDelivery
import Scribe.Server.RequestLimits
import Scribe.Server.Scaling
import Scribe.Server.TextBodies
import Scribe.Server.TranscribedWords
import Scribe.Store.Idempotency
import Scribe.Store.Listings
import Scribe.Store.QuotaStaging
import Scribe.Worklimit.Hierarchical
