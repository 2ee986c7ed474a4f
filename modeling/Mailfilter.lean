import Mailfilter.Grammar
import Mailfilter.DryRun
import Mailfilter.Pairing
import Mailfilter.Sizes
import Mailfilter.Decision
import Mailfilter.Bookkeeping
import Mailfilter.Order
import Mailfilter.Overflow
import Mailfilter.Memory
import Mailfilter.Timestamp
import Mailfilter.Status
import Mailfilter.Closing
import Mailfilter.Alarm
import Mailfilter.Receiving
import Mailfilter.Ending
import Mailfilter.Descriptor
import Mailfilter.Bounds
import Mailfilter.Negative
import Mailfilter.Subject
import Mailfilter.MessageId
import Mailfilter.Blocks
import Mailfilter.Reordering
import Mailfilter.Rfc822.RoundTrip
import Mailfilter.Rfc822.Folding
import Mailfilter.Rc.RoundTrip
import Mailfilter.Rc.Include
import Mailfilter.Digest
import Mailfilter.Sifting
import Mailfilter.Secrecy
import Mailfilter.Authorization
import Mailfilter.Settling
import Mailfilter.Rc.Language
import Mailfilter.Reporting
import Mailfilter.Display
import Mailfilter.Loosening
import Mailfilter.Spelling
