import Crontab.Entry.Matching
import Crontab.Entry.Reader
import Crontab.Occurrences.Truncated
import Crontab.Proofs.Almanac
import Crontab.Proofs.BitScan
import Crontab.Proofs.Blame
import Crontab.Proofs.Budget
import Crontab.Proofs.Calendar
import Crontab.Proofs.Canonical
import Crontab.Proofs.Cursor
import Crontab.Proofs.Cycle
import Crontab.Proofs.Dial
import Crontab.Proofs.Entry
import Crontab.Proofs.Environment
import Crontab.Proofs.Failure
import Crontab.Proofs.Faults
import Crontab.Proofs.File
import Crontab.Proofs.Integers
import Crontab.Proofs.Language
import Crontab.Proofs.Literal
import Crontab.Proofs.Log
import Crontab.Proofs.Mapping
import Crontab.Proofs.Odometer
import Crontab.Proofs.Offset
import Crontab.Proofs.Polling
import Crontab.Proofs.Reachable
import Crontab.Proofs.Restart
import Crontab.Proofs.Retry
import Crontab.Proofs.Rotation
import Crontab.Proofs.Schedule
import Crontab.Proofs.Search
import Crontab.Proofs.Seeking
import Crontab.Proofs.Session
import Crontab.Proofs.Strict
import Crontab.Proofs.Stripping
import Crontab.Proofs.Successor
import Crontab.Proofs.Truncated
import Crontab.Proofs.Values
import Crontab.Settings.File
