import Libptytty.Lib.Machine
import Libptytty.Lib.Ledger
import Libptytty.Lib.CString
import Libptytty.Lib.Memory
import Libptytty.Lib.Log
import Libptytty.Lib.RecordFile
import Libptytty.Lib.JobControl
import Libptytty.Lib.AtomicObject
import Libptytty.Kernel
import Libptytty.Privileges
import Libptytty.UseHelper
import Libptytty.Startup
import Libptytty.Logging
import Libptytty.PtyttyUnix
import Libptytty.Descriptors
import Libptytty.Serve
import Libptytty.Registry
import Libptytty.Accounting
import Libptytty.Sessions
import Libptytty.Ids
import Libptytty.Entries
import Libptytty.Refinement
import Libptytty.Shared.Steps
import Libptytty.Shared.Serving
import Libptytty.Shared.Flow
import Libptytty.Shared.Token
import Libptytty.Shared.Phases
import Libptytty.Shared.Agreement
import Libptytty.Shared.Exits
import Libptytty.Shared.Stale
import Libptytty.Shared.Progress
import Libptytty.Estl.Aliasing
import Libptytty.Estl.Resize
import Libptytty.Estl.Growth
import Libptytty.Estl.Ecb
import Libptytty.Estl.Amortised
import Libptytty.Estl.Compare
import Libptytty.Ptys
import Libptytty.Wtmp
import Libptytty.WtmpCalls
import Libptytty.Fdpass
import Libptytty.Reuse
import Libptytty.Ttyslot
import Libptytty.Calls
import Libptytty.Logouts
import Libptytty.Objects
import Libptytty.Confinement
import Libptytty.Devices
import Libptytty.Closing
import Libptytty.Slots
import Libptytty.Hangup
import Libptytty.Cleanup
import Libptytty.ProxyDescs
import Libptytty.EndToEnd
import Libptytty.ControllingTty
import Libptytty.Utf8Mode
