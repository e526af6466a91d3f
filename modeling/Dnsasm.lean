import Dnsasm.Run
import Dnsasm.Bytes
import Dnsasm.Header
import Dnsasm.Name.Decompress
import Dnsasm.Name.Walk
import Dnsasm.Name.Errors
import Dnsasm.Name.Pointer
import Dnsasm.Section
import Dnsasm.Response
import Dnsasm.Compare
import Dnsasm.Console
import Dnsasm.Footprint
