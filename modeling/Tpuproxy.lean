import Tpuproxy.Base58.RoundTrip
import Tpuproxy.Base58.Reference
import Tpuproxy.Sealevel.RoundTrip
