import HpkeDemo.Connect.Params
import HpkeDemo.Upgrade.Faults

/-! Params that an older client does not know. Wherever they stand in a string, both parsers read
it as if they were not there; the library's keeps them for the relay. -/
namespace HpkeDemo.Upgrade
open Text
open Connect (ConnString HexCodec Reader required reserved unrecognised)

variable {hex : HexCodec} {uri uri' : String}

end HpkeDemo.Upgrade
