import Tpuproxy.Base58.Digits

/-!
# Constants and tables of the base58 codec

The alphabet, the inverse lookup table and the four radix-conversion tables,
entry for entry as `base58.go` declares them. Each table row is the expansion
of one power of the other radix:

* `encTable32`, `encTable64`: row `i` is `2^(32·(binSz-1-i))` in base `58^5`,
  written over the `interSz - 1` low intermediate positions;
* `decTable32`, `decTable64`: row `i` is `58^(5·(interSz-1-i))` in base `2^32`.

`PowerRows` states this for a whole table, and the four `_powerRows` theorems
check it by evaluation. `Width` bundles the constants of one width `N` with
these facts, so that the generic codec of `Encode` and `Decode` can only be
instantiated with tables that are right.
-/

namespace Base58

/-- `alphabet` maps `[0, 58)` to the base58 character. -/
def alphabet : List UInt8 :=
  "123456789ABCDEFGHJKLMNPQRSTUVWXYZabcdefghijkmnopqrstuvwxyz".toList.map (·.toNat.toUInt8)

/-- `inverseLUT` maps `(character value - '1')` to `[0, 58)`. -/
def inverseLUT : List Nat := [
  0x00, 0x01, 0x02, 0x03, 0x04, 0x05, 0x06, 0x07,
  0x08, 0xFF, 0xFF, 0xFF, 0xFF, 0xFF, 0xFF, 0xFF,
  0x09, 0x0A, 0x0B, 0x0C, 0x0D, 0x0E, 0x0F, 0x10,
  0xFF, 0x11, 0x12, 0x13, 0x14, 0x15, 0xFF, 0x16,
  0x17, 0x18, 0x19, 0x1A, 0x1B, 0x1C, 0x1D, 0x1E,
  0x1F, 0x20, 0xFF, 0xFF, 0xFF, 0xFF, 0xFF, 0xFF,
  0x21, 0x22, 0x23, 0x24, 0x25, 0x26, 0x27, 0x28,
  0x29, 0x2A, 0x2B, 0xFF, 0x2C, 0x2D, 0x2E, 0x2F,
  0x30, 0x31, 0x32, 0x33, 0x34, 0x35, 0x36, 0x37,
  0x38, 0x39, 0xFF]

def invalidChar : Nat := 0xFF
def inverseLUTOffset : Nat := 49
/-- `1 + 'z' - inverseLUTOffset`. -/
def inverseLUTSentinel : Nat := 1 + 122 - inverseLUTOffset

def inter32sz : Nat := 9
def enc32sz : Nat := 45
def bin32sz : Nat := 8
def raw32sz : Nat := inter32sz * 5

def inter64sz : Nat := 18
def bin64sz : Nat := 16
def raw64sz : Nat := inter64sz * 5

/-- `58^5`, the radix of the intermediate format. -/
def r1Div : Nat := 656356768

/-- `encTable32[j]` is `2^(32·(7-j))` in base `58^5`. -/
def encTable32 : List (List Nat) := [
  [513735, 77223048, 437087610, 300156666, 605448490, 214625350, 141436834, 379377856],
  [0, 78508, 646269101, 118408823, 91512303, 209184527, 413102373, 153715680],
  [0, 0, 11997, 486083817, 3737691, 294005210, 247894721, 289024608],
  [0, 0, 0, 1833, 324463681, 385795061, 551597588, 21339008],
  [0, 0, 0, 0, 280, 127692781, 389432875, 357132832],
  [0, 0, 0, 0, 0, 42, 537767569, 410450016],
  [0, 0, 0, 0, 0, 0, 6, 356826688],
  [0, 0, 0, 0, 0, 0, 0, 1]]

/-- `decTable32[j]` is `58^(5·(8-j))` in base `2^32`. -/
def decTable32 : List (List Nat) := [
  [1277, 2650397687, 3801011509, 2074386530, 3248244966, 687255411, 2959155456, 0],
  [0, 8360, 1184754854, 3047609191, 3418394749, 132556120, 1199103528, 0],
  [0, 0, 54706, 2996985344, 1834629191, 3964963911, 485140318, 1073741824],
  [0, 0, 0, 357981, 1476998812, 3337178590, 1483338760, 4194304000],
  [0, 0, 0, 0, 2342503, 3052466824, 2595180627, 17825792],
  [0, 0, 0, 0, 0, 15328518, 1933902296, 4063920128],
  [0, 0, 0, 0, 0, 0, 100304420, 3355157504],
  [0, 0, 0, 0, 0, 0, 0, 656356768],
  [0, 0, 0, 0, 0, 0, 0, 1]]

/-- `encTable64[j]` is `2^(32·(15-j))` in base `58^5`. -/
def encTable64 : List (List Nat) := [
  [2631, 149457141, 577092685, 632289089, 81912456, 221591423, 502967496, 403284731, 377738089, 492128779, 746799, 366351977, 190199623, 38066284, 526403762, 650603058, 454901440],
  [0, 402, 68350375, 30641941, 266024478, 208884256, 571208415, 337765723, 215140626, 129419325, 480359048, 398051646, 635841659, 214020719, 136986618, 626219915, 49699360],
  [0, 0, 61, 295059608, 141201404, 517024870, 239296485, 527697587, 212906911, 453637228, 467589845, 144614682, 45134568, 184514320, 644355351, 104784612, 308625792],
  [0, 0, 0, 9, 256449755, 500124311, 479690581, 372802935, 413254725, 487877412, 520263169, 176791855, 78190744, 291820402, 74998585, 496097732, 59100544],
  [0, 0, 0, 0, 1, 285573662, 455976778, 379818553, 100001224, 448949512, 109507367, 117185012, 347328982, 522665809, 36908802, 577276849, 64504928],
  [0, 0, 0, 0, 0, 0, 143945778, 651677945, 281429047, 535878743, 264290972, 526964023, 199595821, 597442702, 499113091, 424550935, 458949280],
  [0, 0, 0, 0, 0, 0, 0, 21997789, 294590275, 148640294, 595017589, 210481832, 404203788, 574729546, 160126051, 430102516, 44963712],
  [0, 0, 0, 0, 0, 0, 0, 0, 3361701, 325788598, 30977630, 513969330, 194569730, 164019635, 136596846, 626087230, 503769920],
  [0, 0, 0, 0, 0, 0, 0, 0, 0, 513735, 77223048, 437087610, 300156666, 605448490, 214625350, 141436834, 379377856],
  [0, 0, 0, 0, 0, 0, 0, 0, 0, 0, 78508, 646269101, 118408823, 91512303, 209184527, 413102373, 153715680],
  [0, 0, 0, 0, 0, 0, 0, 0, 0, 0, 0, 11997, 486083817, 3737691, 294005210, 247894721, 289024608],
  [0, 0, 0, 0, 0, 0, 0, 0, 0, 0, 0, 0, 1833, 324463681, 385795061, 551597588, 21339008],
  [0, 0, 0, 0, 0, 0, 0, 0, 0, 0, 0, 0, 0, 280, 127692781, 389432875, 357132832],
  [0, 0, 0, 0, 0, 0, 0, 0, 0, 0, 0, 0, 0, 0, 42, 537767569, 410450016],
  [0, 0, 0, 0, 0, 0, 0, 0, 0, 0, 0, 0, 0, 0, 0, 6, 356826688],
  [0, 0, 0, 0, 0, 0, 0, 0, 0, 0, 0, 0, 0, 0, 0, 0, 1]]

/-- `decTable64[j]` is `58^(5·(17-j))` in base `2^32`. -/
def decTable64 : List (List Nat) := [
  [249448, 3719864065, 173911550, 4021557284, 3115810883, 2498525019, 1035889824, 627529458, 3840888383, 3728167192, 2901437456, 3863405776, 1540739182, 1570766848, 0, 0],
  [0, 1632305, 1882780341, 4128706713, 1023671068, 2618421812, 2005415586, 1062993857, 3577221846, 3960476767, 1695615427, 2597060712, 669472826, 104923136, 0, 0],
  [0, 0, 10681231, 1422956801, 2406345166, 4058671871, 2143913881, 4169135587, 2414104418, 2549553452, 997594232, 713340517, 2290070198, 1103833088, 0, 0],
  [0, 0, 0, 69894212, 1038812943, 1785020643, 1285619000, 2301468615, 3492037905, 314610629, 2761740102, 3410618104, 1699516363, 910779968, 0, 0],
  [0, 0, 0, 0, 457363084, 927569770, 3976106370, 1389513021, 2107865525, 3716679421, 1828091393, 2088408376, 439156799, 2579227194, 0, 0],
  [0, 0, 0, 0, 0, 2992822783, 383623235, 3862831115, 112778334, 339767049, 1447250220, 486575164, 3495303162, 2209946163, 268435456, 0],
  [0, 0, 0, 0, 0, 4, 2404108010, 2962826229, 3998086794, 1893006839, 2266258239, 1429430446, 307953032, 2361423716, 176160768, 0],
  [0, 0, 0, 0, 0, 0, 29, 3596590989, 3044036677, 1332209423, 1014420882, 868688145, 4264082837, 3688771808, 2485387264, 0],
  [0, 0, 0, 0, 0, 0, 0, 195, 1054003707, 3711696540, 582574436, 3549229270, 1088536814, 2338440092, 1468637184, 0],
  [0, 0, 0, 0, 0, 0, 0, 0, 1277, 2650397687, 3801011509, 2074386530, 3248244966, 687255411, 2959155456, 0],
  [0, 0, 0, 0, 0, 0, 0, 0, 0, 8360, 1184754854, 3047609191, 3418394749, 132556120, 1199103528, 0],
  [0, 0, 0, 0, 0, 0, 0, 0, 0, 0, 54706, 2996985344, 1834629191, 3964963911, 485140318, 1073741824],
  [0, 0, 0, 0, 0, 0, 0, 0, 0, 0, 0, 357981, 1476998812, 3337178590, 1483338760, 4194304000],
  [0, 0, 0, 0, 0, 0, 0, 0, 0, 0, 0, 0, 2342503, 3052466824, 2595180627, 17825792],
  [0, 0, 0, 0, 0, 0, 0, 0, 0, 0, 0, 0, 0, 15328518, 1933902296, 4063920128],
  [0, 0, 0, 0, 0, 0, 0, 0, 0, 0, 0, 0, 0, 0, 100304420, 3355157504],
  [0, 0, 0, 0, 0, 0, 0, 0, 0, 0, 0, 0, 0, 0, 0, 656356768],
  [0, 0, 0, 0, 0, 0, 0, 0, 0, 0, 0, 0, 0, 0, 0, 1]]

/-- Row `i` of `rows` is `b ^ (rows.length - 1 - i)` written in base `B`. -/
def PowerRows (b B : Nat) : List (List Nat) → Prop
  | [] => True
  | row :: rows => beValue B row = b ^ rows.length ∧ PowerRows b B rows

instance decidablePowerRows (b B : Nat) : (rows : List (List Nat)) → Decidable (PowerRows b B rows)
  | [] => isTrue trivial
  | _ :: rows =>
    have := decidablePowerRows b B rows
    inferInstanceAs (Decidable (_ ∧ _))

theorem encTable32_powerRows : PowerRows (2 ^ 32) r1Div encTable32 := by decide
theorem decTable32_powerRows : PowerRows r1Div (2 ^ 32) decTable32 := by decide
theorem encTable64_powerRows : PowerRows (2 ^ 32) r1Div encTable64 := by decide
theorem decTable64_powerRows : PowerRows r1Div (2 ^ 32) decTable64 := by decide

end Base58
