import Dataflow.Text.Lossy
/-!
# Four-character codes

Vendors and object types are named by four octets packed into a word, the first octet in the
highest place.
-/

namespace Dataflow

/-- Four octets in one word, the first octet most significant. -/
abbrev FourCC := UInt32

namespace FourCC

/-- The code of four octets. -/
def ofOctets (a b c d : UInt8) : FourCC :=
  (a.toUInt32 <<< 24) ||| (b.toUInt32 <<< 16) ||| (c.toUInt32 <<< 8) ||| d.toUInt32

/-- The four octets of a code, first to last. -/
def octets (code : FourCC) : List UInt8 :=
  [(code >>> 24).toUInt8, (code >>> 16).toUInt8, (code >>> 8).toUInt8, code.toUInt8]

/-- The code as text. Octets that are no text are replaced. -/
def text (code : FourCC) : String := Text.lossy (octets code)

/-- The vendor of the built-in stages, `core`. -/
def core : FourCC := 0x636f7265

/-- The object type of byte buffers, `bufr`. -/
def buffer : FourCC := 0x62756672

end FourCC

end Dataflow
