namespace Hunks.Text

def ofLatin1 (bytes : List UInt8) : String :=
  String.ofList (bytes.map fun b ↦ Char.ofNat b.toNat)

/-- One byte per character; a text with a character above U+00FF has no such form. -/
def latin1? (text : String) : Option (List UInt8) :=
  text.toList.mapM fun c ↦ if c.toNat < 256 then some c.toNat.toUInt8 else none

end Hunks.Text
