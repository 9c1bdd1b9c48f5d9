import Mathlib.Data.List.Basic

/-!
# ASCII bytes

The bytes that the syntax of JSON and of the texts around it is made of.
-/

namespace Ascii

def quote : UInt8 := 0x22

def backslash : UInt8 := 0x5c

def comma : UInt8 := 0x2c

def colon : UInt8 := 0x3a

def lbrace : UInt8 := 0x7b

def rbrace : UInt8 := 0x7d

def lbracket : UInt8 := 0x5b

def rbracket : UInt8 := 0x5d

def star : UInt8 := 0x2a

/-- The white space of JSON. -/
def isSpace (c : UInt8) : Bool := c = 0x20 ∨ c = 0x09 ∨ c = 0x0a ∨ c = 0x0d

/-- The bytes of a text. -/
def bytes (s : String) : List UInt8 := s.toByteArray.data.toList

end Ascii
