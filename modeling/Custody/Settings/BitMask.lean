/-!
# Bit masks

A set of up to eight switches, one for each bit of a byte.  An operation takes
any number of bits at once: several are enabled together, and they count as
enabled when one of them is.
-/

namespace Custody.Settings

/-- The switches that are on. -/
structure BitMask where
  bits : UInt8
  deriving DecidableEq, Inhabited, Repr

namespace BitMask

/-- All switches off. -/
def none : BitMask := ⟨0⟩

/-- Switch bits on. -/
def enable (mask : BitMask) (flag : UInt8) : BitMask := ⟨mask.bits ||| flag⟩

/-- Switch bits off. -/
def disable (mask : BitMask) (flag : UInt8) : BitMask := ⟨mask.bits &&& ~~~flag⟩

/-- Switch bits on or off. -/
def set (mask : BitMask) (flag : UInt8) (value : Bool) : BitMask :=
  if value then mask.enable flag else mask.disable flag

/-- Is one of the bits on? -/
def enabled (mask : BitMask) (flag : UInt8) : Bool := mask.bits &&& flag != 0

/-- The mask with the given bits on. -/
def ofFlags (flags : List UInt8) : BitMask := flags.foldl enable none

/-- The places of the bits that are on, in ascending order. -/
def toList (mask : BitMask) : List Nat := (List.range 8).filter mask.bits.toNat.testBit

end BitMask

end Custody.Settings
