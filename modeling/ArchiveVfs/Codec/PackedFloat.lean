/-!
# Packed floats

A float between -1 and 1, or between 0 and 1, is packed into sixteen bits by
scaling and rounding; values outside are clamped. Floats are given by their bits.
-/

namespace ArchiveVfs.PackedFloat

/-- The scale for floats between -1 and 1. -/
def signedScale : Float32 := 32767.5

/-- The scale for floats between 0 and 1. -/
def unsignedScale : Float32 := 65535.0

/-- The value itself within its bounds, else the bound it passes. -/
def clamp (least greatest value : Float32) : Float32 :=
  if value < least then least else if greatest < value then greatest else value

/-- Packs a float between -1 and 1. -/
def packSigned (bits : UInt32) : UInt16 :=
  ((clamp (-1.0) 1.0 (Float32.ofBits bits) + 1.0) * signedScale).round.toUInt16

/-- Unpacks a float between -1 and 1. -/
def unpackSigned (packed : UInt16) : UInt32 :=
  (packed.toFloat32 / signedScale - 1.0).toBits

/-- Packs a float between 0 and 1. -/
def packUnsigned (bits : UInt32) : UInt16 :=
  (clamp 0.0 1.0 (Float32.ofBits bits) * unsignedScale).round.toUInt16

/-- Unpacks a float between 0 and 1. -/
def unpackUnsigned (packed : UInt16) : UInt32 :=
  (packed.toFloat32 / unsignedScale).toBits

end ArchiveVfs.PackedFloat
