import ArchiveVfs.Deflate.BlockCodes
import ArchiveVfs.Deflate.Item
import ArchiveVfs.Deflate.Output

/-!
# Inflating

Deflated data are blocks: bytes as they are, or literals and copies of earlier
output under Huffman codes. `inflate` gives all that can be decoded and says why
it is not the whole. Copies may reach up to 32768 bytes back, before the first
byte too.
-/

namespace ArchiveVfs.Deflate

/-- What is decoded, and why it is not the whole. -/
structure Inflated extends Output where
  /-- The fault behind the decoded bytes. -/
  fault : Option Fault := none
  deriving Repr

/-- Decodes elements up to the end of the block: the output, and the bits behind the
block or a fault. -/
def expand (literals distances : Code) (bits : Bits) (output : Output) :
    Output × Except Fault Bits :=
  match h : item literals distances bits with
  | .error fault => (output, .error fault)
  | .ok (.stop, rest) => (output, .ok rest)
  | .ok (.literal b, rest) =>
    have := item_length h
    expand literals distances rest (output.push rest.isSpent b)
  | .ok (.copy length distance, rest) =>
    have := item_length h
    expand literals distances rest (output.copyBack distance rest.isSpent length)
termination_by bits.length

/-- Puts the next `count` bytes behind the output. A byte is taken when it has a place,
so that a full window finds it still there. -/
def storeBytes : (count : Nat) → Bits → Output → Output × Except Fault Bits
  | 0, bits, output => (output, .ok bits)
  | count + 1, bits, output =>
    match bits.takeNat 8 with
    | none => (output, .error .incomplete)
    | some (value, rest) => storeBytes count rest (output.push false (UInt8.ofNat value))

/-- The length of a block of stored bytes, which is written twice, the second time
inverted. -/
def storedLength (bits : Bits) : Except Fault (Nat × Bits) :=
  match number 16 bits.align with
  | .error fault => .error fault
  | .ok (length, rest) =>
    match number 16 rest with
    | .error fault => .error fault
    | .ok (inverted, rest) =>
      if length + inverted = 65535 then .ok (length, rest) else .error .corrupt

/-- Decodes a block of the given kind. -/
def block (kind : Nat) (bits : Bits) (output : Output) : Output × Except Fault Bits :=
  if kind = 0 then
    match storedLength bits with
    | .error fault => (output, .error fault)
    | .ok (length, rest) => storeBytes length rest output
  else if kind = 1 then expand fixedCodes.1 fixedCodes.2 bits output
  else if kind = 2 then
    match ownCodes bits with
    | .error fault => (output, .error fault)
    | .ok (codes, rest) => expand codes.1 codes.2 rest output
  else (output, .error .corrupt)

/-- Decodes blocks up to the last one; `blocks` bounds their number. -/
def blocksFrom : (blocks : Nat) → Bits → Output → Inflated
  | 0, _, output => { output with fault := some .incomplete }
  | blocks + 1, bits, output =>
    match number 3 bits with
    | .error fault => { output with fault := some fault }
    | .ok (header, rest) =>
      match block (header / 2) rest output with
      | (output, .error fault) => { output with fault := some fault }
      | (output, .ok rest) =>
        if header % 2 = 1 then { output with } else blocksFrom blocks rest output

/-- Decodes deflated data. Each block takes three bits or more, so there are no more
blocks than bits. -/
def inflate (data : Bytes) : Inflated :=
  blocksFrom (8 * data.length + 1) (Bits.ofBytes data) {}

end ArchiveVfs.Deflate
