import ArchiveVfs.Deflate.Inflate

/-!
# Handing out inflated data

Compressed data are taken in pieces, and decoded in rounds: a round ends at a full
window, at the end of the piece, or at a fault. A request gets what is decoded and
not handed out yet, or else what further rounds bring until it has enough. A fault
takes with it all that its request has put together, and no later request gets
anything.
-/

namespace ArchiveVfs.Deflate

/-- The number of compressed bytes taken at once. -/
def pieceSize : Nat := 32768

/-- The decoding of an entry. -/
structure Supply where
  /-- The number of pieces that are not taken yet. -/
  left : Nat
  /-- The compressed bytes taken so far. -/
  taken : Bytes := []
  /-- What they decode to. -/
  inflated : Inflated := inflate []
  /-- The number of bytes that the rounds so far have decoded. -/
  ready : Nat := 0
  /-- The fault that ended the supply. -/
  fault : Option Fault := none
  deriving Repr

namespace Supply

/-- The supply of `size` compressed bytes. -/
def ofSize (size : Nat) : Supply where
  left := (size + (pieceSize - 1)) / pieceSize

/-- The supply with a further piece. -/
def take (supply : Supply) (piece : Bytes) : Supply :=
  let taken := supply.taken ++ piece
  { supply with left := supply.left - 1, taken, inflated := inflate taken }

/-- The end of the window that holds the last of `size` bytes. -/
def windowEnd (size : Nat) : Nat :=
  size + (windowSize - size % windowSize) % windowSize

/-- Decodes round by round until `target` bytes are there or the bytes taken are used up.
A full window that something comes behind ends a round. -/
def decode (supply : Supply) (target : Nat) : Supply :=
  if windowEnd target < supply.inflated.bytes.size then { supply with ready := windowEnd target }
  else
    match supply.inflated.pause with
    | some size => { supply with ready := size }
    | none =>
      if supply.inflated.fault = some .corrupt then { supply with fault := some .corrupt }
      else { supply with ready := supply.inflated.bytes.size }

/-- Decodes what is left when there are no more pieces. The last bytes of incomplete data
are there for one request only, as the fault stands for all later ones. -/
def decodeLast (supply : Supply) : Supply :=
  { supply with
    ready := supply.inflated.bytes.size
    fault := supply.inflated.fault }

/-- Up to `count` bytes that are ready from `position` on. -/
def slice (supply : Supply) (position count : Nat) : Bytes :=
  (supply.inflated.bytes.extract position (min (position + count) supply.ready)).toList

/-- Decodes until a request for `count` bytes at `position` has a byte, and hands out what
it has. Of the pieces, `left` are not taken yet; at the end of the data nothing is
handed out. -/
def decodeFrom (piece : (offset : Nat) → Bytes) (position count : Nat) :
    (left : Nat) → Supply → Except Fault Bytes × Supply
  | left, supply =>
    let supply := supply.decode (position + count)
    if let some fault := supply.fault then (.error fault, supply)
    else if position < supply.ready then (.ok (supply.slice position count), supply)
    else if supply.inflated.fault.isNone && supply.inflated.pause.isNone then (.ok [], supply)
    else
      match left with
      | left + 1 =>
        decodeFrom piece position count left (supply.take (piece supply.taken.length))
      | 0 =>
        let supply := supply.decodeLast
        match supply.fault with
        | some .corrupt => (.error .corrupt, supply)
        | some .incomplete =>
          if position < supply.ready then (.ok (supply.slice position count), supply)
          else (.error .incomplete, supply)
        | none => (.ok (supply.slice position count), supply)

/-- Hands out up to `count` bytes from `position` on; `piece` gives the compressed bytes
that stand at an offset now. -/
def read (supply : Supply) (piece : (offset : Nat) → Bytes) (position count : Nat) :
    Except Fault Bytes × Supply :=
  match supply.fault with
  | some fault => (.error fault, supply)
  | none =>
    if position < supply.ready then (.ok (supply.slice position count), supply)
    else supply.decodeFrom piece position count supply.left

end Supply

end ArchiveVfs.Deflate
