import ArchiveVfs.Deflate.Bits

/-!
# Huffman codes

A code is given by the lengths of its words. Words are handed out from left to
right in a binary tree, shorter ones first and equal ones in the order of their
symbols. `Code.decode` walks down the tree from bit to bit.
-/

namespace ArchiveVfs.Deflate

/-- A tree of code words. -/
inductive Tree where
  /-- No word leads here. -/
  | unassigned
  /-- The word of a symbol ends here. -/
  | symbol (value : Nat)
  /-- The next bit decides. -/
  | branch (zero one : Tree)
  deriving Repr

/-- The longest code word. -/
def maxWordLength : Nat := 15

/-- Builds the tree below a place that is `levels` above the longest words and
`depth` below the top, from words in order: the tree, and the words left over. -/
def Tree.build : (levels depth : Nat) → List (Nat × Nat) → Tree × List (Nat × Nat)
  | _, _, [] => (.unassigned, [])
  | 0, depth, (length, value) :: words =>
    if length = depth then (.symbol value, words) else (.unassigned, (length, value) :: words)
  | levels + 1, depth, (length, value) :: words =>
    if length = depth then (.symbol value, words)
    else
      let left := build levels (depth + 1) ((length, value) :: words)
      let right := build levels (depth + 1) left.2
      (.branch left.1 right.1, right.2)

/-- A code: the trees behind its first bit. -/
structure Code where
  /-- The words that begin with a zero. -/
  zero : Tree
  /-- The words that begin with a one. -/
  one : Tree
  deriving Repr

namespace Code

/-- Lengths of words with their symbols, shorter ones first; zero means no word. -/
def wordsOf (lengths : List Nat) : List (Nat × Nat) :=
  (List.range maxWordLength).flatMap fun i =>
    lengths.zipIdx.filter fun word => word.1 = i + 1

/-- The code with these lengths of words. -/
def ofLengths (lengths : List Nat) : Code :=
  let left := Tree.build (maxWordLength - 1) 1 (wordsOf lengths)
  let right := Tree.build (maxWordLength - 1) 1 left.2
  ⟨left.1, right.1⟩

/-- The share of all words of the greatest length that the code takes up. -/
def share : (lengths : List Nat) → Nat
  | [] => 0
  | 0 :: rest => share rest
  | length :: rest => 1 <<< (maxWordLength - length) + share rest

/-- Whether the code takes up exactly what there is. -/
def isComplete (lengths : List Nat) : Bool :=
  share lengths = 1 <<< maxWordLength

end Code

/-- What decoding finds. -/
inductive Decoded where
  /-- A symbol, and the bits behind its word. -/
  | symbol (value : Nat) (rest : Bits)
  /-- No symbol has the word. -/
  | unassigned
  /-- The bits end within a word. -/
  | cut

/-- Follows the bits down from a place in a tree. -/
def Tree.decode : Tree → Bits → Decoded
  | .unassigned, _ => .unassigned
  | .symbol value, bits => .symbol value bits
  | .branch _ _, [] => .cut
  | .branch zero one, b :: bits => if b then one.decode bits else zero.decode bits

/-- Reads a word. -/
def Code.decode (code : Code) : Bits → Decoded
  | [] => .cut
  | b :: bits => if b then code.one.decode bits else code.zero.decode bits

theorem Tree.decode_length {tree : Tree} {bits rest : Bits} {value : Nat}
    (h : tree.decode bits = .symbol value rest) : rest.length ≤ bits.length := by
  induction tree generalizing bits with
  | unassigned => simp [Tree.decode] at h
  | symbol => simp_all [Tree.decode]
  | branch zero one ihzero ihone =>
    cases bits with
    | nil => simp [Tree.decode] at h
    | cons b bits =>
      unfold Tree.decode at h
      split at h
      · exact Nat.le_succ_of_le (ihone h)
      · exact Nat.le_succ_of_le (ihzero h)

/-- A word read leaves fewer bits. -/
theorem Code.decode_length {code : Code} {bits rest : Bits} {value : Nat}
    (h : code.decode bits = .symbol value rest) : rest.length < bits.length := by
  unfold Code.decode at h
  split at h
  · simp at h
  · split at h <;> exact Nat.lt_succ_of_le (Tree.decode_length h)

end ArchiveVfs.Deflate
