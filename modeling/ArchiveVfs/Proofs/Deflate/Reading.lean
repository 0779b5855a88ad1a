import ArchiveVfs.Deflate.BlockCodes
import ArchiveVfs.Deflate.Inflate

/-!
# Reading when more bits follow

What is read off some bits is read off them also when more bits follow, and what breaks
the rules breaks them then too; only what is incomplete may turn out to be anything
(`Continues`). That is so of numbers and symbols, and from there of all that is read off
compressed data. Whole bytes must follow, as stored bytes begin at a whole byte.
-/

namespace ArchiveVfs.Deflate

/-- What is read off some bits, and what is read off more of them: `behind` puts the further
bits behind those that are left. -/
inductive Continues {α : Type} (behind : α → α) : Except Fault α → Except Fault α → Prop where
  | ok (value : α) : Continues behind (.ok value) (.ok (behind value))
  | corrupt : Continues behind (.error .corrupt) (.error .corrupt)
  | incomplete (longer : Except Fault α) : Continues behind (.error .incomplete) longer

/-- Further bits behind those that are left. -/
def extend {α : Type} (more : Bits) (parts : α × Bits) : α × Bits :=
  (parts.1, parts.2 ++ more)

theorem Continues.eq_ok {α : Type} {behind : α → α} {value : α} {longer : Except Fault α}
    (h : Continues behind (.ok value) longer) : longer = .ok (behind value) := by
  cases h
  rfl

theorem Continues.eq_corrupt {α : Type} {behind : α → α} {longer : Except Fault α}
    (h : Continues behind (.error .corrupt) longer) : longer = .error .corrupt := by
  cases h
  rfl

/-- What is said of the two results holds if it does in each case. -/
@[elab_as_elim]
theorem Continues.elim {α : Type} {more : Bits}
    {P : Except Fault (α × Bits) → Except Fault (α × Bits) → Prop}
    {shorter longer : Except Fault (α × Bits)} (h : Continues (extend more) shorter longer)
    (hok : ∀ value rest, P (.ok (value, rest)) (.ok (value, rest ++ more)))
    (hcorrupt : P (.error .corrupt) (.error .corrupt))
    (hincomplete : ∀ longer, P (.error .incomplete) longer) : P shorter longer := by
  cases h with
  | ok parts => exact hok parts.1 parts.2
  | corrupt => exact hcorrupt
  | incomplete longer => exact hincomplete longer

/-- What is read in two steps continues as the steps do. -/
theorem Continues.bind {α β : Type} {more : Bits} {behind : β → β}
    {shorter longer : Except Fault (α × Bits)} (h : Continues (extend more) shorter longer)
    {next : α × Bits → Except Fault β}
    (hnext : ∀ value rest, Continues behind (next (value, rest)) (next (value, rest ++ more))) :
    Continues behind (shorter >>= next) (longer >>= next) :=
  h.elim hnext .corrupt fun _ => .incomplete _

theorem takeNat_append {width : Nat} {bits : Bits} {parts : Nat × Bits}
    (h : bits.takeNat width = some parts) (more : Bits) :
    (bits ++ more).takeNat width = some (extend more parts) := by
  induction width generalizing bits parts with
  | zero =>
    obtain rfl := Option.some.inj h
    rfl
  | succ width ih =>
    cases bits with
    | nil => cases h
    | cons b bits =>
      obtain ⟨inner, hinner, rfl⟩ := Option.map_eq_some_iff.1 h
      rw [List.cons_append, Bits.takeNat, ih hinner]
      rfl

theorem number_append (width : Nat) (bits more : Bits) :
    Continues (extend more) (number width bits) (number width (bits ++ more)) := by
  rw [number]
  cases htake : bits.takeNat width with
  | none => exact .incomplete _
  | some parts =>
    rw [number, takeNat_append htake]
    exact .ok parts

theorem tree_decode_append (tree : Tree) (bits more : Bits) :
    (∀ value rest, tree.decode bits = .symbol value rest →
      tree.decode (bits ++ more) = .symbol value (rest ++ more)) ∧
    (tree.decode bits = .unassigned → tree.decode (bits ++ more) = .unassigned) := by
  induction tree generalizing bits with
  | unassigned => simp [Tree.decode]
  | symbol value => simp [Tree.decode]
  | branch zero one ihzero ihone =>
    cases bits with
    | nil => simp [Tree.decode]
    | cons b bits =>
      cases b with
      | false => exact ihzero bits
      | true => exact ihone bits

theorem code_decode_append (code : Code) (bits more : Bits) :
    (∀ value rest, code.decode bits = .symbol value rest →
      code.decode (bits ++ more) = .symbol value (rest ++ more)) ∧
    (code.decode bits = .unassigned → code.decode (bits ++ more) = .unassigned) := by
  cases bits with
  | nil => simp [Code.decode]
  | cons b bits =>
    cases b with
    | false => exact tree_decode_append code.zero bits more
    | true => exact tree_decode_append code.one bits more

theorem symbol_append (code : Code) (bits more : Bits) :
    Continues (extend more) (symbol code bits) (symbol code (bits ++ more)) := by
  obtain ⟨hsymbol, hunassigned⟩ := code_decode_append code bits more
  rw [symbol, symbol]
  cases hdecode : code.decode bits with
  | symbol value rest =>
    rw [hsymbol value rest hdecode]
    exact .ok (value, rest)
  | unassigned =>
    rw [hunassigned hdecode]
    exact .corrupt
  | cut => exact .incomplete _

theorem classValue_append (classes : Array (Nat × Nat)) (index : Nat) (bits more : Bits) :
    Continues (extend more) (classValue classes index bits)
      (classValue classes index (bits ++ more)) := by
  rw [classValue, classValue]
  rcases classes[index]? with _ | ⟨least, width⟩
  · exact .corrupt
  · dsimp only
    refine (number_append width bits more).elim ?_ .corrupt fun _ => .incomplete _
    intro value rest
    exact .ok (least + value, rest)

theorem distance_append (distances : Code) (bits more : Bits) :
    Continues (extend more) (distance distances bits) (distance distances (bits ++ more)) := by
  rw [distance, distance]
  refine (symbol_append distances bits more).elim ?_ .corrupt fun _ => .incomplete _
  intro value rest
  exact classValue_append distanceClasses value rest more

theorem item_append (literals distances : Code) (bits more : Bits) :
    Continues (extend more) (item literals distances bits)
      (item literals distances (bits ++ more)) := by
  rw [item, item]
  refine (symbol_append literals bits more).elim ?_ .corrupt fun _ => .incomplete _
  intro value rest
  by_cases hliteral : value < 256
  · simp only [if_pos hliteral]
    exact .ok (Item.literal _, rest)
  · by_cases hstop : value = 256
    · simp only [if_neg hliteral, if_pos hstop]
      exact .ok (Item.stop, rest)
    · simp only [if_neg hliteral, if_neg hstop]
      generalize value - 257 = index
      refine (classValue_append lengthClasses index rest more).elim ?_ .corrupt
        fun _ => .incomplete _
      intro length rest
      dsimp only
      refine (distance_append distances rest more).elim ?_ .corrupt fun _ => .incomplete _
      intro back rest
      exact .ok (Item.copy length back, rest)

theorem shortNumbers_append (count : Nat) (bits more : Bits) :
    Continues (extend more) (shortNumbers count bits) (shortNumbers count (bits ++ more)) := by
  induction count generalizing bits with
  | zero => exact .ok ([], bits)
  | succ count ih =>
    rw [shortNumbers, shortNumbers]
    refine (number_append 3 bits more).elim ?_ .corrupt fun _ => .incomplete _
    intro value rest
    dsimp only
    refine (ih rest).elim ?_ .corrupt fun _ => .incomplete _
    intro values rest
    exact .ok (value :: values, rest)

/-- A run carries two numbers in front of the bits. -/
theorem lengthRun_append (code : Code) (last : Option Nat) (bits more : Bits) :
    Continues (fun run => (run.1, extend more run.2)) (lengthRun code last bits)
      (lengthRun code last (bits ++ more)) := by
  rw [lengthRun, lengthRun]
  refine (symbol_append code bits more).elim ?_ .corrupt fun _ => .incomplete _
  intro value rest
  by_cases hplain : value < 16
  · simp only [if_pos hplain]
    exact .ok (value, 1, rest)
  · simp only [if_neg hplain]
    generalize (if value = 16 then (last, 3, 2)
      else if value = 17 then (some 0, 3, 3) else (some 0, 11, 7) : Option Nat × Nat × Nat) = kind
    obtain ⟨repeated, least, width⟩ := kind
    rcases repeated with _ | length
    · exact .corrupt
    · dsimp only
      refine (number_append width rest more).elim ?_ .corrupt fun _ => .incomplete _
      intro further rest
      exact .ok (length, least + further, rest)

theorem codeLengths_eq (code : Code) (count : Nat) (read : List Nat) (bits : Bits) :
    codeLengths code count read bits =
      if count ≤ read.length then
        if read.length = count then .ok (read.reverse, bits) else .error .corrupt
      else
        match lengthRun code read.head? bits with
        | .error fault => .error fault
        | .ok (length, more, rest) =>
          codeLengths code count (List.replicate more length ++ read) rest := by
  rw [codeLengths]
  split
  · rfl
  · split <;> simp_all

theorem codeLengths_append (code : Code) (count : Nat) (read : List Nat) (bits more : Bits) :
    Continues (extend more) (codeLengths code count read bits)
      (codeLengths code count read (bits ++ more)) := by
  fun_induction codeLengths code count read bits
  case case1 read bits henough hexact =>
    rw [codeLengths, if_pos henough, if_pos hexact]
    exact .ok (read.reverse, bits)
  case case2 read bits henough hexact =>
    rw [codeLengths, if_pos henough, if_neg hexact]
    exact .corrupt
  case case3 read bits hmore fault hrun =>
    have hlong := lengthRun_append code read.head? bits more
    rw [hrun] at hlong
    cases fault with
    | incomplete => exact .incomplete _
    | corrupt =>
      rw [codeLengths_eq, if_neg hmore, hlong.eq_corrupt]
      exact .corrupt
  case case4 read bits hmore length further rest hrun _ ih =>
    have hlong := lengthRun_append code read.head? bits more
    rw [hrun] at hlong
    rw [codeLengths_eq code count read (bits ++ more), if_neg hmore, hlong.eq_ok]
    exact ih

theorem align_append (bits : Bits) {more : Bits} (hwhole : 8 ∣ more.length) :
    (bits ++ more).align = bits.align ++ more := by
  have hcount : (bits.length + more.length) % 8 = bits.length % 8 := by omega
  have hle : bits.length % 8 ≤ bits.length := Nat.mod_le _ _
  rw [Bits.align, Bits.align, List.length_append, hcount, List.drop_append_of_le_length hle]

theorem storedLength_append (bits : Bits) {more : Bits} (hwhole : 8 ∣ more.length) :
    Continues (extend more) (storedLength bits) (storedLength (bits ++ more)) := by
  rw [storedLength, storedLength, align_append bits hwhole]
  refine (number_append 16 bits.align more).elim ?_ .corrupt fun _ => .incomplete _
  intro length rest
  dsimp only
  refine (number_append 16 rest more).elim ?_ .corrupt fun _ => .incomplete _
  intro inverted rest
  by_cases hmatch : length + inverted = 65535
  · simp only [if_pos hmatch]
    exact .ok (length, rest)
  · simp only [if_neg hmatch]
    exact .corrupt

theorem ownCodes_append (bits more : Bits) :
    Continues (extend more) (ownCodes bits) (ownCodes (bits ++ more)) := by
  rw [ownCodes, ownCodes]
  refine (number_append 5 bits more).bind ?_
  intro literalCount bits
  refine (number_append 5 bits more).bind ?_
  intro distanceCount bits
  refine (number_append 4 bits more).bind ?_
  intro shortCount bits
  dsimp only
  by_cases hcounts : (decide (29 < literalCount) || decide (29 < distanceCount)) = true
  · simp only [if_pos hcounts]
    exact .corrupt
  · simp only [if_neg hcounts]
    refine (shortNumbers_append (shortCount + 4) bits more).bind ?_
    intro written bits
    dsimp only
    by_cases hshort : Code.isComplete (inOrder written) = true
    · simp only [if_pos hshort]
      refine (codeLengths_append _ _ [] bits more).bind ?_
      intro lengths bits
      dsimp only
      by_cases husable : (isUsable (lengths.take (literalCount + 257))
          && isUsable (lengths.drop (literalCount + 257))) = true
      · simp only [if_pos husable]
        exact .ok (_, bits)
      · simp only [if_neg husable]
        exact .corrupt
    · simp only [if_neg hshort]
      exact .corrupt

end ArchiveVfs.Deflate
