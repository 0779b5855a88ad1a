import ArchiveVfs.Bytes

/-!
# UTF-8

Text is written one character after the other, each as one to four bytes.
Reading goes by steps: a step finds a character, or the longest prefix that
begins no character (one to three bytes), or it finds that the data ends inside
a sequence. `decode` stops at the first fault and says where it is;
`decodeLossy` puts U+FFFD in its place and goes on.
-/

namespace ArchiveVfs.Text.Utf8

/-- The bytes of a text. -/
def encode (cs : List Char) : Bytes :=
  cs.flatMap String.utf8EncodeChar

/-- The bytes of a string. -/
def bytesOf (s : String) : Bytes :=
  encode s.toList

/-- What the bytes at the front of the data are. -/
inductive Step where
  /-- No byte is left. -/
  | done
  /-- A character of `width` bytes. -/
  | char (c : Char) (width : Nat) (rest : Bytes)
  /-- A prefix of `width` bytes that begins no character. -/
  | broken (width : Nat) (rest : Bytes)
  /-- The beginning of a sequence, cut by the end of the data. -/
  | cut

/-- Bytes of the form `10xxxxxx` continue a sequence. -/
def isContinuation (b : UInt8) : Bool :=
  0x80 ≤ b && b ≤ 0xBF

/-- Whether `b` may follow the leading byte `a` of a sequence of three: no
overlong forms and no surrogates. -/
def isSecondOfThree (a b : UInt8) : Bool :=
  if a = 0xE0 then 0xA0 ≤ b && b ≤ 0xBF
  else if a = 0xED then 0x80 ≤ b && b ≤ 0x9F
  else isContinuation b

/-- Whether `b` may follow the leading byte `a` of a sequence of four: no
overlong forms and nothing above U+10FFFF. -/
def isSecondOfFour (a b : UInt8) : Bool :=
  if a = 0xF0 then 0x90 ≤ b && b ≤ 0xBF
  else if a = 0xF4 then 0x80 ≤ b && b ≤ 0x8F
  else isContinuation b

/-- A sequence of two bytes led by `a`. -/
def stepTwo (a : UInt8) : Bytes → Step
  | [] => .cut
  | b :: rest =>
    if isContinuation b then
      .char (Char.ofNat (a.toNat % 32 * 64 + b.toNat % 64)) 2 rest
    else .broken 1 (b :: rest)

/-- A sequence of three bytes led by `a`. -/
def stepThree (a : UInt8) : Bytes → Step
  | [] => .cut
  | b :: rest =>
    if isSecondOfThree a b then
      match rest with
      | [] => .cut
      | c :: rest =>
        if isContinuation c then
          .char (Char.ofNat (a.toNat % 16 * 4096 + b.toNat % 64 * 64 + c.toNat % 64)) 3 rest
        else .broken 2 (c :: rest)
    else .broken 1 (b :: rest)

/-- A sequence of four bytes led by `a`. -/
def stepFour (a : UInt8) : Bytes → Step
  | [] => .cut
  | b :: rest =>
    if isSecondOfFour a b then
      match rest with
      | [] => .cut
      | c :: rest =>
        if isContinuation c then
          match rest with
          | [] => .cut
          | d :: rest =>
            if isContinuation d then
              .char (Char.ofNat (a.toNat % 8 * 262144 + b.toNat % 64 * 4096
                + c.toNat % 64 * 64 + d.toNat % 64)) 4 rest
            else .broken 3 (d :: rest)
        else .broken 2 (c :: rest)
    else .broken 1 (b :: rest)

/-- Reads the front of the data. -/
def step : Bytes → Step
  | [] => .done
  | a :: rest =>
    if a < 0x80 then .char (Char.ofNat a.toNat) 1 rest
    else if 0xC2 ≤ a && a ≤ 0xDF then stepTwo a rest
    else if 0xE0 ≤ a && a ≤ 0xEF then stepThree a rest
    else if 0xF0 ≤ a && a ≤ 0xF4 then stepFour a rest
    else .broken 1 rest

/-- A character read leaves fewer bytes. -/
theorem step_char_length {bytes rest : Bytes} {c : Char} {width : Nat}
    (h : step bytes = .char c width rest) : rest.length < bytes.length := by
  rcases bytes with _ | ⟨a, _ | ⟨b, _ | ⟨c, _ | ⟨d, tail⟩⟩⟩⟩ <;>
    grind [step, stepTwo, stepThree, stepFour]

/-- A broken prefix leaves fewer bytes. -/
theorem step_broken_length {bytes rest : Bytes} {width : Nat}
    (h : step bytes = .broken width rest) : rest.length < bytes.length := by
  rcases bytes with _ | ⟨a, _ | ⟨b, _ | ⟨c, _ | ⟨d, tail⟩⟩⟩⟩ <;>
    grind [step, stepTwo, stepThree, stepFour]

/-- Why bytes are no text. -/
inductive Fault where
  /-- A prefix of `width` bytes at `index` begins no character. -/
  | broken (index width : Nat)
  /-- The data ends inside the sequence at `index`. -/
  | cut (index : Nat)
  deriving DecidableEq, Repr

/-- The wording of a fault. -/
def Fault.message : Fault → String
  | .broken index width => s!"invalid utf-8 sequence of {width} bytes from index {index}"
  | .cut index => s!"incomplete utf-8 byte sequence from index {index}"

/-- Reads on from `index`, with the characters read so far in reverse. -/
def decodeFrom (index : Nat) (read : List Char) (bytes : Bytes) : Except Fault (List Char) :=
  match h : step bytes with
  | .done => .ok read.reverse
  | .char c width rest =>
    have := step_char_length h
    decodeFrom (index + width) (c :: read) rest
  | .broken width _ => .error (.broken index width)
  | .cut => .error (.cut index)
termination_by bytes.length

/-- The text that the bytes spell, or the first fault in them. -/
def decode (bytes : Bytes) : Except Fault (List Char) :=
  decodeFrom 0 [] bytes

/-- Reads on, with the characters read so far in reverse. -/
def decodeLossyFrom (read : List Char) (bytes : Bytes) : List Char :=
  match h : step bytes with
  | .done => read.reverse
  | .char c _ rest =>
    have := step_char_length h
    decodeLossyFrom (c :: read) rest
  | .broken _ rest =>
    have := step_broken_length h
    decodeLossyFrom ('\uFFFD' :: read) rest
  | .cut => ('\uFFFD' :: read).reverse
termination_by bytes.length

/-- The text that the bytes spell, each fault replaced by U+FFFD. -/
def decodeLossy (bytes : Bytes) : List Char :=
  decodeLossyFrom [] bytes

end ArchiveVfs.Text.Utf8
