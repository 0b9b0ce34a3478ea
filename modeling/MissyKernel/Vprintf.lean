import MissyKernel.Display
import MissyKernel.Numerals

/-!
# `vprintf` and what it prints

`vprintf` walks over the format in runs of literal text and conversions, and hands every
character to `putchar`, until `print` sees the end-of-file value, which is also the byte
`0xff` as a `char`. A format is given here as pieces, with the bytes they spell, the
arguments they take and the characters that they stand for.

Numbers go through `itoa`, which takes them as unsigned; `itoa_s`, which knows a sign, is
never called, so a negative `%d` or `%i` is printed modulo 2^32.

The definitions follow the C file branch by branch: the run of literal text, the escape, the
conversions with what they take off the arguments, and the branch for a `%` that is none of
these, which prints the rest of the format as it is. `Piece` is the other side: what a format is
meant to say, with `renderingOf` for the characters that it stands for.
-/

namespace MissyKernel

/-- A C string: the bytes before the zero. -/
structure CString : Type where
  /-- the bytes -/
  bytes : List (BitVec 8)
  /-- none of them ends the string -/
  noNul : ∀ c ∈ bytes, c ≠ 0

/-- A string in memory, with the zero that ends it. -/
def CString.object (s : CString) : List (BitVec 8) := s.bytes ++ [0]

theorem CString.drop_object (s : CString) : s.object.drop 0 = s.bytes ++ [0] := rfl

/-- An argument behind the format. -/
inductive VaArg : Type where
  /-- an `int` or `unsigned int`; a `char` is promoted to one -/
  | int (w : BitVec 32)
  /-- a `const char *` -/
  | str (s : CString)

/-- A `char`, promoted to `int`. -/
def charOf (c : BitVec 8) : BitVec 32 := c.signExtend 32

/-- `"0123456789ABCDEFGHIJKLMNOPQRSTUVWXYZ"[d]` -/
def lettermap (d : ℕ) : BitVec 8 := BitVec.ofNat 8 (if d < 10 then 0x30 + d else 0x41 + (d - 10))

/-- `itoa`: what it returns, `errno` and the buffer. Its buffer has 33 bytes. -/
def itoa (errno : BitVec 32) (buffer : ℕ → BitVec 8) (num : BitVec 32) (base : ℕ) :
    ℤ × BitVec 32 × (ℕ → BitVec 8) :=
  if 36 < base ∨ base < 2 then (0, 3, Function.update buffer 0 0)
  else if num = 0 then (1, errno, Function.update (Function.update buffer 0 0x30) 1 0)
  else
    let buffer := fun i => if i < 33 then 0 else buffer i
    match writeDigits lettermap base 32 num.toNat buffer with
    | none => (-1, 4, buffer)
    | some (writeptr, buffer) =>
      (32 - writeptr, errno, copyString (33 - writeptr) 0 writeptr buffer)

/-- The display, and what was handed to `putchar` so far, with `errno`. -/
structure Console : Type where
  /-- the display driver -/
  display : Display
  /-- the arguments of `putchar`, oldest first -/
  handed : List (BitVec 32)
  /-- `errno` -/
  errno : BitVec 32

/-- `putchar` -/
def putchar (con : Console) (c : BitVec 32) : BitVec 32 × Console :=
  (c, { con with display := displayWrite con.display c, handed := con.handed ++ [c] })

/-- `print` -/
def print (con : Console) : List (BitVec 8) → Bool × Console
  | [] => (true, con)
  | c :: rest =>
    let (r, con) := putchar con (charOf c)
    if r = -1 then (false, con) else print con rest

/-- The end of every branch of `vprintf`: the test against `INT_MAX`, the call of `print` and
the new count. -/
def emit (con : Console) (written : ℕ) (text : List (BitVec 8)) : Except Console (ℕ × Console) :=
  if 2 ^ 31 - 1 - written < text.length then .error { con with errno := 4 }
  else
    match print con text with
    | (false, con) => .error con
    | (true, con) => .ok (written + text.length, con)

/-- What a conversion prints. -/
inductive Conversion : Type where
  /-- the text, `errno` and the arguments left -/
  | text (text : List (BitVec 8)) (errno : BitVec 32) (args : List VaArg)
  /-- the argument is missing, or of another type: undefined in C -/
  | undefined
  /-- no conversion of `vprintf` -/
  | unknown

/-- A branch that prints a number through `itoa`. -/
def convertNumber (errno : BitVec 32) (buffer : ℕ → BitVec 8) (base : ℕ) :
    List VaArg → Conversion
  | .int num :: args =>
    let (length, errno, buffer) := itoa errno buffer num base
    .text ((List.range (length % 2 ^ 32).toNat).map buffer) errno args
  | _ => .undefined

/-- The branches of `vprintf` behind a `%`, by the letter that follows. -/
def convert (errno : BitVec 32) (buffer : ℕ → BitVec 8) (letter : Option (BitVec 8))
    (args : List VaArg) : Conversion :=
  if letter = some 0x63 then
    match args with
    | .int w :: args => .text [w.setWidth 8] errno args
    | _ => .undefined
  else if letter = some 0x73 then
    match args with
    | .str s :: args => .text s.bytes errno args
    | _ => .undefined
  else if letter = some 0x78 ∨ letter = some 0x58 ∨ letter = some 0x6f ∨ letter = some 0x75 then
    let base := if letter = some 0x78 ∨ letter = some 0x58 then 16
      else if letter = some 0x6f then 8 else 10
    convertNumber errno buffer base args
  else if letter = some 0x64 ∨ letter = some 0x69 then convertNumber errno buffer 10 args
  else if letter = some 0x62 then convertNumber errno buffer 2 args
  else .unknown

/-- The loop of `vprintf`, over what is left of the format. `buffer` is what the bytes of its
local buffers happen to be. -/
def vprintfLoop (buffer : ℕ → BitVec 8) (fmt : List (BitVec 8)) (args : List VaArg)
    (written : ℕ) (con : Console) : Option (ℤ × Console) :=
  match fmt with
  | [] => some (written, con)
  | c :: rest =>
    if c ≠ 0x25 ∨ rest.head? = some 0x25 then
      -- of an escape the second byte begins the run
      let run := if c = 0x25 then rest else c :: rest
      let amount := 1 + (run.tail.takeWhile (· ≠ 0x25)).length
      match emit con written (run.take amount) with
      | .error con => some (-1, con)
      | .ok (written, con) => vprintfLoop buffer (run.drop amount) args written con
    else
      match convert con.errno buffer rest.head? args with
      | .undefined => none
      | .text text errno args =>
        match emit { con with errno := errno } written text with
        | .error con => some (-1, con)
        | .ok (written, con) => vprintfLoop buffer rest.tail args written con
      | .unknown =>
        match emit con written (c :: rest) with
        | .error con => some (-1, con)
        | .ok (written, con) => some (written, con)
termination_by fmt.length
decreasing_by
  · simp only [List.length_drop]
    split <;> simp only [List.length_cons] <;> omega
  · simp only [List.length_tail, List.length_cons]
    omega

/-- `vprintf` -/
def vprintf (buffer : ℕ → BitVec 8) (con : Console) (fmt : List (BitVec 8)) (args : List VaArg) :
    Option (ℤ × Console) :=
  vprintfLoop buffer fmt args 0 con

/-! ## Formats -/

/-- The conversions of a number. -/
inductive Conv : Type where
  | d
  | i
  | u
  | o
  | x
  | X
  | b

namespace Conv

/-- The letter of a conversion. -/
def letter : Conv → BitVec 8
  | .d => 0x64
  | .i => 0x69
  | .u => 0x75
  | .o => 0x6f
  | .x => 0x78
  | .X => 0x58
  | .b => 0x62

/-- The base it prints in. -/
def base : Conv → ℕ
  | .d => 10
  | .i => 10
  | .u => 10
  | .o => 8
  | .x => 16
  | .X => 16
  | .b => 2

/-- It prints a sign. -/
def signed : Conv → Bool
  | .d => true
  | .i => true
  | .u => false
  | .o => false
  | .x => false
  | .X => false
  | .b => false

end Conv

/-- A piece of a format, with the argument it takes. -/
inductive Piece : Type where
  /-- a byte that stands for itself -/
  | literal (c : BitVec 8) (noNul : c ≠ 0) (noPercent : c ≠ 0x25)
  /-- `%%` -/
  | percent
  /-- `%c` -/
  | char (w : BitVec 32)
  /-- `%s` -/
  | string (s : CString)
  /-- a number -/
  | number (conv : Conv) (w : BitVec 32)

/-- A character of a rendering. -/
inductive RefChar : Type where
  /-- this byte -/
  | byte (c : BitVec 8)
  /-- a hexadecimal digit, its letter in either case -/
  | hexDigit (d : ℕ)
deriving DecidableEq

/-- The character is the one of the rendering. -/
def RefChar.Matches (c : BitVec 32) : RefChar → Prop
  | .byte b => c = charOf b
  | .hexDigit d =>
    c = charOf (BitVec.ofNat 8 (if d < 10 then 0x30 + d else 0x41 + (d - 10))) ∨
      c = charOf (BitVec.ofNat 8 (if d < 10 then 0x30 + d else 0x61 + (d - 10)))

/-- A number in some base. -/
def digitChars (base n : ℕ) : List RefChar :=
  (numeral base n).map fun d => if base = 16 then .hexDigit d else .byte (BitVec.ofNat 8 (0x30 + d))

/-- A number with its sign. -/
def signedChars (z : ℤ) : List RefChar :=
  if z < 0 then .byte 0x2d :: digitChars 10 z.natAbs else digitChars 10 z.natAbs

namespace Piece

/-- The bytes of a piece in the format. -/
def spelling : Piece → List (BitVec 8)
  | .literal c _ _ => [c]
  | .percent => [0x25, 0x25]
  | .char _ => [0x25, 0x63]
  | .string _ => [0x25, 0x73]
  | .number conv _ => [0x25, conv.letter]

/-- The arguments of a piece. -/
def args : Piece → List VaArg
  | .literal _ _ _ => []
  | .percent => []
  | .char w => [.int w]
  | .string s => [.str s]
  | .number _ w => [.int w]

/-- The characters that a piece stands for; `signed` tells whether `%d` and `%i` know a
sign. -/
def rendering (signed : Bool) : Piece → List RefChar
  | .literal c _ _ => [.byte c]
  | .percent => [.byte 0x25]
  | .char w => [.byte (w.setWidth 8)]
  | .string s => s.bytes.map .byte
  | .number conv w =>
    if signed && conv.signed then signedChars w.toInt else digitChars conv.base w.toNat

end Piece

/-- The format that the pieces spell. -/
def formatOf (pieces : List Piece) : List (BitVec 8) := pieces.flatMap Piece.spelling

/-- Their arguments. -/
def argsOf (pieces : List Piece) : List VaArg := pieces.flatMap Piece.args

/-- What they stand for. -/
def renderingOf (signed : Bool) (pieces : List Piece) : List RefChar :=
  pieces.flatMap (Piece.rendering signed)

@[simp] theorem formatOf_cons (p : Piece) (pieces : List Piece) :
    formatOf (p :: pieces) = p.spelling ++ formatOf pieces := List.flatMap_cons

@[simp] theorem argsOf_cons (p : Piece) (pieces : List Piece) :
    argsOf (p :: pieces) = p.args ++ argsOf pieces := List.flatMap_cons

@[simp] theorem renderingOf_cons (signed : Bool) (p : Piece) (pieces : List Piece) :
    renderingOf signed (p :: pieces) = p.rendering signed ++ renderingOf signed pieces :=
  List.flatMap_cons

end MissyKernel
