import Catchment.QuotedText

/-!
# Structural fingerprints

A structure is written as a literal (quoted texts, integers, lists, tuples, and parts that are
already written) and named by the first digits of the digest of that text. The digest is SHA-1 of
the text in UTF-8, as forty hexadecimal digits: the message is padded to blocks of sixteen words,
and each block is stretched to eighty words and mixed into five chaining words.
-/
namespace Catchment

namespace Sha1

structure Chain where
  a : UInt32
  b : UInt32
  c : UInt32
  d : UInt32
  e : UInt32
  deriving DecidableEq, Repr

def initial : Chain := ⟨0x67452301, 0xEFCDAB89, 0x98BADCFE, 0x10325476, 0xC3D2E1F0⟩

def rotate (x : UInt32) (n : UInt32) : UInt32 := (x <<< n) ||| (x >>> (32 - n))

/-- A one bit, zeros up to 56 bytes modulo 64, and the length in bits in eight bytes. -/
def padding (length : Nat) : List UInt8 :=
  let zeros := (119 - length % 64) % 64
  0x80 :: List.replicate zeros 0 ++
    (List.range 8).map fun (i : Nat) => UInt8.ofNat ((length * 8) >>> (8 * (7 - i)) % 256)

def wordsOf : List UInt8 → List UInt32
  | w :: x :: y :: z :: rest =>
    ((w.toUInt32 <<< 24) ||| (x.toUInt32 <<< 16) ||| (y.toUInt32 <<< 8) ||| z.toUInt32) ::
      wordsOf rest
  | _ => []

/-- The next word of a schedule held latest first. -/
def nextWord (schedule : List UInt32) : UInt32 :=
  let word (i : Nat) : UInt32 := schedule.getD i 0
  rotate (word 2 ^^^ word 7 ^^^ word 13 ^^^ word 15) 1

def schedule (block : List UInt32) : List UInt32 :=
  ((List.range 64).foldl (fun ws _ => nextWord ws :: ws) block.reverse).reverse

def mixer (t : Nat) (s : Chain) : UInt32 :=
  if t < 20 then ((s.b &&& s.c) ||| (~~~s.b &&& s.d)) + 0x5A827999
  else if t < 40 then (s.b ^^^ s.c ^^^ s.d) + 0x6ED9EBA1
  else if t < 60 then ((s.b &&& s.c) ||| (s.b &&& s.d) ||| (s.c &&& s.d)) + 0x8F1BBCDC
  else (s.b ^^^ s.c ^^^ s.d) + 0xCA62C1D6

def round (s : Chain) (step : UInt32 × Nat) : Chain :=
  ⟨rotate s.a 5 + mixer step.2 s + s.e + step.1, s.a, rotate s.b 30, s.c, s.d⟩

def compress (s : Chain) (block : List UInt32) : Chain :=
  let m := (schedule block).zipIdx.foldl round s
  ⟨s.a + m.a, s.b + m.b, s.c + m.c, s.d + m.d, s.e + m.e⟩

/-- Blocks of sixteen words, at most `fuel` of them. -/
def digestBlocks : Nat → Chain → List UInt32 → Chain
  | 0, s, _ => s
  | fuel + 1, s, words => digestBlocks fuel (compress s (words.take 16)) (words.drop 16)

def hexWord (w : UInt32) : List Char :=
  let ds := Nat.toDigits 16 w.toNat
  List.replicate (8 - ds.length) '0' ++ ds

def hexDigest (text : String) : String :=
  let bytes := text.toUTF8.toList
  let words := wordsOf (bytes ++ padding bytes.length)
  let s := digestBlocks (words.length / 16) initial words
  String.ofList ([s.a, s.b, s.c, s.d, s.e].flatMap hexWord)

end Sha1

inductive Literal where
  | text (s : String)
  | integer (n : Int)
  | flag (b : Bool)
  | none
  /-- A part whose text is already known. -/
  | written (s : String)
  | list (items : List Literal)
  | tuple (items : List Literal)

namespace Literal

def render : Literal → String
  | text s => quotedText s
  | integer n => toString n
  | flag b => if b then "True" else "False"
  | none => "None"
  | written s => s
  | list items => "[" ++ commaSeparated (items.map render) ++ "]"
  | tuple items => tupleText (items.map render)

def names (items : List String) : Literal := tuple (items.map text)

end Literal

/-- The digits of a digest that a length keeps; a negative length cuts from the end. -/
def keepDigits (length : Int) (s : String) : String :=
  let cs := s.toList
  String.ofList (cs.take (if length < 0 then cs.length - length.natAbs else length.toNat))

def fingerprint (parts : List Literal) (length : Int) : String :=
  keepDigits length (Sha1.hexDigest (Literal.tuple parts).render)

/-- The ten digits that end a default name. -/
def shortPrint (parts : List Literal) : String := fingerprint parts 10

end Catchment
