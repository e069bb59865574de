/-
The hash function BLAKE3, with its default output of 32 bytes.

The input is cut into chunks of 1024 bytes and each chunk into blocks of 64.  The
blocks of a chunk are compressed one after the other, each into the chaining value
left by the one before, and the chunks become the leaves of a binary tree whose
inner nodes compress the chaining values of their two children.  The compression
that ends the tree is marked as the root, so that no inner result is ever a digest.

The state of a compression is a four by four square of words.  `mix` works on whole
rows, that is, on the four columns at once; turning the rows against each other
brings the diagonals into the columns, and turning them back ends the round.

A tree whose left parts are as large as possible and hold a power of two of chunks
is what pairing neighbours gives, level by level, when an odd node at the end moves
up unpaired.  `pairUp` does one level, and leaves a single node as it is.
-/

namespace Subprotocol.Blake3

/-! ### Rows -/

/-- Four words, one from each column. -/
structure Row where
  w0 : UInt32
  w1 : UInt32
  w2 : UInt32
  w3 : UInt32

namespace Row

def zip (f : UInt32 → UInt32 → UInt32) (a b : Row) : Row :=
  ⟨f a.w0 b.w0, f a.w1 b.w1, f a.w2 b.w2, f a.w3 b.w3⟩

def add : Row → Row → Row := zip (· + ·)

def xor : Row → Row → Row := zip (· ^^^ ·)

/-- Each word rotated right by `n` bits, for `n` from 1 to 31. -/
def rotate (n : UInt32) (a : Row) : Row :=
  let turn := fun x : UInt32 => (x >>> n) ||| (x <<< (32 - n))
  ⟨turn a.w0, turn a.w1, turn a.w2, turn a.w3⟩

/-- The row moved one column to the left. -/
def turn (a : Row) : Row := ⟨a.w1, a.w2, a.w3, a.w0⟩

def toList (a : Row) : List UInt32 := [a.w0, a.w1, a.w2, a.w3]

end Row

/-! ### Compression -/

/-- The state of a compression, row by row. -/
structure Square where
  a : Row
  b : Row
  c : Row
  d : Row

/-- A chaining value: the upper two rows of a square. -/
structure Chain where
  a : Row
  b : Row

def initial : Chain :=
  ⟨⟨0x6a09e667, 0xbb67ae85, 0x3c6ef372, 0xa54ff53a⟩,
    ⟨0x510e527f, 0x9b05688c, 0x1f83d9ab, 0x5be0cd19⟩⟩

/-- Mixes two message words into every column. -/
def mix (s : Square) (x y : Row) : Square :=
  let a := (s.a.add s.b).add x
  let d := (s.d.xor a).rotate 16
  let c := s.c.add d
  let b := (s.b.xor c).rotate 12
  let a := (a.add b).add y
  let d := (d.xor a).rotate 8
  let c := c.add d
  let b := (b.xor c).rotate 7
  ⟨a, b, c, d⟩

/-- The diagonals brought into the columns. -/
def skew (s : Square) : Square := ⟨s.a, s.b.turn, s.c.turn.turn, s.d.turn.turn.turn⟩

/-- The columns brought back onto the diagonals. -/
def unskew (s : Square) : Square := ⟨s.a, s.b.turn.turn.turn, s.c.turn.turn, s.d.turn⟩

/-- The row of words that stand at the four indices. -/
def pick (m : Array UInt32) (i j k l : Nat) : Row :=
  ⟨m.getD i 0, m.getD j 0, m.getD k 0, m.getD l 0⟩

def round (s : Square) (m : Array UInt32) : Square :=
  let s := mix s (pick m 0 2 4 6) (pick m 1 3 5 7)
  unskew (mix (skew s) (pick m 8 10 12 14) (pick m 9 11 13 15))

/-- The message as the next round reads it. -/
def permute (m : Array UInt32) : Array UInt32 :=
  #[2, 6, 3, 10, 7, 0, 4, 13, 1, 11, 12, 5, 9, 14, 15, 8].map fun i => m.getD i 0

/-- `n` rounds, with the message permuted between them. -/
def rounds : Nat → Square → Array UInt32 → Square
  | 0, s, _ => s
  | n + 1, s, m => rounds n (round s m) (permute m)

/-- A compression that is still to be done, so that the last one can be marked. -/
structure Node where
  chain : Chain
  message : Array UInt32
  counter : Nat
  length : Nat
  flags : UInt32

def chunkStart : UInt32 := 1

def chunkEnd : UInt32 := 2

def parent : UInt32 := 4

def root : UInt32 := 8

/-- The chaining value that the node leaves. -/
def Node.output (n : Node) : Chain :=
  let counter := n.counter.toUInt64
  let start : Square := ⟨n.chain.a, n.chain.b, initial.a,
    ⟨counter.toUInt32, (counter >>> 32).toUInt32, n.length.toUInt32, n.flags⟩⟩
  let s := rounds 7 start n.message
  ⟨s.a.xor s.c, s.b.xor s.d⟩

/-! ### Chunks -/

/-- `l` in pieces of `size`, the last of which may be shorter.  There is always one. -/
def pieces {α : Type} (size : Nat) (l : List α) : List (List α) :=
  (List.range (max 1 ((l.length + size - 1) / size))).map fun i => (l.drop (i * size)).take size

/-- The word whose bytes stand at the four positions from `4 * i`, lowest byte first. -/
def word (bytes : Array UInt8) (i : Nat) : UInt32 :=
  let byte := fun j => (bytes.getD (4 * i + j) 0).toUInt32
  byte 0 ||| byte 1 <<< 8 ||| byte 2 <<< 16 ||| byte 3 <<< 24

/-- The sixteen words of a block, filled up with zeros. -/
def words (block : List UInt8) : Array UInt32 :=
  ((List.range 16).map (word block.toArray)).toArray

/-- The last block of a chunk, chained to all the blocks before it. -/
def chainBlocks (counter : Nat) (chain : Chain) (flags : UInt32) : List (List UInt8) → Node
  | [] => ⟨chain, words [], counter, 0, flags ||| chunkEnd⟩
  | [block] => ⟨chain, words block, counter, block.length, flags ||| chunkEnd⟩
  | block :: rest =>
    chainBlocks counter (Node.output ⟨chain, words block, counter, block.length, flags⟩) 0 rest

/-- The leaf for the chunk with number `counter`. -/
def leaf (chunk : List UInt8) (counter : Nat) : Node :=
  chainBlocks counter initial chunkStart (pieces 64 chunk)

/-! ### The tree -/

/-- The node above two nodes. -/
def join (left right : Node) : Node :=
  let l := left.output
  let r := right.output
  ⟨initial, (l.a.toList ++ l.b.toList ++ r.a.toList ++ r.b.toList).toArray, 0, 64, parent⟩

/-- One level up. -/
def pairUp : List Node → List Node
  | left :: right :: rest => join left right :: pairUp rest
  | nodes => nodes

/-- The top of the tree over `leaves`, whose height their number exceeds. -/
def top (leaves : List Node) : Option Node :=
  (Nat.repeat pairUp leaves.length leaves).head?

/-- The bytes of a word, lowest first. -/
def bytes (w : UInt32) : List UInt8 :=
  [w.toUInt8, (w >>> 8).toUInt8, (w >>> 16).toUInt8, (w >>> 24).toUInt8]

/-- The digest of `input`, 32 bytes. -/
def hash (input : List UInt8) : List UInt8 :=
  match top ((pieces 1024 input).zipIdx.map fun c => leaf c.1 c.2) with
  | none => []
  | some node =>
    let out := Node.output { node with flags := node.flags ||| root }
    (out.a.toList ++ out.b.toList).flatMap bytes

/-- Two lower-case hexadecimal digits for each byte. -/
def hex (digest : List UInt8) : String :=
  let digits := fun b : UInt8 => [Nat.digitChar (b.toNat / 16), Nat.digitChar (b.toNat % 16)]
  String.ofList (digest.flatMap digits)

end Subprotocol.Blake3
