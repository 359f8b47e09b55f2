import Custody.Text.Hex

/-!
# BLAKE3

The 256-bit digest of a byte string.  The input is cut into chunks of 1024 bytes, each of which
is compressed block by block; the chunks are the leaves of a binary tree in which every left
subtree is complete and as large as it can be.  The digest comes from the root.

* `Blake3.digest`: the 32 bytes of the digest.
* `Blake3.hex`: the same in lower-case hexadecimal.
-/

namespace Custody.Blake3

/-- The initial chaining value. -/
def initial : Vector UInt32 8 :=
  #v[0x6A09E667, 0xBB67AE85, 0x3C6EF372, 0xA54FF53A, 0x510E527F, 0x9B05688C, 0x1F83D9AB, 0x5BE0CD19]

/-! ### Flags -/

def chunkStart : UInt32 := 1

def chunkEnd : UInt32 := 2

def parentFlag : UInt32 := 4

def rootFlag : UInt32 := 8

/-! ### Compression -/

/-- Rotates a word to the right. -/
def rotateRight (x n : UInt32) : UInt32 := (x >>> n) ||| (x <<< (32 - n))

/-- Mixes two words of the message into a column or a diagonal of the state. -/
def mix (v : Vector UInt32 16) (a b c d : Fin 16) (x y : UInt32) : Vector UInt32 16 :=
  let va := v[a] + v[b] + x
  let vd := rotateRight (v[d] ^^^ va) 16
  let vc := v[c] + vd
  let vb := rotateRight (v[b] ^^^ vc) 12
  let va := va + vb + y
  let vd := rotateRight (vd ^^^ va) 8
  let vc := vc + vd
  let vb := rotateRight (vb ^^^ vc) 7
  (((v.set a va).set b vb).set c vc).set d vd

/-- Mixes a message into the four columns and then the four diagonals of the state. -/
def round (v m : Vector UInt32 16) : Vector UInt32 16 :=
  let v := mix v 0 4 8 12 m[0] m[1]
  let v := mix v 1 5 9 13 m[2] m[3]
  let v := mix v 2 6 10 14 m[4] m[5]
  let v := mix v 3 7 11 15 m[6] m[7]
  let v := mix v 0 5 10 15 m[8] m[9]
  let v := mix v 1 6 11 12 m[10] m[11]
  let v := mix v 2 7 8 13 m[12] m[13]
  mix v 3 4 9 14 m[14] m[15]

/-- The order in which the next round takes the words of the message. -/
def permutation : Vector (Fin 16) 16 := #v[2, 6, 3, 10, 7, 0, 4, 13, 1, 11, 12, 5, 9, 14, 15, 8]

/-- The message of the next round. -/
def permute (m : Vector UInt32 16) : Vector UInt32 16 := permutation.map fun i => m[i]

/-- A number of rounds, the message permuted between them. -/
def rounds : Nat → Vector UInt32 16 → Vector UInt32 16 → Vector UInt32 16
  | 0, v, _ => v
  | n + 1, v, m => rounds n (round v m) (permute m)

/-- A node of the tree before its last compression, which differs at the root. -/
structure Node where
  chaining : Vector UInt32 8
  block : Vector UInt32 16
  counter : UInt64
  /-- The number of bytes in the block. -/
  length : UInt32
  flags : UInt32

namespace Node

/-- The compression of a node. -/
def compress (n : Node) (flags : UInt32) : Vector UInt32 16 :=
  let low := #v[initial[0], initial[1], initial[2], initial[3],
    n.counter.toUInt32, (n.counter >>> 32).toUInt32, n.length, n.flags ||| flags]
  let v := rounds 7 (n.chaining ++ low) n.block
  Vector.ofFn fun i : Fin 16 =>
    if h : i.val < 8 then v[i.val] ^^^ v[i.val + 8]
    else v[i.val] ^^^ n.chaining[i.val - 8]

/-- What a node that is not the root passes on. -/
def chain (n : Node) : Vector UInt32 8 :=
  let out := n.compress 0
  Vector.ofFn fun i : Fin 8 => out[i.val]

/-- The node of two subtrees. -/
def parent (left right : Node) : Node where
  chaining := initial
  block := left.chain ++ right.chain
  counter := 0
  length := 64
  flags := parentFlag

end Node

/-! ### Chunks -/

/-- Cuts a byte string into pieces of `size + 1` bytes, the last of which may be shorter; there is
always at least one. -/
def cut (size : Nat) (bytes : Bytes) : List Bytes :=
  if bytes.length ≤ size + 1 then [bytes]
  else bytes.take (size + 1) :: cut size (bytes.drop (size + 1))
termination_by bytes.length
decreasing_by simp only [List.length_drop]; omega

/-- The word of four bytes, the least significant first. -/
def word (a b c d : UInt8) : UInt32 :=
  a.toUInt32 ||| (b.toUInt32 <<< 8) ||| (c.toUInt32 <<< 16) ||| (d.toUInt32 <<< 24)

/-- The words of a block, which is filled up with zeros. -/
def blockWords (block : Bytes) : Vector UInt32 16 :=
  let bytes := block.toArray
  Vector.ofFn fun i : Fin 16 =>
    let j := 4 * i.val
    word (bytes.getD j 0) (bytes.getD (j + 1) 0) (bytes.getD (j + 2) 0) (bytes.getD (j + 3) 0)

/-- The node of a block of a chunk. -/
def blockNode (counter : UInt64) (chaining : Vector UInt32 8) (flags : UInt32) (block : Bytes) :
    Node where
  chaining := chaining
  block := blockWords block
  counter := counter
  length := UInt32.ofNat block.length
  flags := flags

/-- The node of the blocks of a chunk, of which each but the last is compressed into the chaining
value of the next. -/
def chunkNode (counter : UInt64) (chaining : Vector UInt32 8) (flags : UInt32) (block : Bytes) :
    List Bytes → Node
  | [] => blockNode counter chaining (flags ||| chunkEnd) block
  | next :: rest =>
    chunkNode counter (blockNode counter chaining flags block).chain 0 next rest

/-- The node of a chunk. -/
def chunk (counter : UInt64) (bytes : Bytes) : Node :=
  match cut 63 bytes with
  | [] => chunkNode counter initial chunkStart [] []
  | block :: rest => chunkNode counter initial chunkStart block rest

/-! ### The tree -/

/-- The size of the left subtree over `n + 2` chunks: the greatest power of two below their
number. -/
def leftSize (n : Nat) : Nat := Nat.pow 2 (n + 1).log2

theorem leftSize_pos (n : Nat) : 0 < leftSize n := Nat.two_pow_pos _

theorem leftSize_le (n : Nat) : leftSize n ≤ n + 1 := Nat.log2_self_le (by omega)

/-- The tree over a chunk and further chunks. -/
def tree : Node → List Node → Node
  | node, [] => node
  | node, next :: rest =>
    let size := leftSize rest.length
    match h : (next :: rest).drop (size - 1) with
    | [] => node
    | first :: more => (tree node ((next :: rest).take (size - 1))).parent (tree first more)
termination_by _ nodes => nodes.length
decreasing_by
  · have := leftSize_le rest.length
    simp only [List.length_take, List.length_cons]
    have := leftSize_pos rest.length
    omega
  · have := congrArg List.length h
    simp only [List.length_drop, List.length_cons] at this ⊢
    omega

/-- The nodes of chunks, numbered from a counter. -/
def chunkNodes (counter : UInt64) : List Bytes → List Node
  | [] => []
  | bytes :: rest => chunk counter bytes :: chunkNodes (counter + 1) rest

/-- The root of the tree over a byte string. -/
def root (bytes : Bytes) : Node :=
  match cut 1023 bytes with
  | [] => chunk 0 []
  | first :: rest => tree (chunk 0 first) (chunkNodes 1 rest)

/-! ### The digest -/

/-- The bytes of a word, the least significant first. -/
def wordBytes (w : UInt32) : Bytes :=
  [w.toUInt8, (w >>> 8).toUInt8, (w >>> 16).toUInt8, (w >>> 24).toUInt8]

/-- The 32 bytes of the digest. -/
def digest (bytes : Bytes) : Bytes :=
  (((root bytes).compress rootFlag).toList.take 8).flatMap wordBytes

/-- The digest in lower-case hexadecimal. -/
def hex (bytes : Bytes) : String := Hex.write (digest bytes)

end Custody.Blake3
