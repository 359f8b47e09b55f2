/-!
# UTF-8

Store keys and stored records are byte strings; names are texts.  Bytes are read left to right
by a small machine: a lead byte says how many bytes follow and which range the first of them
lies in, and every later one lies in `0x80 … 0xBF`.  A stretch of bytes that begins a character
and is broken off counts as one unreadable piece, and the byte that broke it is read afresh.

* `Utf8.encode`: the bytes of a text.
* `Utf8.decode?`: the text of well-formed bytes.
* `Utf8.decodeLossy`: any bytes, with the replacement character for each unreadable piece.
-/

namespace Custody

/-- A byte string. -/
abbrev Bytes := List UInt8

namespace Utf8

/-- The bytes of a sequence of characters. -/
def encode (cs : List Char) : Bytes := cs.flatMap String.utf8EncodeChar

/-- A character of which some bytes have been read. -/
structure Partial where
  /-- How many bytes follow the next one. -/
  more : Nat
  /-- The least value of the next byte. -/
  low : Nat
  /-- The greatest value of the next byte. -/
  high : Nat
  /-- The bits read so far. -/
  bits : Nat

/-- Reads a byte in front of which nothing is pending: the piece it completes, if any, and the
character it begins, if any. -/
def lead (b : UInt8) : List (Option Char) × Option Partial :=
  let n := b.toNat
  if n < 0x80 then ([some (Char.ofNat n)], none)
  else if n < 0xC2 then ([none], none)
  else if n < 0xE0 then ([], some ⟨0, 0x80, 0xBF, n - 0xC0⟩)
  else if n < 0xF0 then
    ([], some ⟨1, if n = 0xE0 then 0xA0 else 0x80, if n = 0xED then 0x9F else 0xBF, n - 0xE0⟩)
  else if n < 0xF5 then
    ([], some ⟨2, if n = 0xF0 then 0x90 else 0x80, if n = 0xF4 then 0x8F else 0xBF, n - 0xF0⟩)
  else ([none], none)

/-- The characters and the unreadable pieces of a byte string, the latter as `none`. -/
def pieces : Option Partial → Bytes → List (Option Char)
  | none, [] => []
  | some _, [] => [none]
  | none, b :: rest => (lead b).1 ++ pieces (lead b).2 rest
  | some p, b :: rest =>
    if p.low ≤ b.toNat ∧ b.toNat ≤ p.high then
      let bits := p.bits * 64 + (b.toNat - 0x80)
      match p.more with
      | 0 => some (Char.ofNat bits) :: pieces none rest
      | more + 1 => pieces (some ⟨more, 0x80, 0xBF, bits⟩) rest
    else none :: ((lead b).1 ++ pieces (lead b).2 rest)

/-- The characters of well-formed bytes. -/
def decode? (bytes : Bytes) : Option (List Char) := (pieces none bytes).mapM id

/-- The characters of any bytes, with U+FFFD for each unreadable piece. -/
def decodeLossy (bytes : Bytes) : List Char := (pieces none bytes).map (·.getD '\uFFFD')

/-- The bytes of a text. -/
def ofString (s : String) : Bytes := encode s.toList

/-- The text of well-formed bytes. -/
def toString? (bytes : Bytes) : Option String := (decode? bytes).map String.ofList

/-! ### Reading back what was written -/

/-- A character's bytes are read as that character, whatever follows. -/
theorem pieces_encodeChar (c : Char) (rest : Bytes) :
    pieces none (String.utf8EncodeChar c ++ rest) = some c :: pieces none rest := by
  have hv : c.toNat < 0xD800 ∨ (0xDFFF < c.toNat ∧ c.toNat < 0x110000) := by
    have := c.valid
    simpa [UInt32.isValidChar, Nat.isValidChar] using this
  have hc : Char.ofNat c.toNat = c := Char.ofNat_toNat c
  unfold String.utf8EncodeChar
  simp only [show c.val.toNat = c.toNat from rfl]
  generalize c.toNat = n at *
  -- one case for each length of the encoding; in each, the bytes lie in the ranges `lead` allows
  split
  · have h₁ : n < 128 := by omega
    have h₂ : n % 256 = n := by omega
    simp [pieces, lead, h₁, h₂, hc]
  split
  · have h₁ : (n / 64 % 32 + 192) % 256 = n / 64 + 192 := by omega
    have h₂ : (n % 64 + 128) % 256 = n % 64 + 128 := by omega
    have l₁ : ¬ n / 64 + 192 < 128 := by omega
    have l₂ : ¬ n / 64 + 192 < 194 := by omega
    have l₃ : n / 64 + 192 < 224 := by omega
    have r₁ : n % 64 + 128 ≤ 191 := by omega
    have hn : n / 64 * 64 + n % 64 = n := by omega
    simp [pieces, lead, h₁, h₂, l₁, l₂, l₃, r₁, hn, hc]
  split
  · have h₁ : (n / 4096 % 16 + 224) % 256 = n / 4096 + 224 := by omega
    have h₂ : (n / 64 % 64 + 128) % 256 = n / 64 % 64 + 128 := by omega
    have h₃ : (n % 64 + 128) % 256 = n % 64 + 128 := by omega
    have l₁ : ¬ n / 4096 + 224 < 128 := by omega
    have l₂ : ¬ n / 4096 + 224 < 194 := by omega
    have l₃ : ¬ n / 4096 + 224 < 224 := by omega
    have l₄ : n / 4096 + 224 < 240 := by omega
    have r₁ : (if n < 4096 then 160 else 128) ≤ n / 64 % 64 + 128 := by split <;> omega
    have r₂ : n / 64 % 64 + 128 ≤ if n / 4096 = 13 then 159 else 191 := by split <;> omega
    have r₃ : n % 64 + 128 ≤ 191 := by omega
    have hn : (n / 4096 * 64 + n / 64 % 64) * 64 + n % 64 = n := by omega
    simp [pieces, lead, h₁, h₂, h₃, l₁, l₂, l₃, l₄, r₁, r₂, r₃, hn, hc]
  · have h₁ : (n / 262144 % 8 + 240) % 256 = n / 262144 + 240 := by omega
    have h₂ : (n / 4096 % 64 + 128) % 256 = n / 4096 % 64 + 128 := by omega
    have h₃ : (n / 64 % 64 + 128) % 256 = n / 64 % 64 + 128 := by omega
    have h₄ : (n % 64 + 128) % 256 = n % 64 + 128 := by omega
    have l₁ : ¬ n / 262144 + 240 < 128 := by omega
    have l₂ : ¬ n / 262144 + 240 < 194 := by omega
    have l₃ : ¬ n / 262144 + 240 < 224 := by omega
    have l₄ : ¬ n / 262144 + 240 < 240 := by omega
    have l₅ : n / 262144 + 240 < 245 := by omega
    have r₁ : (if n < 262144 then 144 else 128) ≤ n / 4096 % 64 + 128 := by split <;> omega
    have r₂ : n / 4096 % 64 + 128 ≤ if n / 262144 = 4 then 143 else 191 := by split <;> omega
    have r₃ : n / 64 % 64 + 128 ≤ 191 := by omega
    have r₄ : n % 64 + 128 ≤ 191 := by omega
    have hn : ((n / 262144 * 64 + n / 4096 % 64) * 64 + n / 64 % 64) * 64 + n % 64 = n := by
      omega
    simp [pieces, lead, h₁, h₂, h₃, h₄, l₁, l₂, l₃, l₄, l₅, r₁, r₂, r₃, r₄, hn, hc]

theorem pieces_encode (cs : List Char) : pieces none (encode cs) = cs.map some := by
  induction cs with
  | nil => rfl
  | cons c cs ih =>
    simp only [encode, List.flatMap_cons, List.map_cons] at ih ⊢
    rw [pieces_encodeChar, ih]

theorem decode?_encode (cs : List Char) : decode? (encode cs) = some cs := by
  rw [decode?, pieces_encode]
  induction cs with
  | nil => rfl
  | cons c cs ih => simp_all [List.mapM_cons]

theorem toString?_ofString (s : String) : toString? (ofString s) = some s := by
  simp [toString?, ofString, decode?_encode]

theorem ofString_inj {s t : String} (h : ofString s = ofString t) : s = t := by
  have := congrArg toString? h
  simpa [toString?_ofString] using this

example : decodeLossy [0x61, 0xE2, 0x82, 0x62, 0xFF] = ['a', '\uFFFD', 'b', '\uFFFD'] := by decide

end Utf8

end Custody
