import Custody.Digest.Stream
import Custody.Text.Hex

/-!
# What can be told from a stream

A stream has no marks between its parts, so the parts must be told from the bytes alone.  A way to
write values is **separable** if the bytes of a value are known from whatever follows them; then a
run of values is known from its stream.  A digest says nothing of its own: two streams with the same
digest are the same stream, or else they have been found to collide.

* `Hex.write_inj`: bytes are known from their hexadecimal text.
* `Separable`, `separable_word`, `separable_framed`: words and framed byte strings are separable.
* `Separable.append`, `Separable.flatMap_inj`: **so are pairs, and runs are known from their
  streams.**
* `Collision`, `write_digest_eq_iff`: equal texts of digests.
-/

namespace Custody

/-! ### Hexadecimal text -/

namespace Hex

theorem digitChar_inj {m n : Nat} (hm : m < 16) (hn : n < 16)
    (h : Nat.digitChar m = Nat.digitChar n) : m = n := by
  have hall : ∀ m < 16, ∀ n < 16, Nat.digitChar m = Nat.digitChar n → m = n := by decide
  exact hall m hm n hn h

theorem digits_inj {a b : UInt8} (h : digits a = digits b) : a = b := by
  have ha := a.toNat_lt
  have hb := b.toNat_lt
  obtain ⟨hhigh, hlow⟩ := List.cons.inj h
  have hdiv := digitChar_inj (by omega) (by omega) hhigh
  have hmod := digitChar_inj (by omega) (by omega) (List.cons.inj hlow).1
  refine UInt8.toNat_inj.mp ?_
  omega

theorem flatMap_digits_inj {a b : Bytes} (h : a.flatMap digits = b.flatMap digits) : a = b := by
  induction a generalizing b with
  | nil =>
    cases b with
    | nil => rfl
    | cons y b => cases h
  | cons x a ih =>
    cases b with
    | nil => cases h
    | cons y b =>
      obtain ⟨hdigits, hrest⟩ := List.append_inj h rfl
      rw [digits_inj hdigits, ih hrest]

/-- **Bytes are known from their hexadecimal text.** -/
theorem write_inj {a b : Bytes} (h : write a = write b) : a = b :=
  flatMap_digits_inj (String.ofList_injective h)

end Hex

namespace Stream

/-! ### Words -/

theorem length_lowBytes (k n : Nat) : (lowBytes k n).length = k := by
  induction k generalizing n with
  | zero => rfl
  | succ k ih => rw [lowBytes, List.length_cons, ih]

theorem lowBytes_inj {k m n : Nat} (hm : m < Nat.pow 256 k) (hn : n < Nat.pow 256 k)
    (h : lowBytes k m = lowBytes k n) : m = n := by
  induction k generalizing m n with
  | zero => exact (Nat.lt_one_iff.mp hm).trans (Nat.lt_one_iff.mp hn).symm
  | succ k ih =>
    obtain ⟨hlow, hrest⟩ := List.cons.inj h
    have hmod : m % 256 = n % 256 := by
      have hbyte := congrArg UInt8.toNat hlow
      rw [UInt8.toNat_ofNat', UInt8.toNat_ofNat'] at hbyte
      omega
    have hdiv : m / 256 = n / 256 :=
      ih (Nat.div_lt_of_lt_mul (Nat.mul_comm _ 256 ▸ hm))
        (Nat.div_lt_of_lt_mul (Nat.mul_comm _ 256 ▸ hn)) hrest
    omega

theorem length_word (n : Nat) : (word n).length = 8 := length_lowBytes 8 n

theorem word_inj {m n : Nat} (hm : m < UInt64.size) (hn : n < UInt64.size)
    (h : word m = word n) : m = n := by
  have hsize : UInt64.size = Nat.pow 256 8 := rfl
  exact lowBytes_inj (hsize ▸ hm) (hsize ▸ hn) h

/-! ### Separable writing -/

/-- The values with a property are written so that each is known from its bytes, whatever follows
them. -/
def Separable {α : Type} (P : α → Prop) (write : α → Bytes) : Prop :=
  ∀ ⦃a b : α⦄ ⦃r s : Bytes⦄, P a → P b → write a ++ r = write b ++ s → a = b ∧ r = s

theorem separable_word : Separable (· < UInt64.size) word := by
  intro m n r s hm hn h
  obtain ⟨hword, hrest⟩ := List.append_inj h (by rw [length_word, length_word])
  exact ⟨word_inj hm hn hword, hrest⟩

/-- **A framed byte string is known from whatever follows it.** -/
theorem separable_framed : Separable (fun bytes => bytes.length < UInt64.size) framed := by
  intro a b r s ha hb h
  rw [framed, framed, List.append_assoc, List.append_assoc] at h
  obtain ⟨hlength, hrest⟩ := separable_word ha hb h
  exact List.append_inj hrest hlength

theorem framed_ne_nil (bytes : Bytes) : framed bytes ≠ [] := by
  rw [framed, word, lowBytes]
  exact List.cons_ne_nil _ _

namespace Separable

variable {α β : Type} {P : α → Prop} {Q : β → Prop} {f : α → Bytes} {g : β → Bytes}

/-- Two values one after the other. -/
theorem append (hf : Separable P f) (hg : Separable Q g) :
    Separable (fun p : α × β => P p.1 ∧ Q p.2) fun p => f p.1 ++ g p.2 := by
  intro p q r s hp hq h
  rw [List.append_assoc, List.append_assoc] at h
  obtain ⟨hfirst, h⟩ := hf hp.1 hq.1 h
  obtain ⟨hsecond, hrest⟩ := hg hp.2 hq.2 h
  exact ⟨Prod.ext hfirst hsecond, hrest⟩

/-- Values that are known from what is written of them. -/
theorem comp (hg : Separable Q g) {write : α → β}
    (hinj : ∀ ⦃a b⦄, P a → P b → write a = write b → a = b) :
    Separable (fun a => P a ∧ Q (write a)) fun a => g (write a) := by
  intro a b r s ha hb h
  obtain ⟨hwrite, hrest⟩ := hg ha.2 hb.2 h
  exact ⟨hinj ha.1 hb.1 hwrite, hrest⟩

/-- **A run of values is known from its stream.**  There is no count of the values, but none of them
is written as nothing, so a run does not end where another goes on. -/
theorem flatMap_inj (hf : Separable P f) (hne : ∀ a, f a ≠ []) {l l' : List α}
    (hl : ∀ a ∈ l, P a) (hl' : ∀ a ∈ l', P a) (h : l.flatMap f = l'.flatMap f) : l = l' := by
  induction l generalizing l' with
  | nil =>
    cases l' with
    | nil => rfl
    | cons b l' => exact absurd (List.append_eq_nil_iff.mp h.symm).1 (hne b)
  | cons a l ih =>
    cases l' with
    | nil => exact absurd (List.append_eq_nil_iff.mp h).1 (hne a)
    | cons b l' =>
      rw [List.forall_mem_cons] at hl hl'
      obtain ⟨rfl, hrest⟩ := hf hl.1 hl'.1 h
      rw [ih hl.2 hl'.2 hrest]

end Separable

/-! ### Digests -/

/-- Two byte strings that a digest does not tell apart. -/
structure Collision (digest : Bytes → Bytes) (a b : Bytes) : Prop where
  ne : a ≠ b
  digest_eq : digest a = digest b

/-- **Streams whose digests have the same text are the same, or they collide.** -/
theorem write_digest_eq_iff (digest : Bytes → Bytes) (a b : Bytes) :
    Hex.write (digest a) = Hex.write (digest b) ↔ a = b ∨ Collision digest a b := by
  constructor
  · intro h
    by_cases hab : a = b
    · exact Or.inl hab
    · exact Or.inr ⟨hab, Hex.write_inj h⟩
  · rintro (rfl | h)
    · rfl
    · rw [h.digest_eq]

end Stream

end Custody
