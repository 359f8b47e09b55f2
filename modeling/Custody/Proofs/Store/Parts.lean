import Custody.Proofs.Store.Slot

/-!
# Keys read back

A key that can be split is the key of its parts: bytes that are read as a text are the bytes of that
text, and stretches between separators, put together again, are what was split.  So two keys with
the same parts are equal, also where keys come from outside and were not made here.

* `Utf8.ofString_of_toString?`: **what is read as a text is the bytes of that text.**
* `Key.split?_eq_pair`, `Key.holding?_eq_some`: a key with two parts is made of them.
-/

namespace Custody

theorem map_eq_of_mapM_eq_some {α β : Type} {f : α → Option β} {l : List α} {l' : List β}
    (h : l.mapM f = some l') : l.map f = l'.map some := by
  induction l generalizing l' with
  | nil =>
    obtain rfl := Option.some.inj h
    rfl
  | cons a rest ih =>
    rw [List.mapM_cons] at h
    obtain ⟨b, hb, h⟩ := Option.bind_eq_some_iff.mp h
    obtain ⟨bs, hbs, h⟩ := Option.bind_eq_some_iff.mp h
    obtain rfl := Option.some.inj h
    rw [List.map_cons, List.map_cons, hb, ih hbs]

namespace Utf8

/-! ### Characters of one, two, three and four bytes -/

theorem toNat_val_ofNat {n : Nat} (h : n.isValidChar) : (Char.ofNat n).val.toNat = n := by
  rw [Char.ofNat, dif_pos h]
  rfl

theorem ofNat_eq {b : UInt8} {n : Nat} (h : n = b.toNat) : UInt8.ofNat n = b := by
  rw [h, UInt8.ofNat_toNat]

variable {b b₁ b₂ b₃ : UInt8}

theorem encodeChar_one (hb : b.toNat < 0x80) :
    String.utf8EncodeChar (Char.ofNat b.toNat) = [b] := by
  rw [String.utf8EncodeChar, toNat_val_ofNat (Or.inl (by omega)), if_pos (by omega),
    UInt8.ofNat_toNat]

theorem encodeChar_two (hlow : 0xC2 ≤ b.toNat) (hhigh : b.toNat < 0xE0) (hlow₁ : 0x80 ≤ b₁.toNat)
    (hhigh₁ : b₁.toNat ≤ 0xBF) :
    String.utf8EncodeChar (Char.ofNat ((b.toNat - 0xC0) * 64 + (b₁.toNat - 0x80))) = [b, b₁] := by
  rw [String.utf8EncodeChar, toNat_val_ofNat (Or.inl (by omega)), if_neg (by omega),
    if_pos (by omega), @ofNat_eq b _ (by omega), @ofNat_eq b₁ _ (by omega)]

theorem encodeChar_three (hlow : 0xE0 ≤ b.toNat) (hhigh : b.toNat < 0xF0)
    (hlow₁ : (if b.toNat = 0xE0 then 0xA0 else 0x80) ≤ b₁.toNat)
    (hhigh₁ : b₁.toNat ≤ if b.toNat = 0xED then 0x9F else 0xBF) (hlow₂ : 0x80 ≤ b₂.toNat)
    (hhigh₂ : b₂.toNat ≤ 0xBF) :
    String.utf8EncodeChar (Char.ofNat (((b.toNat - 0xE0) * 64 + (b₁.toNat - 0x80)) * 64 +
      (b₂.toNat - 0x80))) = [b, b₁, b₂] := by
  -- the narrower ranges of the second byte leave out what is shorter, and the surrogates
  have hvalid : (((b.toNat - 0xE0) * 64 + (b₁.toNat - 0x80)) * 64 +
      (b₂.toNat - 0x80)).isValidChar := by
    rw [Nat.isValidChar]
    split at hlow₁ <;> split at hhigh₁ <;> omega
  have hlong : 0x7FF < ((b.toNat - 0xE0) * 64 + (b₁.toNat - 0x80)) * 64 + (b₂.toNat - 0x80) := by
    split at hlow₁ <;> omega
  have hmiddle : 0x80 ≤ b₁.toNat ∧ b₁.toNat ≤ 0xBF := by
    split at hlow₁ <;> split at hhigh₁ <;> omega
  rw [String.utf8EncodeChar, toNat_val_ofNat hvalid, if_neg (by omega), if_neg (by omega),
    if_pos (by omega), @ofNat_eq b _ (by omega), @ofNat_eq b₁ _ (by omega),
    @ofNat_eq b₂ _ (by omega)]

theorem encodeChar_four (hlow : 0xF0 ≤ b.toNat) (hhigh : b.toNat < 0xF5)
    (hlow₁ : (if b.toNat = 0xF0 then 0x90 else 0x80) ≤ b₁.toNat)
    (hhigh₁ : b₁.toNat ≤ if b.toNat = 0xF4 then 0x8F else 0xBF) (hlow₂ : 0x80 ≤ b₂.toNat)
    (hhigh₂ : b₂.toNat ≤ 0xBF) (hlow₃ : 0x80 ≤ b₃.toNat) (hhigh₃ : b₃.toNat ≤ 0xBF) :
    String.utf8EncodeChar (Char.ofNat ((((b.toNat - 0xF0) * 64 + (b₁.toNat - 0x80)) * 64 +
      (b₂.toNat - 0x80)) * 64 + (b₃.toNat - 0x80))) = [b, b₁, b₂, b₃] := by
  have hvalid : ((((b.toNat - 0xF0) * 64 + (b₁.toNat - 0x80)) * 64 + (b₂.toNat - 0x80)) * 64 +
      (b₃.toNat - 0x80)).isValidChar := by
    rw [Nat.isValidChar]
    split at hlow₁ <;> split at hhigh₁ <;> omega
  have hlong : 0xFFFF < (((b.toNat - 0xF0) * 64 + (b₁.toNat - 0x80)) * 64 +
      (b₂.toNat - 0x80)) * 64 + (b₃.toNat - 0x80) := by split at hlow₁ <;> omega
  have hmiddle : 0x80 ≤ b₁.toNat ∧ b₁.toNat ≤ 0xBF := by
    split at hlow₁ <;> split at hhigh₁ <;> omega
  rw [String.utf8EncodeChar, toNat_val_ofNat hvalid, if_neg (by omega), if_neg (by omega),
    if_neg (by omega), @ofNat_eq b _ (by omega), @ofNat_eq b₁ _ (by omega),
    @ofNat_eq b₂ _ (by omega), @ofNat_eq b₃ _ (by omega)]

/-! ### Reading without a fault -/

theorem some_cons_eq_map {c : Char} {l : List (Option Char)} {cs : List Char}
    (h : some c :: l = cs.map some) : ∃ cs', cs = c :: cs' ∧ l = cs'.map some := by
  cases cs with
  | nil => exact nomatch h
  | cons d cs =>
    obtain ⟨hc, hl⟩ := List.cons.inj h
    exact ⟨cs, by rw [Option.some.inj hc], hl⟩

theorem none_cons_ne_map {l : List (Option Char)} {cs : List Char} : none :: l ≠ cs.map some := by
  cases cs <;> simp

section

variable {more low high bits : Nat} {bytes : Bytes} {cs : List Char}

/-- A byte in the middle of a character. -/
theorem middle_of_pieces (h : pieces (some ⟨more + 1, low, high, bits⟩) bytes = cs.map some) :
    ∃ b rest, bytes = b :: rest ∧ low ≤ b.toNat ∧ b.toNat ≤ high ∧
      pieces (some ⟨more, 0x80, 0xBF, bits * 64 + (b.toNat - 0x80)⟩) rest = cs.map some := by
  cases bytes with
  | nil => exact absurd h none_cons_ne_map
  | cons b rest =>
    rw [pieces] at h
    split at h
    · next hrange => exact ⟨b, rest, rfl, hrange.1, hrange.2, h⟩
    · exact absurd h none_cons_ne_map

/-- The last byte of a character. -/
theorem last_of_pieces (h : pieces (some ⟨0, low, high, bits⟩) bytes = cs.map some) :
    ∃ b rest cs', bytes = b :: rest ∧ low ≤ b.toNat ∧ b.toNat ≤ high ∧
      cs = Char.ofNat (bits * 64 + (b.toNat - 0x80)) :: cs' ∧ pieces none rest = cs'.map some := by
  cases bytes with
  | nil => exact absurd h none_cons_ne_map
  | cons b rest =>
    rw [pieces] at h
    split at h
    · next hrange =>
      obtain ⟨cs', hcs, hrest⟩ := some_cons_eq_map h
      exact ⟨b, rest, cs', rfl, hrange.1, hrange.2, hcs, hrest⟩
    · exact absurd h none_cons_ne_map

end

/-- The bytes of one character, and the bytes that follow it. -/
theorem encode_cons {c : Char} {cs : List Char} {bytes rest : Bytes}
    (hc : String.utf8EncodeChar c = bytes) (hcs : encode cs = rest) :
    encode (c :: cs) = bytes ++ rest := by
  rw [encode, List.flatMap_cons, hc]
  exact congrArg (bytes ++ ·) hcs

/-- What is read without a fault is the bytes of the characters that are read. -/
theorem encode_of_pieces {bytes : Bytes} {cs : List Char} (h : pieces none bytes = cs.map some) :
    encode cs = bytes := by
  induction hn : bytes.length using Nat.strongRecOn generalizing bytes cs with
  | ind n ih =>
    subst hn
    cases bytes with
    | nil =>
      obtain rfl : cs = [] := by simpa [pieces] using h.symm
      rfl
    | cons b rest =>
      rw [pieces, lead] at h
      -- the first byte says how many follow
      split at h
      · next hone =>
        obtain ⟨cs', rfl, hrest⟩ := some_cons_eq_map h
        exact encode_cons (encodeChar_one hone) (ih _ (by simp) hrest rfl)
      split at h
      · exact absurd h none_cons_ne_map
      split at h
      · obtain ⟨b₁, rest, cs', rfl, hlow, hhigh, rfl, hrest⟩ := last_of_pieces h
        exact encode_cons (encodeChar_two (by omega) (by omega) hlow hhigh)
          (ih _ (by simp only [List.length_cons]; omega) hrest rfl)
      split at h
      · obtain ⟨b₁, rest₁, rfl, hlow₁, hhigh₁, h₁⟩ := middle_of_pieces h
        obtain ⟨b₂, rest, cs', rfl, hlow₂, hhigh₂, rfl, hrest⟩ := last_of_pieces h₁
        exact encode_cons (encodeChar_three (by omega) (by omega) hlow₁ hhigh₁ hlow₂ hhigh₂)
          (ih _ (by simp only [List.length_cons]; omega) hrest rfl)
      split at h
      · obtain ⟨b₁, rest₁, rfl, hlow₁, hhigh₁, h₁⟩ := middle_of_pieces h
        obtain ⟨b₂, rest₂, rfl, hlow₂, hhigh₂, h₂⟩ := middle_of_pieces h₁
        obtain ⟨b₃, rest, cs', rfl, hlow₃, hhigh₃, rfl, hrest⟩ := last_of_pieces h₂
        exact encode_cons
          (encodeChar_four (by omega) (by omega) hlow₁ hhigh₁ hlow₂ hhigh₂ hlow₃ hhigh₃)
          (ih _ (by simp only [List.length_cons]; omega) hrest rfl)
      · exact absurd h none_cons_ne_map

/-- **What is read as a text is the bytes of that text.** -/
theorem ofString_of_toString? {bytes : Bytes} {t : String} (h : toString? bytes = some t) :
    ofString t = bytes := by
  obtain ⟨cs, hcs, rfl⟩ := Option.map_eq_some_iff.mp h
  rw [ofString, String.toList_ofList]
  exact encode_of_pieces ((List.map_id _).symm.trans (map_eq_of_mapM_eq_some hcs))

end Utf8

namespace Key

/-! ### Stretches between separators -/

theorem segments_ne_nil (k : Bytes) : segments k ≠ [] := by
  cases k with
  | nil => exact List.cons_ne_nil _ _
  | cons b rest =>
    rw [segments]
    split
    · exact List.cons_ne_nil _ _
    · cases segments rest <;> exact List.cons_ne_nil _ _

/-- Put together again, the stretches are what was split. -/
theorem intercalate_segments (k : Bytes) : [separator].intercalate (segments k) = k := by
  induction k with
  | nil => rfl
  | cons b rest ih =>
    rw [segments]
    cases hrest : segments rest with
    | nil => exact absurd hrest (segments_ne_nil rest)
    | cons s more =>
      rw [hrest] at ih
      split
      · next hb => rw [hb, List.intercalate_cons_cons, ih]; rfl
      · cases more with
        | nil => simpa using ih
        | cons t more =>
          rw [List.intercalate_cons_cons] at ih ⊢
          exact congrArg (b :: ·) ih

theorem notMem_of_mem_segments {k s : Bytes} (h : s ∈ segments k) : separator ∉ s := by
  induction k generalizing s with
  | nil =>
    obtain rfl := List.mem_singleton.mp h
    exact List.not_mem_nil
  | cons b rest ih =>
    rw [segments] at h
    cases hrest : segments rest with
    | nil => exact absurd hrest (segments_ne_nil rest)
    | cons t more =>
      rw [hrest] at h ih
      split at h
      · rcases List.mem_cons.mp h with rfl | h
        · exact List.not_mem_nil
        · exact ih h
      · next hb =>
        rcases List.mem_cons.mp h with rfl | h
        · intro hsep
          rcases List.mem_cons.mp hsep with hsep | hsep
          · exact hb hsep.symm
          · exact ih List.mem_cons_self hsep
        · exact ih (List.mem_cons_of_mem _ h)

theorem strip?_eq_some {p k rest : Bytes} (h : strip? p k = some rest) : k = p ++ rest := by
  induction p generalizing k with
  | nil =>
    obtain rfl := Option.some.inj h
    rfl
  | cons x p ih =>
    cases k with
    | nil => exact nomatch h
    | cons b k =>
      rw [strip?] at h
      split at h
      · next hx => rw [ih h, hx, List.cons_append]
      · cases h

/-! ### Keys with two parts -/

/-- **A key with two parts is made of them.** -/
theorem split?_eq_pair {ns : Namespace} {k : Bytes} {x y : String}
    (h : split? ns k = some [x, y]) : k = pair ns (Utf8.ofString x) (Utf8.ofString y) ∧
      separator ∉ Utf8.ofString x ∧ separator ∉ Utf8.ofString y := by
  obtain ⟨rest, hrest, hparts⟩ := Option.bind_eq_some_iff.mp h
  obtain rfl := strip?_eq_some hrest
  have hjoined := intercalate_segments rest
  have hfree : ∀ s ∈ segments rest, separator ∉ s := fun s => notMem_of_mem_segments
  obtain ⟨a, l, hsegments, hx, hl⟩ := List.map_eq_cons_iff.mp (map_eq_of_mapM_eq_some hparts)
  obtain ⟨b, l, rfl, hy, hl⟩ := List.map_eq_cons_iff.mp hl
  obtain rfl := List.map_eq_nil_iff.mp hl
  rw [hsegments] at hjoined hfree
  rw [Utf8.ofString_of_toString? hx, Utf8.ofString_of_toString? hy, ← hjoined]
  refine ⟨?_, hfree a (by simp), hfree b (by simp)⟩
  simp [pair, List.intercalate_cons_cons]

/-- **A key of an index or of the inventory is made of the account and the asset it is read as.** -/
theorem holding?_eq_some {ns : Namespace} {k : Bytes} {h : Holding} :
    holding? ns k = some h ↔
      k = pair ns h.account.bytes h.asset.bytes ∧ h.account.Clean ∧ h.asset.Clean := by
  constructor
  · intro hk
    rw [holding?] at hk
    split at hk
    · next x y hsplit =>
      obtain rfl := Option.some.inj hk
      exact split?_eq_pair hsplit
    · cases hk
  · rintro ⟨rfl, haccount, hasset⟩
    exact holding?_pair ns haccount hasset

/-- A key with two identifiers is read as those, if it is read at all. -/
theorem eq_of_holding?_pair {ns : Namespace} {account : AccountId} {asset : AssetId} {h : Holding}
    (hk : holding? ns (pair ns account.bytes asset.bytes) = some h) : h = ⟨account, asset⟩ := by
  obtain ⟨hpair, haccount, hasset⟩ := holding?_eq_some.mp hk
  rw [pair, pair, List.append_assoc, List.append_assoc] at hpair
  obtain ⟨hfirst, -, hsecond⟩ :=
    (List.append_cons_inj_of_notMem haccount hasset).mp (List.append_cancel_left hpair).symm
  rw [← Ident.bytes_inj.mp hfirst, ← Ident.bytes_inj.mp hsecond]

end Key

end Custody
