import Custody.Proofs.Digest.Stream
import Custody.Proofs.Engine.Snapshot

/-!
# The state hash binds the state

The hash of a state is the digest of a stream from which the counter and every entry can be told.
What the digest function is does not matter: two states with the same hash are the same, or their
streams collide.

* `Snapshot.stream_inj`: counter and entries are known from the stream.
* `Snapshot.hash_binds`: **the state hash binds the counter and the entries.**
* `Executor.stateHash_eq_iff`, `Snapshot.Acceptable.eq_of_hash_eq`: what this says of executors, and
  of snapshots that are restored.
-/

namespace Custody

open Custody.Stream

namespace Snapshot

variable {n n' : Nat} {l l' : List (Bytes × Bytes)}

/-- A state whose counter, and the lengths of whose keys and values, fit in the words of the
stream. -/
structure Framable (batches : Nat) (entries : List (Bytes × Bytes)) : Prop where
  batches : batches < UInt64.size
  entries : ∀ e ∈ entries, e.1.length < UInt64.size ∧ e.2.length < UInt64.size

/-- **Counter and entries are known from the stream.** -/
theorem stream_inj (h : Framable n l) (h' : Framable n' l') (heq : stream n l = stream n' l') :
    n = n' ∧ l = l' := by
  obtain ⟨hbatches, hentries⟩ := separable_word h.batches h'.batches heq
  have hne : ∀ e : Bytes × Bytes, framed e.1 ++ framed e.2 ≠ [] := fun e he =>
    framed_ne_nil e.1 (List.append_eq_nil_iff.mp he).1
  exact ⟨hbatches,
    (separable_framed.append separable_framed).flatMap_inj hne h.entries h'.entries hentries⟩

/-- The hash of records and a batch counter under any digest function. -/
def hashWith (digest : Bytes → Bytes) (batches : Nat) (entries : List (Bytes × Bytes)) : String :=
  Hex.write (digest (stream batches entries))

theorem hashOf_eq_hashWith (batches : Nat) (entries : List (Bytes × Bytes)) :
    hashOf batches entries = hashWith Blake3.digest batches entries := rfl

theorem hashWith_eq_iff (digest : Bytes → Bytes) (h : Framable n l) (h' : Framable n' l') :
    hashWith digest n l = hashWith digest n' l' ↔
      (n = n' ∧ l = l') ∨ Collision digest (stream n l) (stream n' l') := by
  refine (write_digest_eq_iff digest _ _).trans (or_congr_left ⟨stream_inj h h', ?_⟩)
  rintro ⟨rfl, rfl⟩
  rfl

/-- **The state hash binds the counter and the entries.**  The stream that is digested determines
the counter and every key and value with its place.  So under any digest function whatever, and
under the one that is used, two states have the same hash just if they are the same, or the two
streams are different byte strings with the same digest. -/
theorem hash_binds (h : Framable n l) (h' : Framable n' l') :
    (stream n l = stream n' l' → n = n' ∧ l = l') ∧
    (∀ digest, hashWith digest n l = hashWith digest n' l' ↔
      (n = n' ∧ l = l') ∨ Collision digest (stream n l) (stream n' l')) ∧
    (hashOf n l = hashOf n' l' ↔
      (n = n' ∧ l = l') ∨ Collision Blake3.digest (stream n l) (stream n' l')) := by
  refine ⟨stream_inj h h', fun digest => hashWith_eq_iff digest h h', ?_⟩
  rw [hashOf_eq_hashWith, hashOf_eq_hashWith]
  exact hashWith_eq_iff Blake3.digest h h'

/-- Two entries, and one entry whose value has swallowed the other: their streams differ in a length
only, and have the same hash only if they collide. -/
theorem hash_binds_of_swallowed :
    Framable 7 [([1], [2]), ([3], [])] ∧ Framable 7 [([1], 2 :: (framed [3] ++ framed []))] ∧
    ∀ digest, hashWith digest 7 [([1], [2]), ([3], [])] =
        hashWith digest 7 [([1], 2 :: (framed [3] ++ framed []))] →
      Collision digest (stream 7 [([1], [2]), ([3], [])])
        (stream 7 [([1], 2 :: (framed [3] ++ framed []))]) := by
  have h : Framable 7 [([1], [2]), ([3], [])] := ⟨by decide, by decide⟩
  have h' : Framable 7 [([1], 2 :: (framed [3] ++ framed []))] := ⟨by decide, by decide⟩
  refine ⟨h, h', ?_⟩
  intro digest heq
  exact (((hash_binds h h').2.1 digest).mp heq).resolve_left (by decide)

/-- Snapshots that can be restored are the same if their hashes are, or their streams collide. -/
theorem Acceptable.eq_of_hash_eq {s s' : Snapshot} (h : s.Acceptable) (h' : s'.Acceptable)
    (hs : Framable s.batches s.entries) (hs' : Framable s'.batches s'.entries)
    (heq : s.hash = s'.hash) :
    s = s' ∨
      Collision Blake3.digest (stream s.batches s.entries) (stream s'.batches s'.entries) := by
  obtain ⟨entries, batches, hash⟩ := s
  obtain ⟨entries', batches', hash'⟩ := s'
  have hhash : hashWith Blake3.digest batches entries = hashWith Blake3.digest batches' entries' :=
    h.hash.trans (heq.trans h'.hash.symm)
  refine ((hashWith_eq_iff Blake3.digest hs hs').mp hhash).imp_left ?_
  rintro ⟨rfl, rfl⟩
  rw [show hash = hash' from heq]

end Snapshot

/-- Executors have the same hash just if their records and counters are the same, or their streams
collide. -/
theorem Executor.stateHash_eq_iff {x y : Executor}
    (hx : Snapshot.Framable x.batches x.contents.bindings)
    (hy : Snapshot.Framable y.batches y.contents.bindings) :
    x.stateHash = y.stateHash ↔ (x.batches = y.batches ∧ x.contents = y.contents) ∨
      Collision Blake3.digest (Snapshot.stream x.batches x.contents.bindings)
        (Snapshot.stream y.batches y.contents.bindings) := by
  have hcontents : x.contents.bindings = y.contents.bindings ↔ x.contents = y.contents := by
    refine ⟨fun h => ?_, congrArg SortedMap.bindings⟩
    rw [← SortedMap.ofList_bindings x.contents, h, SortedMap.ofList_bindings]
  rw [← hcontents]
  exact Snapshot.hashWith_eq_iff Blake3.digest hx hy

end Custody
