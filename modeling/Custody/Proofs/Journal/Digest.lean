import Custody.Proofs.Digest.Stream
import Custody.Proofs.Json.Journal

/-!
# The digest of a journal binds its entries

What is digested is the text of each entry after its length.  From the stream the texts can be told,
and from its text the entry, so text cannot move from one field to another nor from one entry to its
neighbour: two runs of entries with the same digest are the same, or their streams collide.

* `Summary.stream_inj`: a run of entries is known from its stream.
* `Summary.digest_binds`: **the digest binds every entry, and with them the whole summary.**
-/

namespace Custody

open Custody.Stream

/-- An entry whose number, and the length of whose text, fit in 64 bits. -/
structure JournalEntry.Framable (e : JournalEntry) : Prop where
  fits : e.Fits
  length : (encode e).length < UInt64.size

namespace Summary

variable {l l' : List JournalEntry}

theorem separable_framed_encode :
    Separable JournalEntry.Framable fun e => framed (encode e) := by
  have hencode : ∀ ⦃a b : JournalEntry⦄, a.Fits → b.Fits → encode a = encode b → a = b :=
    fun _ _ => JournalEntry.faithful.encode_inj (by decide)
  intro a b r s ha hb h
  exact separable_framed.comp hencode ⟨ha.fits, ha.length⟩ ⟨hb.fits, hb.length⟩ h

/-- **A run of entries is known from its stream.** -/
theorem stream_inj (h : ∀ e ∈ l, e.Framable) (h' : ∀ e ∈ l', e.Framable)
    (heq : stream l = stream l') : l = l' :=
  separable_framed_encode.flatMap_inj (fun e => framed_ne_nil (encode e)) h h' heq

/-- The summary of a run of entries under any digest function. -/
def withDigest (digest : Bytes → Bytes) (entries : List JournalEntry) : Summary :=
  { ofEntries entries with digest := Hex.write (digest (stream entries)) }

theorem ofEntries_eq_withDigest (entries : List JournalEntry) :
    ofEntries entries = withDigest Blake3.digest entries := rfl

theorem digest_eq_iff (digest : Bytes → Bytes) (h : ∀ e ∈ l, e.Framable)
    (h' : ∀ e ∈ l', e.Framable) :
    (withDigest digest l).digest = (withDigest digest l').digest ↔
      (l = l' ∧ withDigest digest l = withDigest digest l') ∨
        Collision digest (stream l) (stream l') := by
  refine (write_digest_eq_iff digest _ _).trans (or_congr_left ⟨fun heq => ?_, ?_⟩)
  · obtain rfl := stream_inj h h' heq
    exact ⟨rfl, rfl⟩
  · rintro ⟨rfl, -⟩
    rfl

/-- **The digest of a journal binds its entries.**  Under any digest function whatever, and under
the one that is used, two runs of entries have the same digest just if they are the same entry by
entry, and then their whole summaries are the same, or if the two streams that are digested are
different byte strings with the same digest. -/
theorem digest_binds (h : ∀ e ∈ l, e.Framable) (h' : ∀ e ∈ l', e.Framable) :
    (∀ digest, (withDigest digest l).digest = (withDigest digest l').digest ↔
      (l = l' ∧ withDigest digest l = withDigest digest l') ∨
        Collision digest (stream l) (stream l')) ∧
    ((ofEntries l).digest = (ofEntries l').digest ↔
      (l = l' ∧ ofEntries l = ofEntries l') ∨
        Collision Blake3.digest (stream l) (stream l')) := by
  refine ⟨fun digest => digest_eq_iff digest h h', ?_⟩
  rw [ofEntries_eq_withDigest, ofEntries_eq_withDigest]
  exact digest_eq_iff Blake3.digest h h'

/-- The first entry of a journal, of an envelope that was refused with these texts. -/
def quoted (codespace message : String) : JournalEntry :=
  ⟨0, 1, .finalize, ⟨"alice"⟩, ⟨"tea"⟩, [], some ⟨codespace, 2, message⟩⟩

theorem quoted_framable {codespace message : String}
    (h : (encode (quoted codespace message)).length < UInt64.size) :
    (quoted codespace message).Framable := by
  have hfits : 0 < Json.wordBound := by decide
  exact ⟨hfits, h⟩

/-- A quotation mark that moves from the code space to the message, and an entry that is left out,
change the digest unless the streams collide. -/
theorem digest_binds_of_moved_quote :
    (∀ e ∈ [quoted "custody\"" "", quoted "" ""], e.Framable) ∧
    (∀ e ∈ [quoted "custody" "\""], e.Framable) ∧
    ((ofEntries [quoted "custody\"" "", quoted "" ""]).digest =
        (ofEntries [quoted "custody" "\""]).digest →
      Collision Blake3.digest (stream [quoted "custody\"" "", quoted "" ""])
        (stream [quoted "custody" "\""])) := by
  have h : ∀ e ∈ [quoted "custody\"" "", quoted "" ""], e.Framable := by
    simp only [List.forall_mem_cons]
    exact ⟨quoted_framable (by decide +kernel), quoted_framable (by decide +kernel), nofun⟩
  have h' : ∀ e ∈ [quoted "custody" "\""], e.Framable := by
    simp only [List.forall_mem_cons]
    exact ⟨quoted_framable (by decide +kernel), nofun⟩
  refine ⟨h, h', ?_⟩
  intro heq
  exact ((digest_binds h h').2.mp heq).resolve_left fun hsame => absurd hsame.1 (by decide)

end Summary

end Custody
