import Custody.Proofs.Ledger.Consistency
import Custody.Proofs.Records.Accounting

/-!
# Every quantity is accounted for

Over a whole run, what is left of an asset, what was consumed of it into others, what was subtracted
from it and what was split off it make up what it was made with and what was added to it.

* `Records.History.accounts`, `Records.History.length_issues`: what holds along a history.
* `Ledger.quantities_accounted`: **nothing is minted, lost or counted twice.**
-/

namespace Custody

namespace Ledger

/-- What the messages of envelopes say, added up. -/
def tally (f : Message → Nat) (es : List Envelope) : Nat := (es.map fun e => f e.message).sum

/-- The quantities that envelopes give the asset as they make it. -/
def issues (c : AssetId) (es : List Envelope) : List Nat :=
  es.filterMap fun e => e.message.issued? c

theorem tally_snoc (f : Message → Nat) (es : List Envelope) (e : Envelope) :
    tally f (es ++ [e]) = tally f es + f e.message := by
  rw [tally, List.map_append, List.sum_append]
  rfl

theorem issues_snoc (c : AssetId) (es : List Envelope) (e : Envelope) :
    issues c (es ++ [e]) = issues c es ++ (e.message.issued? c).toList := by
  rw [issues, List.filterMap_append]
  refine congrArg (issues c es ++ ·) ?_
  cases h : e.message.issued? c with
  | none => simp [h]
  | some quantity => simp [h]

end Ledger

namespace Records

open Ledger

variable {σ : Records} {tr : List (Envelope × Store)}

/-- An asset was made once if it exists, and never if it does not. -/
theorem History.length_issues (h : History tr σ) (c : AssetId) :
    (issues c (tr.map Prod.fst)).length = (σ.asset? c).toList.length := by
  induction h with
  | nil => rfl
  | @snoc tr e σ σ' m h he hstep hm ih =>
    rw [List.map_append, hstep.length_issued h.sound.wellFormed c, ← ih]
    exact (congrArg List.length (issues_snoc c _ e)).trans List.length_append

/-- **A history keeps account of every quantity.** -/
theorem History.accounts (h : History tr σ) (c : AssetId) :
    σ.total (share c) + tally (Message.subtracted c) (tr.map Prod.fst) +
        tally (Message.splitOff c) (tr.map Prod.fst) =
      (issues c (tr.map Prod.fst)).sum + tally (Message.added c) (tr.map Prod.fst) := by
  induction h with
  | nil => rfl
  | @snoc tr e σ σ' m h he hstep hm ih =>
    have hsnoc : (tr ++ [(e, Store.ofContents m)]).map Prod.fst = tr.map Prod.fst ++ [e] :=
      List.map_append
    have hissued : (e.message.issued? c).toList.sum = (e.message.issued? c).getD 0 := by
      cases e.message.issued? c <;> simp
    have hchange := hstep.accounts h.sound.wellFormed c
    rw [hsnoc, tally_snoc, tally_snoc, tally_snoc, issues_snoc, List.sum_append, hissued]
    omega

/-- The shares of an asset are its quantity and what the others are made of. -/
theorem total_share (hσ : σ.WellFormed) {a : Asset} (ha : a ∈ σ.allAssets) :
    σ.total (share a.id) =
      a.quantity + (σ.allAssets.map fun t => Material.amount a.id t.materials).sum := by
  have hself := (allAssets_ascending hσ).sum_map_ite Asset.quantity ha
  rw [← sum_allAssets, ← hself, ← List.sum_map_add]
  rfl

end Records

namespace Ledger

open Records

/-- **Every quantity is accounted for.**  After a run, each asset was made by exactly one of the
applied messages, with some quantity.  What is left of it, what all assets were made of it, what was
subtracted from it and what was split off it for children add up to that quantity and what was added
to it. -/
theorem quantities_accounted (config : ModuleConfig) (es : List Envelope) :
    ∃ assets, Registered (run config es .empty) assets ∧ ∀ a ∈ assets, ∃ quantity,
      issues a.id (accepted config es .empty) = [quantity] ∧
      a.quantity + (assets.map fun t => Material.amount a.id t.materials).sum +
          tally (Message.subtracted a.id) (accepted config es .empty) +
          tally (Message.splitOff a.id) (accepted config es .empty) =
        quantity + tally (Message.added a.id) (accepted config es .empty) := by
  obtain ⟨σ, m, hrun, hm, hhistory⟩ := run_history config es
  rw [hrun]
  refine ⟨σ.allAssets, registered hm, ?_⟩
  intro a ha
  have hstored : σ.asset? a.id = some a := (mem_allAssets hm.sound.wellFormed).mp ha
  have hlength := hhistory.length_issues a.id
  rw [hstored] at hlength
  obtain ⟨quantity, hquantity⟩ := List.length_eq_one_iff.mp hlength
  refine ⟨quantity, hquantity, ?_⟩
  have haccounts := hhistory.accounts a.id
  rw [total_share hm.sound.wellFormed ha, hquantity, List.sum_singleton] at haccounts
  exact haccounts

end Ledger

end Custody
