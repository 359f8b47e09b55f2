import Mathlib.Data.List.Induction
import Custody.Asset.Basic
import Custody.Proofs.Bisection
import Custody.Proofs.SortedMap.View

/-!
# The reporters of an asset

The reporters of an asset are a list in order of accounts.  A grant finds its place by bisection, a
look-up and a dismissal go through the list from its head, and whether a reporter may write a name
is again decided by bisection: these agree because every change keeps the order.  So the list is a
map from accounts to their last grants, and a permission is membership in the names of the grant.

* `Reporter.canWrite_grant`: **a reporter may write just the names of its grant.**
* `Asset.changeStaff`: appointments and dismissals.
* `LastAppointed`: the last change for an account is an appointment on these terms.
* `Asset.Staffed`: what holds after changes, kept by each of them (`Asset.Staffed.snoc`).
* `Asset.reporters_exact`: **the reporters of an asset are a map of last appointments.**
-/

namespace Custody

open Std

/-! ### Names -/

theorem mem_normalizeNames {names : List PropertyName} {n : PropertyName} :
    n ∈ normalizeNames names ↔ n ∈ names := SortedMap.mem_keys_ofKeys names n

theorem normalizeNames_ascending (names : List PropertyName) :
    AscendingBy id (normalizeNames names) :=
  List.pairwise_map.mpr (SortedMap.ofKeys names).ascending

/-- A reporter whose names are in order may write just these. -/
theorem Reporter.canWrite_iff {r : Reporter} (h : AscendingBy id r.names) {n : PropertyName} :
    r.canWrite n = true ↔ n ∈ r.names := by
  have hfound := exists_bisect_found_iff (h.bisectable n)
  simp only [id_eq, LawfulEqCmp.compare_eq_iff_eq, exists_eq_right] at hfound
  rw [canWrite, ← hfound]
  cases bisect (fun m => compare m n) r.names with
  | found i => exact iff_of_true rfl ⟨i, rfl⟩
  | missing i => exact iff_of_false Bool.false_ne_true fun ⟨_, h⟩ => nomatch h

/-- **A reporter may write just the names of its grant**, in whatever order and however often they
are listed there. -/
theorem Reporter.canWrite_grant (account : AccountId) (names : List PropertyName)
    (createdAt : UInt64) (n : PropertyName) :
    (grant account names createdAt).canWrite n = true ↔ n ∈ names :=
  (canWrite_iff (normalizeNames_ascending names)).trans mem_normalizeNames

/-! ### Changes -/

/-- A change to the reporters of an asset. -/
inductive StaffChange where
  | appoint (account : AccountId) (names : List PropertyName) (createdAt : UInt64)
  | dismiss (account : AccountId)
  deriving DecidableEq

namespace StaffChange

/-- The account that is appointed or dismissed. -/
def account : StaffChange → AccountId
  | appoint account _ _ => account
  | dismiss account => account

/-- What the account is left with. -/
def outcome : StaffChange → Option Reporter
  | appoint account names createdAt => some (.grant account names createdAt)
  | dismiss _ => none

theorem outcome_eq_some {c : StaffChange} {r : Reporter} : c.outcome = some r ↔
    ∃ names createdAt, c = .appoint c.account names createdAt ∧
      r = .grant c.account names createdAt := by
  cases c with
  | appoint account names createdAt =>
    constructor
    · intro h
      exact ⟨names, createdAt, rfl, (Option.some.inj h).symm⟩
    · rintro ⟨names', createdAt', heq, rfl⟩
      obtain ⟨-, rfl, rfl⟩ := appoint.inj heq
      rfl
  | dismiss account => exact iff_of_false nofun fun ⟨_, _, heq, _⟩ => nomatch heq

end StaffChange

/-- The last of the changes that are about the account appoints it on the given terms. -/
def LastAppointed (changes : List StaffChange) (account : AccountId) (names : List PropertyName)
    (createdAt : UInt64) : Prop :=
  ∃ earlier later, changes = earlier ++ .appoint account names createdAt :: later ∧
    ∀ c ∈ later, c.account ≠ account

theorem not_lastAppointed_nil {account : AccountId} {names : List PropertyName}
    {createdAt : UInt64} : ¬ LastAppointed [] account names createdAt := by
  rintro ⟨earlier, later, hsplit, -⟩
  exact List.append_ne_nil_of_right_ne_nil _ (List.cons_ne_nil _ _) hsplit.symm

theorem lastAppointed_snoc {changes : List StaffChange} {c : StaffChange} {account : AccountId}
    {names : List PropertyName} {createdAt : UInt64} :
    LastAppointed (changes ++ [c]) account names createdAt ↔
      c = .appoint account names createdAt ∨
        c.account ≠ account ∧ LastAppointed changes account names createdAt := by
  constructor
  · rintro ⟨earlier, later, hsplit, hlater⟩
    rcases List.eq_nil_or_concat' later with rfl | ⟨later, d, rfl⟩
    · exact Or.inl (List.singleton_inj.mp (List.append_inj_right' hsplit rfl))
    · rw [← List.cons_append, ← List.append_assoc] at hsplit
      obtain ⟨hchanges, hlast⟩ := List.append_inj' hsplit rfl
      obtain rfl := List.singleton_inj.mp hlast
      obtain ⟨hlater, hc⟩ := List.forall_mem_append.mp hlater
      exact Or.inr ⟨hc c List.mem_cons_self, earlier, later, hchanges, hlater⟩
  · rintro (rfl | ⟨hc, earlier, later, rfl, hlater⟩)
    · exact ⟨changes, [], rfl, fun _ h => absurd h List.not_mem_nil⟩
    · refine ⟨earlier, later ++ [c], List.append_assoc _ _ _, ?_⟩
      exact List.forall_mem_append.mpr ⟨hlater, List.forall_mem_singleton.mpr hc⟩

namespace Asset

/-- Appoints or dismisses a reporter. -/
def changeStaff (a : Asset) : StaffChange → Asset
  | .appoint account names createdAt => a.upsertReporter (.grant account names createdAt)
  | .dismiss account => (a.takeReporter account).2

variable {a : Asset} {changes : List StaffChange}

theorem changeStaff_ascending (h : AscendingBy Reporter.account a.reporters) (c : StaffChange) :
    AscendingBy Reporter.account (a.changeStaff c).reporters := by
  cases c with
  | appoint account names createdAt => exact h.upsertBy _
  | dismiss account => exact h.sublist List.eraseP_sublist

/-- **A change decides about its account, and about no other.** -/
theorem reporter?_changeStaff (h : AscendingBy Reporter.account a.reporters) (c : StaffChange)
    (x : AccountId) :
    (a.changeStaff c).reporter? x = if c.account = x then c.outcome else a.reporter? x := by
  cases c with
  | appoint account names createdAt =>
    refine (h.find?_upsertBy (.grant account names createdAt) x).trans ?_
    simp only [beq_iff_eq]
    rfl
  | dismiss account => exact h.find?_eraseP account x

/-- A dismissal hands out what was found, and leaves the others in place. -/
theorem takeReporter_eq (h : AscendingBy Reporter.account a.reporters) (x : AccountId) :
    a.takeReporter x =
      (a.reporter? x, { a with reporters := a.reporters.filter fun r => r.account != x }) := by
  rw [takeReporter, removeReporter, h.eraseP_eq_filter]

/-- After the changes the reporters are in order of accounts, and what is found under an account is
the last appointment of that account. -/
structure Staffed (changes : List StaffChange) (a : Asset) : Prop where
  ascending : AscendingBy Reporter.account a.reporters
  found : ∀ x r, a.reporter? x = some r ↔
    ∃ names createdAt, LastAppointed changes x names createdAt ∧ r = .grant x names createdAt

theorem staffed_nil (h : a.reporters = []) : Staffed [] a where
  ascending := h ▸ AscendingBy.nil
  found x r := by
    rw [reporter?, h]
    exact iff_of_false nofun fun ⟨_, _, hlast, _⟩ => not_lastAppointed_nil hlast

theorem Staffed.snoc (h : Staffed changes a) (c : StaffChange) :
    Staffed (changes ++ [c]) (a.changeStaff c) where
  ascending := changeStaff_ascending h.ascending c
  found x r := by
    simp only [lastAppointed_snoc]
    rw [reporter?_changeStaff h.ascending]
    by_cases hx : c.account = x
    · subst hx
      rw [if_pos rfl, StaffChange.outcome_eq_some]
      simp only [ne_eq, not_true_eq_false, false_and, or_false]
    · have hother : ∀ names createdAt, c ≠ .appoint x names createdAt :=
        fun _ _ heq => hx (congrArg StaffChange.account heq)
      rw [if_neg hx, h.found]
      simp only [hother, ne_eq, hx, not_false_eq_true, true_and, false_or]

theorem staffed_foldl (h : a.reporters = []) (changes : List StaffChange) :
    Staffed changes (changes.foldl changeStaff a) := by
  induction changes using List.reverseRecOn with
  | nil => exact staffed_nil h
  | append_singleton changes c ih =>
    rw [List.foldl_append]
    exact ih.snoc c

/-- **The reporters of an asset are a map of last appointments.**  Whoever is appointed to a fresh
asset and dismissed from it, with any names and at any times: its reporters stay in order of
accounts, each once.  What is found under an account is the grant that it was last appointed with,
if it was not dismissed since.  A dismissal hands out what was found under its account and takes it
out of the list; the other entries stay where they are, and so does all else.  And each entry may
write just the names that were listed in the appointment it comes from. -/
theorem reporters_exact (id : AssetId) (name : String) (owner : AccountId) (quantity : Nat)
    (unit : String) (changes : List StaffChange) :
    let a := changes.foldl changeStaff (fresh id name owner quantity unit)
    AscendingBy Reporter.account a.reporters ∧
    (∀ x r, a.reporter? x = some r ↔ ∃ names createdAt,
      LastAppointed changes x names createdAt ∧ r = .grant x names createdAt) ∧
    (∀ x, a.takeReporter x =
      (a.reporter? x, { a with reporters := a.reporters.filter fun r => r.account != x })) ∧
    ∀ r ∈ a.reporters, ∃ names, LastAppointed changes r.account names r.createdAt ∧
      ∀ n, r.canWrite n = true ↔ n ∈ names := by
  intro a
  obtain ⟨hascending, hfound⟩ : Staffed changes a := staffed_foldl rfl changes
  refine ⟨hascending, hfound, takeReporter_eq hascending, fun r hr => ?_⟩
  obtain ⟨names, createdAt, hlast, hgrant⟩ :=
    (hfound r.account r).mp (hascending.find?_eq_some.mpr ⟨hr, rfl⟩)
  have htime : r.createdAt = createdAt := congrArg Reporter.createdAt hgrant
  refine ⟨names, htime ▸ hlast, fun n => ?_⟩
  rw [hgrant]
  exact Reporter.canWrite_grant _ _ _ n

/-- One reporter is appointed a second time on other terms, another one is dismissed again. -/
theorem reporters_exact_of_reappointment :
    let changes : List StaffChange :=
      [.appoint ⟨"zed"⟩ [⟨"size"⟩] 1, .appoint ⟨"amy"⟩ [⟨"size"⟩, ⟨"grade"⟩] 2,
        .appoint ⟨"zed"⟩ [⟨"hue"⟩, ⟨"color"⟩, ⟨"hue"⟩] 3, .dismiss ⟨"amy"⟩]
    let a := changes.foldl changeStaff (fresh ⟨"tea"⟩ "Tea" ⟨"ann"⟩ 5 "kg")
    let r : Reporter := .grant ⟨"zed"⟩ [⟨"hue"⟩, ⟨"color"⟩, ⟨"hue"⟩] 3
    a.reporters = [r] ∧
    a.takeReporter ⟨"zed"⟩ = (some r, fresh ⟨"tea"⟩ "Tea" ⟨"ann"⟩ 5 "kg") ∧
    ∃ names, LastAppointed changes ⟨"zed"⟩ names 3 ∧ ∀ n, r.canWrite n = true ↔ n ∈ names := by
  intro changes a r
  have hreporters : a.reporters = [r] := by decide +kernel
  obtain ⟨-, -, htake, hentries⟩ := reporters_exact ⟨"tea"⟩ "Tea" ⟨"ann"⟩ 5 "kg" changes
  refine ⟨hreporters, (htake _).trans (by decide +kernel), hentries r ?_⟩
  exact hreporters ▸ List.mem_singleton_self r

end Asset

end Custody
