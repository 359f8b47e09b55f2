import Mathlib.Data.List.Induction
import Custody.Journal.Summary
import Custody.Proofs.SortedMap.Sum
import Custody.Proofs.Text.Decimal

/-!
# What a summary counts

A summary counts a run of journal entries in three numbers and two tables.  All five are kept in one
pass over the entries, each entry adding to what it belongs to.  So the tables divide the numbers: the
columns of the table of kinds add up to what was applied and to what was refused, and the table of
codes adds up to what was refused.  A code is entered as a text after its namespace; the last colon
of that text parts the two, so no two codes share an entry, whatever the namespaces are.

* `codeLabel_inj`: **namespace and code are known from the label.**
* `Summary.extend`, `Summary.ofEntries_eq_foldl`: the pass over the entries.
* `Summary.Tallies`, `Summary.Tallies.extend`: what the counts of a summary say of the entries, and
  that one more entry keeps it.
* `Summary.Adds`, `Summary.Tallies.adds`: the counts of two summaries added up.
* `Summary.counts_partition`: **the counts of a summary partition its entries, and those of two runs
  add up.**
-/

namespace Custody

open Std

/-! ### Labels -/

/-- The last place of an element parts a list. -/
theorem append_cons_inj_of_notMem_right {α : Type} {a : α} {xs ys us vs : List α} (hu : a ∉ us)
    (hv : a ∉ vs) (h : xs ++ a :: us = ys ++ a :: vs) : xs = ys ∧ us = vs := by
  rcases List.append_eq_append_iff.mp h with ⟨zs, hys, hzs⟩ | ⟨zs, hxs, hzs⟩
  · cases zs with
    | nil =>
      rw [List.append_nil] at hys
      exact ⟨hys.symm, (List.cons.inj hzs).2⟩
    | cons z zs =>
      refine absurd ?_ hu
      rw [(List.cons.inj hzs).2]
      simp
  · cases zs with
    | nil =>
      rw [List.append_nil] at hxs
      exact ⟨hxs, (List.cons.inj hzs).2.symm⟩
    | cons z zs =>
      refine absurd ?_ hv
      rw [(List.cons.inj hzs).2]
      simp

/-- The label of a code of a namespace. -/
def codeLabel (codespace : String) (code : UInt32) : String := codespace ++ ":" ++ toString code

theorem toList_codeLabel (codespace : String) (code : UInt32) :
    (codeLabel codespace code).toList = codespace.toList ++ ':' :: Decimal.write code.toNat := by
  have hcode : toString code = String.ofList (Decimal.write code.toNat) :=
    Nat.toString_eq_ofList_toDigits
  simp [codeLabel, hcode]

theorem Failure.label_eq (f : Failure) : f.label = codeLabel f.codespace f.code := by
  rw [← String.toList_inj, toList_codeLabel, label, String.toList_ofList]

/-- **Namespace and code are known from the label**, also where the namespace holds colons or
digits. -/
theorem codeLabel_inj {c c' : String} {k k' : UInt32} :
    codeLabel c k = codeLabel c' k' ↔ c = c' ∧ k = k' := by
  constructor
  · intro h
    have hcolon : ∀ n, ':' ∉ Decimal.write n := by
      intro n hmem
      have hdigit := (Decimal.write_numeral n).isDigit ':' hmem
      exact absurd hdigit (by decide)
    have hlist := congrArg String.toList h
    rw [toList_codeLabel, toList_codeLabel] at hlist
    obtain ⟨hc, hk⟩ := append_cons_inj_of_notMem_right (hcolon _) (hcolon _) hlist
    exact ⟨String.toList_inj.mp hc, UInt32.toNat_inj.mp (Decimal.write_inj hk)⟩
  · rintro ⟨rfl, rfl⟩
    rfl

example : codeLabel "custody:1" 2 = "custody:1:2" := rfl

/-! ### Counts of a run -/

/-- Whether the envelope was refused with a code of a namespace. -/
def JournalEntry.refusedWith (codespace : String) (code : UInt32) (e : JournalEntry) : Bool :=
  e.failure.any fun f => f.codespace == codespace && f.code == code

namespace ActionCounts

/-- The counts of two runs, added up. -/
def plus (a b : ActionCounts) : ActionCounts :=
  ⟨a.succeeded + b.succeeded, a.failed + b.failed⟩

theorem plus_zero (a : ActionCounts) : a.plus {} = a := rfl

theorem zero_plus (a : ActionCounts) : plus {} a = a := by simp [plus]

theorem add_eq_plus (counts : ActionCounts) (e : JournalEntry) :
    counts.add e = counts.plus (add {} e) := by
  cases hf : e.failure <;> simp [add, plus, hf]

theorem succeeded_add (counts : ActionCounts) (e : JournalEntry) :
    (counts.add e).succeeded = counts.succeeded + [e].countP JournalEntry.succeeded := by
  cases hf : e.failure <;> simp [add, JournalEntry.succeeded, hf]

theorem failed_add (counts : ActionCounts) (e : JournalEntry) :
    (counts.add e).failed = counts.failed + [e].countP fun e => !e.succeeded := by
  cases hf : e.failure <;> simp [add, JournalEntry.succeeded, hf]

end ActionCounts

namespace Summary

/-- How many entries of a kind were applied, and how many were refused. -/
def actionCounts (l : List JournalEntry) (k : MessageKind) : ActionCounts where
  succeeded := l.countP fun e => e.action == k && e.succeeded
  failed := l.countP fun e => e.action == k && !e.succeeded

/-- How many entries were refused with a code of a namespace. -/
def refusals (l : List JournalEntry) (codespace : String) (code : UInt32) : Nat :=
  l.countP (JournalEntry.refusedWith codespace code)

variable {l l' : List JournalEntry} {e : JournalEntry} {f : Failure} {s t u : Summary}

theorem actionCounts_append (l l' : List JournalEntry) (k : MessageKind) :
    actionCounts (l ++ l') k = (actionCounts l k).plus (actionCounts l' k) := by
  simp [actionCounts, ActionCounts.plus]

theorem actionCounts_singleton (e : JournalEntry) :
    actionCounts [e] e.action = ActionCounts.add {} e := by
  cases hf : e.failure <;> simp [actionCounts, ActionCounts.add, JournalEntry.succeeded, hf]

theorem actionCounts_of_notMem {k : MessageKind} (h : k ∉ l.map JournalEntry.action) :
    actionCounts l k = {} := by
  have hnone : ∀ p : JournalEntry → Bool, (l.countP fun e => e.action == k && p e) = 0 := by
    intro p
    rw [List.countP_eq_zero]
    intro e he hkind
    have haction : e.action = k := by simp_all
    exact h (List.mem_map.mpr ⟨e, he, haction⟩)
  rw [actionCounts, hnone, hnone]

theorem refusals_append (l l' : List JournalEntry) (codespace : String) (code : UInt32) :
    refusals (l ++ l') codespace code = refusals l codespace code + refusals l' codespace code :=
  List.countP_append

theorem refusals_of_applied (hf : e.failure = none) (codespace : String) (code : UInt32) :
    refusals [e] codespace code = 0 := by
  simp [refusals, JournalEntry.refusedWith, hf]

/-- A refusal counts for the code of its label, and for no other. -/
theorem refusals_of_refused (hf : e.failure = some f) (codespace : String) (code : UInt32) :
    refusals [e] codespace code = if codeLabel codespace code = f.label then 1 else 0 := by
  have hrefused : e.refusedWith codespace code = true ↔ codeLabel codespace code = f.label := by
    rw [f.label_eq, codeLabel_inj, JournalEntry.refusedWith, hf, Option.any_some,
      Bool.and_eq_true, beq_iff_eq, beq_iff_eq, eq_comm (a := codespace), eq_comm (a := code)]
  simp only [refusals, List.countP_singleton, hrefused]

/-! ### One pass over the entries -/

/-- The summary of no entries, before the digest is taken. -/
def blank : Summary := ⟨none, none, 0, 0, 0, ∅, ∅, ""⟩

/-- One more entry is counted. -/
def extend (s : Summary) (e : JournalEntry) : Summary :=
  let seen : Summary :=
    { s with
      firstSequence := s.firstSequence.or (some e.sequence)
      lastSequence := some e.sequence
      total := s.total + 1
      byAction := s.byAction.update e.action fun counts => (counts.getD {}).add e }
  match e.failure with
  | none => { seen with succeeded := seen.succeeded + 1 }
  | some f =>
    { seen with
      failed := seen.failed + 1
      failuresByCode := seen.failuresByCode.update f.label fun n => n.getD 0 + 1 }

theorem ofEntries_append_singleton (l : List JournalEntry) (e : JournalEntry) :
    ofEntries (l ++ [e]) =
      { (ofEntries l).extend e with digest := Blake3.hex (stream (l ++ [e])) } := by
  cases hf : e.failure <;>
    simp [ofEntries, extend, countActions, countFailures, JournalEntry.succeeded, hf]

/-- A summary is made in one pass over the entries. -/
theorem ofEntries_eq_foldl (l : List JournalEntry) :
    ofEntries l = { l.foldl extend blank with digest := Blake3.hex (stream l) } := by
  induction l using List.reverseRecOn with
  | nil => rfl
  | append_singleton l e ih =>
    rw [ofEntries_append_singleton, ih, List.foldl_append]
    cases hf : e.failure <;> simp [extend, hf]

@[simp] theorem extend_total (s : Summary) (e : JournalEntry) :
    (s.extend e).total = s.total + 1 := by
  cases hf : e.failure <;> simp [extend, hf]

@[simp] theorem extend_succeeded (s : Summary) (e : JournalEntry) :
    (s.extend e).succeeded = s.succeeded + [e].countP JournalEntry.succeeded := by
  cases hf : e.failure <;> simp [extend, JournalEntry.succeeded, hf]

@[simp] theorem extend_failed (s : Summary) (e : JournalEntry) :
    (s.extend e).failed = s.failed + [e].countP fun e => !e.succeeded := by
  cases hf : e.failure <;> simp [extend, JournalEntry.succeeded, hf]

@[simp] theorem extend_byAction (s : Summary) (e : JournalEntry) :
    (s.extend e).byAction =
      s.byAction.update e.action fun counts => (counts.getD {}).add e := by
  cases hf : e.failure <;> simp [extend, hf]

theorem extend_failuresByCode (s : Summary) (e : JournalEntry) :
    (s.extend e).failuresByCode =
      match e.failure with
      | none => s.failuresByCode
      | some f => s.failuresByCode.update f.label fun n => n.getD 0 + 1 := by
  cases hf : e.failure <;> simp [extend, hf]

/-! ### What the counts say -/

/-- The counts of a summary are those of a run of entries. -/
structure Tallies (l : List JournalEntry) (s : Summary) : Prop where
  total : s.total = l.length
  outcomes : s.total = s.succeeded + s.failed
  succeeded : s.succeeded = l.countP JournalEntry.succeeded
  failed : s.failed = l.countP fun e => !e.succeeded
  /-- The kinds that occur have an entry, with the numbers of that kind. -/
  byAction : ∀ k, s.byAction.get? k =
    if k ∈ l.map JournalEntry.action then some (actionCounts l k) else none
  sum_succeeded : s.byAction.sum ActionCounts.succeeded = s.succeeded
  sum_failed : s.byAction.sum ActionCounts.failed = s.failed
  /-- The codes that occur have an entry, with the number of refusals. -/
  failuresByCode : ∀ codespace code, s.failuresByCode.get? (codeLabel codespace code) =
    if refusals l codespace code = 0 then none else some (refusals l codespace code)
  /-- Nothing but codes that occur has an entry. -/
  keys : ∀ key ∈ s.failuresByCode.keys, ∃ e ∈ l, ∃ f, e.failure = some f ∧ key = f.label
  sum_failures : s.failuresByCode.sum id = s.failed

theorem tallies_blank : Tallies [] blank where
  total := rfl
  outcomes := rfl
  succeeded := rfl
  failed := rfl
  byAction _ := rfl
  sum_succeeded := rfl
  sum_failed := rfl
  failuresByCode _ _ := rfl
  keys := nofun
  sum_failures := rfl

namespace Tallies

theorem getD_byAction (h : Tallies l s) (k : MessageKind) :
    (s.byAction.get? k).getD {} = actionCounts l k := by
  rw [h.byAction]
  split
  · rfl
  · next hk => exact (actionCounts_of_notMem hk).symm

theorem getD_failuresByCode (h : Tallies l s) (codespace : String) (code : UInt32) :
    (s.failuresByCode.get? (codeLabel codespace code)).getD 0 = refusals l codespace code := by
  rw [h.failuresByCode]
  split
  · next hzero => exact hzero.symm
  · rfl

/-- The entry of a kind after one more entry of the run. -/
theorem byAction_extend (h : Tallies l s) (e : JournalEntry) (k : MessageKind) :
    (s.extend e).byAction.get? k =
      if k ∈ (l ++ [e]).map JournalEntry.action then some (actionCounts (l ++ [e]) k)
      else none := by
  rw [extend_byAction, SortedMap.get?_update, actionCounts_append]
  by_cases hk : k = e.action
  · subst hk
    simp [h.getD_byAction, actionCounts_singleton, ← ActionCounts.add_eq_plus]
  · have hnone : actionCounts [e] k = {} := actionCounts_of_notMem (by simpa using hk)
    simp [hk, hnone, h.byAction, ActionCounts.plus]

/-- The entry of a code after one more entry of the run. -/
theorem failuresByCode_extend (h : Tallies l s) (e : JournalEntry) (codespace : String)
    (code : UInt32) : (s.extend e).failuresByCode.get? (codeLabel codespace code) =
      if refusals (l ++ [e]) codespace code = 0 then none
      else some (refusals (l ++ [e]) codespace code) := by
  rw [extend_failuresByCode, refusals_append]
  cases hf : e.failure with
  | none => simp [h.failuresByCode, refusals_of_applied hf]
  | some f =>
    rw [refusals_of_refused hf]
    simp only [SortedMap.get?_update]
    by_cases hk : codeLabel codespace code = f.label
    · rw [← hk, h.getD_failuresByCode]
      simp
    · simp [hk, h.failuresByCode]

theorem keys_extend (h : Tallies l s) (e : JournalEntry) :
    ∀ key ∈ (s.extend e).failuresByCode.keys,
      ∃ a ∈ l ++ [e], ∃ f, a.failure = some f ∧ key = f.label := by
  intro key hkey
  have hold : key ∈ s.failuresByCode.keys →
      ∃ a ∈ l ++ [e], ∃ f, a.failure = some f ∧ key = f.label := by
    intro hs
    obtain ⟨a, ha, hlabel⟩ := h.keys key hs
    exact ⟨a, List.mem_append_left _ ha, hlabel⟩
  rw [extend_failuresByCode] at hkey
  cases hf : e.failure with
  | none =>
    rw [hf] at hkey
    exact hold hkey
  | some f =>
    rw [hf] at hkey
    rcases (SortedMap.mem_keys_update _ _ _ _).mp hkey with hlabel | hs
    · exact ⟨e, List.mem_append_right l (List.mem_singleton_self e), f, hf, hlabel⟩
    · exact hold hs

/-- A column of the table of kinds grows with what it counts. -/
theorem sum_byAction_extend (s : Summary) (e : JournalEntry) {column : ActionCounts → Nat}
    {n : Nat} (hzero : column {} = 0)
    (hadd : ∀ counts : ActionCounts, column (counts.add e) = column counts + n) :
    (s.extend e).byAction.sum column = s.byAction.sum column + n := by
  rw [extend_byAction]
  refine SortedMap.sum_update column s.byAction e.action ?_
  rw [hadd]
  cases s.byAction.get? e.action with
  | none => rw [Option.getD_none, Option.map_none, Option.getD_none, hzero]
  | some counts => rfl

theorem sum_failures_extend (s : Summary) (e : JournalEntry) :
    (s.extend e).failuresByCode.sum id =
      s.failuresByCode.sum id + [e].countP fun e => !e.succeeded := by
  rw [extend_failuresByCode]
  cases hf : e.failure with
  | none => simp [JournalEntry.succeeded, hf]
  | some f =>
    have hone : ([e].countP fun e => !e.succeeded) = 1 := by simp [JournalEntry.succeeded, hf]
    rw [hone]
    refine SortedMap.sum_update id s.failuresByCode f.label ?_
    rw [Option.map_id, id, id]

end Tallies

/-- **One more entry of the run is one more entry of the counts.** -/
theorem Tallies.extend (h : Tallies l s) (e : JournalEntry) : Tallies (l ++ [e]) (s.extend e) where
  total := by rw [extend_total, h.total, List.length_append, List.length_singleton]
  outcomes := by
    have hone : [e].countP JournalEntry.succeeded + ([e].countP fun e => !e.succeeded) = 1 := by
      cases hf : e.failure <;> simp [JournalEntry.succeeded, hf]
    rw [extend_total, extend_succeeded, extend_failed, h.outcomes]
    omega
  succeeded := by rw [extend_succeeded, h.succeeded, List.countP_append]
  failed := by rw [extend_failed, h.failed, List.countP_append]
  byAction := h.byAction_extend e
  sum_succeeded := by
    rw [sum_byAction_extend s e rfl (ActionCounts.succeeded_add · e), h.sum_succeeded,
      extend_succeeded]
  sum_failed := by
    rw [sum_byAction_extend s e rfl (ActionCounts.failed_add · e), h.sum_failed, extend_failed]
  failuresByCode := h.failuresByCode_extend e
  keys := h.keys_extend e
  sum_failures := by rw [sum_failures_extend, h.sum_failures, extend_failed]

/-- The digest is no count. -/
theorem Tallies.withDigest (h : Tallies l s) (digest : String) :
    Tallies l { s with digest := digest } :=
  ⟨h.total, h.outcomes, h.succeeded, h.failed, h.byAction, h.sum_succeeded, h.sum_failed,
    h.failuresByCode, h.keys, h.sum_failures⟩

/-- The counts of one pass are those of the entries. -/
theorem tallies_foldl (l : List JournalEntry) : Tallies l (l.foldl extend blank) := by
  induction l using List.reverseRecOn with
  | nil => exact tallies_blank
  | append_singleton l e ih =>
    rw [List.foldl_append]
    exact ih.extend e

theorem tallies_ofEntries (l : List JournalEntry) : Tallies l (ofEntries l) := by
  rw [ofEntries_eq_foldl]
  exact (tallies_foldl l).withDigest _

/-! ### Two runs -/

/-- The counts of two summaries, added up key by key, are those of a third. -/
structure Adds (s t u : Summary) : Prop where
  total : u.total = s.total + t.total
  succeeded : u.succeeded = s.succeeded + t.succeeded
  failed : u.failed = s.failed + t.failed
  byAction : ∀ k, u.byAction.get? k =
    Option.merge ActionCounts.plus (s.byAction.get? k) (t.byAction.get? k)
  failuresByCode : ∀ key, u.failuresByCode.get? key =
    Option.merge (· + ·) (s.failuresByCode.get? key) (t.failuresByCode.get? key)

namespace Tallies

/-- A text that is no label has no entry. -/
theorem get?_eq_none_of_not_label (h : Tallies l s) {key : String}
    (hkey : ∀ codespace code, key ≠ codeLabel codespace code) :
    s.failuresByCode.get? key = none := by
  cases hget : s.failuresByCode.get? key with
  | none => rfl
  | some n =>
    obtain ⟨e, -, f, -, hlabel⟩ := h.keys key ((SortedMap.mem_keys _ _).mpr ⟨n, hget⟩)
    exact absurd (hlabel.trans f.label_eq) (hkey f.codespace f.code)

theorem merge_byAction (hs : Tallies l s) (ht : Tallies l' t) (hu : Tallies (l ++ l') u)
    (k : MessageKind) : u.byAction.get? k =
      Option.merge ActionCounts.plus (s.byAction.get? k) (t.byAction.get? k) := by
  rw [hu.byAction, hs.byAction, ht.byAction, actionCounts_append, List.map_append]
  simp only [List.mem_append]
  by_cases hk : k ∈ l.map JournalEntry.action <;> by_cases hk' : k ∈ l'.map JournalEntry.action
  · simp only [hk, hk', or_self, if_true, Option.merge]
  · simp only [hk, hk', or_false, if_true, if_false, Option.merge,
      actionCounts_of_notMem hk', ActionCounts.plus_zero]
  · simp only [hk, hk', or_true, if_true, if_false, Option.merge,
      actionCounts_of_notMem hk, ActionCounts.zero_plus]
  · simp only [hk, hk', or_self, if_false, Option.merge]

theorem merge_failuresByCode (hs : Tallies l s) (ht : Tallies l' t) (hu : Tallies (l ++ l') u)
    (key : String) : u.failuresByCode.get? key =
      Option.merge (· + ·) (s.failuresByCode.get? key) (t.failuresByCode.get? key) := by
  by_cases hkey : ∃ codespace code, key = codeLabel codespace code
  · obtain ⟨codespace, code, rfl⟩ := hkey
    rw [hu.failuresByCode, hs.failuresByCode, ht.failuresByCode, refusals_append]
    by_cases hzero : refusals l codespace code = 0 <;>
      by_cases hzero' : refusals l' codespace code = 0 <;> simp [hzero, hzero']
  · have hlabel : ∀ codespace code, key ≠ codeLabel codespace code :=
      fun codespace code hcode => hkey ⟨codespace, code, hcode⟩
    rw [hu.get?_eq_none_of_not_label hlabel, hs.get?_eq_none_of_not_label hlabel,
      ht.get?_eq_none_of_not_label hlabel, Option.merge_none_left]

/-- **Counts of two runs, one after the other, are the counts of each added up.** -/
theorem adds (hs : Tallies l s) (ht : Tallies l' t) (hu : Tallies (l ++ l') u) : Adds s t u where
  total := by rw [hu.total, hs.total, ht.total, List.length_append]
  succeeded := by rw [hu.succeeded, hs.succeeded, ht.succeeded, List.countP_append]
  failed := by rw [hu.failed, hs.failed, ht.failed, List.countP_append]
  byAction := hs.merge_byAction ht hu
  failuresByCode := hs.merge_failuresByCode ht hu

end Tallies

/-- **The counts of a summary partition its entries.**  The total is the length of the run and the
sum of what was applied and what was refused; the kinds that occur have an entry each, with their
exact numbers, and the columns add up to the two numbers; the codes that occur have an entry each
under their namespace, whatever text that is, and the entries add up to what was refused.  The counts
of two runs, one after the other, are the counts of each added up. -/
theorem counts_partition (l l' : List JournalEntry) :
    Tallies l (ofEntries l) ∧ Adds (ofEntries l) (ofEntries l') (ofEntries (l ++ l')) :=
  ⟨tallies_ofEntries l,
    (tallies_ofEntries l).adds (tallies_ofEntries l') (tallies_ofEntries (l ++ l'))⟩

end Summary

end Custody
