import Custody.Ledger.Dispatch
import Custody.Proofs.Properties
import Custody.Proofs.Records.Steps
import Custody.Proofs.Records.Writing

/-!
# Steps keep the records sound

The checks on an envelope see to it that every name in it that becomes part of a key is clean.  So
a step by a checked envelope leaves records whose names are clean, and whose assets and offers lie
under their own names.

* `Envelope.check_eq_ok`: what the check of an envelope says of it.
* `Envelope.clean_of_check`: a checked envelope names clean identifiers.
* `Records.Step.sound`: a step by such an envelope keeps the records sound.
-/

namespace Custody

open Std

/-! ### Checked envelopes -/

/-- Only the character NUL is encoded with the separator. -/
theorem Utf8.eq_of_separator_mem {c : Char} (h : Key.separator ∈ String.utf8EncodeChar c) :
    c = '\x00' := by
  have hbyte : ∀ x : Nat, Key.separator = UInt8.ofNat x → x % 256 = 0 := fun x hx => by
    simpa [Key.separator] using (congrArg UInt8.toNat hx).symm
  refine Char.ext (UInt32.toNat_inj.mp ?_)
  change c.val.toNat = 0
  simp only [String.utf8EncodeChar] at h
  -- every byte of a longer encoding has its highest bit set
  split at h
  · have := hbyte _ (List.mem_singleton.mp h)
    omega
  split at h
  · simp only [List.mem_cons, List.not_mem_nil, or_false] at h
    rcases h with h | h <;> (have hlt := hbyte _ h; omega)
  split at h
  · simp only [List.mem_cons, List.not_mem_nil, or_false] at h
    rcases h with h | h | h <;> (have hlt := hbyte _ h; omega)
  · simp only [List.mem_cons, List.not_mem_nil, or_false] at h
    rcases h with h | h | h | h <;> (have hlt := hbyte _ h; omega)

/-- A text that can be a part of a key: there is something in it, and no NUL, and it is not too
long. -/
structure IsSegment (text : String) (max : Nat) : Prop where
  nonempty : text ≠ ""
  free : '\x00' ∉ text.toList
  short : text.utf8ByteSize ≤ max

theorem checkSegment_eq_ok {field text : String} {max : Nat} {u : Unit} :
    checkSegment field text max = .ok u ↔ IsSegment text max := by
  simp only [checkSegment, Verdict.bind_eq_ok, require_eq_ok, exists_const]
  constructor
  · rintro ⟨hne, hfree, hshort⟩
    exact ⟨by simpa using hne, by simpa using hfree, of_decide_eq_true hshort⟩
  · rintro ⟨hne, hfree, hshort⟩
    exact ⟨by simpa using hne, by simpa using hfree, decide_eq_true hshort⟩

theorem Ident.clean_of_isSegment {kind : IdentKind} {i : Ident kind} {max : Nat}
    (h : IsSegment i.text max) : i.Clean := by
  intro hmem
  obtain ⟨c, hc, hsep⟩ := List.mem_flatMap.mp hmem
  obtain rfl := Utf8.eq_of_separator_mem hsep
  exact h.free hc

theorem Ident.clean_of_checkSegment {kind : IdentKind} {i : Ident kind} {field : String}
    {max : Nat} {u : Unit} (h : checkSegment field i.text max = .ok u) : i.Clean :=
  clean_of_isSegment (checkSegment_eq_ok.mp h)

/-- The accounts and the asset that an envelope names are within limits. -/
structure Envelope.Within (e : Envelope) (limits : Limits) : Prop where
  sender : IsSegment e.sender.text limits.idLength
  asset : IsSegment e.message.asset.text limits.idLength
  counterparty : ∀ account, e.message.counterparty = some account →
    IsSegment account.text limits.idLength

/-- An envelope passes its check just if what it names is within limits and what belongs to the kind
of its message is in order. -/
theorem Envelope.check_eq_ok {limits : Limits} {e : Envelope} {u : Unit} :
    e.check limits = .ok u ↔ e.Within limits ∧ e.message.checkBody limits = .ok () := by
  simp only [Envelope.check, Message.check, Verdict.bind_eq_ok, checkSegment_eq_ok, exists_const]
  cases haccount : e.message.counterparty with
  | none =>
    constructor
    · rintro ⟨hsender, hasset, hbody⟩
      exact ⟨⟨hsender, hasset, by simp [haccount]⟩, hbody⟩
    · rintro ⟨⟨hsender, hasset, -⟩, hbody⟩
      exact ⟨hsender, hasset, hbody⟩
  | some account =>
    constructor
    · rintro ⟨hsender, hasset, h⟩
      obtain ⟨_, hcounterparty, hbody⟩ := Verdict.bind_eq_ok.mp h
      have hwithin := checkSegment_eq_ok.mp hcounterparty
      exact ⟨⟨hsender, hasset, by simpa [haccount] using hwithin⟩, hbody⟩
    · rintro ⟨⟨hsender, hasset, hcounterparty⟩, hbody⟩
      have hwithin := hcounterparty account haccount
      exact ⟨hsender, hasset, Verdict.bind_eq_ok.mpr ⟨(), checkSegment_eq_ok.mpr hwithin, hbody⟩⟩

/-- The properties that a message writes. -/
def Message.written : Message → List Property
  | createAsset _ _ _ _ _ properties => properties
  | updateProperties _ properties => properties
  | _ => []

/-- The names in an envelope that become parts of keys are clean. -/
structure Envelope.Clean (e : Envelope) : Prop where
  sender : e.sender.Clean
  asset : e.message.asset.Clean
  counterparty : ∀ account, e.message.counterparty = some account → account.Clean
  names : ∀ p ∈ e.message.written, p.name.Clean

theorem names_clean_of_check {limits : Limits} {properties : List Property} {u : Unit}
    (h : checkProperties limits properties = .ok u) : ∀ p ∈ properties, p.name.Clean := by
  obtain ⟨_, -, h⟩ := Verdict.bind_eq_ok.mp h
  intro p hp
  obtain ⟨_, hname, -⟩ := Verdict.bind_eq_ok.mp (Records.forM_eq_ok.mp h p hp)
  exact Ident.clean_of_checkSegment hname

theorem Message.names_clean_of_checkBody {limits : Limits} {m : Message} {u : Unit}
    (h : m.checkBody limits = .ok u) : ∀ p ∈ m.written, p.name.Clean := by
  cases m with
  | createAsset id name quantity unit parent properties =>
    obtain ⟨_, -, h⟩ := Verdict.bind_eq_ok.mp h
    obtain ⟨_, -, h⟩ := Verdict.bind_eq_ok.mp h
    obtain ⟨_, -, h⟩ := Verdict.bind_eq_ok.mp h
    exact names_clean_of_check h
  | updateProperties id properties => exact names_clean_of_check h
  | _ => exact fun p hp => absurd hp List.not_mem_nil

/-- **A checked envelope names clean identifiers.** -/
theorem Envelope.clean_of_check {limits : Limits} {e : Envelope} {u : Unit}
    (h : e.check limits = .ok u) : e.Clean := by
  obtain ⟨⟨hsender, hasset, hcounterparty⟩, hbody⟩ := check_eq_ok.mp h
  exact ⟨Ident.clean_of_isSegment hsender, Ident.clean_of_isSegment hasset,
    fun account haccount => Ident.clean_of_isSegment (hcounterparty account haccount),
    Message.names_clean_of_checkBody hbody⟩

/-! ### Steps -/

namespace Records

variable {σ σ' : Records}

theorem Sound.consume (h : σ.Sound) {t : Asset × Nat} (ht : σ.asset? t.1.id = some t.1) :
    (σ.consume t).Sound := by
  have hs := h.wellFormed.storable ht
  have hroot : t.1.root.Clean := h.root ht
  exact h.put (a := leftOf t) ⟨hs.id, hs.owner, hs.names, hs.reporters, hs.ascending⟩ hroot

theorem Sound.foldl_consume {taken : List (Asset × Nat)} (h : σ.Sound)
    (ht : σ.Consumable taken) : (taken.foldl Records.consume σ).Sound := by
  induction taken generalizing σ with
  | nil => exact h
  | cons t rest ih => exact ih (h.consume (ht.stored t List.mem_cons_self)) ht.tail

theorem Sound.hold (h : σ.Sound) {o : Offer} (hid : o.asset.Clean) (hr : o.recipient.Clean) :
    (σ.hold o).Sound := ⟨h.wellFormed.hold hid hr, h.root⟩

theorem Sound.dropAll (h : σ.Sound) (id : AssetId) : (σ.dropAll id).Sound := by
  refine ⟨⟨h.wellFormed.id_eq, h.wellFormed.storable, fun ho => ?_, fun ho => ?_⟩, h.root⟩
  · rw [offer?_dropAll] at ho
    split at ho
    · exact nomatch ho
    · exact h.wellFormed.offer_eq ho
  · rw [offer?_dropAll] at ho
    split at ho
    · exact nomatch ho
    · exact h.wellFormed.offer_clean ho

theorem freshAsset_storable {id : AssetId} {sender : AccountId} {properties : List Property}
    (hid : id.Clean) (hsender : sender.Clean) (hnames : ∀ p ∈ properties, p.name.Clean)
    (name : String) (quantity : Nat) (unit : String) :
    (freshAsset id name quantity unit properties sender).Storable where
  id := hid
  owner := hsender
  names p hp := hnames p (Property.mem_normalize hp)
  reporters _ hr := absurd hr List.not_mem_nil
  ascending := Property.normalize_ascending properties

theorem upsertReporter_storable {a : Asset} (h : a.Storable) {r : Reporter}
    (hr : r.account.Clean) : (a.upsertReporter r).Storable where
  id := h.id
  owner := h.owner
  names := h.names
  reporters s hs := by
    rcases mem_of_mem_upsertBy hs with rfl | hs
    · exact hr
    · exact h.reporters s hs
  ascending := h.ascending

/-- **A step by a clean envelope keeps the records sound.** -/
theorem Step.sound {sender : AccountId} {now : UInt64} {message : Message}
    (h : σ.Step sender now message σ') (hσ : σ.Sound) (he : Envelope.Clean ⟨sender, now, message⟩) :
    σ'.Sound := by
  obtain ⟨hsender, hasset, hcounterparty, hnames⟩ := he
  cases h with
  | issue hfree => exact hσ.put (freshAsset_storable hasset hsender hnames _ _ _) hasset
  | @split _ name quantity unit _ _ p hfree hp hmutable howner hle =>
    have hfresh := freshAsset_storable hasset hsender hnames name quantity unit
    have hroot : p.root.Clean := hσ.root hp
    exact (hσ.consume (t := (p, quantity)) (hσ.wellFormed.asset?_id hp)).put
      ⟨hfresh.id, hfresh.owner, hfresh.names, hfresh.reporters, hfresh.ascending⟩ hroot
  | @add _ _ a ha hmutable howner hamount =>
    have hs := hσ.wellFormed.storable ha
    have hroot : a.root.Clean := hσ.root ha
    exact hσ.put ⟨hs.id, hs.owner, hs.names, hs.reporters, hs.ascending⟩ hroot
  | @subtract _ amount a ha hmutable howner hamount hle =>
    exact hσ.consume (t := (a, amount)) (hσ.wellFormed.asset?_id ha)
  | @compose _ _ a _ ha hmutable howner hsome hpositive htakes =>
    have hs := hσ.wellFormed.storable ha
    have hroot : a.root.Clean := hσ.root ha
    exact (hσ.foldl_consume htakes.consumable).put
      ⟨hs.id, hs.owner, hs.names, hs.reporters, hs.ascending⟩ hroot
  | @write _ _ a ha hmutable hsome hpermits =>
    have hs := hσ.wellFormed.storable ha
    have hroot : a.root.Clean := hσ.root ha
    refine hσ.put ⟨hs.id, hs.owner, fun p hp => ?_, hs.reporters,
      Property.upsert_ascending hs.ascending _⟩ hroot
    exact (Property.mem_upsert hp).elim (hs.names p) (hnames p)
  | @freeze _ a ha hmutable howner =>
    have hs := hσ.wellFormed.storable ha
    have hroot : a.root.Clean := hσ.root ha
    exact (hσ.put (a := { a with isFinal := true })
      ⟨hs.id, hs.owner, hs.names, hs.reporters, hs.ascending⟩ hroot).dropAll _
  | offer ha hmutable howner hother hoffered => exact hσ.hold hasset (hcounterparty _ rfl)
  | decline ha hmutable ho hresponse hanswer => exact hσ.drop _ _
  | @accept _ a o ha hmutable ho howner =>
    have hs := hσ.wellFormed.storable ha
    have hroot : a.root.Clean := hσ.root ha
    refine Sound.drop ?_ _ _
    rw [granted]
    cases o.role with
    | owner =>
      exact hσ.put ⟨hs.id, hsender, hs.names, fun _ hr => absurd hr List.not_mem_nil,
        hs.ascending⟩ hroot
    | reporter => exact hσ.put (upsertReporter_storable hs hsender) hroot
  | withdraw ha hmutable howner ho hrole hsome hleft => exact hσ.drop _ _
  | narrow ha hmutable howner ho hrole hsome hleft =>
    obtain ⟨hid, hr⟩ := hσ.wellFormed.offer_eq ho
    obtain ⟨hid', hr'⟩ := hσ.wellFormed.offer_clean ho
    exact hσ.hold (hid ▸ hid') (hr ▸ hr')
  | @appoint _ _ _ a ha hmutable howner hother hsome =>
    have hroot : a.root.Clean := hσ.root ha
    exact hσ.put (upsertReporter_storable (hσ.wellFormed.storable ha) (hcounterparty _ rfl)) hroot
  | @dismiss _ _ a _ ha hmutable howner hr =>
    have hs := hσ.wellFormed.storable ha
    have hroot : a.root.Clean := hσ.root ha
    exact hσ.put ⟨hs.id, hs.owner, hs.names, fun r hr => hs.reporters r (List.mem_of_mem_eraseP hr),
      hs.ascending⟩ hroot

end Records

end Custody
