import Custody.Proofs.Ledger.Provenance
import Custody.Proofs.Records.Soundness

/-!
# The form of the records

No step looks at the form of a stored list: what is searched by bisection has to be in order
already, and the owner of an asset has to differ from its reporters and from all to whom it is
offered.  A record is **regular** if all this is so, and every step keeps records regular.

* `Asset.Regular`, `Offer.Regular`: the form of one record.
* `Records.Regular`: that of all, and how they go together.
* `Envelope.proper_of_check`: what a checked envelope contributes.
* `Records.Step.regular`: **a step keeps the records regular.**
-/

namespace Custody

/-! ### Identifiers -/

/-- An identifier that can name something: it is not empty, and it can be a part of a key. -/
structure Ident.Proper {kind : IdentKind} (i : Ident kind) : Prop where
  nonempty : i.text ≠ ""
  clean : i.Clean

theorem Ident.proper_of_isSegment {kind : IdentKind} {i : Ident kind} {max : Nat}
    (h : IsSegment i.text max) : i.Proper := ⟨h.nonempty, clean_of_isSegment h⟩

theorem Ident.proper_of_checkSegment {kind : IdentKind} {i : Ident kind} {field : String}
    {max : Nat} {u : Unit} (h : checkSegment field i.text max = .ok u) : i.Proper :=
  proper_of_isSegment (checkSegment_eq_ok.mp h)

/-- The names that come with a role: some, each once and in order. -/
structure Granting (names : List PropertyName) : Prop where
  nonempty : names ≠ []
  ascending : names.Pairwise fun n n' => compare n n' = .lt
  proper : ∀ n ∈ names, n.Proper

theorem granting_normalizeNames {names : List PropertyName} (hne : names ≠ [])
    (hproper : ∀ n ∈ names, n.Proper) : Granting (normalizeNames names) := by
  have hlists : Lists (normalizeNames names) (· ∈ names) := lists_normalizeNames fun n => Iff.rfl
  refine ⟨?_, hlists.ascending, fun n hn => hproper n ((hlists.mem_iff n).mp hn)⟩
  obtain ⟨n, hn⟩ := List.exists_mem_of_ne_nil names hne
  exact List.ne_nil_of_mem ((hlists.mem_iff n).mpr hn)

/-! ### Records -/

/-- The form of an asset: its lists are in order, nothing is in them twice, and its owner is none of
its reporters. -/
structure Asset.Regular (a : Asset) : Prop where
  id : a.id.Proper
  issuer : a.issuer.Proper
  owner : a.owner.Proper
  root : a.root.Proper
  properties : AscendingBy Property.name a.properties
  names : ∀ p ∈ a.properties, p.name.Proper
  materials : AscendingBy Material.component a.materials
  quantities : ∀ m ∈ a.materials, m.quantity ≠ 0
  components : ∀ m ∈ a.materials, m.component ≠ a.id
  reporters : AscendingBy Reporter.account a.reporters
  accounts : ∀ r ∈ a.reporters, r.account.Proper ∧ r.account ≠ a.owner
  grants : ∀ r ∈ a.reporters, Granting r.names

/-- The form of a stored offer: it is pending, it is not to its issuer, and it has names just if it
offers the role of a reporter. -/
structure Offer.Regular (o : Offer) : Prop where
  asset : o.asset.Proper
  issuer : o.issuer.Proper
  recipient : o.recipient.Proper
  other : o.issuer ≠ o.recipient
  status : o.status = .pending
  unnamed : o.role = .owner → o.names = []
  named : o.role = .reporter → Granting o.names

namespace Records

/-- Records in their form.  What was consumed exists, and an offer is on an asset that is not final
and not yet the recipient's. -/
structure Regular (σ : Records) : Prop where
  asset : ∀ {id a}, σ.asset? id = some a → a.Regular
  components : ∀ {id a}, σ.asset? id = some a → ∀ m ∈ a.materials, σ.asset? m.component ≠ none
  offer : ∀ {id recipient o}, σ.offer? id recipient = some o → o.Regular
  offered : ∀ {id recipient o}, σ.offer? id recipient = some o →
    ∃ a, σ.asset? id = some a ∧ a.isFinal = false ∧ a.owner ≠ recipient

end Records

/-! ### Checked envelopes -/

/-- The names of properties in a message. -/
def Message.named : Message → List PropertyName
  | createAsset _ _ _ _ _ properties | updateProperties _ properties => properties.map Property.name
  | createOffer _ _ _ names | revokeOffer _ _ names | createReporter _ _ names => names
  | _ => []

/-- What an envelope names is proper. -/
structure Envelope.Proper (e : Envelope) : Prop where
  sender : e.sender.Proper
  asset : e.message.asset.Proper
  counterparty : ∀ account, e.message.counterparty = some account → account.Proper
  names : ∀ n ∈ e.message.named, n.Proper

theorem proper_of_checkProperties {limits : Limits} {properties : List Property} {u : Unit}
    (h : checkProperties limits properties = .ok u) :
    ∀ n ∈ properties.map Property.name, n.Proper := by
  obtain ⟨_, -, h⟩ := Verdict.bind_eq_ok.mp h
  intro n hn
  obtain ⟨p, hp, rfl⟩ := List.mem_map.mp hn
  obtain ⟨_, hname, -⟩ := Verdict.bind_eq_ok.mp (Records.forM_eq_ok.mp h p hp)
  exact Ident.proper_of_checkSegment hname

theorem proper_of_checkNames {limits : Limits} {names : List PropertyName} {u : Unit}
    (h : checkNames limits names = .ok u) : ∀ n ∈ names, n.Proper := by
  obtain ⟨_, -, h⟩ := Verdict.bind_eq_ok.mp h
  exact fun n hn => Ident.proper_of_checkSegment (Records.forM_eq_ok.mp h n hn)

theorem Message.proper_of_checkBody {limits : Limits} {m : Message} {u : Unit}
    (h : m.checkBody limits = .ok u) : ∀ n ∈ m.named, n.Proper := by
  cases m with
  | createAsset id name quantity unit parent properties =>
    obtain ⟨_, -, h⟩ := Verdict.bind_eq_ok.mp h
    obtain ⟨_, -, h⟩ := Verdict.bind_eq_ok.mp h
    obtain ⟨_, -, h⟩ := Verdict.bind_eq_ok.mp h
    exact proper_of_checkProperties h
  | updateProperties id properties => exact proper_of_checkProperties h
  | createOffer id recipient role names => exact proper_of_checkNames h
  | revokeOffer id recipient names => exact proper_of_checkNames h
  | createReporter id reporter names => exact proper_of_checkNames h
  | _ => exact fun n hn => absurd hn List.not_mem_nil

/-- **What a checked envelope names is proper.** -/
theorem Envelope.proper_of_check {limits : Limits} {e : Envelope} {u : Unit}
    (h : e.check limits = .ok u) : e.Proper := by
  obtain ⟨⟨hsender, hasset, hcounterparty⟩, hbody⟩ := check_eq_ok.mp h
  exact ⟨Ident.proper_of_isSegment hsender, Ident.proper_of_isSegment hasset,
    fun account haccount => Ident.proper_of_isSegment (hcounterparty account haccount),
    Message.proper_of_checkBody hbody⟩

/-! ### Changes of one record -/

namespace Asset.Regular

variable {a : Asset}

theorem withQuantity (h : a.Regular) (quantity : Nat) :
    ({ a with quantity := quantity } : Asset).Regular := { h with }

theorem withReporters (h : a.Regular) {reporters : List Reporter}
    (hasc : AscendingBy Reporter.account reporters)
    (hmem : ∀ r ∈ reporters, r.account.Proper ∧ r.account ≠ a.owner ∧ Granting r.names) :
    ({ a with reporters := reporters } : Asset).Regular :=
  { h with
    reporters := hasc
    accounts := fun r hr => ⟨(hmem r hr).1, (hmem r hr).2.1⟩
    grants := fun r hr => (hmem r hr).2.2 }

theorem upsertReporter (h : a.Regular) {r : Reporter} (hproper : r.account.Proper)
    (hother : r.account ≠ a.owner) (hgrant : Granting r.names) : (a.upsertReporter r).Regular := by
  refine h.withReporters (h.reporters.upsertBy r) fun s hs => ?_
  rcases mem_of_mem_upsertBy hs with rfl | hs
  · exact ⟨hproper, hother, hgrant⟩
  · exact ⟨(h.accounts s hs).1, (h.accounts s hs).2, h.grants s hs⟩

theorem removeReporter (h : a.Regular) (account : AccountId) :
    (a.removeReporter account).Regular := by
  refine h.withReporters (h.reporters.sublist List.eraseP_sublist) fun s hs => ?_
  have hs := List.mem_of_mem_eraseP hs
  exact ⟨(h.accounts s hs).1, (h.accounts s hs).2, h.grants s hs⟩

theorem upsertProperties (h : a.Regular) {batch : List Property}
    (hnames : ∀ n ∈ batch.map Property.name, n.Proper) :
    ({ a with properties := Property.upsert a.properties batch } : Asset).Regular :=
  { h with
    properties := Property.upsert_ascending h.properties batch
    names := fun _ hp => (Property.mem_upsert hp).elim (h.names _) fun hp =>
      hnames _ (List.mem_map_of_mem hp) }

theorem mergeMaterials (h : a.Regular) {batch : List Material}
    (hother : ∀ m ∈ batch, m.component ≠ a.id) :
    ({ a with materials := Material.merge a.materials batch } : Asset).Regular := by
  refine { h with
    materials := Material.merge_ascending h.materials batch
    quantities := fun m hm => Material.quantity_ne_zero_of_mem_merge hm
    components := fun m hm => ?_ }
  rcases Material.mem_components_merge (List.mem_map_of_mem hm) with hc | hc
  · obtain ⟨m', hm', heq⟩ := List.mem_map.mp hc
    exact heq ▸ h.components m' hm'
  · obtain ⟨m', hm', heq⟩ := List.mem_map.mp hc
    exact heq ▸ hother m' hm'

end Asset.Regular

theorem Records.regular_freshAsset {id : AssetId} {sender : AccountId} {properties : List Property}
    (hid : id.Proper) (hsender : sender.Proper)
    (hnames : ∀ n ∈ properties.map Property.name, n.Proper) (name : String) (quantity : Nat)
    (unit : String) : (freshAsset id name quantity unit properties sender).Regular where
  id := hid
  issuer := hsender
  owner := hsender
  root := hid
  properties := Property.normalize_ascending properties
  names _ hp := hnames _ (List.mem_map_of_mem (Property.mem_normalize hp))
  materials := .nil
  quantities _ hm := absurd hm List.not_mem_nil
  components _ hm := absurd hm List.not_mem_nil
  reporters := .nil
  accounts _ hr := absurd hr List.not_mem_nil
  grants _ hr := absurd hr List.not_mem_nil

theorem Offer.regular_pending {id : AssetId} {issuer recipient : AccountId} {role : OfferRole}
    {names : List PropertyName} (hid : id.Proper) (hissuer : issuer.Proper)
    (hrecipient : recipient.Proper) (hother : recipient ≠ issuer)
    (hne : role = .reporter → names ≠ []) (hnames : ∀ n ∈ names, n.Proper) :
    (Offer.pending id issuer recipient role names).Regular where
  asset := hid
  issuer := hissuer
  recipient := hrecipient
  other := hother.symm
  status := rfl
  unnamed hrole := by
    obtain rfl : role = .owner := hrole
    rfl
  named hrole := by
    obtain rfl : role = .reporter := hrole
    exact granting_normalizeNames (hne rfl) hnames

theorem Offer.Regular.narrowed {o : Offer} (h : o.Regular) (hrole : o.role = .reporter)
    {keep : PropertyName → Bool} (hleft : o.names.filter keep ≠ []) :
    ({ o with names := o.names.filter keep } : Offer).Regular :=
  { h with
    unnamed := fun howner => by
      have howner : o.role = .owner := howner
      rw [h.unnamed howner, List.filter_nil]
    named := fun _ => ⟨hleft, (h.named hrole).ascending.filter keep, fun n hn =>
      (h.named hrole).proper n (List.mem_of_mem_filter hn)⟩ }

/-! ### Changes of the records -/

namespace Records

variable {σ σ' : Records}

theorem regular_empty : empty.Regular := ⟨nofun, nofun, nofun, nofun⟩

/-- Fewer offers. -/
theorem Regular.of_offers (h : σ.Regular) (hassets : ∀ id, σ'.asset? id = σ.asset? id)
    (hoffers : ∀ id recipient o, σ'.offer? id recipient = some o →
      σ.offer? id recipient = some o) : σ'.Regular where
  asset ha := h.asset ((hassets _).symm.trans ha)
  components ha m hm := by
    rw [hassets]
    exact h.components ((hassets _).symm.trans ha) m hm
  offer ho := h.offer (hoffers _ _ _ ho)
  offered ho := by
    obtain ⟨a, ha, hmutable, hother⟩ := h.offered (hoffers _ _ _ ho)
    exact ⟨a, (hassets _).trans ha, hmutable, hother⟩

theorem Regular.drop (h : σ.Regular) (id : AssetId) (recipient : AccountId) :
    (σ.drop id recipient).Regular := by
  refine h.of_offers (σ.asset?_drop id · recipient) fun id' recipient' o ho => ?_
  rw [offer?_drop] at ho
  exact (Option.ite_none_left_eq_some.mp ho).2

theorem Regular.dropAll (h : σ.Regular) (id : AssetId) : (σ.dropAll id).Regular := by
  refine h.of_offers (fun _ => rfl) fun id' recipient o ho => ?_
  rw [offer?_dropAll] at ho
  exact (Option.ite_none_left_eq_some.mp ho).2

theorem Regular.hold (h : σ.Regular) {o : Offer} (ho : o.Regular) {a : Asset}
    (ha : σ.asset? o.asset = some a) (hmutable : a.isFinal = false)
    (hother : a.owner ≠ o.recipient) : (σ.hold o).Regular where
  asset := h.asset
  components := h.components
  offer hget := by
    rw [offer?_hold] at hget
    split at hget
    · exact Option.some.inj hget ▸ ho
    · exact h.offer hget
  offered hget := by
    rw [offer?_hold] at hget
    split at hget
    · next heq =>
      obtain ⟨rfl, rfl⟩ := heq
      exact ⟨a, ha, hmutable, hother⟩
    · exact h.offered hget

/-- An asset stored anew or over an earlier one: the offers on it have to go with it. -/
theorem Regular.put (h : σ.Regular) {a : Asset} (ha : a.Regular)
    (hcomponents : ∀ m ∈ a.materials, σ.asset? m.component ≠ none)
    (hoffered : ∀ recipient o, σ.offer? a.id recipient = some o →
      a.isFinal = false ∧ a.owner ≠ recipient) : (σ.put a).Regular where
  asset hget := by
    rw [asset?_put] at hget
    split at hget
    · exact Option.some.inj hget ▸ ha
    · exact h.asset hget
  components hget m hm := by
    rw [asset?_put] at hget ⊢
    split
    · exact Option.some_ne_none a
    · split at hget
      · exact hcomponents m (Option.some.inj hget ▸ hm)
      · exact h.components hget m hm
  offer hget := h.offer hget
  offered {id recipient o} hget := by
    rw [asset?_put]
    split
    · next hid =>
      subst hid
      exact ⟨a, rfl, hoffered recipient o hget⟩
    · exact h.offered hget

/-- A new asset, on which nothing is offered yet. -/
theorem Regular.put_free (h : σ.Regular) {a : Asset} (ha : a.Regular)
    (hcomponents : ∀ m ∈ a.materials, σ.asset? m.component ≠ none)
    (hfree : σ.asset? a.id = none) : (σ.put a).Regular := by
  refine h.put ha hcomponents fun recipient o ho => ?_
  obtain ⟨b, hb, -⟩ := h.offered ho
  rw [hfree] at hb
  exact nomatch hb

/-- An asset stored over an earlier one with the same owner. -/
theorem Regular.put_over (h : σ.Regular) {a p : Asset} (ha : a.Regular)
    (hcomponents : ∀ m ∈ a.materials, σ.asset? m.component ≠ none)
    (hp : σ.asset? a.id = some p) (howner : a.owner = p.owner) (hfinal : a.isFinal = p.isFinal) :
    (σ.put a).Regular := by
  refine h.put ha hcomponents fun recipient o ho => ?_
  obtain ⟨b, hb, hmutable, hother⟩ := h.offered ho
  obtain rfl : p = b := Option.some.inj (hp.symm.trans hb)
  rw [howner, hfinal]
  exact ⟨hmutable, hother⟩

/-- An asset stored over an earlier one with the same owner and the same materials. -/
theorem Regular.put_like (h : σ.Regular) {a p : Asset} (ha : a.Regular)
    (hp : σ.asset? a.id = some p) (howner : a.owner = p.owner) (hfinal : a.isFinal = p.isFinal)
    (hmaterials : a.materials = p.materials) : (σ.put a).Regular := by
  refine h.put_over ha ?_ hp howner hfinal
  rw [hmaterials]
  exact h.components hp

theorem Regular.consume (h : σ.Regular) {t : Asset × Nat} (ht : σ.asset? t.1.id = some t.1) :
    (σ.consume t).Regular :=
  h.put_like (a := leftOf t) ((h.asset ht).withQuantity _) ht rfl rfl rfl

theorem Regular.foldl_consume {taken : List (Asset × Nat)} (h : σ.Regular)
    (ht : σ.Consumable taken) : (taken.foldl Records.consume σ).Regular := by
  induction taken generalizing σ with
  | nil => exact h
  | cons t rest ih => exact ih (h.consume (ht.stored t List.mem_cons_self)) ht.tail

theorem asset?_foldl_consume_ne_none {taken : List (Asset × Nat)} {id : AssetId}
    (h : σ.asset? id ≠ none) : (taken.foldl consume σ).asset? id ≠ none := by
  induction taken generalizing σ with
  | nil => exact h
  | cons t rest ih =>
    refine ih ?_
    rw [asset?_consume]
    split
    · exact Option.some_ne_none _
    · exact h

/-- Composing an asset of components that were taken from others. -/
theorem Regular.compose (h : σ.Regular) {id : AssetId} {sender : AccountId}
    {materials : List Material} {a : Asset} {taken : List (Asset × Nat)}
    (ha : σ.asset? id = some a) (hid : a.id = id)
    (htakes : σ.Takes id sender (Material.normalize materials) taken) :
    ((taken.foldl Records.consume σ).put
      { a with
        materials := Material.merge a.materials (Material.normalize materials) }).Regular := by
  -- a component is one of the assets that were taken from
  have htaken : ∀ {c}, c ∈ (Material.normalize materials).map Material.component →
      c ≠ id ∧ σ.asset? c ≠ none := fun hc => by
    obtain ⟨t, ht, rfl⟩ := List.mem_map.mp (htakes.mem_components.mp hc)
    obtain ⟨hstored, -, hother, -, -⟩ := htakes.takable t ht
    exact ⟨hother, hstored ▸ Option.some_ne_none _⟩
  have hother : ∀ m ∈ Material.normalize materials, m.component ≠ a.id := fun m hm =>
    hid ▸ (htaken (List.mem_map_of_mem hm)).1
  have hregular := (h.asset ha).mergeMaterials hother
  have hstored : (taken.foldl Records.consume σ).asset? id = some a :=
    htakes.asset?_consumer.trans ha
  refine (h.foldl_consume htakes.consumable).put_over hregular (fun m hm => ?_)
    ((congrArg _ hid).trans hstored) rfl rfl
  refine asset?_foldl_consume_ne_none ?_
  rcases Material.mem_components_merge (List.mem_map_of_mem hm) with hc | hc
  · obtain ⟨m', hm', heq⟩ := List.mem_map.mp hc
    exact heq ▸ h.components ha m' hm'
  · exact (htaken hc).2

/-- The recipient takes a role: the offer to it goes with the role. -/
theorem Regular.grant (h : σ.Regular) {sender : AccountId} {a : Asset} {o : Offer}
    (hsender : sender.Proper) (ha : σ.asset? a.id = some a) (ho : σ.offer? a.id sender = some o)
    (hmutable : a.isFinal = false) (now : UInt64) :
    ((σ.put (granted a sender o now)).drop a.id sender).Regular := by
  have hregular := h.asset ha
  have hcomponents := h.components ha
  cases hrole : o.role with
  | owner =>
    have hgranted : granted a sender o now = { a with owner := sender, reporters := [] } := by
      rw [granted, hrole]
    have howned : ({ a with owner := sender, reporters := [] } : Asset).Regular :=
      { hregular with
        owner := hsender
        reporters := .nil
        accounts := fun _ hr => absurd hr List.not_mem_nil
        grants := fun _ hr => absurd hr List.not_mem_nil }
    rw [hgranted]
    -- the offer to the new owner is dropped first, so none to the owner is left
    refine (h.drop a.id sender).put howned hcomponents fun recipient o' ho' => ?_
    rw [offer?_drop] at ho'
    obtain ⟨hne, -⟩ := Option.ite_none_left_eq_some.mp ho'
    exact ⟨hmutable, fun heq => hne ⟨rfl, heq.symm⟩⟩
  | reporter =>
    have hgranted : granted a sender o now =
        a.upsertReporter (Reporter.grant sender o.names now) := by
      rw [granted, hrole]
    obtain ⟨b, hb, -, hother⟩ := h.offered ho
    obtain rfl : a = b := Option.some.inj (ha.symm.trans hb)
    have hnames := (h.offer ho).named hrole
    have hreporter := hregular.upsertReporter (r := Reporter.grant sender o.names now) hsender
      (Ne.symm hother) (granting_normalizeNames hnames.nonempty hnames.proper)
    rw [hgranted]
    exact Regular.drop (h.put_like hreporter ha rfl rfl rfl) _ _

/-- **A step keeps the records regular.** -/
theorem Step.regular {sender : AccountId} {now : UInt64} {message : Message}
    (h : σ.Step sender now message σ') (hσ : σ.WellFormed) (hr : σ.Regular)
    (he : Envelope.Proper ⟨sender, now, message⟩) : σ'.Regular := by
  obtain ⟨hsender, hasset, hcounterparty, hnames⟩ := he
  cases h with
  | issue hfree =>
    exact hr.put_free (regular_freshAsset hasset hsender hnames _ _ _)
      (fun _ hm => absurd hm List.not_mem_nil) hfree
  | @split id name quantity unit parent _ p hfree hp hmutable howner hle =>
    have hleft := hr.consume (t := (p, quantity)) (hσ.asset?_id hp)
    have hfresh := regular_freshAsset hasset hsender hnames name quantity unit
    have hroot : p.root.Proper := (hr.asset hp).root
    have hchild : (splitFrom parent p.root
        (freshAsset id name quantity unit _ sender)).Regular := { hfresh with root := hroot }
    refine hleft.put_free hchild (fun _ hm => absurd hm List.not_mem_nil) ?_
    change (σ.consume (p, quantity)).asset? id = none
    rw [asset?_consume, if_neg, hfree]
    rintro rfl
    rw [hσ.asset?_id hp] at hfree
    exact nomatch hfree
  | @add _ amount a ha hmutable howner hamount =>
    have hstored := hσ.asset?_id ha
    exact hr.put_like ((hr.asset ha).withQuantity (a.quantity + amount)) hstored rfl rfl rfl
  | @subtract _ amount a ha hmutable howner hamount hle =>
    exact hr.consume (t := (a, amount)) (hσ.asset?_id ha)
  | compose ha hmutable howner hsome hpositive htakes => exact hr.compose ha (hσ.id_eq ha) htakes
  | @write _ _ a ha hmutable hsome hpermits =>
    have hstored := hσ.asset?_id ha
    exact hr.put_like ((hr.asset ha).upsertProperties hnames) hstored rfl rfl rfl
  | @freeze id a ha hmutable howner =>
    obtain rfl := hσ.id_eq ha
    have hcomponents := hr.components ha
    have hfrozen : ({ a with isFinal := true } : Asset).Regular := { hr.asset ha with }
    refine (hr.dropAll a.id).put hfrozen hcomponents fun recipient o ho => ?_
    rw [offer?_dropAll, if_pos rfl] at ho
    exact nomatch ho
  | @offer id recipient role names a ha hmutable howner hother hoffered =>
    refine hr.hold ?_ ha hmutable fun heq => hother (heq.symm.trans howner)
    exact Offer.regular_pending hasset hsender (hcounterparty _ rfl) hother hoffered hnames
  | decline ha hmutable ho hresponse hanswer => exact hr.drop _ _
  | @accept id a o ha hmutable ho howner =>
    obtain rfl := hσ.id_eq ha
    exact hr.grant hsender ha ho hmutable now
  | withdraw ha hmutable howner ho hrole hsome hleft => exact hr.drop _ _
  | @narrow id recipient names a o ha hmutable howner ho hrole hsome hleft =>
    obtain ⟨rfl, rfl⟩ := hσ.offer_eq ho
    obtain ⟨b, hb, hmutable', hother⟩ := hr.offered ho
    exact hr.hold ((hr.offer ho).narrowed hrole hleft) hb hmutable' hother
  | @appoint _ reporter names a ha hmutable howner hother hsome =>
    have hstored := hσ.asset?_id ha
    have hreporter := (hr.asset ha).upsertReporter (r := Reporter.grant reporter names now)
      (hcounterparty _ rfl) hother (granting_normalizeNames hsome hnames)
    exact hr.put_like hreporter hstored rfl rfl rfl
  | @dismiss _ reporter a _ ha hmutable howner hfound =>
    have hstored := hσ.asset?_id ha
    exact hr.put_like ((hr.asset ha).removeReporter reporter) hstored rfl rfl rfl

end Records

end Custody
