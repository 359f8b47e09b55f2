import Custody.Proofs.Ledger.Consistency
import Custody.Proofs.Records.Listing

/-!
# The registry is a map

Writes of the registry, in any order and of any storable assets, leave under each identifier the
asset that was written there last: a `put` replaces what there is, a `create` is refused where there
is something.  The assets need not be ones that messages lead to; from one write to the next,
owners, reporters and properties may change at will.  The reading of the registry and its two
indices say the same as that map, and no write to one identifier is seen under another.

The invariant is that the map of bytes shows some records whose assets are those of the map
(`Filed`).  It says nothing about offers and balances, which the registry does not write.

* `Registry.Write`, `Registry.filed`: writes, and the assets that they leave.
* `Ledger.Catalogue`: a store whose registry is a catalogue of a map.
* `Ledger.registry_faithful`: **the registry is a map**.
-/

namespace Custody

namespace Registry

/-- A write of the registry. -/
inductive Write where
  | create (a : Asset)
  | put (a : Asset)
  deriving DecidableEq

namespace Write

/-- The asset that is to be written. -/
def asset : Write → Asset
  | create a | put a => a

/-- The transaction of a write. -/
def txn : Write → Txn Unit
  | create a => Registry.create a
  | put a => Registry.put a

/-- What a write leaves under the identifier of its asset. -/
def leaves : Write → Option Asset → Asset
  | create a, previous => previous.getD a
  | put a, _ => a

/-- What a write leaves under each identifier. -/
def file (w : Write) (f : AssetId → Option Asset) : AssetId → Option Asset :=
  Function.update f w.asset.id (some (w.leaves (f w.asset.id)))

end Write

/-- The asset that writes to an empty registry leave under an identifier: the one that was written
there last. -/
def filed (ws : List Write) : AssetId → Option Asset :=
  ws.foldl (fun f w => w.file f) fun _ => none

/-- The store that writes lead to. -/
def writeAll (ws : List Write) (s : Store) : Store := ws.foldl (fun s w => (w.txn.run s).2) s

end Registry

namespace Ledger

open Records Registry

/-- A store whose registry holds the assets of a map, says so wherever it is read, and takes the
writes that it should take. -/
structure Catalogue (s : Store) (f : AssetId → Option Asset) (assets : List Asset) : Prop where
  registered : Registered s assets
  mem : ∀ a, a ∈ assets ↔ f a.id = some a
  get : ∀ id a, f id = some a → (Registry.get id).run s = .ok a
  missing : ∀ id, f id = none → (Registry.get id).run s = .error (.assetNotFound id)
  put : ∀ a, a.Storable → ((Registry.put a).run s).1 = .ok ()
  create : ∀ a, a.Storable → f a.id = none → ((Registry.create a).run s).1 = .ok ()
  duplicate : ∀ a, (f a.id).isSome → (Registry.create a).run s = (.error (.duplicateAsset a.id), s)
  ownedBy : ∀ owner, (Registry.ownedBy owner).run s =
    .ok ((assets.filter fun a => a.owner = owner).map Asset.id)
  reportedBy : ∀ account, (Registry.reportedBy account).run s =
    .ok ((assets.filter fun a => ∃ r ∈ a.reporters, r.account = account).map Asset.id)
  issues : Audit.indexIssues.run s = .ok []

/-- A map of bytes that shows records with the assets of a map. -/
def Filed (f : AssetId → Option Asset) (m : Contents) : Prop :=
  ∃ (σ : Records) (β : Balances), σ.Mirrors β m ∧ ∀ id, σ.asset? id = f id

variable {f : AssetId → Option Asset} {m : Contents}

theorem filed_empty : Filed (fun _ => none) ∅ :=
  ⟨.empty, _, pictured_empty.mirrors, fun _ => rfl⟩

/-- A write of a storable asset does to the map of bytes what it does to the map of assets. -/
theorem Filed.write (h : Filed f m) {w : Write} (hw : w.asset.Storable) :
    Filed (w.file f) (w.txn.exec m).2 := by
  obtain ⟨σ, β, hm, hf⟩ := h
  have hput : ∀ a id, (σ.put a).asset? id = Function.update f a.id (some a) id := by
    intro a id
    rw [asset?_put, Function.update_apply, hf]
  cases w with
  | put a =>
    obtain ⟨m', hexec, hm'⟩ := hm.put (a := a) hw
    exact ⟨σ.put a, β, by rwa [Write.txn, hexec], hput a⟩
  | create a =>
    cases ha : f a.id with
    | none =>
      obtain ⟨m', hexec, hm'⟩ := hm.create (a := a) hw ((hf a.id).trans ha)
      refine ⟨σ.put a, β, by rwa [Write.txn, hexec], fun id => ?_⟩
      rw [hput, Write.file, Write.asset, ha]
      rfl
    | some p =>
      -- The refused write leaves both as they are.
      have htaken : (σ.asset? a.id).isSome := by rw [hf, ha]; rfl
      refine ⟨σ, β, by rwa [Write.txn, hm.create_taken htaken], fun id => ?_⟩
      rw [Write.file, Write.asset, ha, Write.leaves, Option.getD_some, ← ha,
        Function.update_eq_self, hf]

/-- So do writes one after another. -/
theorem Filed.writeAll {ws : List Write} (hws : ∀ w ∈ ws, w.asset.Storable) (h : Filed f m) :
    ∃ m', Registry.writeAll ws (.ofContents m) = .ofContents m' ∧
      Filed (ws.foldl (fun f w => w.file f) f) m' := by
  induction ws generalizing f m with
  | nil => exact ⟨m, rfl, h⟩
  | cons w ws ih =>
    obtain ⟨hw, hws⟩ := List.forall_mem_cons.mp hws
    obtain ⟨m', hrun, hm'⟩ := ih hws (h.write hw)
    refine ⟨m', ?_, hm'⟩
    rw [Registry.writeAll, List.foldl_cons, Txn.run_ofContents]
    exact hrun

/-- A map of bytes that shows the assets of a map has a faithful registry of them. -/
theorem Filed.catalogue (h : Filed f m) : ∃ assets, Catalogue (.ofContents m) f assets := by
  obtain ⟨σ, β, hm, hf⟩ := h
  refine ⟨σ.allAssets, ?_⟩
  constructor
  case registered => exact registered_of_mirrors hm
  case mem =>
    intro a
    rw [mem_allAssets hm.wellFormed, hf]
  case get =>
    intro id a ha
    rw [run_query, hm.get, get_eq_ok, hf, ha]
  case missing =>
    intro id hnone
    rw [run_query, hm.get, Records.get, hf, hnone]
  case put =>
    intro a ha
    obtain ⟨m', hexec, -⟩ := hm.put ha
    rw [Txn.run_ofContents, hexec]
  case create =>
    intro a ha hfree
    obtain ⟨m', hexec, -⟩ := hm.create ha ((hf a.id).trans hfree)
    rw [Txn.run_ofContents, hexec]
  case duplicate =>
    intro a htaken
    rw [Txn.run_ofContents, hm.create_taken (by rwa [hf])]
  case ownedBy =>
    intro owner
    rw [run_query, hm.ownedBy, Records.ownedBy]
    rfl
  case reportedBy =>
    intro account
    rw [run_query, hm.reportedBy, Records.reportedBy]
    simp only [contains_reporterAccounts]
  case issues => rw [run_query, hm.indexIssues]

/-- **The registry is a map.**  After any writes of storable assets to the empty store, each
identifier has the asset that was last written under it and no other identifier has one; creating
an asset under a taken identifier is refused and changes nothing; all assets are listed once, in
order of identifiers, and the indices list those of each owner and of each reporter; an audit of the
indices finds nothing. -/
theorem registry_faithful (ws : List Write) (hws : ∀ w ∈ ws, w.asset.Storable) :
    ∃ assets, Catalogue (writeAll ws .empty) (filed ws) assets := by
  obtain ⟨m, hrun, hm⟩ := filed_empty.writeAll hws
  rw [Store.empty, hrun]
  exact hm.catalogue

/-- Two assets whose names begin alike: one changes its owner, its reporters and its properties, the
other is not made again. -/
def rewrites : List Write :=
  [.create { Asset.fresh ⟨"te"⟩ "Te" ⟨"ann"⟩ 5 "kg" with
      properties := [⟨⟨"grade"⟩, .label "A"⟩, ⟨⟨"lot"⟩, .number 7⟩]
      reporters := [⟨⟨"lab"⟩, [⟨"lot"⟩], 1⟩, ⟨⟨"bo"⟩, [], 1⟩, ⟨⟨"lab"⟩, [], 2⟩] },
    .put { Asset.fresh ⟨"tea"⟩ "Tea" ⟨"ann"⟩ 9 "kg" with
      properties := [⟨⟨"lot"⟩, .number 8⟩]
      reporters := [⟨⟨"lab"⟩, [], 3⟩] },
    .put { Asset.fresh ⟨"te"⟩ "Te" ⟨"an"⟩ 3 "kg" with
      properties := [⟨⟨"lot"⟩, .boolean true⟩, ⟨⟨"lots"⟩, .string "two"⟩]
      reporters := [⟨⟨"bo"⟩, [], 4⟩] },
    .create (Asset.fresh ⟨"tea"⟩ "Other" ⟨"an"⟩ 1 "kg")]

theorem registry_faithful_of_rewrites :
    (∃ assets, Catalogue (writeAll rewrites .empty) (filed rewrites) assets) ∧
    (filed rewrites ⟨"tea"⟩).map Asset.name = some "Tea" ∧
    (Registry.ownedBy ⟨"ann"⟩).run (writeAll rewrites .empty) = .ok [⟨"tea"⟩] ∧
    (Registry.reportedBy ⟨"bo"⟩).run (writeAll rewrites .empty) = .ok [⟨"te"⟩] ∧
    (Registry.property? ⟨"te"⟩ ⟨"grade"⟩).run (writeAll rewrites .empty) = .ok none := by
  have hstorable : ∀ w ∈ rewrites, w.asset.Storable := by decide +kernel
  exact ⟨registry_faithful rewrites hstorable, by decide +kernel, by decide +kernel,
    by decide +kernel, by decide +kernel⟩

end Ledger

end Custody
