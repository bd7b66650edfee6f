import TalerModel.Wallet.Theorems.Moves
import TalerModel.Wallet.Theorems.Status

namespace Taler

open EStateM CWallet

def TxValue.merkleTx : TxValue → Option CMerkleTx
  | .unreadable => none
  | .record r _ => some r.toCMerkleTx

namespace WalletDatabase

variable {database : WalletDatabase} {hash h : Uint256} {r : TxRecord}

def merkleTx (database : WalletDatabase) (h : Uint256) : Option CMerkleTx :=
  database.txs[h]?.bind TxValue.merkleTx

def Writable (database : WalletDatabase) : Prop :=
  ∀ n, database.outcomes n

lemma Writable.write (hw : database.Writable) : (database.write hash r).Writable :=
  fun n => hw (n + 1)

lemma Writable.write_merkleTx (hw : database.Writable) :
    (database.write hash r).merkleTx h =
      if h = hash then some r.toCMerkleTx else database.merkleTx h := by
  simp only [merkleTx, WalletDatabase.write, hw 0, if_true, OrderedMap.getElem?_insert]
  split <;> rfl

end WalletDatabase

namespace CWallet

variable {κ : Type} {ctx : WalletContext κ} {node : NodeView} {txs : List CTransaction}
  {s s' s1 s2 s3 : CWallet κ} {hash h : Uint256} {ptx : CTransaction}

def merkleTx (s : CWallet κ) (h : Uint256) : Option CMerkleTx :=
  s.mapWallet[h]?.map (·.toCMerkleTx)

section

-- What is known about a transaction is left as it is, or is the same in memory and on disk.
def SyncsAt (h : Uint256) (s s' : CWallet κ) : Prop :=
  (s'.merkleTx h = s.merkleTx h ∧ s'.database.merkleTx h = s.database.merkleTx h) ∨
    s'.merkleTx h = s'.database.merkleTx h

structure Syncs (s s' : CWallet κ) : Prop where
  writable : s.database.Writable → s'.database.Writable
  syncsAt : s.database.Writable → ∀ h, SyncsAt h s s'

lemma Syncs.refl (s : CWallet κ) : Syncs s s :=
  ⟨id, fun _ _ => .inl ⟨rfl, rfl⟩⟩

lemma SyncsAt.trans (h1 : SyncsAt h s1 s2) (h2 : SyncsAt h s2 s3) : SyncsAt h s1 s3 := by
  cases h2
  case inr h2 => exact .inr h2
  rename_i h2
  cases h1
  case inl h1 => exact .inl ⟨h2.1.trans h1.1, h2.2.trans h1.2⟩
  case inr h1 => exact .inr (h2.1.trans (h1.trans h2.2.symm))

lemma Syncs.trans (h1 : Syncs s1 s2) (h2 : Syncs s2 s3) : Syncs s1 s3 where
  writable hw := h2.writable (h1.writable hw)
  syncsAt hw a := (h1.syncsAt hw a).trans (h2.syncsAt (h1.writable hw) a)

lemma syncs_of_eq (hm : ∀ h, s'.merkleTx h = s.merkleTx h) (hd : s'.database = s.database) :
    Syncs s s' :=
  ⟨fun hw => hd ▸ hw, fun _ a => .inl ⟨hm a, by rw [hd]⟩⟩

lemma syncs_of_write (hm : ∀ h ≠ hash, s'.merkleTx h = s.merkleTx h)
    (hr : s'.merkleTx hash = some r.toCMerkleTx) (hd : s'.database = s.database.write hash r) :
    Syncs s s' := by
  refine ⟨fun hw => hd ▸ hw.write, fun hw a => ?_⟩
  rw [SyncsAt, hd, hw.write_merkleTx]
  by_cases ha : a = hash
  · exact .inr (by rw [ha, if_pos rfl, hr])
  · exact .inl ⟨hm a ha, if_neg ha⟩

lemma Maps.merkleTx (hm : Maps g s s') (hg : ∀ w, (g h w).toCMerkleTx = w.toCMerkleTx) :
    s'.merkleTx h = s.merkleTx h := by
  rw [CWallet.merkleTx, CWallet.merkleTx, hm.entries, Option.map_map]
  cases s.mapWallet[h]?
  case none => rfl
  case some w => exact congrArg some (hg w)

lemma Maps.syncs (hm : Maps g s s') (hg : ∀ h w, (g h w).toCMerkleTx = w.toCMerkleTx) :
    Syncs s s' :=
  syncs_of_eq (fun h => hm.merkleTx (hg h)) hm.database

lemma dirtyIn_merkleTx (hashes) (h : Uint256) (w) :
    (dirtyIn hashes h w).toCMerkleTx = w.toCMerkleTx := by
  unfold dirtyIn
  split <;> rfl

lemma Changes.syncs (hm : hash ∈ s.mapWallet) (hc : Changes hash wtx s s') : Syncs s s' := by
  have hentry a : s'.merkleTx a =
      s.mapWallet[a]?.map fun w => (if a = hash then wtx else w).toCMerkleTx := by
    rw [merkleTx, hc.entries, Option.map_map]
    congr 1
    funext w
    simp only [Function.comp_apply, dirtyIn_merkleTx]
    split <;> rfl
  refine syncs_of_write (fun a ha => ?_) ?_ hc.database
  · rw [hentry]
    simp only [if_neg ha]
    rfl
  have ⟨w, hw⟩ := OrderedMap.mem_iff.mp hm
  rw [hentry, hw]
  simp

lemma merkleTx_of_core (he : s'.mapWallet[h]?.map CWalletTx.core = s.mapWallet[h]?.map CWalletTx.core) :
    s'.merkleTx h = s.merkleTx h := by
  have hm := congrArg (Option.map fun w : CWalletTx => w.toCMerkleTx) he
  simp only [Option.map_map] at hm
  exact hm

lemma addToWallet_syncs (h : addToWallet ctx node wtxIn s = .ok b s') : Syncs s s' := by
  cases addToWallet_spec h
  case inl h =>
    obtain ⟨_, hins, _, r, hr, hd⟩ := h
    refine syncs_of_write (fun a ha => merkleTx_of_core (hins.entries a ha)) ?_ hd
    have hm := congrArg (Option.map fun w : CWalletTx => w.toCMerkleTx) hins.entry
    rw [Option.map_map] at hm
    exact hm.trans (congrArg some hr.symm)
  rename_i h
  obtain ⟨wtx, hw, hm, _⟩ := h
  have hother a (ha : a ≠ wtxIn.getHash) : s'.merkleTx a = s.merkleTx a := by
    rw [merkleTx, merkleTx, hm.entries]
    cases s.mapWallet[a]?
    case none => rfl
    case some w => simp [at?, ha]
  have hself : s'.merkleTx wtxIn.getHash = some (wtxIn.merge wtx.markDirty).1.toCMerkleTx := by
    rw [merkleTx, hm.entries, hw]
    simp [at?]
  cases hu : (wtxIn.merge wtx.markDirty).2
  case true =>
    have hd := hm.database
    rw [hu, if_pos rfl] at hd
    exact syncs_of_write hother hself hd
  have hd := hm.database
  rw [hu, if_neg Bool.false_ne_true] at hd
  refine syncs_of_eq (fun a => ?_) hd
  by_cases ha : a = wtxIn.getHash
  case neg => exact hother a ha
  case pos =>
  rw [ha, hself, merge_unchanged hu, merkleTx, hw]
  rfl

lemma Move.syncs (h : Move ctx node txs s s') : Syncs s s' := by
  cases h
  case mark hw hc => exact hc.syncs (OrderedMap.mem_iff.mpr ⟨_, hw⟩)
  case keys => exact syncs_of_eq (fun _ => rfl) rfl
  case add h hm => exact (addToWallet_syncs h).trans (hm.syncs (dirtyIn_merkleTx _))
  case unwritten h => exact addToWallet_syncs h
  case pool hm =>
  refine hm.syncs fun h w => ?_
  unfold at?
  split <;> rfl

lemma Moves.syncs (h : Moves ctx node txs s s') : Syncs s s' := by
  induction h
  case refl => exact .refl s
  case tail hm hi => exact hi.trans hm.syncs

end

end CWallet

end Taler
