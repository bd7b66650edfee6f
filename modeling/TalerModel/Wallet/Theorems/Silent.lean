import TalerModel.Wallet.Theorems.Durable

namespace Taler

open EStateM

namespace CWallet

variable {κ : Type} {ctx : WalletContext κ} {node : NodeView} {txs : List CTransaction}
  {s s' s1 s2 s3 : CWallet κ} {hash h : Uint256} {ptx : CTransaction}

-- Memory and disk say the same about every transaction.
structure Durable (s : CWallet κ) : Prop where
  writable : s.database.Writable
  merkleTx : ∀ h, s.merkleTx h = s.database.merkleTx h

lemma Syncs.durable (hs : Syncs s s') (hd : Durable s) : Durable s' := by
  refine ⟨hs.writable hd.writable, fun h => ?_⟩
  cases hs.syncsAt hd.writable h
  case inl he => rw [he.1, he.2, hd.merkleTx]
  case inr he => exact he

section

def AbandonedAt (s : CWallet κ) (h : Uint256) : Prop :=
  ∀ m, s.merkleTx h = some m → m.isAbandoned

-- Some transactions may have been abandoned in memory, without a write.
structure Silences (hashes : Set Uint256) (s s' : CWallet κ) : Prop where
  merkleTx : ∀ h, s'.merkleTx h = s.merkleTx h ∨
    h ∈ hashes ∧ ∃ m, s'.merkleTx h = some m ∧ m.isAbandoned
  stable : ∀ h, AbandonedAt s h → s'.merkleTx h = s.merkleTx h
  spends : s'.mapTxSpends = s.mapTxSpends
  database : s'.database = s.database

variable {hashes : Set Uint256}

lemma Silences.refl (s : CWallet κ) : Silences hashes s s :=
  ⟨fun _ => .inl rfl, fun _ _ => rfl, rfl, rfl⟩

lemma Silences.trans (h1 : Silences hashes s1 s2) (h2 : Silences hashes s2 s3) :
    Silences hashes s1 s3 where
  merkleTx h := by
    cases h2.merkleTx h
    case inr he => exact .inr he
    case inl he =>
    rw [he]
    exact h1.merkleTx h
  stable h ha := by
    have he := h1.stable h ha
    rw [← he]
    refine h2.stable h fun m hm => ha m ?_
    rw [← he, hm]
  spends := h2.spends.trans h1.spends
  database := h2.database.trans h1.database

lemma Silences.merkleTx_eq (hs : Silences hashes s s') (ha : ∀ h ∈ hashes, AbandonedAt s h) :
    s'.merkleTx h = s.merkleTx h := by
  cases hs.merkleTx h
  case inl he => exact he
  case inr he => exact hs.stable h (ha h he.1)

lemma isAbandoned_iff {m : CMerkleTx} : m.isAbandoned ↔ m.hashBlock = ABANDON_HASH := by
  simp [CMerkleTx.isAbandoned]

lemma silences_setAbandoned (hm : Maps (at? hash CWalletTx.setAbandoned) s s')
    (hh : hash ∈ hashes) : Silences hashes s s' := by
  have hentry a : s'.merkleTx a = (s.merkleTx a).map fun m =>
      if a = hash then { m with hashBlock := ABANDON_HASH } else m := by
    rw [CWallet.merkleTx, CWallet.merkleTx, hm.entries, Option.map_map, Option.map_map]
    congr 1
    funext w
    simp only [Function.comp_apply, at?]
    split <;> rfl
  refine ⟨fun a => ?_, fun a ha => ?_, hm.spends, hm.database⟩
  · rw [hentry]
    by_cases he : a = hash
    case neg => exact .inl (by simp [he])
    cases hw : s.merkleTx a
    case none => exact .inl rfl
    case some m =>
    refine .inr ⟨he ▸ hh, { m with hashBlock := ABANDON_HASH }, ?_, isAbandoned_iff.mpr rfl⟩
    simp [he]
  rw [hentry]
  cases hw : s.merkleTx a
  case none => rfl
  rename_i m
  have hb := isAbandoned_iff.mp (ha m hw)
  rw [Option.map_some, Option.some.injEq]
  split
  · rw [← hb]
  · rfl

lemma silences_pool {f : Bool → Bool}
    (hm : Maps (at? hash fun wtx => { wtx with fInMempool := f wtx.fInMempool }) s s') :
    Silences hashes s s' := by
  have he a : s'.merkleTx a = s.merkleTx a := by
    refine hm.merkleTx fun w => ?_
    unfold at?
    split <;> rfl
  exact ⟨fun a => .inl (he a), fun a _ => he a, hm.spends, hm.database⟩

lemma modifyTx_leads (hr : ∀ s s', Maps (at? hash f) s s' → R s s') :
    Leads R (modifyTx hash f) := by
  intro s a s' h
  have ⟨_, _, he, hm⟩ := modifyTx_maps hash f s
  cases he.symm.trans h
  exact hr _ _ hm

lemma syncTransaction_silences (hh : ptx.getHash ∈ hashes) :
    Leads (Silences hashes) (syncTransaction ctx node ptx) :=
  modifyTx_leads fun _ _ hm => silences_setAbandoned hm hh

def hashesOf (txs : List CTransaction) : Set Uint256 :=
  { h | ∃ tx ∈ txs, tx.getHash = h }

lemma blockDisconnected_silences (vtx : List CTransaction) :
    Leads (Silences (hashesOf vtx)) (blockDisconnected ctx node vtx) :=
  .forM .refl .trans fun ptx hm => syncTransaction_silences ⟨ptx, hm, rfl⟩

def silenceTx (ctx : WalletContext κ) (node : NodeView) (ptx : CTransaction) : WalletM κ Unit := do
  syncTransaction ctx node ptx
  transactionRemovedFromMempool ptx

lemma silenceTxs_silences (vtxConflicted : List CTransaction) :
    Leads (Silences (hashesOf vtxConflicted)) (vtxConflicted.forM (silenceTx ctx node)) :=
  .forM .refl .trans fun ptx hm => .bind .trans (syncTransaction_silences ⟨ptx, hm, rfl⟩) fun _ =>
    modifyTx_leads fun _ _ hm => silences_pool (f := fun _ => false) hm

end

section

variable {e : COutPoint × Uint256}

lemma addToWallet_spends (h : addToWallet ctx node wtxIn s = .ok b s') (he : e ∈ s.mapTxSpends) :
    e ∈ s'.mapTxSpends := by
  cases addToWallet_spec h
  case inl h =>
    rw [h.2.1.spends]
    exact List.mem_append_left _ he
  case inr h =>
  have ⟨_, _, hm, _⟩ := h
  rwa [hm.spends]

lemma Move.spends (h : Move ctx node txs s s') (he : e ∈ s.mapTxSpends) : e ∈ s'.mapTxSpends := by
  cases h
  case mark hc => rwa [hc.spends]
  case keys => exact he
  case add h hm =>
    rw [hm.spends]
    exact addToWallet_spends h he
  case unwritten h => exact addToWallet_spends h he
  case pool hm => rwa [hm.spends]

lemma Moves.spends (h : Moves ctx node txs s s') (he : e ∈ s.mapTxSpends) :
    e ∈ s'.mapTxSpends := by
  induction h
  case refl => exact he
  case tail hm hi => exact hm.spends hi

-- What is known about a transaction that spends an outpoint has been written, or it is abandoned.
structure Waits (o : COutPoint) (h : Uint256) (s : CWallet κ) : Prop where
  writable : s.database.Writable
  spends : (o, h) ∈ s.mapTxSpends
  merkleTx : s.merkleTx h = s.database.merkleTx h ∨ ∃ m, s.merkleTx h = some m ∧ m.isAbandoned

structure Settled (h : Uint256) (s : CWallet κ) : Prop where
  writable : s.database.Writable
  merkleTx : s.merkleTx h = s.database.merkleTx h

variable {o : COutPoint} {hashBlock : Uint256}

lemma Moves.waits (hm : Moves ctx node txs s s') (hw : Waits o h s) : Waits o h s' := by
  refine ⟨hm.syncs.writable hw.writable, hm.spends hw.spends, ?_⟩
  cases hm.syncs.syncsAt hw.writable h
  case inl he =>
    rw [he.1, he.2]
    exact hw.merkleTx
  case inr he => exact .inl he

lemma Moves.settled (hm : Moves ctx node txs s s') (hs : Settled h s) : Settled h s' := by
  refine ⟨hm.syncs.writable hs.writable, ?_⟩
  cases hm.syncs.syncsAt hs.writable h
  case inl he => rw [he.1, he.2, hs.merkleTx]
  case inr he => exact he

lemma depth_of_isAbandoned {m : CMerkleTx} (ha : m.isAbandoned) :
    m.getDepthInMainChain node = 0 := by
  refine CMerkleTx.depth_of_not_atBlock ?_
  simp [CMerkleTx.atBlock, CMerkleTx.hashUnset, isAbandoned_iff.mp ha]

lemma visitConflicted_settles (ctx : WalletContext κ) {n : Int} (hn : n < 0) :
    Leads (fun s s' => Waits o h s → Settled h s')
      (visitConflicted node n hashBlock h : WalletM κ (List Uint256)) := by
  intro s next s' hv hw
  have hmoves : Moves ctx node [] s s' := visitConflicted_moves _ _ _ _ _ _ hv
  obtain ⟨wtx, s1, he, h1⟩ := bind_eq_ok.mp hv
  obtain ⟨hs, hwtx⟩ := entryAt_eq_ok.mp he
  rw [hs] at h1
  cases hw.merkleTx
  case inl hd => exact hmoves.settled ⟨hw.writable, hd⟩
  rename_i ha
  obtain ⟨m, hm, ha⟩ := ha
  have hmw : m = wtx.toCMerkleTx := by
    rw [CWallet.merkleTx, hwtx, Option.map_some, Option.some.injEq] at hm
    exact hm.symm
  -- An abandoned transaction has depth zero, so its status changes.
  rw [if_pos (by rw [← hmw, depth_of_isAbandoned ha]; exact hn)] at h1
  obtain ⟨_, _, he, _, hc⟩ :=
    changeStatus_spec h { wtx with hashBlock := hashBlock, nIndex := -1 } s
  cases he.symm.trans h1
  refine ⟨hmoves.syncs.writable hw.writable, ?_⟩
  rw [hc.database, hw.writable.write_merkleTx, if_pos rfl, CWallet.merkleTx, hc.entries, hwtx]
  simp only [Option.map_some, dirtyIn_merkleTx]
  rfl

lemma markConflicted_settles (ctx : WalletContext κ)
    (hc : node.contains (node.lookupBlockIndex hashBlock)) :
    Leads (fun s s' => Waits o h s → Settled h s')
      (markConflicted node hashBlock h : WalletM κ Unit) := by
  intro s u s' hrun hw
  have hneg := NodeView.confirmations_pos hc
  have hn : ¬(if node.contains (node.lookupBlockIndex hashBlock) = true then
      -node.confirmations (node.lookupBlockIndex hashBlock) else 0) ≥ 0 := by
    rw [if_pos hc]
    omega
  rw [markConflicted, if_neg hn] at hrun
  obtain ⟨_, s1, h1, h2⟩ := bind_eq_ok.mp (show (Worklist.run _ _ _ _ >>= _) s = _ from hrun)
  cases h2
  rw [Worklist.run_singleton] at h1
  obtain ⟨next, s2, hv, hrest⟩ := bind_eq_ok.mp h1
  have hmoves : Moves ctx node [] s2 s' :=
    Worklist.run_leads Moves.refl Moves.trans (visitConflicted_moves _ _) _ _ _ _ _ _ hrest
  exact hmoves.settled (visitConflicted_settles ctx (by omega) _ _ _ hv hw)

lemma mem_spendersOf : h ∈ s.spendersOf o ↔ (o, h) ∈ s.mapTxSpends := by
  simp [spendersOf]

lemma markConflicts_settles (ctx : WalletContext κ) {pindex : CBlockIndex} (hp : pindex ≠ [])
    (hc : node.contains (node.lookupBlockIndex pindex.getBlockHash)) (hin : txin ∈ ptx.vin)
    (hne : h ≠ ptx.getHash) :
    Leads (fun s s' => Waits txin.prevout h s → Settled h s')
      (markConflicts node ptx pindex : WalletM κ Unit) := by
  have hmark a : Leads (Moves ctx node [])
      (if a ≠ ptx.getHash then markConflicted node pindex.getBlockHash a else pure ()) := by
    split
    · exact markConflicted_moves _ _
    · exact .pure Moves.refl _
  have hround (txin' : CTxIn) : Leads (Moves ctx node []) (do
      ((← get).spendersOf txin'.prevout).forM fun a =>
        if a ≠ ptx.getHash then markConflicted node pindex.getBlockHash a else pure ()) :=
    .get_bind fun s => .forM Moves.refl Moves.trans fun a _ => hmark a
  rw [markConflicts, if_neg hp]
  refine Leads.forM_passes (fun txin' _ _ _ _ h hw => (hround txin' _ _ _ h).waits hw)
    (fun txin' _ _ _ _ h hs => (hround txin' _ _ _ h).settled hs) hin ?_
  intro s u s' hrun hw
  refine Leads.forM_passes
    (fun a _ _ _ _ h hw => (hmark a _ _ _ h).waits hw)
    (fun a _ _ _ _ h hs => (hmark a _ _ _ h).settled hs) (mem_spendersOf.mpr hw.spends) ?_
    s u s' hrun hw
  rw [if_pos hne]
  exact markConflicted_settles ctx hc

end

end CWallet

end Taler
