import TalerModel.Wallet.Theorems.Moves

namespace Taler

open EStateM Option

-- What the hash of a transaction stands for: the outpoints it spends, and its outputs.
abbrev TxContent := Uint256 → List COutPoint × List CTxOut

def CTransaction.outpoints (tx : CTransaction) : List COutPoint :=
  tx.vin.map (·.prevout)

def CTransaction.HasContent (content : TxContent) (tx : CTransaction) : Prop :=
  content tx.getHash = (tx.outpoints, tx.vout)

namespace CWallet

variable {κ : Type} {ctx : WalletContext κ} {node : NodeView} {txs : List CTransaction}
  {s s' : CWallet κ} {hash h : Uint256} {content : TxContent}

def spentBy (content : TxContent) (hash : Uint256) : List COutPoint :=
  match (content hash).1 with
  | [o] => if o.isNull then [] else [o]
  | os => os

lemma spendsOf_eq (hc : tx.HasContent content) :
    spendsOf tx tx.getHash = (spentBy content tx.getHash).map (·, tx.getHash) := by
  have hp := congrArg Prod.fst hc
  unfold spendsOf spentBy
  rw [hp]
  unfold CTransaction.isCoinBase CTransaction.outpoints
  match tx.vin with
  | [] => rfl
  | [txin] =>
    by_cases hn : txin.prevout.isNull
    · simp [hn]
    · simp [hn]
  | _ :: _ :: _ => simp

-- Every transaction is kept under its hash. What the transactions spend is noted, and nothing else.
structure Indexed (content : TxContent) (s : CWallet κ) : Prop where
  keyed : ∀ {h : Uint256} {w}, s.mapWallet[h]? = some w → w.getHash = h ∧ w.tx.HasContent content
  spends : ∀ e, e ∈ s.mapTxSpends ↔ e.2 ∈ s.mapWallet ∧ e.1 ∈ spentBy content e.2

lemma Indexed.of_same (hi : Indexed content s)
    (hm : ∀ h : Uint256, h ∈ s'.mapWallet ↔ h ∈ s.mapWallet)
    (ht : ∀ {h : Uint256} {w'}, s'.mapWallet[h]? = some w' → ∃ w, s.mapWallet[h]? = some w ∧
      (w'.tx = w.tx ∨ w'.getHash = h ∧ w'.tx.HasContent content))
    (hs : s'.mapTxSpends = s.mapTxSpends) : Indexed content s' := by
  refine ⟨fun {h w'} hw' => ?_, fun e => ?_⟩
  · have ⟨w, hw, he⟩ := ht hw'
    cases he
    case inl he =>
      have hk := hi.keyed hw
      simp only [CMerkleTx.getHash, he] at hk ⊢
      exact hk
    case inr he => exact he
  rw [hs, hm]
  exact hi.spends e

lemma Maps.mem (hm : Maps g s s') (h : Uint256) : h ∈ s'.mapWallet ↔ h ∈ s.mapWallet :=
  OrderedMap.mem_of_map (hm.entries h)

lemma Maps.indexed (hm : Maps g s s') (hg : ∀ h w, (g h w).tx = w.tx) (hi : Indexed content s) :
    Indexed content s' := by
  refine hi.of_same hm.mem (fun {h w'} hw' => ?_) hm.spends
  rw [hm.entries] at hw'
  have ⟨w, hw, he⟩ := map_eq_some_iff.mp hw'
  exact ⟨w, hw, .inl (he ▸ hg h w)⟩

lemma dirtyIn_tx (hashes) (h : Uint256) (w) : (dirtyIn hashes h w).tx = w.tx := by
  unfold dirtyIn
  split <;> rfl

lemma Changes.indexed (hw : s.mapWallet[hash]? = some w)
    (hc : Changes hash { w with hashBlock := b, nIndex := -1 } s s') (hi : Indexed content s) :
    Indexed content s' := by
  refine hi.of_same (fun a => OrderedMap.mem_of_map (hc.entries a)) (fun {a w'} hw' => ?_) hc.spends
  rw [hc.entries] at hw'
  have ⟨w0, hw0, he⟩ := map_eq_some_iff.mp hw'
  refine ⟨w0, hw0, .inl ?_⟩
  rw [← he, dirtyIn_tx]
  split
  case isTrue ha =>
    rw [ha, hw] at hw0
    cases hw0
    rfl
  · rfl

lemma merge_content {wtxIn w : CWalletTx} (hin : wtxIn.tx.HasContent content)
    (hw : w.getHash = wtxIn.getHash ∧ w.tx.HasContent content) :
    (wtxIn.merge w).1.getHash = wtxIn.getHash ∧ (wtxIn.merge w).1.tx.HasContent content := by
  refine merge_preserves (P := fun w => w.getHash = wtxIn.getHash ∧ w.tx.HasContent content) hw
    ?_ ?_ ?_ ?_
  · exact fun _ h => h
  · exact fun _ h => h
  · exact fun _ h => h
  · exact fun _ _ => ⟨rfl, hin⟩

lemma mem_of_core
    (he : s'.mapWallet[h]?.map CWalletTx.core = s.mapWallet[h]?.map CWalletTx.core) :
    h ∈ s'.mapWallet ↔ h ∈ s.mapWallet := by
  have hs := congrArg isSome he
  simp only [isSome_map] at hs
  rw [Std.TreeMap.mem_iff_isSome_getElem?, Std.TreeMap.mem_iff_isSome_getElem?, hs]

lemma Inserts.mem (hins : Inserts node wtxIn s s') (a) :
    a ∈ s'.mapWallet ↔ a = wtxIn.getHash ∨ a ∈ s.mapWallet := by
  by_cases ha : a = wtxIn.getHash
  · have ⟨w, hw, _⟩ := map_eq_some_iff.mp hins.entry
    exact iff_of_true (OrderedMap.mem_iff.mpr ⟨w, ha ▸ hw⟩) (.inl ha)
  rw [mem_of_core (hins.entries a ha)]
  exact ⟨.inr, fun h => h.resolve_left ha⟩

lemma Inserts.tx (hins : Inserts node wtxIn s s') (hw' : s'.mapWallet[a]? = some w') :
    (a = wtxIn.getHash ∧ w'.tx = wtxIn.tx) ∨ ∃ w, s.mapWallet[a]? = some w ∧ w'.tx = w.tx := by
  by_cases ha : a = wtxIn.getHash
  · have he := hins.entry
    rw [← ha, hw', map_some, some.injEq] at he
    have ht := congrArg (fun w : CWalletTx => w.tx) he
    exact .inl ⟨ha, ht⟩
  have he := hins.entries a ha
  rw [hw', map_some] at he
  have ⟨w, hw, hc⟩ := map_eq_some_iff.mp he.symm
  have ht := congrArg (fun w : CWalletTx => w.tx) hc
  exact .inr ⟨w, hw, ht.symm⟩

lemma Indexed.added (hi : Indexed content s) (hc : tx.HasContent content)
    (hmem : ∀ a, a ∈ s'.mapWallet ↔ a = tx.getHash ∨ a ∈ s.mapWallet)
    (hkeyed : ∀ {a : Uint256} {w}, s'.mapWallet[a]? = some w → w.getHash = a ∧ w.tx.HasContent content)
    (hs : s'.mapTxSpends = s.mapTxSpends ++ spendsOf tx tx.getHash) : Indexed content s' := by
  refine ⟨hkeyed, fun e => ?_⟩
  rw [hs, List.mem_append, hi.spends, hmem, spendsOf_eq hc, List.mem_map]
  constructor
  · rintro (⟨hm, ho⟩ | ⟨o, ho, rfl⟩)
    · exact ⟨.inr hm, ho⟩
    · exact ⟨.inl rfl, ho⟩
  rintro ⟨he | hm, ho⟩
  · exact .inr ⟨e.1, he ▸ ho, by rw [← he]⟩
  · exact .inl ⟨hm, ho⟩

section

variable {wtxIn : CWalletTx} (hin : wtxIn.tx.HasContent content)
include hin

lemma Inserts.indexed (hins : Inserts node wtxIn s s') (hi : Indexed content s) :
    Indexed content s' := by
  refine hi.added hin hins.mem (fun {a w'} hw' => ?_) hins.spends
  cases hins.tx hw'
  case inl hc => exact ⟨by simp [CMerkleTx.getHash, hc.2, hc.1], hc.2 ▸ hin⟩
  rename_i hc
  have ⟨w, hw, ht⟩ := hc
  have hk := hi.keyed hw
  simp only [CMerkleTx.getHash, ht] at hk ⊢
  exact hk

lemma Merges.indexed {wtx : CWalletTx} (hw : s.mapWallet[wtxIn.getHash]? = some wtx)
    (hm : Merges wtxIn wtx s s') (hi : Indexed content s) : Indexed content s' := by
  refine hi.of_same (fun a => OrderedMap.mem_of_map (hm.entries a)) (fun {a w'} hw' => ?_) hm.spends
  rw [hm.entries] at hw'
  have ⟨w, hw0, he⟩ := map_eq_some_iff.mp hw'
  refine ⟨w, hw0, ?_⟩
  unfold at? at he
  split at he
  case isTrue ha =>
    have hk := hi.keyed hw
    have hc := merge_content (w := wtx.markDirty) hin hk
    exact .inr (he ▸ ha ▸ hc)
  · exact .inl (by rw [he])

lemma addToWallet_indexed (h : addToWallet ctx node wtxIn s = .ok b s') (hi : Indexed content s) :
    Indexed content s' := by
  cases addToWallet_spec h
  case inl h => exact h.2.1.indexed hin hi
  case inr h =>
  have ⟨_, hw, hm, _⟩ := h
  exact hm.indexed hin hw hi

end

lemma Move.indexed (htxs : ∀ tx ∈ txs, tx.HasContent content) (h : Move ctx node txs s s')
    (hi : Indexed content s) : Indexed content s' := by
  cases h
  case mark hw hc => exact hc.indexed hw hi
  case keys => exact ⟨hi.keyed, hi.spends⟩
  case add hin h hm => exact hm.indexed (dirtyIn_tx _) (addToWallet_indexed (htxs _ hin) h hi)
  case unwritten hin h => exact addToWallet_indexed (htxs _ hin) h hi
  case pool hm =>
  refine hm.indexed (fun h w => ?_) hi
  unfold at?
  split <;> rfl

lemma Moves.indexed (htxs : ∀ tx ∈ txs, tx.HasContent content) (h : Moves ctx node txs s s')
    (hi : Indexed content s) : Indexed content s' := by
  induction h
  case refl => exact hi
  case tail hm hi => exact hm.indexed htxs hi

end CWallet

end Taler
