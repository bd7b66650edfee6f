import TalerModel.Wallet.Theorems.CleanUp

namespace Taler

open EStateM

-- Storing an amount changes no more than what marking a transaction as dirty clears.
def Cache.Lawful (c : Cache) : Prop :=
  ∀ n w, (c.store n w).markDirty = w.markDirty

namespace CWallet

variable {κ : Type} {ctx : WalletContext κ} {node : NodeView} {s s' s1 s2 s3 : CWallet κ}
  {hash h : Uint256} {content : TxContent}

section

def Recached (s s' : CWallet κ) : Prop :=
  ∃ g, Maps g s s' ∧ ∀ h w, (g h w).markDirty = w.markDirty

lemma Recached.refl (s : CWallet κ) : Recached s s :=
  ⟨_, .refl s, fun _ _ => rfl⟩

lemma Recached.trans (h1 : Recached s1 s2) (h2 : Recached s2 s3) : Recached s1 s3 := by
  have ⟨g1, hm1, hg1⟩ := h1
  have ⟨g2, hm2, hg2⟩ := h2
  exact ⟨_, hm1.trans hm2, fun h w => (hg2 h (g1 h w)).trans (hg1 h w)⟩

variable (hash : Uint256)

lemma entryAt_recached (e : WalletError) : Leads Recached (entryAt hash e : WalletM κ CWalletTx) :=
  fun s _ _ h => (entryAt_eq_ok.mp h).1 ▸ .refl s

lemma lift_recached (x : Except WalletError α) : Leads Recached (lift x : WalletM κ α) :=
  fun s _ _ h => (lift_eq_ok h).1 ▸ .refl s

lemma cached_recached (hc : c.Lawful)
    (compute : CWallet κ → CTransaction → Except WalletError CAmount) (hash) :
    Leads Recached (cached c compute hash) := by
  refine .bind .trans (entryAt_recached _ _) fun wtx => ?_
  cases c.read wtx
  case some n => exact .pure .refl n
  refine .get_bind fun s => .bind .trans (lift_recached _) fun n => ?_
  refine .bind .trans (modifyTx_leads fun s s' hm => ⟨_, hm, fun h w => ?_⟩) fun _ =>
    .pure .refl n
  unfold at?
  split
  · exact hc n w
  · rfl

lemma amountIf_recached (h : Leads Recached x) : Leads Recached (amountIf c x) := by
  unfold amountIf
  split
  · exact h
  · exact .pure .refl _

lemma getTxDebit_recached (filter : IsMineFilter) :
    Leads Recached (getTxDebit ctx hash filter) := by
  refine .bind .trans (entryAt_recached _ _) fun wtx => ?_
  split
  · exact .pure .refl _
  refine .bind .trans (amountIf_recached (cached_recached (fun _ _ => rfl) _ _)) fun debit => ?_
  refine .bind .trans (amountIf_recached (cached_recached (fun _ _ => rfl) _ _)) fun watch => ?_
  exact .pure .refl _

lemma getAvailableCredit_recached (filter : IsMineFilter) :
    Leads Recached (getAvailableCredit ctx node hash filter) := by
  refine .bind .trans (entryAt_recached _ _) fun wtx => ?_
  refine .bind .trans (lift_recached _) fun immature => ?_
  split
  · exact .pure .refl _
  split
  · exact cached_recached (fun _ _ => rfl) _ _
  split
  · exact cached_recached (fun _ _ => rfl) _ _
  · exact .get_bind fun s => lift_recached _

lemma getImmature_recached (hc : c.Lawful) (filter : IsMineFilter) (hash) :
    Leads Recached (getImmature ctx node c filter hash) := by
  refine .bind .trans (entryAt_recached _ _) fun wtx => ?_
  refine .bind .trans (lift_recached _) fun immature => ?_
  split
  · exact cached_recached hc _ _
  · exact .pure .refl _

lemma isTrusted_recached : Leads Recached (isTrusted ctx node hash) := by
  refine .bind .trans (entryAt_recached _ _) fun wtx => ?_
  dsimp only
  split
  · exact .pure .refl _
  split
  · exact .pure .refl _
  split
  · exact .pure .refl _
  split
  · exact .pure .refl _
  refine .bind .trans (getTxDebit_recached _ _) fun debit => ?_
  split
  · exact .pure .refl _
  split
  · exact .pure .refl _
  exact .get_bind fun s => lift_recached _

lemma addBalance_recached (min_depth ret) (hash : Uint256) :
    Leads Recached (addBalance ctx node min_depth ret hash) := by
  have hav filter : Leads Recached (getAvailableCredit ctx node hash filter) :=
    getAvailableCredit_recached hash filter
  refine .bind .trans (isTrusted_recached _) fun trusted => ?_
  refine .bind .trans (entryAt_recached _ _) fun pcoin => ?_
  refine .bind .trans (amountIf_recached (hav _)) fun total => ?_
  refine .bind .trans (amountIf_recached (hav _)) fun unconfirmed => ?_
  refine .bind .trans (getImmature_recached (fun _ _ => rfl) _ _) fun immature => ?_
  refine .bind .trans (amountIf_recached (hav _)) fun totalWatch => ?_
  refine .bind .trans (amountIf_recached (hav _)) fun unconfirmedWatch => ?_
  exact .bind .trans (getImmature_recached (fun _ _ => rfl) _ _) fun immatureWatch => .pure .refl _

lemma getBalance_recached (min_depth : Int) : Leads Recached (getBalance ctx node min_depth) :=
  .get_bind fun _ => .foldlM .refl .trans (fun _ _ _ => addBalance_recached _ _ _) _

lemma merkleTx_of_markDirty {w w' : CWalletTx} (h : w'.markDirty = w.markDirty) :
    w'.toCMerkleTx = w.toCMerkleTx := by
  have ht := congrArg (fun w : CWalletTx => w.toCMerkleTx) h
  exact ht

lemma Recached.syncs (h : Recached s s') : Syncs s s' := by
  have ⟨g, hm, hg⟩ := h
  exact hm.syncs fun h w => merkleTx_of_markDirty (hg h w)

lemma Recached.indexed (h : Recached s s') (hi : Indexed content s) : Indexed content s' := by
  have ⟨g, hm, hg⟩ := h
  exact hm.indexed (fun h w => congrArg CMerkleTx.tx (merkleTx_of_markDirty (hg h w))) hi

lemma markDirty_recached : Leads Recached (modifyTx hash CWalletTx.markDirty : WalletM κ Unit) := by
  refine modifyTx_leads fun s s' hm => ⟨_, hm, fun h w => ?_⟩
  unfold at?
  split <;> rfl

end

section

-- What a call leaves of the status of the transactions, and of what they are known to spend.
structure Carries (content : TxContent) (s s' : CWallet κ) : Prop where
  syncs : Syncs s s'
  indexed : Indexed content s → Indexed content s'

lemma Carries.refl (s : CWallet κ) : Carries content s s :=
  ⟨.refl s, id⟩

lemma Carries.trans (h1 : Carries content s1 s2) (h2 : Carries content s2 s3) :
    Carries content s1 s3 :=
  ⟨h1.syncs.trans h2.syncs, h2.indexed ∘ h1.indexed⟩

lemma Recached.carries (h : Recached s s') : Carries content s s' :=
  ⟨h.syncs, h.indexed⟩

lemma Moves.carries (htxs : ∀ tx ∈ txs, tx.HasContent content) (h : Moves ctx node txs s s') :
    Carries content s s' :=
  ⟨h.syncs, h.indexed htxs⟩

lemma addToWallet_carries (hin : wtxIn.tx.HasContent content) :
    Leads (Carries content) (addToWallet ctx node wtxIn) :=
  fun _ _ _ h => ⟨addToWallet_syncs h, addToWallet_indexed hin h⟩

lemma pool_carries (hash) (f : Bool → Bool) : Leads (Carries content)
    (modifyTx hash fun wtx => { wtx with fInMempool := f wtx.fInMempool } : WalletM κ Unit) := by
  refine modifyTx_leads fun s s' hm => ⟨hm.syncs fun h w => ?_, hm.indexed fun h w => ?_⟩
  all_goals
    unfold at?
    split <;> rfl

lemma commitTransaction_carries (htx : tx.HasContent content) :
    Leads (Carries content) (commitTransaction ctx node tx mapValue orderForm fromAccount
      fBroadcastTransactions accepted) := by
  refine .bind .trans (addToWallet_carries htx) fun _ => ?_
  refine .bind .trans (.forM .refl .trans fun txin _ => ?_) fun _ => ?_
  · refine .bind .trans (fun _ _ _ h => (entryAt_recached _ _ _ _ _ h).carries) fun _ => ?_
    exact fun _ _ _ h => (markDirty_recached _ _ _ _ h).carries
  refine .bind .trans (fun _ _ _ h => (entryAt_recached _ _ _ _ _ h).carries) fun _ => ?_
  split
  · exact pool_carries _ (· || accepted)
  · exact .pure .refl _

end

section

lemma setAbandoned_indexed (hash) : Leads (fun s s' => Indexed content s → Indexed content s')
      (modifyTx hash CWalletTx.setAbandoned : WalletM κ Unit) := by
  refine modifyTx_leads fun s s' hm hi => hm.indexed (fun h w => ?_) hi
  unfold at?
  split <;> rfl

lemma blockConnected_indexed (hp : pindex ≠ []) (htxs : ∀ tx ∈ vtx, tx.HasContent content)
    (h : blockConnected ctx node vtx pindex vtxConflicted fInitialBlockDownload last s = .ok u s')
    (hi : Indexed content s) : Indexed content s' := by
  have ⟨s1, s2, h1, h2, h3⟩ := blockConnected_parts h
  have hi1 : Indexed content s1 := by
    refine Leads.forM_preserves (fun ptx _ => ?_) _ _ _ h1 hi
    refine .bind
      (fun h1 h2 h => h2 (h1 h)) (setAbandoned_indexed _) fun _ => ?_
    exact fun _ _ _ h => (pool_carries _ (fun _ => false) _ _ _ h).indexed
  have hi2 := (connectTxs_moves hp _ _ _ h2).indexed htxs hi1
  cases h3
  case inl h3 => exact h3.2 ▸ hi2
  case inr h3 =>
  refine (cleanOrphans_maps h3.2).indexed (fun a w => ?_) hi2
  split <;> rfl

end

end CWallet

namespace WalletCall

variable {κ : Type} {ctx : WalletContext κ} {node : NodeView} {s s' : CWallet κ}
  {content : TxContent} {call : WalletCall}

def txs : WalletCall → List CTransaction
  | .transactionAddedToMempool ptx => [ptx]
  | .blockConnected vtx .. => vtx
  | .commitTransaction tx .. => [tx]
  | .addToWallet wtxIn => [wtxIn.tx]
  | _ => []

-- No call abandons a transaction without a write, unless it is abandoned already.
def Quiet (node : NodeView) (call : WalletCall) (s : CWallet κ) : Prop :=
  match call with
  | .blockConnected vtx pindex vtxConflicted fInitialBlockDownload last =>
    CWallet.QuietBlock node vtx pindex vtxConflicted fInitialBlockDownload last s
  | .blockDisconnected vtx => ∀ tx ∈ vtx, s.AbandonedAt tx.getHash
  | _ => True

open CWallet in
lemma perform_durable (htxs : ∀ tx ∈ call.txs, tx.HasContent content) (hq : call.Quiet node s)
    (h : call.perform ctx node s = .ok () s') (hd : Durable s) (hi : s.Indexed content) :
    Durable s' ∧ s'.Indexed content := by
  have hcarries (hc : Carries content s s') : Durable s' ∧ s'.Indexed content :=
    ⟨hc.syncs.durable hd, hc.indexed hi⟩
  -- Only the calls about blocks abandon transactions silently.
  cases call
  case transactionAddedToMempool ptx =>
    have hpos : ¬(([] : CBlockIndex) = [] ∧ (1 : Int) = 0) := fun hn => absurd hn.2 (by decide)
    refine hcarries (Leads.bind .trans (fun _ _ _ h => ?_) (fun _ => ?_) _ _ _ h)
    · exact (syncTransaction_moves List.mem_cons_self hpos _ _ _ h).carries htxs
    · exact pool_carries _ fun _ => true
  case transactionRemovedFromMempool ptx =>
    exact hcarries (pool_carries _ (fun _ => false) _ _ _ h)
  case blockConnected vtx pindex vtxConflicted fIBD last =>
    exact ⟨blockConnected_durable hq hd h, blockConnected_indexed hq.given htxs h hi⟩
  case blockDisconnected vtx =>
    exact ⟨blockDisconnected_durable hq hd h,
      Leads.forM_preserves (fun ptx _ => setAbandoned_indexed ptx.getHash) _ _ _ h hi⟩
  case abandonTransaction hash =>
    have ⟨_, s1, h1, h2⟩ := bind_eq_ok.mp h
    cases h2
    have hm : Moves ctx node [] s s' := abandonTransaction_moves _ _ _ _ h1
    exact hcarries (hm.carries htxs)
  case commitTransaction =>
    exact hcarries (commitTransaction_carries (htxs _ List.mem_cons_self) _ _ _ h)
  case getBalance min_depth =>
    have ⟨_, s1, h1, h2⟩ := bind_eq_ok.mp h
    cases h2
    exact hcarries (getBalance_recached _ _ _ _ h1).carries
  case addToWallet wtxIn =>
    have ⟨_, s1, h1, h2⟩ := bind_eq_ok.mp h
    cases h2
    exact hcarries (addToWallet_carries (htxs _ List.mem_cons_self) _ _ _ h1)
  case markConflicted hashBlock hash =>
  have hm : Moves ctx node [] s s' := markConflicted_moves _ _ _ _ _ h
  exact hcarries (hm.carries htxs)

end WalletCall

inductive QuietRun (ctx : WalletContext κ) (content : TxContent) : CWallet κ → CWallet κ → Prop
  | refl : QuietRun ctx content s s
  | step : QuietRun ctx content s1 s2 → (∀ tx ∈ WalletCall.txs call, tx.HasContent content) →
      call.Quiet node s2 → call.perform ctx node s2 = .ok () s3 → QuietRun ctx content s1 s3

namespace QuietRun

variable {κ : Type} {ctx : WalletContext κ} {s s' : CWallet κ} {content : TxContent}

lemma durable (hr : QuietRun ctx content s s') (hd : s.Durable) (hi : s.Indexed content) :
    s'.Durable ∧ s'.Indexed content := by
  induction hr
  case refl => exact ⟨hd, hi⟩
  case step htxs hq h ih => exact WalletCall.perform_durable htxs hq h ih.1 ih.2

end QuietRun

end Taler
