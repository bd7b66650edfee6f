import TalerModel.Wallet.Run
import TalerModel.Wallet.Theorems.Steps

namespace Taler

open EStateM

namespace CWallet

variable {κ : Type}

inductive Move (ctx : WalletContext κ) (node : NodeView) (txs : List CTransaction) :
    CWallet κ → CWallet κ → Prop
  -- A transaction is marked as abandoned or as conflicting with a block.
  | mark : s.mapWallet[now]? = some wtx →
      Changes now { wtx with hashBlock := hashBlock, nIndex := -1 } s s' → Move ctx node txs s s'
  | keys : ptx ∈ txs → Move ctx node txs s { s with keys := ctx.useKeys s.keys ptx }
  -- A transaction is added and stored, and the ones it spends outputs of are marked.
  | add : wtxIn.tx ∈ txs → addToWallet ctx node wtxIn s = .ok true s1 →
      Maps (dirtyIn (inputsOf wtxIn.tx)) s1 s' → Move ctx node txs s s'
  | unwritten : wtxIn.tx ∈ txs → addToWallet ctx node wtxIn s = .ok false s' →
      Move ctx node txs s s'
  | pool {hash : Uint256} {f : Bool → Bool} :
      Maps (at? hash fun wtx => { wtx with fInMempool := f wtx.fInMempool }) s s' →
      Move ctx node txs s s'

abbrev Moves (ctx : WalletContext κ) (node : NodeView) (txs : List CTransaction) :
    CWallet κ → CWallet κ → Prop :=
  Relation.ReflTransGen (Move ctx node txs)

variable {ctx : WalletContext κ} {node : NodeView} {txs : List CTransaction} {s s' : CWallet κ}
  {hash : Uint256} {ptx : CTransaction}

lemma Moves.refl (s) : Moves ctx node txs s s :=
  Relation.ReflTransGen.refl

lemma Moves.trans (h1 : Moves ctx node txs s1 s2) (h2 : Moves ctx node txs s2 s3) :
    Moves ctx node txs s1 s3 :=
  Relation.ReflTransGen.trans h1 h2

section

lemma changeStatus_moves (hw : s.mapWallet[now]? = some wtx)
    (h : changeStatus now { wtx with hashBlock := hashBlock, nIndex := -1 } s = .ok next s') :
    Moves ctx node txs s s' := by
  have ⟨_, _, he, _, hc⟩ :=
    changeStatus_spec now { wtx with hashBlock := hashBlock, nIndex := -1 } s
  cases he.symm.trans h
  exact .single (.mark hw hc)

lemma visitConflicted_moves (n hashBlock now) :
    Leads (Moves ctx node txs) (visitConflicted node n hashBlock now) := by
  intro s next s' h
  have ⟨wtx, s1, he, h1⟩ := bind_eq_ok.mp h
  have ⟨hs, hw⟩ := entryAt_eq_ok.mp he
  rw [hs] at h1
  split at h1
  · exact changeStatus_moves hw h1
  cases h1
  exact .refl _

lemma assertThat_eq_ok (h : assertThat c s = .ok () s') : s' = s := by
  cases c
  case false => nomatch h
  case true =>
  cases h
  rfl

lemma visitAbandoned_moves (now) : Leads (Moves ctx node txs) (visitAbandoned node now) := by
  intro s next s' h
  have ⟨wtx, s1, he, h1⟩ := bind_eq_ok.mp h
  have ⟨hs, hw⟩ := entryAt_eq_ok.mp he
  rw [hs] at h1
  have ⟨_, s2, ha, h2⟩ := bind_eq_ok.mp h1
  rw [assertThat_eq_ok ha] at h2
  split at h2
  · have ⟨_, s3, ha, h3⟩ := bind_eq_ok.mp h2
    rw [assertThat_eq_ok ha] at h3
    exact changeStatus_moves hw h3
  cases h2
  exact .refl _

lemma spread_leads (hr : ∀ s, R s s) (ht : ∀ {s1 s2 s3}, R s1 s2 → R s2 s3 → R s1 s3)
    (h : ∀ k, Leads R (visit k)) (hash) : Leads R (spread hash visit) :=
  .get_bind fun _ => .bind ht (Worklist.run_leads hr ht h _ _ _) fun _ => .pure hr _

lemma markConflicted_moves (hashBlock hash) :
    Leads (Moves ctx node txs) (markConflicted node hashBlock hash) := by
  simp only [markConflicted]
  generalize (if node.contains (node.lookupBlockIndex hashBlock) = true then _ else 0 : Int) = n
  split
  · exact .pure Moves.refl _
  · exact spread_leads Moves.refl Moves.trans (visitConflicted_moves _ _) hash

lemma abandonTransaction_moves (hash) :
    Leads (Moves ctx node txs) (abandonTransaction node hash) := by
  intro s b s' h
  have ⟨wtx, s1, he, h1⟩ := bind_eq_ok.mp h
  rw [(entryAt_eq_ok.mp he).1] at h1
  split at h1
  · cases h1
    exact .refl _
  have ⟨_, s2, h2, h3⟩ := bind_eq_ok.mp h1
  cases h3
  exact spread_leads Moves.refl Moves.trans visitAbandoned_moves hash _ _ _ h2

lemma markConflicts_moves (ptx pindex) :
    Leads (Moves ctx node txs) (markConflicts node ptx pindex) := by
  unfold markConflicts
  split
  · exact .pure Moves.refl _
  refine .forM Moves.refl Moves.trans fun txin _ => .get_bind fun s => ?_
  refine .forM Moves.refl Moves.trans fun hash _ => ?_
  split
  · exact markConflicted_moves _ _
  · exact .pure Moves.refl _

end

section

lemma lift_eq_ok (h : lift x s = .ok a s') : s' = s ∧ x = .ok a := by
  cases x
  case error => nomatch h
  case ok =>
  cases h
  exact ⟨rfl, rfl⟩

lemma notified_tx (ptx pindex posInBlock) : (notified ptx pindex posInBlock).tx = ptx := by
  unfold notified
  split <;> rfl

lemma involvesMe_false (h : s.involvesMe ctx tx = .ok false) : tx.getHash ∉ s.mapWallet := by
  intro hm
  have hc : (s.mapWallet.contains tx.getHash || s.isMine ctx tx) = true := by
    rw [Std.TreeMap.mem_iff_contains.mp hm, Bool.true_or]
  rw [involvesMe, if_pos hc] at h
  nomatch h

variable {pindex : CBlockIndex} {posInBlock : Int} {update : Bool}

lemma addToWalletIfInvolvingMe_cases
    (h : addToWalletIfInvolvingMe ctx node ptx pindex posInBlock fUpdate s = .ok b s') :
    ∃ s1, markConflicts node ptx pindex s = .ok () s1 ∧
      (b = false ∧ s' = s1 ∧ (fUpdate → ptx.getHash ∉ s1.mapWallet) ∨
        addToWallet ctx node (notified ptx pindex posInBlock)
          { s1 with keys := ctx.useKeys s1.keys ptx } = .ok b s') := by
  have ⟨_, s1, h1, h2⟩ := bind_eq_ok.mp h
  refine ⟨s1, h1, ?_⟩
  have h3 : (if s1.mapWallet.contains ptx.getHash && !fUpdate then pure false else
      (lift (s1.involvesMe ctx ptx) >>= fun involved => if !involved then pure false else do
        modify fun s => { s with keys := ctx.useKeys s.keys ptx }
        addToWallet ctx node (notified ptx pindex posInBlock)) : WalletM κ Bool) s1 =
      .ok b s' := h2
  split at h3
  case isTrue hc =>
    cases h3
    refine .inl ⟨rfl, rfl, fun hu => ?_⟩
    simp [hu] at hc
  have ⟨involved, s2, hl, h4⟩ := bind_eq_ok.mp h3
  have ⟨hs, hi⟩ := lift_eq_ok hl
  rw [hs] at h4
  cases involved
  case false =>
    cases h4
    exact .inl ⟨rfl, rfl, fun _ => involvesMe_false hi⟩
  case true => exact .inr h4

lemma syncTransaction_cases (hn : ¬(pindex = [] ∧ posInBlock = 0))
    (h : syncTransaction ctx node ptx pindex posInBlock update s = .ok u s') :
    ∃ s1, markConflicts node ptx pindex s = .ok () s1 ∧
      (s' = s1 ∧ (update → ptx.getHash ∉ s1.mapWallet) ∨ ∃ b s2,
        addToWallet ctx node (notified ptx pindex posInBlock)
          { s1 with keys := ctx.useKeys s1.keys ptx } = .ok b s2 ∧
        (b = false ∧ s' = s2 ∨ b = true ∧ Maps (dirtyIn (inputsOf ptx)) s2 s')) := by
  have h1 : (addToWalletIfInvolvingMe ctx node ptx pindex posInBlock update >>= fun b =>
      if b then markInputsDirty ptx else pure () : WalletM κ Unit) s = .ok u s' := by
    have hc : ¬(decide (pindex = []) && decide (posInBlock = 0)) = true := by simpa using hn
    rw [syncTransaction, if_neg hc] at h
    exact h
  have ⟨b, s2, hadd, h2⟩ := bind_eq_ok.mp h1
  have ⟨s1, hconf, hcases⟩ := addToWalletIfInvolvingMe_cases hadd
  refine ⟨s1, hconf, ?_⟩
  cases hcases
  case inl hb =>
    rw [hb.1] at h2
    cases h2
    exact .inl hb.2
  rename_i ha
  refine .inr ⟨b, s2, ha, ?_⟩
  cases b
  case false =>
    cases h2
    exact .inl ⟨rfl, rfl⟩
  have ⟨_, s3, he, hmaps⟩ := markInputsDirty_maps ptx s2
  cases he.symm.trans h2
  exact .inr ⟨rfl, hmaps⟩

lemma syncTransaction_parts (hm : ptx ∈ txs) (hn : ¬(pindex = [] ∧ posInBlock = 0))
    (h : syncTransaction ctx node ptx pindex posInBlock update s = .ok u s') :
    ∃ s1, markConflicts node ptx pindex s = .ok () s1 ∧ Moves ctx node txs s1 s' := by
  have htx : (notified ptx pindex posInBlock).tx ∈ txs := by rwa [notified_tx]
  have ⟨s1, hconf, hcases⟩ := syncTransaction_cases hn h
  refine ⟨s1, hconf, ?_⟩
  cases hcases
  case inl hs => exact hs.1 ▸ .refl _
  rename_i ha
  have ⟨b, s2, ha, hb⟩ := ha
  refine .trans (.single (.keys hm)) ?_
  cases hb
  case inl hb =>
    rw [hb.1] at ha
    exact hb.2 ▸ .single (.unwritten htx ha)
  rename_i hb
  rw [hb.1] at ha
  refine .single (.add htx ha ?_)
  rw [notified_tx]
  exact hb.2

lemma syncTransaction_moves (hm : ptx ∈ txs) (hn : ¬(pindex = [] ∧ posInBlock = 0)) :
    Leads (Moves ctx node txs) (syncTransaction ctx node ptx pindex posInBlock update) := by
  intro s u s' h
  have ⟨_, hconf, hrest⟩ := syncTransaction_parts hm hn h
  exact (markConflicts_moves _ _ _ _ _ hconf).trans hrest

end

end CWallet

end Taler
