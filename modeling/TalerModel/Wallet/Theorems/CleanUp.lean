import TalerModel.Wallet.Theorems.Silent
import TalerModel.Wallet.Theorems.Spends

namespace Taler

open EStateM CWalletTx CMerkleTx Option

namespace CWallet

variable {ctx : WalletContext κ} {node : NodeView} {vtx : List CTransaction} {s s' : CWallet κ}
  {hash h : Uint256} {ptx : CTransaction} {pindex : CBlockIndex} {i : Int}

def standing (w : CWalletTx) : CMerkleTx × Nat × Bool :=
  (w.toCMerkleTx, w.nTimeReceived, w.fInMempool)

lemma isOrphan_of_standing (h : standing w' = standing w) :
    isOrphan node w' = isOrphan node w := by
  simp only [standing, Prod.mk.injEq] at h
  simp [isOrphan, h]

section

-- A transaction of a block has been dealt with, and does not conflict with any other.
structure Connects (pindex : CBlockIndex) (i : Int) (ptx : CTransaction) (s s' : CWallet κ) :
    Prop where
  others : ∀ h ≠ ptx.getHash, s'.mapWallet[h]?.map standing = s.mapWallet[h]?.map standing
  entry : ∀ w, s'.mapWallet[ptx.getHash]? = some w →
    w.hashBlock = pindex.getBlockHash ∧ w.nIndex = i
  spends : ∀ e ∈ s'.mapTxSpends, e ∈ s.mapTxSpends ∨ e.2 = ptx.getHash ∧ e.1 ∈ ptx.outpoints

lemma Connects.maps (hc : Connects pindex i ptx s s1) (hm : Maps g s1 s')
    (hother : ∀ h ≠ ptx.getHash, ∀ w, standing (g h w) = standing w)
    (hentry : ∀ h w, (g h w).toCMerkleTx = w.toCMerkleTx) : Connects pindex i ptx s s' := by
  refine ⟨fun h hh => ?_, fun w hw => ?_, fun e he => hc.spends e (hm.spends ▸ he)⟩
  · rw [← hc.others h hh, hm.entries, map_map]
    cases s1.mapWallet[h]?
    case none => rfl
    case some w => exact congrArg some (hother h hh w)
  rw [hm.entries] at hw
  have ⟨w1, hw1, he⟩ := map_eq_some_iff.mp hw
  have ht : w.toCMerkleTx = w1.toCMerkleTx := he ▸ hentry _ w1
  rw [ht]
  exact hc.entry w1 hw1

def SoleSpender (ptx : CTransaction) (s : CWallet κ) : Prop :=
  ∀ o ∈ ptx.outpoints, ∀ h, (o, h) ∈ s.mapTxSpends → h = ptx.getHash

lemma markConflicts_none : Leads (fun s s' => SoleSpender ptx s → s' = s)
    (markConflicts node ptx pindex : WalletM κ Unit) := by
  have ht {s1 s2 s3 : CWallet κ} (h1 : SoleSpender ptx s1 → s2 = s1)
      (h2 : SoleSpender ptx s2 → s3 = s2) (h : SoleSpender ptx s1) : s3 = s1 := by
    have he := h1 h
    subst he
    exact h2 h
  unfold markConflicts
  split
  · exact .pure (fun _ _ => rfl) _
  refine .forM (R := fun s s' => SoleSpender ptx s → s' = s) (fun _ _ => rfl) ht
    fun txin hin s u s' hrun ho => ?_
  have hall : Leads (fun s s' : CWallet κ => s' = s) ((s.spendersOf txin.prevout).forM fun a =>
      if a ≠ ptx.getHash then markConflicted node pindex.getBlockHash a else pure ()) := by
    refine .forM (R := fun s s' => s' = s) (fun _ => rfl) (fun h1 h2 => h2.trans h1) fun a ha => ?_
    have he := ho txin.prevout (List.mem_map.mpr ⟨txin, hin, rfl⟩) a (mem_spendersOf.mp ha)
    rw [if_neg (not_not_intro he)]
    exact .pure (R := fun s s' => s' = s) (fun _ => rfl) _
  exact hall s u s' hrun

lemma mem_spendsOf {tx : CTransaction} (he : e ∈ spendsOf tx hash) :
    e.2 = hash ∧ e.1 ∈ tx.outpoints := by
  unfold spendsOf at he
  split at he
  · nomatch he
  have ⟨txin, hin, heq⟩ := List.mem_map.mp he
  exact ⟨heq ▸ rfl, heq ▸ List.mem_map.mpr ⟨txin, hin, rfl⟩⟩

lemma merge_block {wtxIn w : CWalletTx} (hb : wtxIn.hashUnset = false) (hi : wtxIn.nIndex ≠ -1) :
    (wtxIn.merge w).1.hashBlock = wtxIn.hashBlock ∧ (wtxIn.merge w).1.nIndex = wtxIn.nIndex := by
  -- Only the first update of the block and the one of the position matter.
  let P (w : CWalletTx) : Prop := w.hashBlock = wtxIn.hashBlock ∧ w.nIndex = wtxIn.nIndex
  refine updateIf_preserves (P := P) (fun _ h => h) (updateIf_preserves (fun _ h => h) ?_)
  have hset {x : CWalletTx × Bool} (hx : x.1.hashBlock = wtxIn.hashBlock) :
      (updateIf (fun w => wtxIn.nIndex ≠ -1 && wtxIn.nIndex ≠ w.nIndex)
        (fun w => { w with nIndex := wtxIn.nIndex }) x).1.hashBlock = wtxIn.hashBlock ∧
      (updateIf (fun w => wtxIn.nIndex ≠ -1 && wtxIn.nIndex ≠ w.nIndex)
        (fun w => { w with nIndex := wtxIn.nIndex }) x).1.nIndex = wtxIn.nIndex := by
    unfold updateIf
    split
    · exact ⟨hx, rfl⟩
    rename_i hc
    simp only [ne_eq, hi, not_false_eq_true, decide_true, Bool.true_and, decide_not,
      Bool.not_eq_true', decide_eq_false_iff_not, not_not] at hc
    exact ⟨hx, hc.symm⟩
  refine hset (updateIf_preserves (P := fun w => w.hashBlock = wtxIn.hashBlock) (fun _ _ => rfl) ?_)
  unfold updateIf
  split
  · rfl
  rename_i hc
  simp only [hb, Bool.not_false, ne_eq, decide_not, Bool.true_and, Bool.not_eq_true',
    decide_eq_false_iff_not, not_not] at hc
  exact hc.symm

lemma notified_getHash (ptx pindex i) : (notified ptx pindex i).getHash = ptx.getHash := by
  rw [getHash, notified_tx]

lemma addToWallet_connects {b : Bool} (hp : pindex ≠ []) (hb0 : pindex.getBlockHash ≠ 0)
    (hb1 : pindex.getBlockHash ≠ ABANDON_HASH) (hi : 0 ≤ i)
    (h : addToWallet ctx node (notified ptx pindex i) s = .ok b s') :
    Connects pindex i ptx s s' := by
  have hnb : (notified ptx pindex i).hashBlock = pindex.getBlockHash := by simp [notified, hp]
  have hni : (notified ptx pindex i).nIndex = i := by simp [notified, hp]
  have hhash := notified_getHash ptx pindex i
  have hset : (notified ptx pindex i).hashUnset = false := by
    simp [hashUnset, hnb, hb0, hb1]
  cases addToWallet_spec h
  case inl h =>
    obtain ⟨_, hins, _⟩ := h
    refine ⟨fun a ha => ?_, fun w hw => ?_, fun e he => ?_⟩
    · have hc := congrArg (Option.map standing) (hins.entries a (hhash ▸ ha))
      simp only [Option.map_map] at hc
      exact hc
    · have he := hins.entry
      rw [hhash, hw, Option.map_some, Option.some.injEq] at he
      have hblock := congrArg (fun w : CWalletTx => w.hashBlock) he
      have hindex := congrArg (fun w : CWalletTx => w.nIndex) he
      exact ⟨hblock.trans hnb, hindex.trans hni⟩
    rw [hins.spends, List.mem_append] at he
    refine he.imp_right fun he => ?_
    have hm := mem_spendsOf he
    rwa [hhash, notified_tx] at hm
  case inr h =>
  obtain ⟨wtx, hw, hm, _⟩ := h
  refine ⟨fun a ha => ?_, fun w hw' => ?_, fun e he => .inl (hm.spends ▸ he)⟩
  · rw [hm.entries]
    cases s.mapWallet[a]?
    case none => rfl
    case some w => simp [at?, hhash, ha]
  rw [hm.entries, ← hhash, hw, Option.map_some, Option.some.injEq, at?, if_pos rfl] at hw'
  have hpos : (notified ptx pindex i).nIndex ≠ -1 := by
    omega
  obtain ⟨hblock, hindex⟩ := merge_block hset hpos
  rw [← hw']
  exact ⟨hblock.trans hnb, hindex.trans hni⟩

lemma dirtyIn_standing (hashes) (h : Uint256) (w) : standing (dirtyIn hashes h w) = standing w := by
  unfold dirtyIn
  split <;> rfl

def connectTx (ctx : WalletContext κ) (node : NodeView) (pindex : CBlockIndex)
    (item : CTransaction × Nat) : WalletM κ Unit := do
  syncTransaction ctx node item.1 pindex item.2
  transactionRemovedFromMempool item.1

section

variable (hp : pindex ≠ []) (hb0 : pindex.getBlockHash ≠ 0)
  (hb1 : pindex.getBlockHash ≠ ABANDON_HASH)
include hp hb0 hb1

lemma syncTransaction_connects {n : Nat} :
    Leads (fun s s' => SoleSpender ptx s → Connects pindex n ptx s s')
      (syncTransaction ctx node ptx pindex n) := by
  intro s u s' h hsole
  have ⟨s1, hconf, hcases⟩ := syncTransaction_cases (fun hn => hp hn.1) h
  have hs := markConflicts_none _ _ _ hconf hsole
  subst hs
  cases hcases
  case inl hs =>
    have ⟨he, hn⟩ := hs
    subst he
    refine ⟨fun _ _ => rfl, fun w hw => ?_, fun _ he => .inl he⟩
    exact absurd (OrderedMap.mem_iff.mpr ⟨w, hw⟩) (hn rfl)
  rename_i ha
  have ⟨b, s2, ha, hb⟩ := ha
  have hc := addToWallet_connects hp hb0 hb1 (Int.natCast_nonneg n) ha
  have hc2 : Connects pindex n ptx s1 s2 := ⟨hc.others, hc.entry, hc.spends⟩
  cases hb
  case inl hb => exact hb.2 ▸ hc2
  case inr hb =>
    exact hc2.maps hb.2 (fun h _ w => dirtyIn_standing _ h w) (dirtyIn_merkleTx _)

lemma connectTx_connects {n : Nat} :
    Leads (fun s s' => SoleSpender ptx s → Connects pindex n ptx s s')
      (connectTx ctx node pindex (ptx, n)) := by
  intro s u s' h hsole
  have ⟨_, s1, h1, h2⟩ := bind_eq_ok.mp h
  have hc := syncTransaction_connects hp hb0 hb1 _ _ _ h1 hsole
  have ⟨_, _, he, hm⟩ := modifyTx_maps ptx.getHash (fun w => { w with fInMempool := false }) s1
  cases he.symm.trans h2
  refine hc.maps hm (fun h hh w => ?_) (fun h w => ?_)
  · rw [at?, if_neg hh]
  unfold at?
  split <;> rfl

end

end

section

-- A connected block conflicts with nothing, and what is not in it is not due for clean-up.
structure Calm (node : NodeView) (vtx : List CTransaction) (pindex : CBlockIndex) (s : CWallet κ) :
    Prop where
  active : node.contains (node.lookupBlockIndex pindex.getBlockHash)
  named : pindex.getBlockHash ≠ 0 ∧ pindex.getBlockHash ≠ ABANDON_HASH
  sole : ∀ tx ∈ vtx, SoleSpender tx s
  disjoint : ∀ tx ∈ vtx, ∀ tx' ∈ vtx, ∀ o ∈ tx.outpoints, o ∈ tx'.outpoints →
    tx'.getHash = tx.getHash
  known : ∀ {h : Uint256} {w}, s.mapWallet[h]? = some w → h ∉ hashesOf vtx → ¬isOrphan node w

def Spared (node : NodeView) (h : Uint256) (s : CWallet κ) : Prop :=
  ∀ w, s.mapWallet[h]? = some w → ¬isOrphan node w

def Placed (pindex : CBlockIndex) (h : Uint256) (s : CWallet κ) : Prop :=
  ∀ w, s.mapWallet[h]? = some w → w.hashBlock = pindex.getBlockHash ∧ w.nIndex ≠ -1

lemma Placed.spared (hb0 : pindex.getBlockHash ≠ 0) (hb1 : pindex.getBlockHash ≠ ABANDON_HASH)
    (hc : node.contains (node.lookupBlockIndex pindex.getBlockHash)) (hp : Placed pindex h s) :
    Spared node h s := by
  intro w hw ho
  have ⟨hblock, hindex⟩ := hp w hw
  have hat : w.atBlock node := by
    simp [atBlock, hashUnset, hblock, hb0, hb1, hc]
  have hpos := depth_pos_iff.mpr ⟨hat, hindex⟩
  simp only [isOrphan, Bool.and_eq_true, decide_eq_true_eq] at ho
  omega

lemma Connects.spared (hc : Connects pindex i ptx s s') (hh : h ≠ ptx.getHash)
    (hs : Spared node h s) : Spared node h s' := by
  intro w hw
  have he := hc.others h hh
  rw [hw, map_some] at he
  have ⟨w0, hw0, hst⟩ := map_eq_some_iff.mp he.symm
  rw [isOrphan_of_standing hst.symm]
  exact hs w0 hw0

lemma Connects.placed {n : Nat} (hc : Connects pindex n ptx s s') (hp : Placed pindex h s) :
    Placed pindex h s' := by
  intro w hw
  by_cases hh : h = ptx.getHash
  · have ⟨hblock, hindex⟩ := hc.entry w (hh ▸ hw)
    exact ⟨hblock, by omega⟩
  have he := hc.others h hh
  rw [hw, map_some] at he
  have ⟨w0, hw0, hst⟩ := map_eq_some_iff.mp he.symm
  have ht : w0.toCMerkleTx = w.toCMerkleTx := congrArg Prod.fst hst
  rw [← ht]
  exact hp w0 hw0

def Unrivalled (vtx : List CTransaction) (s : CWallet κ) : Prop :=
  ∀ tx ∈ vtx, SoleSpender tx s

lemma Connects.unrivalled (hd : ∀ tx ∈ vtx, ∀ tx' ∈ vtx, ∀ o ∈ tx.outpoints,
      o ∈ tx'.outpoints → tx'.getHash = tx.getHash) (hm : ptx ∈ vtx) (hc : Connects pindex i ptx s s')
    (hu : Unrivalled vtx s) : Unrivalled vtx s' := by
  intro tx htx o ho a ha
  cases hc.spends (o, a) ha
  case inl he => exact hu tx htx o ho a he
  case inr he => exact he.1.trans (hd tx htx ptx hm o ho he.2)

lemma connectTx_unrivalled (hp : pindex ≠ []) (hcalm : Calm node vtx pindex s1)
    (hitem : item ∈ vtx.zipIdx) :
    Leads (fun s s' => Unrivalled vtx s → Unrivalled vtx s' ∧ Connects pindex item.2 item.1 s s')
      (connectTx ctx node pindex item) := by
  have hm : item.1 ∈ vtx := (List.mem_zipIdx hitem).2.2 ▸ List.getElem_mem _
  intro s u s' h hu
  have hc := connectTx_connects hp hcalm.named.1 hcalm.named.2 _ _ _ h (hu _ hm)
  exact ⟨hc.unrivalled hcalm.disjoint hm hu, hc⟩

lemma connectTxs_spared (hp : pindex ≠ []) (hcalm : Calm node vtx pindex s1)
    (hu : Unrivalled vtx s) (hs : h ∉ hashesOf vtx → Spared node h s)
    (hrun : vtx.zipIdx.forM (connectTx ctx node pindex) s = .ok u s') : Spared node h s' := by
  have hround {item : CTransaction × Nat} (hi : item ∈ vtx.zipIdx) : Leads (fun s s' =>
      Unrivalled vtx s → Unrivalled vtx s' ∧ Connects pindex item.2 item.1 s s')
      (connectTx ctx node pindex item) := connectTx_unrivalled hp hcalm hi
  by_cases hh : h ∈ hashesOf vtx
  case pos =>
    -- The round of the transaction places it in the block, and the other rounds leave it there.
    have ⟨tx, htx, he⟩ := hh
    have ⟨n, hn⟩ := List.mem_iff_getElem?.mp htx
    have hitem := List.mk_mem_zipIdx_iff_getElem?.mpr hn
    have hpass : Leads (fun s s' => Unrivalled vtx s → Unrivalled vtx s' ∧ Placed pindex h s')
        (vtx.zipIdx.forM (connectTx ctx node pindex)) := by
      refine Leads.forM_passes ?_ ?_ hitem ?_
      · exact fun item hi s u s' hr hu => (hround hi s u s' hr hu).1
      · intro item hi s u s' hr hu
        have ⟨hu', hc⟩ := hround hi s u s' hr hu.1
        exact ⟨hu', hc.placed hu.2⟩
      intro s u s' hr hu
      have ⟨hu', hc⟩ := hround hitem s u s' hr hu
      refine ⟨hu', fun w hw => ?_⟩
      have ⟨hblock, hindex⟩ := hc.entry w (he ▸ hw)
      exact ⟨hblock, by omega⟩
    exact (hpass s u s' hrun hu).2.spared hcalm.named.1 hcalm.named.2 hcalm.active
  case neg =>
  have hloop : Leads (fun s s' => Unrivalled vtx s ∧ Spared node h s →
      Unrivalled vtx s' ∧ Spared node h s') (vtx.zipIdx.forM (connectTx ctx node pindex)) := by
    refine .forM_preserves ?_
    intro item hi s u s' hr hu
    have ⟨hu', hc⟩ := hround hi s u s' hr hu.1
    have hm : item.1 ∈ vtx := (List.mem_zipIdx hi).2.2 ▸ List.getElem_mem _
    exact ⟨hu', hc.spared (fun he => hh ⟨item.1, hm, he.symm⟩) hu.2⟩
  exact (hloop s u s' hrun ⟨hu, hs hh⟩).2

lemma silenceTx_spared (ptx) :
    Leads (fun s s' => Spared node h s → Spared node h s') (silenceTx ctx node ptx) := by
  intro s u s' hrun hs w hw
  have ⟨_, s1, h1, h2⟩ := bind_eq_ok.mp hrun
  have ⟨_, _, he1, hm1⟩ := modifyTx_maps ptx.getHash setAbandoned s
  cases he1.symm.trans h1
  have ⟨_, _, he2, hm2⟩ := modifyTx_maps ptx.getHash (fun w => { w with fInMempool := false }) s1
  cases he2.symm.trans h2
  rw [(hm1.trans hm2).entries] at hw
  have ⟨w0, hw0, he⟩ := map_eq_some_iff.mp hw
  rw [← he]
  simp only [at?]
  split
  · intro ho
    simp [isOrphan, setAbandoned, isAbandoned] at ho
  · exact hs w0 hw0

lemma cleanOrphans_maps (h : cleanOrphans node s = .ok u s') :
    Maps (fun _ w => if isOrphan node w then w.setAbandoned else w) s s' := by
  cases h
  refine ⟨fun a => ?_, rfl, rfl, rfl, rfl⟩
  exact Std.TreeMap.getElem?_map

end

section

-- A transaction spends something that another one in a block of the active chain spends.
def Displaced (node : NodeView) (vtx : List CTransaction) (pindex : CBlockIndex) (h : Uint256)
    (s : CWallet κ) : Prop :=
  node.contains (node.lookupBlockIndex pindex.getBlockHash) ∧
    ∃ tx ∈ vtx, h ≠ tx.getHash ∧ ∃ o ∈ tx.outpoints, (o, h) ∈ s.mapTxSpends

-- What the pool drops is abandoned already or written, and a due clean-up does nothing.
structure QuietBlock (node : NodeView) (vtx : List CTransaction) (pindex : CBlockIndex)
    (vtxConflicted : List CTransaction) (fInitialBlockDownload : Bool) (last : Option Int)
    (s : CWallet κ) : Prop where
  given : pindex ≠ []
  conflicted : ∀ tx ∈ vtxConflicted,
    AbandonedAt s tx.getHash ∨ Displaced node vtx pindex tx.getHash s
  calm : cleanUpDue node fInitialBlockDownload last → Calm node vtx pindex s

lemma connectTx_moves (hp : pindex ≠ []) (hm : item.1 ∈ txs) :
    Leads (Moves ctx node txs) (connectTx ctx node pindex item) := by
  refine .bind Moves.trans (syncTransaction_moves hm fun hn => hp hn.1) fun _ => ?_
  exact modifyTx_leads fun _ _ hm => .single (.pool (f := fun _ => false) hm)

lemma connectTxs_moves (hp : pindex ≠ []) :
    Leads (Moves ctx node vtx) (vtx.zipIdx.forM (connectTx ctx node pindex)) :=
  .forM Moves.refl Moves.trans fun _ hi =>
    connectTx_moves hp ((List.mem_zipIdx hi).2.2 ▸ List.getElem_mem _)

lemma connectTxs_settles {tx : CTransaction} (hp : pindex ≠ [])
    (hc : node.contains (node.lookupBlockIndex pindex.getBlockHash)) (htx : tx ∈ vtx)
    (hne : h ≠ tx.getHash) (ho : o ∈ tx.outpoints) (hw : Waits o h s)
    (hrun : vtx.zipIdx.forM (connectTx ctx node pindex) s = .ok u s') : Settled h s' := by
  have hmoves item : Leads (Moves ctx node [item.1])
      (connectTx ctx node pindex item) := connectTx_moves hp List.mem_cons_self
  have ⟨txin, hin, heq⟩ := List.mem_map.mp ho
  subst heq
  have ⟨n, hn⟩ := List.mem_iff_getElem?.mp htx
  have hitem := List.mk_mem_zipIdx_iff_getElem?.mpr hn
  refine Leads.forM_passes
    (fun item _ _ _ _ h hw => (hmoves item _ _ _ h).waits hw)
    (fun item _ _ _ _ h hs => (hmoves item _ _ _ h).settled hs) hitem ?_ s u s' hrun hw
  intro s u s' hround hw
  have ⟨_, s1, h1, h2⟩ := bind_eq_ok.mp hround
  have hm : tx ∈ [tx] := List.mem_cons_self
  have ⟨s2, hconf, hrest⟩ := syncTransaction_parts hm (fun hn => hp hn.1) h1
  have hpool : Moves ctx node [tx] s1 s' :=
    modifyTx_leads (fun _ _ hm => .single (.pool (f := fun _ => false) hm)) _ _ _ h2
  exact (hrest.trans hpool).settled (markConflicts_settles ctx hp hc hin hne _ _ _ hconf hw)

variable {vtxConflicted : List CTransaction} {fInitialBlockDownload : Bool} {last : Option Int}

lemma blockConnected_parts
    (h : blockConnected ctx node vtx pindex vtxConflicted fInitialBlockDownload last s = .ok u s') :
    ∃ s1 s2, vtxConflicted.forM (silenceTx ctx node) s = .ok () s1 ∧
      vtx.zipIdx.forM (connectTx ctx node pindex) s1 = .ok () s2 ∧
      (cleanUpDue node fInitialBlockDownload last = false ∧ s' = s2 ∨
        cleanUpDue node fInitialBlockDownload last = true ∧ cleanOrphans node s2 = .ok () s') := by
  have ⟨_, s1, h1, h⟩ := bind_eq_ok.mp h
  have ⟨_, s2, h2, h⟩ := bind_eq_ok.mp h
  refine ⟨s1, s2, h1, h2, ?_⟩
  cases hc : cleanUpDue node fInitialBlockDownload last
  case false =>
    rw [if_neg (by rw [hc]; exact nofun)] at h
    cases h
    exact .inl ⟨rfl, rfl⟩
  case true =>
  rw [if_pos hc] at h
  exact .inr ⟨rfl, h⟩

lemma blockConnected_durable
    (hq : QuietBlock node vtx pindex vtxConflicted fInitialBlockDownload last s) (hd : Durable s)
    (h : blockConnected ctx node vtx pindex vtxConflicted fInitialBlockDownload last s = .ok u s') :
    Durable s' := by
  have ⟨s1, s2, h1, h2, h3⟩ := blockConnected_parts h
  have hsil := silenceTxs_silences vtxConflicted _ _ _ h1
  have hmoves := connectTxs_moves hq.given _ _ _ h2
  have hw1 : s1.database.Writable := hsil.database ▸ hd.writable
  have hd2 : Durable s2 := by
    refine ⟨hmoves.syncs.writable hw1, fun a => ?_⟩
    -- What was not known to be abandoned before and is now has been displaced.
    have hset (he : s1.merkleTx a = s.merkleTx a) : s2.merkleTx a = s2.database.merkleTx a := by
      have hs : Settled a s1 := ⟨hw1, by rw [he, hsil.database, hd.merkleTx]⟩
      exact (hmoves.settled hs).merkleTx
    cases hsil.merkleTx a
    case inl he => exact hset he
    rename_i hnew
    have ⟨⟨tx, htx, he⟩, habandoned⟩ := hnew
    cases hq.conflicted tx htx
    case inl hab => exact hset (hsil.stable a (he ▸ hab))
    rename_i hdis
    have ⟨hc, tx', htx', hne, o, ho, hsp⟩ := hdis
    have hwait : Waits o a s1 := ⟨hw1, by rw [hsil.spends, ← he]; exact hsp, .inr habandoned⟩
    exact (connectTxs_settles hq.given hc htx' (he ▸ hne) ho hwait h2).merkleTx
  cases h3
  case inl h3 => exact h3.2 ▸ hd2
  rename_i h3
  have hcalm := hq.calm h3.1
  have hmaps := cleanOrphans_maps h3.2
  have hspared a : Spared node a s2 := by
    refine connectTxs_spared hq.given hcalm (fun tx htx => ?_) (fun ha => ?_) h2
    · intro o ho b hb
      rw [hsil.spends] at hb
      exact hcalm.sole tx htx o ho b hb
    refine Leads.forM_preserves (fun ptx _ => silenceTx_spared ptx) _ _ _ h1 ?_
    exact fun w hw => hcalm.known hw ha
  refine Syncs.durable (syncs_of_eq (fun a => ?_) hmaps.database) hd2
  rw [CWallet.merkleTx, CWallet.merkleTx, hmaps.entries, map_map]
  cases hw : s2.mapWallet[a]?
  case none => rfl
  case some w => simp [hspared a w hw]

lemma blockDisconnected_durable (hq : ∀ tx ∈ vtx, AbandonedAt s tx.getHash) (hd : Durable s)
    (h : blockDisconnected ctx node vtx s = .ok u s') : Durable s' := by
  have hsil := blockDisconnected_silences vtx _ _ _ h
  refine Syncs.durable (syncs_of_eq (fun a => hsil.merkleTx_eq ?_) hsil.database) hd
  intro b hb
  have ⟨tx, htx, he⟩ := hb
  exact he ▸ hq tx htx

end

end CWallet

end Taler
