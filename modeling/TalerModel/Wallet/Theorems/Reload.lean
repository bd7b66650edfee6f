import TalerModel.Wallet.Theorems.Calls
import TalerModel.Wallet.Theorems.Load

namespace Taler

open EStateM CWallet CMerkleTx Option OrderedMap

namespace CWallet

variable {κ : Type}

-- It spends outputs of a transaction that conflicts with a block, or that follows one.
inductive Below (content : TxContent) (node : NodeView) (s : CWallet κ) : Uint256 → Prop
  | child : s.merkleTx p = some m → m.getDepthInMainChain node < 0 → h ∈ s.mapWallet →
      o ∈ (content h).1 → o.hash = p → Below content node s h
  | step : Below content node s p → h ∈ s.mapWallet → o ∈ (content h).1 → o.hash = p →
      Below content node s h

variable {node : NodeView} {s s' r r' : CWallet κ} {hash h p : Uint256} {content : TxContent}

section

lemma spentBy_subset (ho : o ∈ spentBy content h) : o ∈ (content h).1 := by
  unfold spentBy at ho
  split at ho
  case h_1 o' he =>
    split at ho
    · nomatch ho
    · rwa [he]
  case h_2 => exact ho

lemma mem_childrenOf : h ∈ s.childrenOf p ↔ ∃ o, (o, h) ∈ s.mapTxSpends ∧ o.hash = p := by
  simp [childrenOf]

-- A loaded part. Its transactions are as they were, or conflict as they follow one that does.
structure Reloads (content : TxContent) (node : NodeView) (s r : CWallet κ) : Prop where
  indexed : Indexed content r
  merkleTx : ∀ {h m}, r.merkleTx h = some m → s.merkleTx h = some m ∨
    Below content node s h ∧ h ∈ s.mapWallet ∧ m.getDepthInMainChain node < 0

lemma mem_iff_merkleTx : h ∈ s.mapWallet ↔ ∃ m, s.merkleTx h = some m := by
  simp only [mem_iff, merkleTx, map_eq_some_iff]
  constructor
  · rintro ⟨w, hw⟩
    exact ⟨_, w, hw, rfl⟩
  rintro ⟨_, w, hw, _⟩
  exact ⟨w, hw⟩

lemma Reloads.mem (hr : Reloads content node s r) (hm : h ∈ r.mapWallet) : h ∈ s.mapWallet := by
  have ⟨m, hm⟩ := mem_iff_merkleTx.mp hm
  cases hr.merkleTx hm
  case inl he => exact mem_iff_merkleTx.mpr ⟨m, he⟩
  case inr hb => exact hb.2.1

lemma Reloads.below (hr : Reloads content node s r) (hp : r.merkleTx p = some m)
    (hd : m.getDepthInMainChain node < 0) (hh : h ∈ s.mapWallet) (ho : o ∈ (content h).1)
    (he : o.hash = p) : Below content node s h := by
  cases hr.merkleTx hp
  case inl hs => exact .child hs hd hh ho he
  case inr hb => exact .step hb.1 hh ho he

variable {hashBlock : Uint256}

section

variable (hr : Reloads content node s r) (hb0 : hashBlock ≠ 0) (hb1 : hashBlock ≠ ABANDON_HASH)
include hr hb0 hb1

lemma Reloads.visitConflicted (hc : node.contains (node.lookupBlockIndex hashBlock))
    (hh : Below content node s h) (hrun : visitConflicted node n hashBlock h r = .ok next r') :
    Reloads content node s r' ∧ ∀ a ∈ next, Below content node s a := by
  obtain ⟨wtx, r1, he, h1⟩ := bind_eq_ok.mp hrun
  obtain ⟨hs, hw⟩ := entryAt_eq_ok.mp he
  rw [hs] at h1
  split at h1
  case isFalse =>
    cases h1
    exact ⟨hr, nofun⟩
  obtain ⟨_, _, he, hnext, hch⟩ :=
    changeStatus_spec h { wtx with hashBlock := hashBlock, nIndex := -1 } r
  cases he.symm.trans h1
  refine ⟨⟨hch.indexed hw hr.indexed, fun {a m} hm => ?_⟩, fun a ha => ?_⟩
  · rw [CWallet.merkleTx, hch.entries, map_map] at hm
    obtain ⟨w, hwa, hma⟩ := map_eq_some_iff.mp hm
    simp only [Function.comp_apply, dirtyIn_merkleTx] at hma
    by_cases hah : a = h
    · rw [if_pos hah] at hma
      refine .inr ⟨hah ▸ hh, hr.mem (mem_iff.mpr ⟨w, hwa⟩), ?_⟩
      rw [← hma]
      refine depth_neg_iff.mpr ⟨?_, rfl⟩
      simp [atBlock, hashUnset, CWalletTx.markDirty, hb0, hb1, hc]
    rw [if_neg hah] at hma
    refine hr.merkleTx ?_
    rw [CWallet.merkleTx, hwa, map_some, hma]
  rw [hnext] at ha
  obtain ⟨o, ho, hoh⟩ := mem_childrenOf.mp ha
  obtain ⟨hma, hsa⟩ := (hr.indexed.spends _).mp ho
  exact .step hh (hr.mem hma) (spentBy_subset hsa) hoh

lemma Reloads.markConflicted
    (hh : node.contains (node.lookupBlockIndex hashBlock) → Below content node s h)
    (hrun : markConflicted node hashBlock h r = .ok u r') : Reloads content node s r' := by
  by_cases hc : node.contains (node.lookupBlockIndex hashBlock)
  case neg =>
    rw [CWallet.markConflicted, if_neg hc] at hrun
    cases hrun
    exact hr
  simp only [CWallet.markConflicted] at hrun
  generalize (if node.contains (node.lookupBlockIndex hashBlock) = true then _ else 0 : Int) = n
    at hrun
  split at hrun
  · cases hrun
    exact hr
  obtain ⟨_, r1, h1, h2⟩ := bind_eq_ok.mp (show (Worklist.run _ _ _ _ >>= _) r = _ from hrun)
  cases h2
  refine Worklist.run_preserves
    (fun hk hp hv => Reloads.visitConflicted hp hb0 hb1 hc hk hv) (fun k hk => ?_) hr h1
  rw [Std.TreeSet.mem_ofList, List.contains_iff_mem, List.mem_singleton] at hk
  exact hk ▸ hh hc

end

end

section

variable {wtxIn : CWalletTx} {u : Unit}

lemma enter_entry (r : CWallet κ) (wtxIn : CWalletTx) (a)
    (h : (r.mapWallet.insertIfNew wtxIn.getHash wtxIn)[a]? = some w) :
    r.mapWallet[a]? = some w ∨ a ∉ r.mapWallet ∧ a = wtxIn.getHash ∧ w = wtxIn := by
  rw [getElem?_insertIfNew] at h
  split at h
  case isFalse => exact .inl h
  rename_i ha
  cases hw : r.mapWallet[a]?
  case some w' =>
    rw [hw, getD_some] at h
    exact .inl h
  rw [hw, getD_none] at h
  refine .inr ⟨fun hm => ?_, ha, (some.inj h).symm⟩
  have ⟨w', hw'⟩ := mem_iff.mp hm
  nomatch hw.symm.trans hw'

structure Enters (wtxIn : CWalletTx) (r r' : CWallet κ) : Prop where
  mem : ∀ a, a ∈ r'.mapWallet ↔ a = wtxIn.getHash ∨ a ∈ r.mapWallet
  merkleTx : ∀ {a m}, r'.merkleTx a = some m →
    r.merkleTx a = some m ∨ a ∉ r.mapWallet ∧ a = wtxIn.getHash ∧ m = wtxIn.toCMerkleTx
  database : r'.database = r.database
  indexed : ∀ {content}, wtxIn.tx.HasContent content → Indexed content r → Indexed content r'

lemma enters
    (hmaps : Maps (at? wtxIn.getHash CWalletTx.markDirty)
      { r with mapWallet := r.mapWallet.insertIfNew wtxIn.getHash wtxIn } r2)
    (hspends : addToSpends wtxIn.getHash r2 = .ok () r') : Enters wtxIn r r' := by
  have hentry {a : Uint256} {m : CMerkleTx} (h : r2.merkleTx a = some m) :
      r.merkleTx a = some m ∨ a ∉ r.mapWallet ∧ a = wtxIn.getHash ∧ m = wtxIn.toCMerkleTx := by
    have he : r2.merkleTx a = merkleTx
        { r with mapWallet := r.mapWallet.insertIfNew wtxIn.getHash wtxIn } a := by
      refine hmaps.merkleTx fun w => ?_
      unfold at?
      split <;> rfl
    rw [he] at h
    obtain ⟨w, hw, hwm⟩ := map_eq_some_iff.mp h
    cases enter_entry r wtxIn a hw
    case inl hw => exact .inl (by rw [merkleTx, hw, map_some, hwm])
    case inr hw => exact .inr ⟨hw.1, hw.2.1, by rw [← hwm, hw.2.2]⟩
  have hmem2 a : a ∈ r2.mapWallet ↔ a = wtxIn.getHash ∨ a ∈ r.mapWallet := by
    rw [hmaps.mem]
    exact mem_insertIfNew
  obtain ⟨w0, hw0⟩ := mem_iff.mp ((hmem2 _).mpr (.inl rfl))
  have hnotes := addToSpends_notes hw0 hspends
  have hm2 a := merkleTx_of_core (hnotes.entries a)
  refine ⟨fun a => ?_, fun {a m} ha => hentry (hm2 a ▸ ha), ?_, fun {content} hin hi => ?_⟩
  · rw [mem_of_core (hnotes.entries a), hmem2]
  · exact hnotes.database.trans hmaps.database
  have hkey {a : Uint256} {m : CMerkleTx} (h : r2.merkleTx a = some m) :
      m.getHash = a ∧ m.tx.HasContent content := by
    cases hentry h
    case inl h =>
      obtain ⟨w, hw, hwm⟩ := map_eq_some_iff.mp h
      exact hwm ▸ hi.keyed hw
    case inr h => exact ⟨h.2.2 ▸ h.2.1.symm, h.2.2 ▸ hin⟩
  obtain ⟨hhash, hcontent⟩ : w0.getHash = wtxIn.getHash ∧ w0.tx.HasContent content :=
    hkey (by rw [merkleTx, hw0, map_some])
  refine hi.added hcontent (fun a => ?_) (fun {a w} hw => ?_) ?_
  · rw [mem_of_core (hnotes.entries a), hmem2, ← hhash]
    rfl
  · exact hkey (by rw [← hm2, merkleTx, hw, map_some])
  have hs := hnotes.spends
  rw [← hhash, hmaps.spends] at hs
  exact hs

def inheritConflict (node : NodeView) (hash : Uint256) (txin : CTxIn) : WalletM κ Unit := do
  match (← get).mapWallet[txin.prevout.hash]? with
  | none => pure ()
  | some prevtx =>
    if prevtx.nIndex = -1 && !prevtx.hashUnset then markConflicted node prevtx.hashBlock hash

lemma loadToWallet_parts (hrun : loadToWallet node wtxIn r = .ok u r') :
    ∃ r1 wtx, Enters wtxIn r r1 ∧ r1.mapWallet[wtxIn.getHash]? = some wtx ∧
      wtx.tx.vin.forM (inheritConflict node wtxIn.getHash) r1 = .ok u r' := by
  have ⟨_, r1, h1, hrun1⟩ := bind_eq_ok.mp hrun
  cases h1
  have ⟨_, r2, h2, hrun2⟩ := bind_eq_ok.mp hrun1
  have ⟨_, _, he, hmaps⟩ := modifyTx_maps wtxIn.getHash CWalletTx.markDirty
    { r with mapWallet := r.mapWallet.insertIfNew wtxIn.getHash wtxIn }
  cases he.symm.trans h2
  have ⟨_, r3, h3, hrun3⟩ := bind_eq_ok.mp hrun2
  have ⟨wtx, r4, h4, hrun4⟩ := bind_eq_ok.mp hrun3
  have ⟨hs4, hw⟩ := entryAt_eq_ok.mp h4
  rw [hs4] at hrun4
  exact ⟨r3, wtx, enters hmaps h3, hw, hrun4⟩

lemma inheritConflict_cases (h : inheritConflict node hash txin r = .ok u r') :
    r' = r ∨ ∃ prevtx, r.mapWallet[txin.prevout.hash]? = some prevtx ∧ prevtx.nIndex = -1 ∧
      prevtx.hashBlock ≠ 0 ∧ prevtx.hashBlock ≠ ABANDON_HASH ∧
      markConflicted node prevtx.hashBlock hash r = .ok u r' := by
  have h : (match r.mapWallet[txin.prevout.hash]? with
      | none => pure ()
      | some prevtx => if prevtx.nIndex = -1 && !prevtx.hashUnset then
          markConflicted node prevtx.hashBlock hash else pure () : WalletM κ Unit) r = .ok u r' := h
  cases hp : r.mapWallet[txin.prevout.hash]?
  case none =>
    simp only [hp] at h
    cases h
    exact .inl rfl
  rename_i prevtx
  simp only [hp] at h
  split at h
  case isFalse =>
    cases h
    exact .inl rfl
  rename_i hc
  simp only [hashUnset, Bool.and_eq_true, decide_eq_true_eq, Bool.not_eq_true',
    Bool.or_eq_false_iff, decide_eq_false_iff_not] at hc
  exact .inr ⟨prevtx, rfl, hc.1, hc.2.1, hc.2.2, h⟩

lemma Reloads.enters (hr : Reloads content node s r) (hin : wtxIn.tx.HasContent content)
    (hm : s.merkleTx wtxIn.getHash = some wtxIn.toCMerkleTx) (he : Enters wtxIn r r1) :
    Reloads content node s r1 := by
  refine ⟨he.indexed hin hr.indexed, fun {a m} ha => ?_⟩
  cases he.merkleTx ha
  case inl ha => exact hr.merkleTx ha
  case inr ha => exact .inl (by rw [ha.2.1, ha.2.2, hm])

lemma Reloads.loadToWallet (hi : Indexed content s) (hr : Reloads content node s r)
    (hm : s.merkleTx wtxIn.getHash = some wtxIn.toCMerkleTx)
    (hrun : loadToWallet node wtxIn r = .ok u r') : Reloads content node s r' := by
  have hmem := mem_iff_merkleTx.mpr ⟨_, hm⟩
  have hin : wtxIn.tx.HasContent content := by
    have ⟨w, hw, hwm⟩ := map_eq_some_iff.mp hm
    rw [← hwm]
    exact (hi.keyed hw).2
  have ⟨r1, wtx, he, hw, hloop⟩ := loadToWallet_parts hrun
  have hr1 := hr.enters hin hm he
  have ⟨hhash, hcontent⟩ := hr1.indexed.keyed hw
  refine Leads.forM_preserves (fun txin htxin r u r' hround hr => ?_) _ _ _ hloop hr1
  cases inheritConflict_cases hround
  case inl he => exact he ▸ hr
  rename_i hc
  have ⟨prevtx, hp, hindex, hb0, hb1, hmark⟩ := hc
  refine hr.markConflicted hb0 hb1 (fun hcon => ?_) hmark
  have hat : prevtx.atBlock node := by
    simp [atBlock, hashUnset, hb0, hb1, hcon]
  have ho : txin.prevout ∈ (content wtxIn.getHash).1 := by
    rw [← hhash, getHash, hcontent]
    exact List.mem_map.mpr ⟨txin, htxin, rfl⟩
  refine hr.below ?_ (depth_neg_iff.mpr ⟨hat, hindex⟩) hmem ho rfl
  rw [CWallet.merkleTx, hp, map_some]

lemma readTx_cases {item : Uint256 × TxValue} (hrun : readTx node wss item r = .ok wss' r') :
    r' = r ∨ ∃ rec t wtxIn, item.2 = .record rec t ∧ rec.getHash = item.1 ∧
      wtxIn.toCMerkleTx = rec.toCMerkleTx ∧ loadToWallet node wtxIn r = .ok () r' := by
  obtain ⟨hash, value⟩ := item
  cases ha : value.accepted hash
  case none =>
    simp only [readTx, ha] at hrun
    cases hrun
    exact .inl rfl
  rename_i rt
  obtain ⟨hhash, t, hvalue⟩ := accepted_record ha
  obtain ⟨rec, trailer⟩ := rt
  simp only [readTx, ha] at hrun
  split at hrun
  · cases hrun
    exact .inl rfl
  obtain ⟨_, r1, h1, h2⟩ := bind_eq_ok.mp hrun
  cases h2
  exact .inr ⟨rec, t, _, hvalue, hhash, upgraded_toCMerkleTx .., h1⟩

lemma Reloads.readTx (hd : Durable s) (hi : Indexed content s)
    (hitem : item ∈ s.database.txs.toList) (hr : Reloads content node s r)
    (hrun : readTx node wss item r = .ok wss' r') : Reloads content node s r' := by
  obtain rfl | ⟨rec, t, wtxIn, hv, hhash, htx, hload⟩ := readTx_cases hrun
  · exact hr
  refine hr.loadToWallet hi ?_ hload
  rw [Std.TreeMap.mem_toList_iff_getElem?_eq_some, hv, ← hhash] at hitem
  rw [hd.merkleTx, WalletDatabase.merkleTx, htx]
  exact Option.bind_eq_some_iff.mpr ⟨_, hitem, rfl⟩

end

section

variable {keys : κ} {database : WalletDatabase}

lemma finishLoading_memory (others wss) :
    Leads (fun r r' : CWallet κ => r'.mapWallet = r.mapWallet ∧ r'.mapTxSpends = r.mapTxSpends)
      (finishLoading others wss) := by
  let R (r r' : CWallet κ) : Prop := r'.mapWallet = r.mapWallet ∧ r'.mapTxSpends = r.mapTxSpends
  have hr r : R r r := ⟨rfl, rfl⟩
  have ht {r1 r2 r3 : CWallet κ} (h1 : R r1 r2) (h2 : R r2 r3) : R r1 r3 :=
    ⟨h2.1.trans h1.1, h2.2.trans h1.2⟩
  have hup : Leads R (writeUpgraded wss.vWalletUpgrade) := by
    refine .forM hr ht fun hash _ r u r' h => ?_
    have ⟨wtx, r1, h1, h2⟩ := bind_eq_ok.mp h
    have ⟨_, r2, h3, h4⟩ := bind_eq_ok.mp h2
    cases h3
    cases h4
    rw [(entryAt_eq_ok.mp h1).1]
    exact hr r
  have herase : Leads R (wss.vWalletClear.forM eraseTx) := by
    refine .forM hr ht fun hash _ r u r' h => ?_
    cases h
    exact hr r
  unfold finishLoading
  dsimp only
  split
  · exact .pure hr _
  · exact .bind ht hup fun _ => .bind ht herase fun _ => .pure hr _

lemma finishLoading_upgraded (h : finishLoading others wss r = .ok .LOAD_OK r') :
    loadResult others wss.fNoncriticalErrors = .LOAD_OK ∧
      ∀ a ∈ wss.vWalletUpgrade, a ∈ r.mapWallet := by
  by_cases hres : loadResult others wss.fNoncriticalErrors = .LOAD_OK
  case neg =>
    rw [finishLoading_refused hres] at h
    exact absurd (Result.ok.inj h).1 hres
  refine ⟨hres, fun a ha => not_not.mp fun hn => ?_⟩
  have ⟨e, r1, he, _⟩ := finishLoading_fails hres ⟨a, ha, hn⟩
  nomatch he.symm.trans h

lemma loadWallet_ok (h : loadWallet node (unloaded keys database) = .ok .LOAD_OK r') :
    LoadsCleanly node database ∧ ∃ wss r,
      database.txs.toList.foldlM (readTx node) {} (unloaded keys database) = .ok wss r ∧
      HaveRead node database.txs database.txs.toList wss r ∧
      r'.mapWallet = r.mapWallet ∧ r'.mapTxSpends = r.mapTxSpends := by
  have ⟨wss, r, hread, hhave⟩ := haveRead node keys database
  have hload := loadWallet_eq node keys database
  cases hv : database.tooNew
  case true =>
    rw [hv, if_pos rfl, h] at hload
    nomatch hload
  rw [hv, if_neg nofun, bind_of_ok hread, h] at hload
  have ⟨hres, hup⟩ := finishLoading_upgraded hload.symm
  have ⟨herr, hothers⟩ := loadResult_ok.mp hres
  rw [hhave.errors, List.any_eq_false] at herr
  refine ⟨⟨hv, hothers, herr, (hhave.upgraded_iff herr).mp hup⟩, wss, r, hread, hhave, ?_⟩
  exact finishLoading_memory _ _ _ _ _ hload.symm

lemma isSpent_iff : s.isSpent node hash n ↔
    ∃ h m, (⟨hash, n⟩, h) ∈ s.mapTxSpends ∧ s.merkleTx h = some m ∧ m.isSpender node := by
  simp only [isSpent, List.any_eq_true, mem_spendersOf, any_eq_true, merkleTx, map_eq_some_iff]
  constructor
  · rintro ⟨h, hm, w, hw, hs⟩
    exact ⟨h, _, hm, ⟨w, hw, rfl⟩, hs⟩
  rintro ⟨h, m, hm, ⟨w, hw, he⟩, hs⟩
  exact ⟨h, hm, w, hw, he ▸ hs⟩

lemma Durable.mem_reloaded (hd : Durable s) (hc : LoadsCleanly node s.database)
    (hread : HaveRead node s.database.txs s.database.txs.toList wss r)
    (hkept : ¬Erases node (unloaded s.keys s.database) h) (hm : h ∈ s.mapWallet) :
    h ∈ r.mapWallet := by
  obtain ⟨m, hm⟩ := mem_iff_merkleTx.mp hm
  rw [hd.merkleTx, WalletDatabase.merkleTx] at hm
  obtain ⟨value, hv, _⟩ := bind_eq_some_iff.mp hm
  have hitem := Std.TreeMap.mem_toList_iff_getElem?_eq_some.mpr hv
  refine (hread.loaded.wallet h).mpr ⟨(h, value), hitem, isLoaded_iff.mpr ⟨?_, fun hcl => ?_⟩, rfl⟩
  · exact hc.accepted _ hitem
  · exact hkept (erases_iff.mpr ⟨hc, value, hv, hcl⟩)

lemma Durable.isSpent_reloaded (hd : Durable s) (hi : Indexed content s)
    (hl : loadWallet node (unloaded s.keys s.database) = .ok .LOAD_OK r')
    (hkept : ∀ h ∈ s.mapWallet, ¬Erases node (unloaded s.keys s.database) h)
    (hbelow : ∀ h m, Below content node s h → s.merkleTx h = some m → ¬m.isSpender node) :
    r'.isSpent node hash n = s.isSpent node hash n := by
  obtain ⟨hc, wss, r, hread, hhave, hwallet, hspends⟩ := loadWallet_ok hl
  have h0 : Reloads content node s (unloaded s.keys s.database) := by
    refine ⟨⟨fun hw => ?_, fun e => ?_⟩, fun hm => ?_⟩
    · simp [unloaded] at hw
    · simp [unloaded]
    · simp [unloaded, CWallet.merkleTx] at hm
  have hr := Leads.foldlM_preserves (fun _ hitem _ _ _ _ hrun hr => hr.readTx hd hi hitem hrun)
      _ _ _ _ hread h0
  have hmem (h : Uint256) : h ∈ r.mapWallet ↔ h ∈ s.mapWallet :=
    ⟨hr.mem, fun hm => hd.mem_reloaded hc hhave (hkept h hm) hm⟩
  have hsp e : e ∈ r'.mapTxSpends ↔ e ∈ s.mapTxSpends := by
    rw [hspends, hr.indexed.spends, hi.spends, hmem]
  have hmr (h : Uint256) : r'.merkleTx h = r.merkleTx h := by
    rw [CWallet.merkleTx, CWallet.merkleTx, hwallet]
  -- A transaction that has been marked did not count as a spender, and does not do so now.
  have hspender (h : Uint256) : (∃ m, r'.merkleTx h = some m ∧ m.isSpender node) ↔
      ∃ m, s.merkleTx h = some m ∧ m.isSpender node := by
    rw [hmr]
    constructor
    · rintro ⟨m, hm, hs⟩
      cases hr.merkleTx hm
      case inl he => exact ⟨m, he, hs⟩
      case inr hb =>
      have hpos := (isSpender_iff.mp hs).1
      omega
    rintro ⟨m, hm, hs⟩
    obtain ⟨m', hm'⟩ := mem_iff_merkleTx.mp ((hmem h).mpr (mem_iff_merkleTx.mpr ⟨m, hm⟩))
    cases hr.merkleTx hm'
    case inl he =>
      rw [hm] at he
      exact ⟨m', hm', some.inj he ▸ hs⟩
    case inr hb => exact absurd hs (hbelow h m hb.1 hm)
  rw [Bool.eq_iff_iff, isSpent_iff, isSpent_iff]
  refine exists_congr fun h => ?_
  simp only [hsp, exists_and_left, hspender]

end

end CWallet

end Taler
