import TalerModel.Validation.Accept
import TalerModel.Wallet.Load
import TalerModel.Wallet.Theorems.Status

namespace Taler

open EStateM List OrderedMap CWallet

namespace CWallet

variable {κ : Type} {node : NodeView} {s s' s0 : CWallet κ} {hash : Uint256} {wtx : CWalletTx}

section

-- A later state of the same transactions, of which no record has been erased.
structure Within (s0 s : CWallet κ) : Prop where
  wallet : ∀ h, h ∈ s.mapWallet ↔ h ∈ s0.mapWallet
  spends : s.mapTxSpends = s0.mapTxSpends
  stored : ∀ h ∈ s0.database.txs, h ∈ s.database.txs

lemma Within.refl (s : CWallet κ) : Within s s where
  wallet _ := .rfl
  spends := rfl
  stored _ := id

lemma entryAt_yields (e) (h : hash ∈ s.mapWallet) :
    Yields (entryAt hash e) s fun wtx s' => s' = s ∧ s.mapWallet[hash]? = some wtx := by
  have ⟨wtx, hw⟩ := mem_iff.mp h
  refine ⟨wtx, s, ?_, rfl, hw⟩
  rw [entryAt_eq, hw]
  rfl

lemma entryAt_error (h : hash ∉ s.mapWallet) : entryAt hash e s = .error e s := by
  have hn := Std.TreeMap.getElem?_eq_none h
  rw [entryAt_eq, hn]
  rfl

lemma Within.modifyTx (h : Within s0 s) (hash f) : Yields (modifyTx hash f) s fun _ => Within s0 :=
  ⟨(), _, rfl, fun _ => mem_modify.trans (h.wallet _), h.spends, h.stored⟩

lemma Within.writeTx (h : Within s0 s) (hash r) : Yields (writeTx hash r) s fun _ => Within s0 := by
  refine ⟨_, _, rfl, h.wallet, h.spends, fun a ha => ?_⟩
  change a ∈ if _ then _ else _
  split
  · exact mem_insert.mpr (.inr (h.stored a ha))
  · exact h.stored a ha

lemma Within.markInputsDirty (h : Within s0 s) (tx) :
    Yields (markInputsDirty tx) s fun _ => Within s0 :=
  .forM (fun _ _ _ h => h.modifyTx ..) h

lemma childrenOf_mem (hc : h ∈ s.childrenOf hash) : ∃ e ∈ s.mapTxSpends, e.2 = h := by
  have ⟨e, he, heq⟩ := mem_map.mp hc
  exact ⟨e, mem_of_mem_filter he, heq⟩

lemma spendersOf_mem (hc : h ∈ s.spendersOf o) : ∃ e ∈ s.mapTxSpends, e.2 = h := by
  have ⟨e, he, heq⟩ := mem_map.mp hc
  exact ⟨e, mem_of_mem_filter he, heq⟩

def Linked (s : CWallet κ) : Prop :=
  ∀ e ∈ s.mapTxSpends, e.2 ∈ s.mapWallet

section

variable (h : Within s0 s)
include h

lemma Within.linked (hl : s0.Linked) : s.Linked := by
  intro e he
  rw [h.spends] at he
  exact (h.wallet _).mpr (hl e he)

lemma Within.changeStatus (hl : s0.Linked) (now wtx) :
    Yields (changeStatus now wtx) s fun next s' => Within s0 s' ∧ ∀ a ∈ next, a ∈ s0.mapWallet := by
  refine Yields.bind (h.modifyTx ..) fun _ s1 h1 => ?_
  refine Yields.bind (h1.writeTx ..) fun _ s2 h2 => ?_
  refine Yields.get ?_
  refine Yields.bind (h2.markInputsDirty ..) fun _ s3 h3 => ?_
  refine .pure ⟨h3, fun a ha => ?_⟩
  have ⟨e, he, heq⟩ := childrenOf_mem ha
  rw [h2.spends] at he
  exact heq ▸ hl e he

lemma Within.visitConflicted (hl : s0.Linked) (n hashBlock)
    (hn : hash ∈ s0.mapWallet) : Yields (visitConflicted node n hashBlock hash) s
      fun next s' => Within s0 s' ∧ ∀ a ∈ next, a ∈ s0.mapWallet := by
  refine Yields.bind (entryAt_yields _ ((h.wallet _).mpr hn)) fun wtx s1 ⟨he, _⟩ => ?_
  subst he
  split
  · exact h.changeStatus hl ..
  · exact .pure ⟨h, nofun⟩

lemma Within.spread
    (hv : ∀ {k s}, k ∈ s0.mapWallet → Within s0 s → Yields (visit k) s
      fun next s' => Within s0 s' ∧ ∀ a ∈ next, a ∈ s0.mapWallet)
    (hn : hash ∈ s0.mapWallet) : Yields (spread hash visit) s fun _ => Within s0 := by
  refine Yields.get ?_
  refine Yields.bind (Worklist.run_yields hv (fun k hk => ?_) h) fun _ _ h => .pure h
  rw [Std.TreeSet.mem_ofList, contains_iff_mem, mem_singleton] at hk
  exact hk ▸ hn

lemma Within.markConflicted (hl : s0.Linked) (hashBlock) (hn : hash ∈ s0.mapWallet) :
    Yields (markConflicted node hashBlock hash) s fun _ => Within s0 := by
  simp only [CWallet.markConflicted]
  generalize (if node.contains (node.lookupBlockIndex hashBlock) = true then _ else 0 : Int) = n
  split
  · exact .pure h
  · exact h.spread (fun hk h => h.visitConflicted hl _ _ hk) hn

lemma Within.syncMetaData (hm : ∀ a ∈ hashes, a ∈ s0.mapWallet) :
    Yields (syncMetaData hashes) s fun _ => Within s0 := by
  have hread : Yields (hashes.forM fun hash => do
      let _ ← entryAt hash .outOfRange
      pure ()) s fun _ => Within s0 := by
    refine .forM (fun a ha s h => ?_) h
    refine Yields.bind (entryAt_yields _ ((h.wallet _).mpr (hm a ha))) fun _ _ ⟨he, _⟩ => ?_
    subst he
    exact .pure h
  refine Yields.bind hread fun _ s1 h1 => ?_
  refine Yields.get ?_
  cases s1.oldestOf hashes
  case none => exact .pure h1
  refine .forM (fun a _ s h => ?_) h1
  split
  · exact .pure h
  · exact h.modifyTx ..

end

-- The wallet has the transactions with certain hashes, and the database still has some records.
structure Loaded (hashes : Set Uint256) (txs : HashMap TxValue) (s : CWallet κ) : Prop where
  wallet : ∀ h, h ∈ s.mapWallet ↔ h ∈ hashes
  linked : s.Linked
  stored : ∀ h ∈ txs, h ∈ s.database.txs

variable {hashes : Set Uint256} {txs : HashMap TxValue}

section

variable (h : Loaded hashes txs s)
include h

lemma Loaded.within (hw : Within s s') : Loaded hashes txs s' where
  wallet a := (hw.wallet a).trans (h.wallet a)
  linked := hw.linked h.linked
  stored a ha := hw.stored a (h.stored a ha)

lemma Loaded.addSpend (outpoint : COutPoint) (hn : hash ∈ hashes) :
    Yields (addSpend outpoint hash) s fun _ => Loaded hashes txs := by
  let s1 : CWallet κ := { s with mapTxSpends := s.mapTxSpends ++ [(outpoint, hash)] }
  have hg : Loaded hashes txs s1 := by
    refine ⟨h.wallet, fun e he => ?_, h.stored⟩
    cases mem_append.mp he
    case inl he => exact h.linked e he
    case inr he =>
    rw [mem_singleton.mp he]
    exact (h.wallet _).mpr hn
  refine Yields.imp (Within.syncMetaData (.refl s1) fun a ha => ?_) fun _ _ hw => hg.within hw
  have ⟨e, he, heq⟩ := spendersOf_mem ha
  exact heq ▸ hg.linked e he

lemma Loaded.addToSpends (hn : hash ∈ hashes) :
    Yields (addToSpends hash) s fun _ => Loaded hashes txs := by
  refine Yields.bind (entryAt_yields _ ((h.wallet _).mpr hn)) fun wtx s1 ⟨he, _⟩ => ?_
  subst he
  split
  · exact .pure h
  · exact .forM (fun _ _ _ h => h.addSpend _ hn) h

lemma Loaded.insertIfNew (hash wtx) :
    Loaded (insert hash hashes) txs { s with mapWallet := s.mapWallet.insertIfNew hash wtx } where
  wallet a := mem_insertIfNew.trans (or_congr_right (h.wallet a))
  linked e he := mem_insertIfNew.mpr (.inr (h.linked e he))
  stored := h.stored

lemma Loaded.loadToWallet (wtxIn : CWalletTx) :
    Yields (loadToWallet node wtxIn) s fun _ => Loaded (insert wtxIn.getHash hashes) txs := by
  have hm : wtxIn.getHash ∈ insert wtxIn.getHash hashes := Set.mem_insert ..
  have hi : Yields (modify fun s => { s with
        mapWallet := s.mapWallet.insertIfNew wtxIn.getHash wtxIn } : WalletM κ Unit) s
      fun _ => Loaded (insert wtxIn.getHash hashes) txs := ⟨(), _, rfl, h.insertIfNew ..⟩
  refine Yields.bind hi fun _ s1 h1 => ?_
  refine Yields.bind (Within.modifyTx (.refl s1) ..) fun _ s2 hw => ?_
  refine Yields.bind ((h1.within hw).addToSpends hm) fun _ s3 h3 => ?_
  refine Yields.bind (entryAt_yields _ ((h3.wallet _).mpr hm)) fun wtx s4 ⟨he, hwtx⟩ => ?_
  subst he
  refine .forM (fun txin _ s h => ?_) h3
  refine Yields.get ?_
  cases s.mapWallet[txin.prevout.hash]?
  case none => exact .pure h
  change Yields (if _ then _ else _) s _
  split
  · refine Yields.imp (Within.markConflicted (.refl s) h.linked _ ?_) fun _ _ hw => h.within hw
    exact (h.wallet _).mpr hm
  · exact .pure h

end

end

section

def isRefused (item : Uint256 × TxValue) : Bool :=
  (item.2.accepted item.1).isNone

def isUpgraded (item : Uint256 × TxValue) : Bool :=
  (item.2.accepted item.1).any (·.1.isOld)

def isCleared (node : NodeView) (item : Uint256 × TxValue) : Bool :=
  (item.2.accepted item.1).any (·.1.isStale node)

def isLoaded (node : NodeView) (item : Uint256 × TxValue) : Bool :=
  (item.2.accepted item.1).any (!·.1.isStale node)

variable {items : List (Uint256 × TxValue)} {item : Uint256 × TxValue} {wss : CWalletScanState}
  {txs : HashMap TxValue}

lemma upgraded_toCMerkleTx (r : TxRecord) (trailer) :
    (r.upgraded trailer).toCMerkleTx = r.toCMerkleTx := by
  simp only [TxRecord.upgraded]
  split
  · rfl
  · split <;> rfl

lemma upgraded_isStale (r : TxRecord) (trailer) :
    (r.upgraded trailer).isStale node = r.isStale node := by
  have ht : (r.upgraded trailer).nTimeReceived = r.nTimeReceived := by
    simp only [TxRecord.upgraded]
    split
    · rfl
    · split <;> rfl
  simp [TxRecord.isStale, upgraded_toCMerkleTx, ht]

lemma accepted_record {value : TxValue} (h : value.accepted hash = some rt) :
    rt.1.getHash = hash ∧ ∃ t, value = .record rt.1 t := by
  cases value
  case unreadable => nomatch h
  case record r trailer =>
  simp only [TxValue.accepted] at h
  split at h
  case isTrue hc =>
    simp only [Bool.and_eq_true, decide_eq_true_eq] at hc
    rw [← Option.some.inj h]
    exact ⟨hc.1.2, trailer, rfl⟩
  · nomatch h

structure HaveRead (node : NodeView) (txs : HashMap TxValue) (items : List (Uint256 × TxValue))
    (wss : CWalletScanState) (s : CWallet κ) : Prop where
  loaded : Loaded { h | ∃ item ∈ items, isLoaded node item ∧ item.1 = h } txs s
  upgrade : wss.vWalletUpgrade = (items.filter isUpgraded).map Prod.fst
  clear : wss.vWalletClear = (items.filter (isCleared node)).map Prod.fst
  errors : wss.fNoncriticalErrors = items.any isRefused

lemma Loaded.congr (h : Loaded hashes txs s) (he : hashes' = hashes) : Loaded hashes' txs s :=
  he ▸ h

lemma HaveRead.readTx (h : HaveRead node txs items wss s) (item : Uint256 × TxValue) :
    Yields (readTx node wss item) s (HaveRead node txs (items ++ [item])) := by
  have ⟨hash, value⟩ := item
  cases ha : value.accepted hash
  case none =>
    have hr : CWallet.readTx node wss (hash, value) s =
        .ok { wss with fNoncriticalErrors := true } s := by
      simp only [CWallet.readTx, ha]
      rfl
    refine ⟨_, _, hr, h.loaded.congr ?_, ?_, ?_, ?_⟩
    · simp [isLoaded, ha]
    · simp [isUpgraded, ha, h.upgrade]
    · simp [isCleared, ha, h.clear]
    · simp [isRefused, ha]
  case some rt =>
  have ⟨r, trailer⟩ := rt
  have hup : (if r.isOld then wss.vWalletUpgrade ++ [hash] else wss.vWalletUpgrade) =
      ((items ++ [(hash, value)]).filter isUpgraded).map Prod.fst := by
    rw [filter_append, map_append, ← h.upgrade]
    split <;> simp [isUpgraded, *]
  have herr : wss.fNoncriticalErrors = (items ++ [(hash, value)]).any isRefused := by
    simp [isRefused, ha, h.errors]
  simp only [CWallet.readTx, ha, upgraded_isStale]
  split
  case isTrue hs =>
    refine .pure ⟨h.loaded.congr ?_, hup, ?_, herr⟩
    · simp [isLoaded, ha, hs]
    · simp [isCleared, ha, hs, h.clear]
  rename_i hs
  refine Yields.bind (h.loaded.loadToWallet _) fun _ s1 h1 => ?_
  refine .pure ⟨h1.congr ?_, hup, ?_, herr⟩
  · have hh : CMerkleTx.getHash (r.upgraded trailer).toCMerkleTx = hash := by
      rw [upgraded_toCMerkleTx]
      exact (accepted_record ha).1
    have hl : isLoaded node (hash, value) := by simp [isLoaded, ha, hs]
    ext a
    simp only [mem_append, mem_singleton, or_and_right, exists_or, exists_eq_left,
      Set.mem_ofPred_eq, Set.mem_insert_iff, hh, hl, true_and]
    rw [or_comm, eq_comm]
  · simp [isCleared, ha, hs, h.clear]

end

section

variable {keys : κ} {database : WalletDatabase} {hashes : List Uint256} {txs : HashMap TxValue}

lemma foldl_readOther (others : List (String × Bool)) (result : DBErrors) (b) :
    others.foldl readOther (result, b) = ((others.foldl readOther (result, false)).1,
        b || (others.foldl readOther (result, false)).2) := by
  induction others generalizing result b
  case nil => simp
  case cons item others hi =>
  have hr : readOther (result, b) item =
      ((readOther (result, false) item).1, b || (readOther (result, false) item).2) := by
    simp only [readOther]
    repeat' split
    all_goals simp
  rw [foldl_cons, foldl_cons, hr]
  have ⟨result', b'⟩ := readOther (result, false) item
  rw [hi result' (b || b'), hi result' b', Bool.or_assoc]

lemma loadResult_ok :
    loadResult others b = .LOAD_OK ↔ b = false ∧ loadResult others false = .LOAD_OK := by
  simp only [loadResult]
  rw [foldl_readOther]
  cases b
  case false => simp
  split <;> simp_all

lemma Within.writeUpgradedTx (h : Within s0 s) (hm : hash ∈ s0.mapWallet) :
    Yields (do
      let wtx ← entryAt hash .outOfRange
      let _ ← CWallet.writeTx hash wtx.toTxRecord
      pure () : WalletM κ Unit) s fun _ => Within s0 := by
  refine Yields.bind (entryAt_yields _ ((h.wallet _).mpr hm)) fun _ _ ⟨he, _⟩ => ?_
  subst he
  exact Yields.bind (h.writeTx ..) fun _ _ h => .pure h

lemma writeUpgraded_yields (h : ∀ a ∈ hashes, a ∈ s.mapWallet) :
    Yields (writeUpgraded hashes) s fun _ => Within s :=
  .forM (fun a ha _ h1 => h1.writeUpgradedTx (h a ha)) (.refl s)

lemma writeUpgraded_fails (h : ∃ a ∈ hashes, a ∉ s.mapWallet) :
    Fails (writeUpgraded hashes) s fun s' => ∀ a ∈ s.database.txs, a ∈ s'.database.txs := by
  induction hashes generalizing s
  case nil => simp at h
  case cons a hashes hi =>
  by_cases ha : a ∈ s.mapWallet
  · have ⟨_, s1, hone, hw⟩ := Within.writeUpgradedTx (.refl s) ha
    have ⟨b, hb, hn⟩ := h
    have hb : b ∈ hashes := (mem_cons.mp hb).resolve_left fun he => hn (he ▸ ha)
    have ⟨e, s', he, hs⟩ := @hi s1 ⟨b, hb, hn ∘ (hw.wallet _).mp⟩
    exact ⟨e, s', (bind_of_ok hone).trans he, fun a ha => hs a (hw.stored a ha)⟩
  refine ⟨.outOfRange, s, ?_, fun _ => id⟩
  exact bind_of_error (bind_of_error (entryAt_error ha))

lemma mem_eraseTx : Yields (hashes.forM eraseTx) s fun _ s' =>
    ∀ a, a ∈ s'.database.txs ↔ a ∈ s.database.txs ∧ a ∉ hashes := by
  induction hashes generalizing s
  case nil => exact .pure (by simp)
  case cons b hashes hi =>
  have herase : Yields (eraseTx b) s fun _ s' =>
      ∀ a, a ∈ s'.database.txs ↔ a ≠ b ∧ a ∈ s.database.txs :=
    ⟨(), _, rfl, fun a => mem_erase⟩
  refine Yields.bind herase fun _ s1 he => ?_
  refine Yields.imp hi fun _ s' h a => ?_
  rw [h a, he a, mem_cons, not_or, and_comm, ← and_assoc, and_comm, and_comm (a := a ∉ hashes)]

structure LoadsCleanly (node : NodeView) (database : WalletDatabase) : Prop where
  version : database.tooNew = false
  others : loadResult database.others false = .LOAD_OK
  accepted : ∀ item ∈ database.txs.toList, ¬isRefused item
  upgraded : ∀ item ∈ database.txs.toList, isUpgraded item → ¬isCleared node item

def Erases (node : NodeView) (s : CWallet κ) (hash : Uint256) : Prop :=
  hash ∈ s.database.txs ∧ hash ∉ (loadWallet node s).final.database.txs

lemma haveRead (node : NodeView) (keys : κ) (database) :
    Yields (database.txs.toList.foldlM (readTx node) {}) (unloaded keys database)
      (HaveRead node database.txs database.txs.toList) := by
  have h0 : HaveRead node database.txs [] {} (unloaded keys database) := by
    refine ⟨⟨?_, nofun, fun _ => id⟩, rfl, rfl, rfl⟩
    simp [unloaded]
  exact Yields.foldlM (fun item _ _ _ _ h => h.readTx item) h0

lemma isLoaded_iff : isLoaded node item ↔ ¬isRefused item ∧ ¬isCleared node item := by
  simp only [isLoaded, isRefused, isCleared]
  cases item.2.accepted item.1 <;> simp

lemma item_unique (h : item ∈ txs.toList) (h' : item' ∈ txs.toList) (he : item.1 = item'.1) :
    item = item' := by
  have ⟨a, v⟩ := item
  rw [Std.TreeMap.mem_toList_iff_getElem?_eq_some] at h h'
  subst he
  rw [h] at h'
  rw [Option.some.inj h']

lemma HaveRead.upgraded_iff (h : HaveRead node txs txs.toList wss s)
    (ha : ∀ item ∈ txs.toList, ¬isRefused item) :
    (∀ a ∈ wss.vWalletUpgrade, a ∈ s.mapWallet) ↔
      ∀ item ∈ txs.toList, isUpgraded item → ¬isCleared node item := by
  simp only [h.upgrade, h.loaded.wallet, mem_map, mem_filter, Set.mem_ofPred_eq]
  constructor
  · intro hl item hi hu
    obtain ⟨item', hi', hl', he⟩ := hl item.1 ⟨item, ⟨hi, hu⟩, rfl⟩
    rw [← item_unique hi' hi he]
    exact (isLoaded_iff.mp hl').2
  rintro hc a ⟨item, ⟨hi, hu⟩, he⟩
  exact ⟨item, hi, isLoaded_iff.mpr ⟨ha item hi, hc item hi hu⟩, he⟩

section

variable {others : List (String × Bool)} {wss : CWalletScanState}

lemma finishLoading_refused (h : loadResult others wss.fNoncriticalErrors ≠ .LOAD_OK) :
    finishLoading others wss s = .ok (loadResult others wss.fNoncriticalErrors) s := by
  rw [finishLoading, if_pos h]
  rfl

lemma finishLoading_fails (h : loadResult others wss.fNoncriticalErrors = .LOAD_OK)
    (hup : ∃ a ∈ wss.vWalletUpgrade, a ∉ s.mapWallet) :
    Fails (finishLoading others wss) s fun s' => ∀ a ∈ s.database.txs, a ∈ s'.database.txs := by
  have ⟨e, s', he, hs⟩ := writeUpgraded_fails hup
  rw [finishLoading, if_neg (not_not.mpr h)]
  exact ⟨e, s', bind_of_error he, hs⟩

lemma finishLoading_yields (h : loadResult others wss.fNoncriticalErrors = .LOAD_OK)
    (hup : ∀ a ∈ wss.vWalletUpgrade, a ∈ s.mapWallet) :
    Yields (finishLoading others wss) s fun _ s' => ∀ a ∈ s.database.txs,
      a ∈ s'.database.txs ↔ a ∉ wss.vWalletClear := by
  rw [finishLoading, if_neg (not_not.mpr h)]
  refine Yields.bind (writeUpgraded_yields hup) fun _ s1 h1 => ?_
  refine Yields.bind mem_eraseTx fun _ s2 h2 => ?_
  exact .pure fun a ha => (h2 a).trans (and_iff_right (h1.stored a ha))

end

lemma mem_toList_value :
    hash ∈ (txs.toList.filter p).map Prod.fst ↔ ∃ value, txs[hash]? = some value ∧ p (hash, value) := by
  simp [Std.TreeMap.mem_toList_iff_getElem?_eq_some]

lemma loadWallet_eq (node : NodeView) (keys : κ) (database) :
    loadWallet node (unloaded keys database) = (if database.tooNew then pure .TOO_NEW else
      database.txs.toList.foldlM (readTx node) {} >>= finishLoading database.others)
      (unloaded keys database) :=
  rfl

lemma erases_iff : Erases node (unloaded keys database) hash ↔
    LoadsCleanly node database ∧
      ∃ value, database.txs[hash]? = some value ∧ isCleared node (hash, value) := by
  have ⟨wss, s1, hr, h1⟩ := haveRead node keys database
  have hload := loadWallet_eq node keys database
  -- As long as no record has been erased there is nothing to show but that loading is not clean.
  have hkept {r : Result WalletError (CWallet κ) DBErrors}
      (hl : loadWallet node (unloaded keys database) = r)
      (hs : ∀ a ∈ database.txs, a ∈ r.final.database.txs) (hn : ¬LoadsCleanly node database) :
      Erases node (unloaded keys database) hash ↔ LoadsCleanly node database ∧
        ∃ value, database.txs[hash]? = some value ∧ isCleared node (hash, value) := by
    refine iff_of_false (fun he => ?_) (fun h => hn h.1)
    rw [Erases, hl] at he
    exact he.2 (hs hash he.1)
  cases hv : database.tooNew
  case true =>
    rw [hv, if_pos rfl] at hload
    refine hkept hload (fun _ => id) fun h => ?_
    rw [h.version] at hv
    nomatch hv
  rw [hv, if_neg nofun, bind_of_ok hr] at hload
  by_cases hres : loadResult database.others wss.fNoncriticalErrors = .LOAD_OK
  case neg =>
    refine hkept (hload.trans (finishLoading_refused hres)) h1.loaded.stored fun h => hres ?_
    refine loadResult_ok.mpr ⟨?_, h.others⟩
    rw [h1.errors, any_eq_false]
    exact h.accepted
  have ⟨herr, hothers⟩ := loadResult_ok.mp hres
  rw [h1.errors, any_eq_false] at herr
  by_cases hup : ∀ a ∈ wss.vWalletUpgrade, a ∈ s1.mapWallet
  case neg =>
    have hmissing : ∃ a ∈ wss.vWalletUpgrade, a ∉ s1.mapWallet := by simpa using hup
    have ⟨e, s2, he, hs⟩ := finishLoading_fails hres hmissing
    refine hkept (hload.trans he) (fun a ha => hs a (h1.loaded.stored a ha)) fun h => ?_
    exact hup ((h1.upgraded_iff herr).mpr h.upgraded)
  have hclean : LoadsCleanly node database := ⟨hv, hothers, herr, (h1.upgraded_iff herr).mp hup⟩
  have ⟨_, s2, he, hs⟩ := finishLoading_yields hres hup
  rw [Erases, hload, he, and_iff_right hclean, ← mem_toList_value, ← h1.clear]
  constructor
  · intro ⟨hm, hn⟩
    exact not_not.mp fun hc => hn ((hs hash (h1.loaded.stored hash hm)).mpr hc)
  intro hc
  have hm : hash ∈ database.txs := by
    rw [h1.clear, mem_toList_value] at hc
    have ⟨value, hv, _⟩ := hc
    exact mem_iff.mpr ⟨value, hv⟩
  exact ⟨hm, fun hf => (hs hash (h1.loaded.stored hash hm)).mp hf hc⟩

end

end CWallet

-- The blocks that a node has stored, and whether each is valid after its ancestors.
structure BlockStore where
  vtx : CBlockIndex → Option (List CTransaction)
  valid : CBlockIndex → Bool

namespace BlockStore

def Usable (store : BlockStore) (pindex : CBlockIndex) : Prop :=
  ∀ q, q <:+ pindex → q ≠ [] → (store.vtx q).isSome ∧ store.valid q

structure IsBest (store : BlockStore) (best : CBlockIndex) : Prop where
  usable : store.Usable best
  most : ∀ pindex, store.Usable pindex → nChainWork blockProof pindex ≤ nChainWork blockProof best

def Confirms (store : BlockStore) (best : CBlockIndex) (hash : Uint256) : Prop :=
  ∃ q, q <:+ best ∧ q ≠ [] ∧ ∃ vtx, store.vtx q = some vtx ∧ ∃ tx ∈ vtx, tx.getHash = hash

end BlockStore

section

variable {κ : Type} {node : NodeView} {params : Params} {stored : StoredChain} {mode : StartMode}
  {adjustedTime : Int} {keys : κ} {database : WalletDatabase} {store : BlockStore} {r : TxRecord}

def KeepsConfirmed (node : NodeView) (s : CWallet κ) (store : BlockStore) : Prop :=
  ∀ best, store.IsBest best → ∀ hash, CWallet.Erases node s hash → ¬store.Confirms best hash

-- The record names a block of the chain at the start, which keeps the coins.
structure StoredChain.Names (stored : StoredChain) (mode : StartMode) (r : TxRecord) : Prop where
  mode : mode = .normal
  coins : stored.bestBlock ≠ 0
  block : ¬r.hashUnset
  index : r.nIndex ≠ -1
  found : stored.lookupBlockIndex r.hashBlock ≠ []
  below : stored.lookupBlockIndex r.hashBlock <:+ stored.lookupBlockIndex stored.bestBlock

lemma chainAtWalletOpen_normal (h : stored.chainAtWalletOpen .normal = some tip) :
    tip = if stored.bestBlock = 0 then [] else stored.lookupBlockIndex stored.bestBlock := by
  simp only [StoredChain.chainAtWalletOpen] at h
  split
  case isTrue hb =>
    rw [if_pos hb] at h
    exact (Option.some.inj h).symm
  rename_i hb
  rw [if_neg hb] at h
  cases hl : stored.lookupBlockIndex stored.bestBlock
  case nil =>
    rw [hl] at h
    nomatch h
  case cons b pprev =>
  rw [hl] at h
  exact (Option.some.inj h).symm

lemma depth_pos_iff_names (h : stored.atWalletOpen params adjustedTime mode = some node) :
    0 < r.getDepthInMainChain node ↔ stored.Names mode r := by
  obtain ⟨chainActive, hc, he⟩ := Option.map_eq_some_iff.mp h
  subst he
  rw [CMerkleTx.depth_pos_iff, CMerkleTx.atBlock, Bool.and_eq_true, Bool.not_eq_true',
    NodeView.contains_iff]
  constructor
  · rintro ⟨⟨hu, hne, hs⟩, hi⟩
    -- Without an active chain there is no block that could be named.
    have hchain : chainActive ≠ [] := by
      intro he
      subst he
      exact hne (suffix_nil.mp hs)
    cases mode
    case reindex => exact absurd (Option.some.inj hc).symm hchain
    case reindexChainState => exact absurd (Option.some.inj hc).symm hchain
    case normal =>
    have htip := chainAtWalletOpen_normal hc
    by_cases hb : stored.bestBlock = 0
    · rw [if_pos hb] at htip
      exact absurd htip hchain
    rw [if_neg hb] at htip
    exact ⟨rfl, hb, by simp [hu], hi, hne, htip ▸ hs⟩
  intro hn
  have hm := hn.mode
  subst hm
  have htip := chainAtWalletOpen_normal hc
  rw [if_neg hn.coins] at htip
  exact ⟨⟨by simpa using hn.block, hn.found, htip ▸ hn.below⟩, hn.index⟩

open CWallet in
lemma isCleared_record {hash : Uint256} (h : ¬isRefused (hash, .record r trailer)) :
    isCleared node (hash, .record r trailer) = r.isStale node := by
  simp only [isRefused, Option.isNone_iff_eq_none, TxValue.accepted] at h
  simp only [isCleared, TxValue.accepted]
  split at h
  case isTrue hc =>
    rw [if_pos hc]
    rfl
  · simp at h

lemma isStale_iff : r.isStale node ↔
    ¬0 < r.getDepthInMainChain node ∧ node.adjustedTime - r.nTimeReceived > 60 * 60 := by
  simp [TxRecord.isStale]

lemma erases_iff_not_names (h : stored.atWalletOpen params adjustedTime mode = some node)
    {hash : Uint256} : CWallet.Erases node (.unloaded keys database) hash ↔
      CWallet.LoadsCleanly node database ∧ ∃ r trailer,
        database.txs[hash]? = some (.record r trailer) ∧
        adjustedTime - r.nTimeReceived > 60 * 60 ∧ ¬stored.Names mode r := by
  have htime : node.adjustedTime = adjustedTime := by
    have ⟨_, _, he⟩ := Option.map_eq_some_iff.mp h
    rw [← he]
  rw [erases_iff]
  refine and_congr_right fun hclean => ⟨fun ⟨value, hv, hc⟩ => ?_, fun ⟨r, trailer, hv, ht, hn⟩ => ?_⟩
  case _ =>
    have hm := Std.TreeMap.mem_toList_iff_getElem?_eq_some.mpr hv
    cases value
    case unreadable => exact absurd rfl (hclean.accepted _ hm)
    case record r trailer =>
    rw [isCleared_record (hclean.accepted _ hm), isStale_iff, depth_pos_iff_names h, htime] at hc
    exact ⟨r, trailer, hv, hc.2, hc.1⟩
  case _ =>
  have hm := Std.TreeMap.mem_toList_iff_getElem?_eq_some.mpr hv
  refine ⟨_, hv, ?_⟩
  rw [isCleared_record (hclean.accepted _ hm), isStale_iff, depth_pos_iff_names h, htime]
  exact ⟨hn, ht⟩

-- Loading keeps confirmed transactions if it stops early, or their old ones are in the chain.
theorem keepsConfirmed_iff (h : stored.atWalletOpen params adjustedTime mode = some node) :
    KeepsConfirmed node (.unloaded keys database) store ↔
      ¬CWallet.LoadsCleanly node database ∨ ∀ best, store.IsBest best →
        ∀ hash r trailer, database.txs[hash]? = some (.record r trailer) →
          adjustedTime - r.nTimeReceived > 60 * 60 → store.Confirms best hash →
          stored.Names mode r := by
  simp only [KeepsConfirmed, erases_iff_not_names h]
  constructor
  · intro hk
    by_cases hclean : CWallet.LoadsCleanly node database
    case neg => exact .inl hclean
    refine .inr fun best hb hash r trailer hv ht hc => ?_
    by_contra hn
    exact hk best hb hash ⟨hclean, r, trailer, hv, ht, hn⟩ hc
  intro hk best hb hash ⟨hclean, r, trailer, hv, ht, hn⟩ hc
  cases hk
  case inl hk => exact hk hclean
  case inr hk => exact hn (hk best hb hash r trailer hv ht hc)

end

section

-- Two blocks, and a transaction in the second that the wallet has recorded as being there.

def lowerEntry : IndexHeader where
  hash := 100
  nVersion := 1
  hashMerkleRoot := 0
  nTime := 500
  nBits := 0x1d00ffff
  nNonce := 0
  fProofOfStake := false

def upperEntry : IndexHeader :=
  { lowerEntry with hash := 101, nTime := 1000 }

def payment : CTransaction where
  vin := [{ prevout := ⟨7, 0⟩ }]
  vout := [{ nValue := 5 * COIN, scriptPubKey := [OP_1] }]
  hash := 42
  witnessHash := 42

def paymentRecord : TxRecord where
  tx := payment
  hashBlock := 101
  nIndex := 1
  mapValue      := [("comment", "rent")]
  nTimeReceived := 900
  fFromMe := true
  nOrderPos := 0

def paymentDatabase : WalletDatabase where
  txs := Std.TreeMap.ofList [(42, .record paymentRecord .empty)] Uint256.compare

def twoBlocks : StoredChain where
  index := [[lowerEntry], [upperEntry, lowerEntry]]
  bestBlock := 101

def twoBlockStore : BlockStore where
  vtx pindex :=
    if pindex = [lowerEntry] then some [] else
    if pindex = [upperEntry, lowerEntry] then some [payment] else none
  valid _ := true

lemma twoBlockStore_best : twoBlockStore.IsBest [upperEntry, lowerEntry] where
  usable q hs hne := by
    rw [suffix_cons_iff, suffix_cons_iff, suffix_nil] at hs
    rcases hs with rfl | rfl | rfl
    · exact ⟨rfl, rfl⟩
    · exact ⟨rfl, rfl⟩
    · exact absurd rfl hne
  most pindex hu := by
    cases pindex
    case nil => exact Nat.zero_le _
    case cons b pprev =>
    have ⟨hs, _⟩ := hu (b :: pprev) (suffix_refl _) nofun
    simp only [twoBlockStore] at hs
    split at hs
    case isTrue he =>
      rw [he]
      decide +kernel
    split at hs
    case isTrue he => rw [he]
    · nomatch hs

lemma twoBlockStore_confirms : twoBlockStore.Confirms [upperEntry, lowerEntry] 42 :=
  ⟨_, suffix_refl _, nofun, _, rfl, payment, mem_singleton_self _, rfl⟩

lemma paymentDatabase_loads (node) : CWallet.LoadsCleanly node paymentDatabase where
  version := rfl
  others := rfl
  accepted := by decide +kernel
  upgraded := by
    have h : ∀ item ∈ paymentDatabase.txs.toList, ¬isUpgraded item := by decide +kernel
    exact fun item hi hu => absurd hu (h item hi)

theorem keepsConfirmed_normal :
    ∃ node, twoBlocks.atWalletOpen Params.mainNet 1000000 .normal = some node ∧
      KeepsConfirmed node (.unloaded () paymentDatabase) twoBlockStore := by
  have ⟨node, h⟩ : ∃ node, twoBlocks.atWalletOpen Params.mainNet 1000000 .normal = some node :=
    ⟨_, rfl⟩
  refine ⟨node, h, (keepsConfirmed_iff h).mpr (.inr fun best _ hash r trailer hv _ _ => ?_)⟩
  have hr : ∀ item ∈ paymentDatabase.txs.toList, item.2 = .record paymentRecord .empty := by
    decide +kernel
  have he := hr (hash, .record r trailer) (Std.TreeMap.mem_toList_iff_getElem?_eq_some.mpr hv)
  cases he
  exact ⟨rfl, by decide, by decide, by decide, by decide, by decide⟩

-- With `-reindex-chainstate` the record is gone, although the block and its place in the index are not.
theorem reindexChainState_erases_confirmed :
    ∃ node, twoBlocks.atWalletOpen Params.mainNet 1000000 .reindexChainState = some node ∧
      ¬KeepsConfirmed node (.unloaded () paymentDatabase) twoBlockStore := by
  have ⟨node, h⟩ :
      ∃ node, twoBlocks.atWalletOpen Params.mainNet 1000000 .reindexChainState = some node :=
    ⟨_, rfl⟩
  refine ⟨node, h, fun hk => hk _ twoBlockStore_best 42 ?_ twoBlockStore_confirms⟩
  refine (erases_iff_not_names h).mpr ⟨paymentDatabase_loads node, paymentRecord, .empty, ?_, ?_, ?_⟩
  · decide +kernel
  · decide
  · exact fun hn => nomatch hn.mode

end

end Taler
