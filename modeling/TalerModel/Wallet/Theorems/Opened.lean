import TalerModel.Wallet.Theorems.Reload

namespace Taler

open EStateM CWallet

lemma WalletDatabase.write_txs {database : WalletDatabase} {hash a : Uint256} (ha : a ≠ hash) :
    (database.write hash r).txs[a]? = database.txs[a]? := by
  change (if _ then _ else _ : HashMap TxValue)[a]? = _
  split
  · rw [OrderedMap.getElem?_insert, if_neg ha]
  · rfl

namespace CWallet

variable {κ : Type} {ctx : WalletContext κ} {node : NodeView} {r r' : CWallet κ} {hash h : Uint256}
  {content : TxContent} {txs : HashMap TxValue}

section

-- Of the records read, memory and disk hold the same, and the others are as they were.
structure Opening (content : TxContent) (txs : HashMap TxValue) (r : CWallet κ) : Prop where
  writable : r.database.Writable
  indexed : Indexed content r
  synced : ∀ h ∈ r.mapWallet, r.merkleTx h = r.database.merkleTx h
  unread : ∀ h ∉ r.mapWallet, r.database.txs[h]? = txs[h]?

-- The hash of a stored transaction stands for what it spends and for its outputs.
def StoredContent (content : TxContent) (txs : HashMap TxValue) : Prop :=
  ∀ {h : Uint256} {r : TxRecord} {t : Trailer}, txs[h]? = some (.record r t) → r.getHash = h →
    r.tx.HasContent content

lemma Opening.syncs (ho : Opening content txs r) (hs : Syncs r r')
    (hi : Indexed content r') (hm : ∀ h, h ∈ r'.mapWallet ↔ h ∈ r.mapWallet)
    (hu : ∀ h ∉ r.mapWallet, r'.database.txs[h]? = r.database.txs[h]?) : Opening content txs r' := by
  refine ⟨hs.writable ho.writable, hi, fun h hh => ?_, fun h hh => ?_⟩
  · have hh := (hm h).mp hh
    cases hs.syncsAt ho.writable h
    case inl he => rw [he.1, he.2, ho.synced h hh]
    case inr he => exact he
  have hh := fun hn => hh ((hm h).mpr hn)
  rw [hu h hh, ho.unread h hh]

lemma Opening.move (ho : Opening content txs r) (hm : Move ctx node [] r r') :
    Opening content txs r' := by
  have hi := hm.indexed (fun _ h => absurd h List.not_mem_nil) ho.indexed
  have hs := hm.syncs
  cases hm
  case mark now wtx hashBlock hw hc =>
    refine ho.syncs hs hi (fun h => OrderedMap.mem_of_map (hc.entries h)) fun h hh => ?_
    rw [hc.database]
    exact WalletDatabase.write_txs fun he => hh (he ▸ OrderedMap.mem_iff.mpr ⟨_, hw⟩)
  case keys hm => nomatch hm
  case add hm _ _ => nomatch hm
  case unwritten hm _ => nomatch hm
  case pool hm => exact ho.syncs hs hi hm.mem fun h _ => by rw [hm.database]

lemma Opening.moves (hm : Moves ctx node [] r r') (ho : Opening content txs r) :
    Opening content txs r' := by
  induction hm
  case refl => exact ho
  case tail hm hi => exact hi.move hm

lemma Opening.enters (ho : Opening content txs r) (hin : wtxIn.tx.HasContent content)
    (hst : txs[wtxIn.getHash]?.bind TxValue.merkleTx = some wtxIn.toCMerkleTx)
    (he : Enters wtxIn r r') : Opening content txs r' := by
  refine ⟨he.database ▸ ho.writable, he.indexed hin ho.indexed, fun h hh => ?_, fun h hh => ?_⟩
  · have ⟨m, hm⟩ := mem_iff_merkleTx.mp hh
    rw [hm, he.database]
    cases he.merkleTx hm
    case inl hr => rw [← ho.synced h (mem_iff_merkleTx.mpr ⟨m, hr⟩), hr]
    case inr hr =>
      rw [WalletDatabase.merkleTx, ho.unread h hr.1, hr.2.1, hst, hr.2.2]
  rw [he.database]
  exact ho.unread h fun hn => hh ((he.mem h).mpr (.inr hn))

lemma Opening.loadToWallet (ctx : WalletContext κ) (ho : Opening content txs r)
    (hin : wtxIn.tx.HasContent content)
    (hst : txs[wtxIn.getHash]?.bind TxValue.merkleTx = some wtxIn.toCMerkleTx)
    (hrun : loadToWallet node wtxIn r = .ok u r') : Opening content txs r' := by
  have ⟨r1, wtx, he, _, hloop⟩ := loadToWallet_parts hrun
  have hmoves : Moves ctx node [] r1 r' := by
    refine Leads.forM Moves.refl Moves.trans (fun txin _ r u r' hround => ?_) _ _ _ hloop
    cases inheritConflict_cases hround
    case inl he => exact he ▸ .refl _
    case inr hc =>
    have ⟨_, _, _, _, _, hmark⟩ := hc
    exact markConflicted_moves _ _ _ _ _ hmark
  exact .moves hmoves (ho.enters hin hst he)

lemma Opening.readTx (ctx : WalletContext κ) (hc : StoredContent content txs)
    (hitem : item ∈ txs.toList) (ho : Opening content txs r)
    (hrun : readTx node wss item r = .ok wss' r') : Opening content txs r' := by
  obtain rfl | ⟨rec, t, wtxIn, hv, hhash, htx, hload⟩ := readTx_cases hrun
  · exact ho
  rw [Std.TreeMap.mem_toList_iff_getElem?_eq_some, hv] at hitem
  refine ho.loadToWallet ctx ?_ ?_ hload
  · rw [htx]
    exact hc hitem hhash
  rw [htx]
  exact Option.bind_eq_some_iff.mpr ⟨_, hhash ▸ hitem, rfl⟩

lemma Opening.writeUpgraded {hashes : List Uint256} {u : Unit} (ho : Opening content txs r)
    (hrun : writeUpgraded hashes r = .ok u r') : Opening content txs r' := by
  refine Leads.forM_preserves (fun hash _ r u r' h ho => ?_) _ _ _ hrun ho
  have ⟨wtx, r1, h1, h2⟩ := bind_eq_ok.mp h
  have ⟨hs, hw⟩ := entryAt_eq_ok.mp h1
  have ⟨_, r2, h3, h4⟩ := bind_eq_ok.mp h2
  rw [hs] at h3
  cases h3
  cases h4
  refine ho.syncs (syncs_of_write (fun _ _ => rfl) ?_ rfl) ⟨ho.indexed.keyed, ho.indexed.spends⟩
    (fun _ => .rfl) fun a ha => ?_
  · change r.merkleTx hash = _
    rw [merkleTx, hw, Option.map_some]
  · exact WalletDatabase.write_txs fun he => ha (he ▸ OrderedMap.mem_iff.mpr ⟨wtx, hw⟩)

lemma eraseTxs_spec {hashes : List Uint256} (hrun : hashes.forM eraseTx r = .ok u r') :
    r'.mapWallet = r.mapWallet ∧ r'.mapTxSpends = r.mapTxSpends ∧
      r'.database.outcomes = r.database.outcomes ∧
      ∀ a : Uint256, r'.database.txs[a]? = if a ∈ hashes then none else r.database.txs[a]? := by
  induction hashes generalizing r
  case nil =>
    cases hrun
    simp
  case cons b hashes hi =>
  have ⟨_, r1, h1, h2⟩ := bind_eq_ok.mp hrun
  cases h1
  have ⟨hw, hs, ho, ht⟩ := hi h2
  refine ⟨hw, hs, ho, fun a => ?_⟩
  rw [ht a]
  rw [OrderedMap.getElem?_erase]
  by_cases ha : a ∈ hashes <;> by_cases hb : a = b <;> simp [ha, hb]

end

section

variable {keys : κ} {database : WalletDatabase}

lemma finishLoading_parts (h : finishLoading others wss r = .ok .LOAD_OK r') :
    ∃ r1, writeUpgraded wss.vWalletUpgrade r = .ok () r1 ∧
      wss.vWalletClear.forM eraseTx r1 = .ok () r' := by
  rw [finishLoading, if_neg (not_not.mpr (finishLoading_upgraded h).1)] at h
  obtain ⟨_, r1, h1, h2⟩ := bind_eq_ok.mp h
  obtain ⟨_, r2, h3, h4⟩ := bind_eq_ok.mp h2
  exact ⟨r1, h1, (Result.ok.inj h4).2 ▸ h3⟩

lemma loadWallet_durable (ctx : WalletContext κ) (hw : database.Writable)
    (hc : StoredContent content database.txs)
    (hl : loadWallet node (unloaded keys database) = .ok .LOAD_OK r') :
    Durable r' ∧ Indexed content r' := by
  obtain ⟨hclean, wss, r, hread, hhave, hwallet, hspends⟩ := loadWallet_ok hl
  have h0 : Opening content database.txs (unloaded keys database) := by
    refine ⟨hw, ⟨fun h => ?_, fun e => ?_⟩, fun h hh => ?_, fun _ _ => rfl⟩
    all_goals simp [unloaded] at *
  have ho := Leads.foldlM_preserves (fun _ hitem _ _ _ _ hrun ho => ho.readTx ctx hc hitem hrun)
      _ _ _ _ hread h0
  have hfinish : finishLoading database.others wss r = .ok .LOAD_OK r' := by
    have hload := loadWallet_eq node keys database
    rw [hl, hclean.version, if_neg Bool.false_ne_true, bind_of_ok hread] at hload
    exact hload.symm
  obtain ⟨r1, hup, herase⟩ := finishLoading_parts hfinish
  have ho1 := ho.writeUpgraded hup
  obtain ⟨hw2, hs2, hout, htxs⟩ := eraseTxs_spec herase
  have hm2 a : r'.merkleTx a = r1.merkleTx a := by
    rw [merkleTx, merkleTx, hw2]
  have hmem a : a ∈ r1.mapWallet ↔ a ∈ r.mapWallet := by rw [← hw2, hwallet]
  have hclear a : a ∈ wss.vWalletClear ↔
      ∃ value, database.txs[a]? = some value ∧ isCleared node (a, value) := by
    rw [hhave.clear, mem_toList_value]
  have hloaded {a : Uint256} {value : TxValue} (hv : database.txs[a]? = some value) :
      a ∈ r.mapWallet ↔ ¬isCleared node (a, value) := by
    have hitem := Std.TreeMap.mem_toList_iff_getElem?_eq_some.mpr hv
    rw [hhave.loaded.wallet]
    constructor
    · rintro ⟨item, hi, hl, he⟩
      rw [← item_unique hi hitem he]
      exact (isLoaded_iff.mp hl).2
    · exact fun hn => ⟨_, hitem, isLoaded_iff.mpr ⟨hclean.accepted _ hitem, hn⟩, rfl⟩
  refine ⟨⟨fun n => ?_, fun a => ?_⟩, ⟨fun {a w} ha => ?_, fun e => ?_⟩⟩
  · rw [hout]
    exact ho1.writable n
  · rw [hm2, WalletDatabase.merkleTx, htxs]
    by_cases ha : a ∈ r.mapWallet
    · have hn : a ∉ wss.vWalletClear := by
        rw [hclear]
        rintro ⟨value, hv, hcl⟩
        exact (hloaded hv).mp ha hcl
      rw [if_neg hn]
      exact ho1.synced a ((hmem a).mpr ha)
    have hnone : r1.merkleTx a = none := by
      rw [merkleTx, Std.TreeMap.getElem?_eq_none (fun hm => ha ((hmem a).mp hm)), Option.map_none]
    rw [hnone, ho1.unread a fun hm => ha ((hmem a).mp hm)]
    split
    · rfl
    rename_i hn
    cases hv : database.txs[a]?
    case none => rfl
    case some value =>
    have hcl := not_not.mp (mt (hloaded hv).mpr ha)
    exact absurd ((hclear a).mpr ⟨value, hv, hcl⟩) hn
  · rw [hw2] at ha
    exact ho1.indexed.keyed ha
  rw [hs2, hw2]
  exact ho1.indexed.spends e

end

end CWallet

section

variable {κ : Type} {ctx : WalletContext κ} {content : TxContent} {s s' : CWallet κ}

-- A stored record says the same about the block of a transaction as the wallet does.
def CWallet.StoresStatus (s : CWallet κ) : Prop :=
  ∀ (h : Uint256) (w : CWalletTx), s.mapWallet[h]? = some w → ∃ r trailer,
    s.database.txs[h]? = some (.record r trailer) ∧ r.hashBlock = w.hashBlock ∧ r.nIndex = w.nIndex

lemma CWallet.Durable.storesStatus (hd : s.Durable) : s.StoresStatus := by
  intro h w hw
  have hm : s.merkleTx h = some w.toCMerkleTx := by rw [CWallet.merkleTx, hw, Option.map_some]
  rw [hd.merkleTx, WalletDatabase.merkleTx] at hm
  obtain ⟨value, hv, he⟩ := Option.bind_eq_some_iff.mp hm
  cases value
  case unreadable => cases he
  case record r trailer =>
  have he := Option.some.inj he
  exact ⟨r, trailer, hv, by rw [he], by rw [he]⟩

-- The status of the transactions outlasts the program, as long as no call abandons one silently. What
-- is spent is the same after a restart, unless a transaction that follows a conflicting one counted.
theorem quietRun_lasting (hd : s.Durable) (hi : s.Indexed content)
    (hr : QuietRun ctx content s s') :
    s'.StoresStatus ∧ ∀ node r,
      loadWallet node (.unloaded s'.keys s'.database) = .ok .LOAD_OK r →
      (∀ h ∈ s'.mapWallet, ¬CWallet.Erases node (.unloaded s'.keys s'.database) h) →
      (∀ h m, CWallet.Below content node s' h → s'.merkleTx h = some m → ¬m.isSpender node) →
      ∀ hash n, r.isSpent node hash n = s'.isSpent node hash n := by
  have ⟨hd', hi'⟩ := hr.durable hd hi
  refine ⟨hd'.storesStatus, fun node r hl hkept hbelow hash n => ?_⟩
  exact hd'.isSpent_reloaded hi' hl hkept hbelow

end

section

def anyoneContext : WalletContext Unit where
  isMine _ _ := ISMINE_SPENDABLE
  useKeys keys _ := keys
  computeTimeSmart _ _ := (·.nTimeReceived)

def upperNode : NodeView where
  params := Params.mainNet
  blocks := [[lowerEntry], [upperEntry, lowerEntry]]
  chainActive := [upperEntry, lowerEntry]
  adjustedTime := 1000

def lowerNode : NodeView :=
  { upperNode with chainActive := [lowerEntry] }

def paymentContent : TxContent :=
  fun _ => (payment.outpoints, payment.vout)

def noPayments : CWallet Unit :=
  .unloaded () { txs := ∅ }

-- No transaction conflicts with a block, and all are kept when the wallet is loaded.
def settledAt (node : NodeView) (s : CWallet Unit) : Bool :=
  s.mapWallet.toList.all (fun (_, w) => decide (0 ≤ w.getDepthInMainChain node)) &&
    s.mapWallet.keys.all (fun h => decide
      (h ∈ (loadWallet node (.unloaded s.keys s.database)).final.database.txs)) &&
    returns (fun result _ => result = .LOAD_OK)
      (loadWallet node (.unloaded s.keys s.database))

lemma not_below_of_settledAt (hs : settledAt node s) : ¬CWallet.Below content node s h := by
  simp only [settledAt, Bool.and_eq_true, List.all_eq_true] at hs
  intro hb
  induction hb
  case child hm hd _ _ _ =>
    have ⟨w, hw, he⟩ := Option.map_eq_some_iff.mp hm
    have hpos := hs.1.1 (_, w) (Std.TreeMap.mem_toList_iff_getElem?_eq_some.mpr hw)
    rw [← he] at hd
    simp only [decide_eq_true_eq] at hpos
    omega
  case step hi => exact hi

lemma kept_of_settledAt (hs : settledAt node s) (hm : h ∈ s.mapWallet) :
    ¬CWallet.Erases node (.unloaded s.keys s.database) h := by
  simp only [settledAt, Bool.and_eq_true, List.all_eq_true, decide_eq_true_eq] at hs
  exact fun he => he.2 (hs.1.2 h (Std.TreeMap.mem_keys.mpr hm))

lemma noPayments_durable : noPayments.Durable where
  writable _ := rfl
  merkleTx h := by simp [noPayments, unloaded, merkleTx, WalletDatabase.merkleTx]

lemma noPayments_indexed : noPayments.Indexed paymentContent where
  keyed h := by simp [noPayments, unloaded] at h
  spends e := by simp [noPayments, unloaded]

-- A payment arrives, and is then found in a block.
theorem quietRun_payment : ∃ s, QuietRun anyoneContext paymentContent noPayments s ∧
    42 ∈ s.mapWallet ∧ s.StoresStatus ∧ ∃ r,
      loadWallet upperNode (.unloaded s.keys s.database) = .ok .LOAD_OK r ∧
      ∀ hash n, r.isSpent upperNode hash n = s.isSpent upperNode hash n := by
  have hrun : returns (fun _ s1 => returns (fun _ s => decide (42 ∈ s.mapWallet) &&
      settledAt upperNode s) ((WalletCall.blockConnected [payment] [upperEntry, lowerEntry] []
        false none).perform anyoneContext upperNode s1))
      ((WalletCall.addToWallet { tx := payment }).perform anyoneContext upperNode noPayments) := by
    decide +kernel
  have ⟨_, s1, h1, hrest⟩ := exists_of_returns hrun
  have ⟨_, s, h2, hs⟩ := exists_of_returns hrest
  simp only [Bool.and_eq_true, decide_eq_true_eq] at hs
  have hadded : ∀ tx ∈ (WalletCall.addToWallet { tx := payment }).txs,
      tx.HasContent paymentContent := by
    simp [WalletCall.txs, CTransaction.HasContent, paymentContent]
  have hconnected : ∀ tx ∈ (WalletCall.blockConnected [payment] [upperEntry, lowerEntry] [] false
      none).txs, tx.HasContent paymentContent := hadded
  have hquiet : CWallet.QuietBlock upperNode [payment] [upperEntry, lowerEntry] [] false none s1 :=
    ⟨nofun, nofun, fun hdue => absurd hdue (by decide)⟩
  have hr : QuietRun anyoneContext paymentContent noPayments s :=
    .step (.step .refl hadded trivial h1) hconnected hquiet h2
  have ⟨hstores, hreload⟩ := quietRun_lasting noPayments_durable noPayments_indexed hr
  have hload := hs.2
  simp only [settledAt, Bool.and_eq_true] at hload
  have ⟨result, r, hl, hok⟩ := exists_of_returns hload.2
  rw [decide_eq_true_eq] at hok
  subst hok
  refine ⟨s, hr, hs.1, hstores, r, hl, hreload upperNode r hl (fun h hm => ?_) (fun h m hb => ?_)⟩
  · exact kept_of_settledAt hs.2 hm
  · exact absurd hb (not_below_of_settledAt hs.2)

-- The payment's block is disconnected. It is abandoned in memory, until the next load.
theorem disconnected_not_stored : ∃ s0 s r : CWallet Unit,
    loadWallet upperNode (.unloaded () paymentDatabase) = .ok .LOAD_OK s0 ∧
    s0.Durable ∧
    (WalletCall.blockDisconnected [payment]).perform anyoneContext lowerNode s0 = .ok () s ∧
    ¬s.StoresStatus ∧ loadWallet lowerNode (.unloaded s.keys s.database) = .ok .LOAD_OK r ∧
    (∀ h ∈ s.mapWallet, ¬CWallet.Erases lowerNode (.unloaded s.keys s.database) h) ∧
    r.isSpent lowerNode 7 0 ≠ s.isSpent lowerNode 7 0 := by
  have hrun : returns (fun result s0 => decide (result = .LOAD_OK) && returns (fun _ s =>
      (s.mapWallet[(42 : Uint256)]?.any fun w => decide (w.hashBlock = ABANDON_HASH)) &&
      (s.database.txs[(42 : Uint256)]?.any fun v => decide (v = .record paymentRecord .empty)) &&
      settledAt lowerNode s && !s.isSpent lowerNode 7 0 &&
      returns (fun _ r => r.isSpent lowerNode 7 0)
        (loadWallet lowerNode (.unloaded s.keys s.database)))
      ((WalletCall.blockDisconnected [payment]).perform anyoneContext lowerNode s0))
      (loadWallet upperNode (.unloaded () paymentDatabase)) := by
    decide +kernel
  have ⟨result, s0, h0, hrest⟩ := exists_of_returns hrun
  simp only [Bool.and_eq_true, decide_eq_true_eq] at hrest
  have ⟨hok, hcall⟩ := hrest
  subst hok
  have ⟨_, s, hs, hafter⟩ := exists_of_returns hcall
  simp only [Bool.and_eq_true, Bool.not_eq_true'] at hafter
  have ⟨⟨⟨⟨hmem, hdisk⟩, hsettled⟩, hunspent⟩, hreload⟩ := hafter
  have ⟨result, r, hr, hspent⟩ := exists_of_returns hreload
  have hload := hsettled
  simp only [settledAt, Bool.and_eq_true] at hload
  have ⟨result', r', hl, hok⟩ := exists_of_returns hload.2
  cases hr.symm.trans hl
  rw [decide_eq_true_eq] at hok
  subst hok
  have hcontent : CWallet.StoredContent paymentContent paymentDatabase.txs := by
    have hall : ∀ item ∈ paymentDatabase.txs.toList, item.2 = .record paymentRecord .empty := by
      decide +kernel
    intro h rec t hv _
    have he := hall (h, .record rec t) (Std.TreeMap.mem_toList_iff_getElem?_eq_some.mpr hv)
    cases he
    rfl
  have hd := (loadWallet_durable anyoneContext (fun _ => rfl) hcontent h0).1
  refine ⟨s0, s, r, h0, hd, hs, fun hst => ?_, hr, fun h hm => ?_, ?_⟩
  · have ⟨w, hw, hab⟩ := (Option.any_eq_true ..).mp hmem
    have ⟨v, hv, hrec⟩ := (Option.any_eq_true ..).mp hdisk
    rw [decide_eq_true_eq] at hab hrec
    have ⟨rec, t, hst, hblock, _⟩ := hst 42 w hw
    rw [hv, hrec, Option.some.injEq, TxValue.record.injEq] at hst
    rw [hab, ← hst.1] at hblock
    exact absurd hblock (by decide)
  · exact kept_of_settledAt hsettled hm
  rw [hspent, hunspent]
  exact nofun

end

end Taler
