import TalerModel.Wallet.Sync

namespace Taler

open EStateM CWalletTx Option

namespace CWalletTx

-- A transaction without the data that is copied between equivalent transactions.
def core (wtx : CWalletTx) : CWalletTx :=
  { wtx with
    mapValue := []
    vOrderForm := []
    nTimeSmart := 0
    fFromMe := false
    strFromAccount := "" }

variable {wtx copyFrom : CWalletTx}

lemma copyMetaData_core : (copyFrom.copyMetaData wtx).core = wtx.core := by
  simp only [copyMetaData]
  split <;> rfl

end CWalletTx

namespace CWallet

variable {κ : Type} {ctx : WalletContext κ} {node : NodeView} {s s' : CWallet κ}
  {hash h : Uint256} {wtx : CWalletTx} {f : CWalletTx → CWalletTx} {tx : CTransaction}

section

lemma entryAt_eq_ok : entryAt hash e s = .ok wtx s' ↔ s' = s ∧ s.mapWallet[hash]? = some wtx := by
  rw [entryAt_eq]
  cases s.mapWallet[hash]?
  case none => exact iff_of_false nofun fun h => nomatch h.2
  case some w =>
    rw [EStateM.pure_eq_ok, some.injEq, and_comm, eq_comm]

-- The entries of the wallet are changed one by one, and nothing else is.
structure Maps (g : Uint256 → CWalletTx → CWalletTx) (s s' : CWallet κ) : Prop where
  entries : ∀ h : Uint256, s'.mapWallet[h]? = s.mapWallet[h]?.map (g h)
  spends : s'.mapTxSpends = s.mapTxSpends
  order : s'.nOrderPosNext = s.nOrderPosNext
  keys : s'.keys = s.keys
  database : s'.database = s.database

variable {g g1 g2 : Uint256 → CWalletTx → CWalletTx} {s1 s2 : CWallet κ}

lemma Maps.refl (s : CWallet κ) : Maps (fun _ w => w) s s :=
  ⟨fun h => by cases s.mapWallet[h]? <;> rfl, rfl, rfl, rfl, rfl⟩

lemma Maps.trans (h1 : Maps g1 s s1) (h2 : Maps g2 s1 s2) :
    Maps (fun h w => g2 h (g1 h w)) s s2 where
  entries h := by
    rw [h2.entries, h1.entries, map_map]
    rfl
  spends := h2.spends.trans h1.spends
  order := h2.order.trans h1.order
  keys := h2.keys.trans h1.keys
  database := h2.database.trans h1.database

lemma Maps.congr (h : Maps g1 s s') (he : ∀ h w, g1 h w = g2 h w) : Maps g2 s s' := by
  have heq := funext fun a => funext fun w => he a w
  exact heq ▸ h

def at? (hash : Uint256) (f : CWalletTx → CWalletTx) (h : Uint256) (wtx : CWalletTx) : CWalletTx :=
  if h = hash then f wtx else wtx

lemma modifyTx_maps (hash f) (s : CWallet κ) :
    Yields (modifyTx hash f) s fun _ => Maps (at? hash f) s := by
  refine ⟨(), _, rfl, fun h => ?_, rfl, rfl, rfl, rfl⟩
  rw [OrderedMap.getElem?_modify]
  unfold at?
  split
  · rfl
  · cases s.mapWallet[h]? <;> rfl

def inputsOf (tx : CTransaction) : List Uint256 :=
  tx.vin.map (·.prevout.hash)

def dirtyIn (hashes : List Uint256) (h : Uint256) (wtx : CWalletTx) : CWalletTx :=
  if h ∈ hashes then wtx.markDirty else wtx

lemma markInputsDirty_maps (tx) (s : CWallet κ) :
    Yields (markInputsDirty tx) s fun _ => Maps (dirtyIn (inputsOf tx)) s := by
  simp only [markInputsDirty, inputsOf]
  induction tx.vin generalizing s
  case nil => exact .pure <| (Maps.refl s).congr fun _ _ => rfl
  case cons txin vin hi =>
  refine Yields.bind (modifyTx_maps ..) fun _ s1 h1 => ?_
  refine Yields.imp (hi s1) fun _ s' h2 => (h1.trans h2).congr fun h w => ?_
  simp only [dirtyIn, at?, List.map_cons, List.mem_cons]
  by_cases hh : h = txin.prevout.hash <;> by_cases hm : h ∈ vin.map (·.prevout.hash) <;>
    simp [hh, hm, CWalletTx.markDirty]

end

section

-- New spenders are noted, and metadata may have been copied.
structure Notes (es : List (COutPoint × Uint256)) (s s' : CWallet κ) : Prop where
  entries : ∀ h : Uint256, s'.mapWallet[h]?.map core = s.mapWallet[h]?.map core
  spends : s'.mapTxSpends = s.mapTxSpends ++ es
  order : s'.nOrderPosNext = s.nOrderPosNext
  keys : s'.keys = s.keys
  database : s'.database = s.database

variable {es es1 es2 : List (COutPoint × Uint256)} {s1 s2 : CWallet κ}

lemma Notes.refl (s : CWallet κ) : Notes [] s s :=
  ⟨fun _ => rfl, (List.append_nil _).symm, rfl, rfl, rfl⟩

lemma Notes.trans (h1 : Notes es1 s s1) (h2 : Notes es2 s1 s2) : Notes (es1 ++ es2) s s2 where
  entries h := (h2.entries h).trans (h1.entries h)
  spends := by rw [h2.spends, h1.spends, List.append_assoc]
  order := h2.order.trans h1.order
  keys := h2.keys.trans h1.keys
  database := h2.database.trans h1.database

lemma Maps.notes (h : Maps g s s') (hg : ∀ h w, (g h w).core = w.core) : Notes [] s s' where
  entries a := by
    rw [h.entries, map_map]
    cases s.mapWallet[a]?
    case none => rfl
    case some w => exact congrArg some (hg a w)
  spends := by rw [h.spends, List.append_nil]
  order := h.order
  keys := h.keys
  database := h.database

lemma syncMetaData_notes (hashes : List Uint256) :
    Leads (Notes []) (syncMetaData hashes : WalletM κ Unit) := by
  refine .bind .trans (.forM .refl .trans fun hash _ => ?_) fun _ => .get_bind fun s => ?_
  · refine .bind .trans (fun s wtx s' h => ?_) fun _ => .pure .refl ()
    exact (entryAt_eq_ok.mp h).1 ▸ .refl s
  cases s.oldestOf hashes
  case none => exact .pure .refl ()
  case some copyFrom =>
  refine .forM .refl .trans fun hash _ => ?_
  split
  · exact .pure .refl ()
  intro s a s' h
  have ⟨_, s1, he, hm⟩ := modifyTx_maps hash copyFrom.copyMetaData s
  cases he.symm.trans h
  refine hm.notes fun h w => ?_
  unfold at?
  split
  · exact copyMetaData_core
  · rfl

lemma addSpend_notes (h : addSpend outpoint hash s = .ok () s') :
    Notes [(outpoint, hash)] s s' := by
  let s1 : CWallet κ := { s with mapTxSpends := s.mapTxSpends ++ [(outpoint, hash)] }
  have h1 : Notes [(outpoint, hash)] s s1 := ⟨fun _ => rfl, rfl, rfl, rfl, rfl⟩
  have h2 := h
  exact h1.trans (syncMetaData_notes _ _ _ _ h2)

lemma addSpends_notes {vin : List CTxIn}
    (h : vin.forM (fun txin => addSpend txin.prevout hash) s = .ok () s') :
    Notes (vin.map fun txin => (txin.prevout, hash)) s s' := by
  induction vin generalizing s
  case nil =>
    cases h
    exact .refl _
  case cons txin vin hi =>
  have ⟨_, s1, h1, h2⟩ := bind_eq_ok.mp h
  exact (addSpend_notes h1).trans (hi h2)

def spendsOf (tx : CTransaction) (hash : Uint256) : List (COutPoint × Uint256) :=
  if tx.isCoinBase then [] else tx.vin.map fun txin => (txin.prevout, hash)

lemma addToSpends_notes (hw : s.mapWallet[hash]? = some wtx)
    (h : addToSpends hash s = .ok () s') : Notes (spendsOf wtx.tx hash) s s' := by
  have ⟨w, s1, he, h1⟩ := bind_eq_ok.mp h
  have ⟨hs, hw'⟩ := entryAt_eq_ok.mp he
  rw [hw] at hw'
  cases hw'
  rw [hs] at h1
  unfold spendsOf
  split at h1
  case isTrue hc =>
    cases h1
    rw [if_pos (show wtx.tx.isCoinBase from hc)]
    exact .refl s
  case isFalse hc =>
  rw [if_neg (show ¬wtx.tx.isCoinBase from hc)]
  exact addSpends_notes h1

end

section

-- A transaction has got a new status, which has been written. What depends on it is not cached.
structure Changes (now : Uint256) (wtx : CWalletTx) (s s' : CWallet κ) : Prop where
  entries : ∀ h : Uint256, s'.mapWallet[h]? =
    s.mapWallet[h]?.map fun w => dirtyIn (inputsOf wtx.tx) h (if h = now then wtx.markDirty else w)
  spends : s'.mapTxSpends = s.mapTxSpends
  order : s'.nOrderPosNext = s.nOrderPosNext
  keys : s'.keys = s.keys
  database : s'.database = s.database.write now wtx.toTxRecord

lemma changeStatus_spec (now wtx) (s : CWallet κ) : Yields (changeStatus now wtx) s fun next s' =>
      next = s.childrenOf now ∧ Changes now wtx s s' := by
  refine Yields.bind (modifyTx_maps ..) fun _ s1 h1 => ?_
  let s2 : CWallet κ := { s1 with database := s1.database.write now wtx.toTxRecord }
  have hw : Yields (writeTx now wtx.toTxRecord) s1 fun _ s' => s' = s2 := ⟨_, _, rfl, rfl⟩
  refine Yields.bind hw fun _ _ he => ?_
  subst he
  refine Yields.get ?_
  refine Yields.bind (markInputsDirty_maps wtx.tx s2) fun _ s3 h3 => .pure ⟨?_, ?_⟩
  · unfold childrenOf
    rw [show s2.mapTxSpends = s.mapTxSpends from h1.spends]
  refine ⟨fun h => ?_, ?_, ?_, ?_, ?_⟩
  · rw [h3.entries, show s2.mapWallet[h]? = _ from h1.entries h, map_map]
    rfl
  · exact h3.spends.trans h1.spends
  · exact h3.order.trans h1.order
  · exact h3.keys.trans h1.keys
  rw [h3.database]
  exact congrArg (·.write now wtx.toTxRecord) h1.database

structure Inserts (node : NodeView) (wtxIn : CWalletTx) (s s' : CWallet κ) : Prop where
  entries : ∀ h ≠ wtxIn.getHash, s'.mapWallet[h]?.map core = s.mapWallet[h]?.map core
  entry : s'.mapWallet[wtxIn.getHash]?.map core = some
    { wtxIn.markDirty.core with
      nTimeReceived := (node.adjustedTime % 2 ^ 32).toNat
      nOrderPos := s.nOrderPosNext }
  spends : s'.mapTxSpends = s.mapTxSpends ++ spendsOf wtxIn.tx wtxIn.getHash
  order : s'.nOrderPosNext = s.nOrderPosNext + 1
  keys : s'.keys = s.keys

variable {wtxIn : CWalletTx}

lemma insertNew_inserts (h : insertNew ctx node wtxIn s = .ok () s') :
    Inserts node wtxIn s s' ∧ s'.database = s.database := by
  let wtx : CWalletTx := { wtxIn.markDirty with
    nTimeReceived := (node.adjustedTime % 2 ^ 32).toNat
    nOrderPos := s.nOrderPosNext }
  let wtx' : CWalletTx := { wtx with nTimeSmart := ctx.computeTimeSmart s node wtx }
  let s1 : CWallet κ := { s with
    mapWallet := s.mapWallet.insert wtxIn.getHash wtx'
    nOrderPosNext := s.nOrderPosNext + 1 }
  have hw : s1.mapWallet[wtxIn.getHash]? = some wtx' := Std.TreeMap.getElem?_insert_self
  have hn := addToSpends_notes hw h
  refine ⟨⟨fun a ha => ?_, ?_, hn.spends, hn.order, hn.keys⟩, hn.database⟩
  · rw [hn.entries]
    rw [OrderedMap.getElem?_insert, if_neg ha]
  rw [hn.entries, hw]
  rfl

-- A transaction that was there already has taken over what is new.
structure Merges (wtxIn wtx : CWalletTx) (s s' : CWallet κ) : Prop where
  entries : ∀ h : Uint256, s'.mapWallet[h]? =
    s.mapWallet[h]?.map (at? wtxIn.getHash (fun _ => (wtxIn.merge wtx.markDirty).1) h)
  spends : s'.mapTxSpends = s.mapTxSpends
  order : s'.nOrderPosNext = s.nOrderPosNext
  keys : s'.keys = s.keys
  database : s'.database = if (wtxIn.merge wtx.markDirty).2 then
      s.database.write wtxIn.getHash (wtxIn.merge wtx.markDirty).1.toTxRecord
    else s.database

lemma updateIf_preserves {P : CWalletTx → Prop} (hf : ∀ w, P w → P (f w)) (hx : P x.1) :
    P (updateIf c f x).1 := by
  unfold updateIf
  split
  · exact hf _ hx
  · exact hx

lemma merge_preserves {P : CWalletTx → Prop} (hw : P wtx)
    (hblock : ∀ w : CWalletTx, P w → P { w with hashBlock := wtxIn.hashBlock })
    (hindex : ∀ w : CWalletTx, P w → P { w with nIndex := wtxIn.nIndex })
    (hfrom : ∀ w : CWalletTx, P w → P { w with fFromMe := wtxIn.fFromMe })
    (htx : ∀ w : CWalletTx, P w → P { w with tx := wtxIn.tx }) : P (wtxIn.merge wtx).1 := by
  refine updateIf_preserves htx (updateIf_preserves hfrom (updateIf_preserves hindex ?_))
  exact updateIf_preserves hblock (updateIf_preserves hblock hw)

lemma merge_markDirty (wtxIn wtx : CWalletTx) :
    (wtxIn.merge wtx.markDirty).1.markDirty = (wtxIn.merge wtx.markDirty).1 := by
  refine merge_preserves (P := fun w => w.markDirty = w) rfl ?_ ?_ ?_ ?_
  · exact fun w h => congrArg (fun w : CWalletTx => { w with hashBlock := wtxIn.hashBlock }) h
  · exact fun w h => congrArg (fun w : CWalletTx => { w with nIndex := wtxIn.nIndex }) h
  · exact fun w h => congrArg (fun w : CWalletTx => { w with fFromMe := wtxIn.fFromMe }) h
  · exact fun w h => congrArg (fun w : CWalletTx => { w with tx := wtxIn.tx }) h

lemma updateIf_unchanged (h : (updateIf c f x).2 = false) :
    x.2 = false ∧ (updateIf c f x).1 = x.1 := by
  unfold updateIf at h ⊢
  split
  case isTrue hc =>
    rw [if_pos hc] at h
    nomatch h
  case isFalse hc =>
  rw [if_neg hc] at h
  exact ⟨h, rfl⟩

lemma merge_unchanged (h : (wtxIn.merge wtx).2 = false) : (wtxIn.merge wtx).1 = wtx := by
  have ⟨h4, e5⟩ := updateIf_unchanged h
  have ⟨h3, e4⟩ := updateIf_unchanged h4
  have ⟨h2, e3⟩ := updateIf_unchanged h3
  have ⟨h1, e2⟩ := updateIf_unchanged h2
  have ⟨_, e1⟩ := updateIf_unchanged h1
  exact e5.trans (e4.trans (e3.trans (e2.trans e1)))

lemma storeTx_spec (hd : ∀ wtx, s.mapWallet[hash]? = some wtx → wtx.markDirty = wtx)
    (h : storeTx hash fChanged s = .ok b s') :
    ∃ wtx, s.mapWallet[hash]? = some wtx ∧ Maps (fun _ w => w)
      { s with
        database := if fChanged then s.database.write hash wtx.toTxRecord else s.database } s' ∧
      b = (!fChanged || s.database.outcomes 0) := by
  have ⟨wtx, s1, he, h1⟩ := bind_eq_ok.mp h
  have ⟨hs, hw⟩ := entryAt_eq_ok.mp he
  rw [hs] at h1
  have ⟨stored, s2, hwr, h2⟩ := bind_eq_ok.mp h1
  refine ⟨wtx, hw, ?_⟩
  have hs2 : s2 = { s with database :=
        if fChanged then s.database.write hash wtx.toTxRecord else s.database } ∧
      stored = (!fChanged || s.database.outcomes 0) := by
    unfold writeIf at hwr
    split at hwr
    case isTrue hc =>
      cases hwr
      simp [hc]
    case isFalse hc =>
    cases hwr
    simp [hc]
  rw [← hs2.1, ← hs2.2]
  have hentry (a : Uint256) : s2.mapWallet[a]? = s.mapWallet[a]? := by rw [hs2.1]
  cases stored
  case false =>
    cases h2
    exact ⟨.refl _, rfl⟩
  have ⟨_, s3, hm, h3⟩ := bind_eq_ok.mp h2
  cases h3
  have ⟨_, s4, hm', hmaps⟩ := modifyTx_maps hash CWalletTx.markDirty s2
  cases hm.symm.trans hm'
  refine ⟨⟨fun a => ?_, hmaps.spends, hmaps.order, hmaps.keys, hmaps.database⟩, rfl⟩
  rw [hmaps.entries]
  unfold at?
  split
  case isTrue ha => rw [hentry, ha, hw, map_some, hd wtx hw, map_some]
  · rfl

lemma markDirty_of_core {w w' : CWalletTx} (h : w'.core = w.core) (hw : w.markDirty = w) :
    w'.markDirty = w' := by
  have hc : w'.core.markDirty = w'.core := by
    rw [h]
    exact congrArg core hw
  cases w'
  simp only [core, CWalletTx.markDirty, CWalletTx.mk.injEq] at hc ⊢
  exact hc

lemma addToWallet_spec {b : Bool} (h : addToWallet ctx node wtxIn s = .ok b s') :
    (s.mapWallet[wtxIn.getHash]? = none ∧ Inserts node wtxIn s s' ∧ b = s.database.outcomes 0 ∧
      ∃ r : TxRecord, r.toCMerkleTx = wtxIn.toCMerkleTx ∧
        s'.database = s.database.write wtxIn.getHash r) ∨
    ∃ wtx, s.mapWallet[wtxIn.getHash]? = some wtx ∧ Merges wtxIn wtx s s' ∧
      b = (!(wtxIn.merge wtx.markDirty).2 || s.database.outcomes 0) := by
  rw [addToWallet, EStateM.bind_get] at h
  cases hw : s.mapWallet[wtxIn.getHash]?
  case none =>
    simp only [hw] at h
    obtain ⟨_, s1, hi, h1⟩ := bind_eq_ok.mp h
    obtain ⟨hins, hdb⟩ := insertNew_inserts hi
    have hclear w (hw : s1.mapWallet[wtxIn.getHash]? = some w) : w.markDirty = w := by
      have he := hins.entry
      rw [hw, map_some, some.injEq] at he
      exact markDirty_of_core (w := { wtxIn.markDirty with
        nTimeReceived := (node.adjustedTime % 2 ^ 32).toNat
        nOrderPos := s.nOrderPosNext }) he rfl
    obtain ⟨wtx, hw1, hm, hb⟩ := storeTx_spec hclear h1
    refine .inl ⟨rfl, ?_, ?_, wtx.toTxRecord, ?_, ?_⟩
    · have hentry (a : Uint256) : s'.mapWallet[a]? = s1.mapWallet[a]? := by
        rw [hm.entries]
        cases s1.mapWallet[a]? <;> rfl
      refine ⟨fun a ha => ?_, ?_, hm.spends.trans hins.spends, hm.order.trans hins.order,
        hm.keys.trans hins.keys⟩
      · rw [hentry]
        exact hins.entries a ha
      rw [hentry]
      exact hins.entry
    · rw [hb, hdb]
      rfl
    · have he := hins.entry
      rw [hw1, map_some, some.injEq] at he
      have ht := congrArg (fun w : CWalletTx => w.toCMerkleTx) he
      exact ht
    rw [hm.database]
    exact congrArg (·.write wtxIn.getHash wtx.toTxRecord) hdb
  case some wtx =>
  simp only [hw] at h
  obtain ⟨_, s1, hi, h1⟩ := bind_eq_ok.mp h
  obtain ⟨_, s2, hi', hmod⟩ :=
    modifyTx_maps wtxIn.getHash (fun _ => (wtxIn.merge wtx.markDirty).1) s
  cases hi.symm.trans hi'
  have hentry : s1.mapWallet[wtxIn.getHash]? = some (wtxIn.merge wtx.markDirty).1 := by
    rw [hmod.entries, hw, map_some, at?, if_pos rfl]
  have hclear w (hw : s1.mapWallet[wtxIn.getHash]? = some w) : w.markDirty = w := by
    rw [hentry, some.injEq] at hw
    exact hw ▸ merge_markDirty ..
  obtain ⟨w, hw1, hm, hb⟩ := storeTx_spec hclear h1
  rw [hentry, some.injEq] at hw1
  subst hw1
  refine .inr ⟨wtx, rfl, ⟨fun a => ?_, ?_, ?_, ?_, ?_⟩, ?_⟩
  · rw [hm.entries]
    rw [hmod.entries, map_map]
    rfl
  · exact hm.spends.trans hmod.spends
  · exact hm.order.trans hmod.order
  · exact hm.keys.trans hmod.keys
  · rw [hm.database]
    rw [hmod.database]
  · rw [hb, hmod.database]

end

end CWallet

end Taler
