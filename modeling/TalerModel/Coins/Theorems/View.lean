import TalerModel.Coins.View
import TalerModel.Library.PartialMap

namespace Taler

open Function Check Option List

def CCoinsCacheEntry.unspent (entry : CCoinsCacheEntry) : Option Coin :=
  (some entry.coin).filter (!·.isSpent)

lemma CCoinsCacheEntry.unspent_eq_none {entry : CCoinsCacheEntry} :
    entry.unspent = none ↔ entry.coin.isSpent := by
  simp [unspent, Option.filter]

lemma CCoinsCacheEntry.unspent_of_not_isSpent {entry : CCoinsCacheEntry}
    (h : entry.coin.isSpent = false) : entry.unspent = some entry.coin := by
  simp [unspent, Option.filter, h]

namespace CCoinsViewCache

structure Coherent (view : CCoinsViewCache) : Prop where
  fresh : view.cacheCoins.lookup o = some e → e.fresh → view.base.unspent o = none
  clean : view.cacheCoins.lookup o = some e → e.dirty = false → e.unspent = view.base.unspent o

-- An unspent coin of the view below is not hidden behind a missing entry.
def Shown (view : CCoinsViewCache) (o : COutPoint) : Prop :=
  view.cacheCoins.lookup o = none → view.base.unspent o = none

variable {view view' view'' : CCoinsViewCache} {o : COutPoint} {coin : Coin}

lemma over_coherent (base) : (onto base).Coherent where
  fresh h := by simp [onto] at h
  clean h := by simp [onto] at h

lemma getCoin_cached (h : view.cacheCoins.lookup o = some e) : view.getCoin o = e.unspent := by
  simp [getCoin, fetchCoin, h, CCoinsCacheEntry.unspent]

lemma getCoin_uncached (h : view.cacheCoins.lookup o = none) :
    view.getCoin o = view.base.unspent o := by
  simp only [getCoin, fetchCoin, h, CCoinsView.unspent]
  cases view.base.getCoin o <;> rfl

lemma getCoin_congr (hb : view'.base = view.base)
    (h : view'.cacheCoins.lookup o = view.cacheCoins.lookup o) :
    view'.getCoin o = view.getCoin o := by
  simp [getCoin, fetchCoin, h, hb]

lemma getCoin_unspent (h : view.getCoin o = some coin) : coin.isSpent = false := by
  simpa using (filter_eq_some_iff.mp h).2

lemma shown_of_getCoin (h : view.getCoin o = none) : view.Shown o :=
  fun hc => getCoin_uncached hc ▸ h

lemma lookup_setEntry (view : CCoinsViewCache) (o o' : COutPoint) (e) :
    (view.setEntry o e).cacheCoins.lookup o' =
      if o' = o then some e else view.cacheCoins.lookup o' := by
  split
  case isTrue h => exact h ▸ Finmap.lookup_insert _
  case isFalse h => exact Finmap.lookup_insert_of_ne _ h

lemma lookup_eraseEntry (view : CCoinsViewCache) (o o') : (view.eraseEntry o).cacheCoins.lookup o' =
      if o' = o then none else view.cacheCoins.lookup o' := by
  split
  case isTrue h => exact h ▸ Finmap.lookup_erase _ _
  case isFalse h => exact Finmap.lookup_erase_ne h

-- A view with different coins: nothing else has changed, and the flags hold what they promise.
structure Updates (view view' : CCoinsViewCache) (coins : COutPoint → Option Coin) : Prop where
  base : view'.base = view.base
  best : view'.hashBlock = view.hashBlock
  coherent : view'.Coherent
  shown : ∀ o, view.Shown o → view'.Shown o
  coins : view'.getCoin = coins

lemma Updates.refl (h : view.Coherent) : Updates view view view.getCoin where
  base := rfl
  best := rfl
  coherent := h
  shown := fun _ h => h
  coins := rfl

lemma Updates.trans (h : Updates view view' m) (h' : Updates view' view'' m') :
    Updates view view'' m' where
  base := h'.base.trans h.base
  best := h'.best.trans h.best
  coherent := h'.coherent
  shown := fun o hs => h'.shown o (h.shown o hs)
  coins := h'.coins

section

variable (h : view.Coherent)
include h

lemma Coherent.updates_at (hbase : view'.base = view.base)
    (hbest : view'.hashBlock = view.hashBlock)
    (hne : ∀ o' ≠ o, view'.cacheCoins.lookup o' = view.cacheCoins.lookup o')
    (hf : ∀ e, view'.cacheCoins.lookup o = some e → e.fresh → view.base.unspent o = none)
    (hd : ∀ e, view'.cacheCoins.lookup o = some e → e.dirty = false → e.unspent = view.base.unspent o)
    (hs : view'.cacheCoins.lookup o = none → view.base.unspent o = none) :
    Updates view view' (update view.getCoin o (view'.getCoin o)) where
  base := hbase
  best := hbest
  coherent := by
    constructor
    case fresh =>
      intro o' e hl he
      rw [hbase]
      by_cases ho : o' = o
      · exact ho ▸ hf e (ho ▸ hl) he
      · exact h.fresh (hne o' ho ▸ hl) he
    case clean =>
    intro o' e hl he
    rw [hbase]
    by_cases ho : o' = o
    · exact ho ▸ hd e (ho ▸ hl) he
    · exact h.clean (hne o' ho ▸ hl) he
  shown := by
    intro o' hs' hl
    rw [hbase]
    by_cases ho : o' = o
    · exact ho ▸ hs (ho ▸ hl)
    · exact hs' (hne o' ho ▸ hl)
  coins := by
    funext o'
    by_cases ho : o' = o
    · rw [ho, update_self]
    rw [update_of_ne ho]
    exact getCoin_congr hbase (hne o' ho)

lemma Coherent.setEntry_updates (hf : e.fresh → view.base.unspent o = none)
    (hd : e.dirty = false → e.unspent = view.base.unspent o) :
    Updates view (view.setEntry o e) (update view.getCoin o e.unspent) := by
  have hl : (view.setEntry o e).cacheCoins.lookup o = some e := by simp [lookup_setEntry]
  have hu : Updates view (view.setEntry o e)
      (update view.getCoin o ((view.setEntry o e).getCoin o)) :=
    h.updates_at rfl rfl (fun o' ho => by rw [lookup_setEntry, if_neg ho])
      (fun _ he => some.inj (hl.symm.trans he) ▸ hf)
      (fun _ he => some.inj (hl.symm.trans he) ▸ hd) (fun hn => nomatch hl.symm.trans hn)
  rwa [getCoin_cached hl] at hu

lemma Coherent.eraseEntry_updates (hb : view.base.unspent o = none) :
    Updates view (view.eraseEntry o) (update view.getCoin o none) := by
  have hl : (view.eraseEntry o).cacheCoins.lookup o = none := by simp [lookup_eraseEntry]
  have hu : Updates view (view.eraseEntry o)
      (update view.getCoin o ((view.eraseEntry o).getCoin o)) :=
    h.updates_at rfl rfl (fun o' ho => by rw [lookup_eraseEntry, if_neg ho])
      (fun _ _ _ => hb) (fun _ he => nomatch hl.symm.trans he) (fun _ => hb)
  have hb : (view.eraseEntry o).base.unspent o = none := hb
  rwa [getCoin_uncached hl, hb] at hu

lemma fetchCoin_fresh (hf : view.fetchCoin o = some e) (he : e.fresh) :
    view.base.unspent o = none := by
  simp only [fetchCoin] at hf
  split at hf
  case h_1 hl => exact h.fresh hl (Option.some.inj hf ▸ he)
  obtain ⟨tmp, ht, hm⟩ := Option.map_eq_some_iff.mp hf
  subst hm
  simpa [CCoinsView.unspent, ht, Option.filter] using he

-- Storing an entry that was only fetched changes nothing, so the reads may leave it out.
lemma Coherent.fetch_updates (hl : view.cacheCoins.lookup o = none)
    (hf : view.fetchCoin o = some e) : Updates view (view.setEntry o e) view.getCoin := by
  have hc : e.unspent = view.base.unspent o := by
    rw [← getCoin_uncached hl, getCoin, hf]
    rfl
  have hu := h.setEntry_updates (fetchCoin_fresh h hf) (fun _ => hc)
  rwa [hc, ← getCoin_uncached hl, update_eq_self] at hu

end

lemma spendCoin_eq_some (h : view.getCoin o = some coin) :
    ∃ view', view.spendCoin o = some (coin, view') := by
  have ⟨hm, _⟩ := filter_eq_some_iff.mp h
  have ⟨e, he, hc⟩ := map_eq_some_iff.mp hm
  exact ⟨_, by rw [spendCoin, he, map_some, hc]⟩

lemma getCoin_of_spendCoin_none (h : view.spendCoin o = none) : view.getCoin o = none := by
  rw [spendCoin, map_eq_none_iff] at h
  rw [getCoin, h]
  rfl

lemma spendCoin_coin (h : view.spendCoin o = some (coin, view'))
    (hc : view.getCoin o = some c) : coin = c := by
  have ⟨_, hs⟩ := spendCoin_eq_some hc
  rw [h] at hs
  injection hs with hs
  exact congrArg Prod.fst hs

lemma Coherent.spendCoin_updates (hv : view.Coherent)
    (h : view.spendCoin o = some (coin, view')) :
    Updates view view' (update view.getCoin o none) := by
  have ⟨e, he, hm⟩ := map_eq_some_iff.mp h
  injection hm with _ hm
  subst hm
  split
  case isTrue hf => exact hv.eraseEntry_updates (fetchCoin_fresh hv he hf)
  · exact hv.setEntry_updates nofun nofun

lemma addCoin_eq_ok (h : view.addCoin o coin overwrite = .ok view')
    (hu : coin.out.scriptPubKey.isUnspendable = false) :
    coin.isSpent = false ∧ (overwrite = false → (view.emplaced o).coin.isSpent) ∧
    view' = view.setEntry o (addedEntry (view.emplaced o) coin overwrite) := by
  simp only [addCoin, hu, Bool.false_eq_true, if_false] at h
  split at h
  · nomatch h
  rename_i hs
  split at h
  · nomatch h
  case isFalse ho =>
  injection h with h
  exact ⟨by simpa using hs, fun hw => by simpa [hw] using ho, h.symm⟩

lemma addCoin_unspendable (h : view.addCoin o coin overwrite = .ok view')
    (hu : coin.out.scriptPubKey.isUnspendable) : view' = view := by
  simp only [addCoin, hu, if_true] at h
  split at h
  · nomatch h
  · exact (Except.ok.inj h).symm

lemma addCoin_getCoin (h : view.addCoin o coin false = .ok view')
    (hu : coin.out.scriptPubKey.isUnspendable = false) (hs : view.Shown o) :
    view.getCoin o = none := by
  have ⟨_, he, _⟩ := addCoin_eq_ok h hu
  cases hl : view.cacheCoins.lookup o
  case none => exact getCoin_uncached hl ▸ hs hl
  case some e =>
  rw [getCoin_cached hl, CCoinsCacheEntry.unspent_eq_none]
  simpa [emplaced, hl] using he rfl

lemma Coherent.addedEntry_fresh (hv : view.Coherent) (hs : overwrite = false → view.Shown o)
    (he : overwrite = false → (view.emplaced o).coin.isSpent)
    (hf : (addedEntry (view.emplaced o) coin overwrite).fresh) : view.base.unspent o = none := by
  simp only [addedEntry, Bool.or_eq_true, Bool.and_eq_true, Bool.not_eq_true'] at hf
  cases hl : view.cacheCoins.lookup o
  case none => exact hs (by simpa [emplaced, hl] using hf) hl
  simp only [emplaced, hl, getD_some] at hf he
  cases hf
  case inl hf => exact hv.fresh hl hf
  case inr hf =>
  rw [← hv.clean hl hf.2, CCoinsCacheEntry.unspent_eq_none]
  exact he hf.1

lemma Coherent.addCoin_updates (hv : view.Coherent)
    (h : view.addCoin o coin overwrite = .ok view')
    (hu : coin.out.scriptPubKey.isUnspendable = false) (hs : overwrite = false → view.Shown o) :
    Updates view view' (update view.getCoin o (some coin)) := by
  have ⟨hc, he, hm⟩ := addCoin_eq_ok h hu
  subst hm
  have hn : (addedEntry (view.emplaced o) coin overwrite).unspent = some coin :=
    CCoinsCacheEntry.unspent_of_not_isSpent hc
  exact hn ▸ hv.setEntry_updates (hv.addedEntry_fresh hs he) nofun

lemma setBestBlock_getCoin (view : CCoinsViewCache) (hash) :
    (view.setBestBlock hash).getCoin = view.getCoin :=
  rfl

lemma Coherent.setBestBlock (h : view.Coherent) (hash) : (view.setBestBlock hash).Coherent :=
  ⟨h.fresh, h.clean⟩

lemma getBestBlock_getBestBlock (view : CCoinsViewCache) (cacheCoins) :
    getBestBlock { base := view.base, cacheCoins := cacheCoins, hashBlock := view.getBestBlock } =
      view.getBestBlock := by
  simp only [getBestBlock]
  split <;> simp_all

lemma emplaced_spent (h : view.getCoin out = none) : (view.emplaced out).coin.isSpent := by
  cases hl : view.cacheCoins.lookup out
  case none =>
    rw [emplaced, hl]
    rfl
  rw [getCoin_cached hl] at h
  rw [emplaced, hl]
  exact CCoinsCacheEntry.unspent_eq_none.mp h

lemma haveCoin_eq_false : view.haveCoin o = false ↔ view.getCoin o = none := by
  simp [haveCoin]

lemma Coherent.addCoin_have (hv : view.Coherent) (hs : coin.isSpent = false)
    (hu : coin.out.scriptPubKey.isUnspendable = false) :
    ∃ view', view.addCoin o coin (view.haveCoin o) = .ok view' ∧
      Updates view view' (update view.getCoin o (some coin)) := by
  have hspent : (!view.haveCoin o && !(view.emplaced o).coin.isSpent) = false := by
    cases hh : view.haveCoin o
    case true => rfl
    case false => simp [emplaced_spent (haveCoin_eq_false.mp hh)]
  have ha : view.addCoin o coin (view.haveCoin o) =
      .ok (view.setEntry o (addedEntry (view.emplaced o) coin (view.haveCoin o))) := by
    simp [addCoin, hs, hu, hspent]
  have hshown : view.haveCoin o = false → view.Shown o :=
    fun hh => shown_of_getCoin (haveCoin_eq_false.mp hh)
  exact ⟨_, ha, hv.addCoin_updates ha hu hshown⟩

end CCoinsViewCache

section

open PartialMap CCoinsViewCache

variable (tx : CTransaction)

def outputCoins (nHeight : Nat) (vout : List (CTxOut × Nat)) : List (COutPoint × Coin) :=
  vout.filterMap fun (out, i) =>
    if out.scriptPubKey.isUnspendable then none
    else some (tx.outpoint i, tx.coin nHeight out)

def CTransaction.coins (nHeight : Nat) : List (COutPoint × Coin) :=
  outputCoins tx nHeight tx.vout.zipIdx

def CTransaction.prevouts : List COutPoint :=
  if tx.isCoinBase then [] else tx.vin.map CTxIn.prevout

variable {tx : CTransaction} {view view' : CCoinsViewCache} {vout : List (CTxOut × Nat)}

lemma outputCoins_spendable (h : out.scriptPubKey.isUnspendable = false) :
    outputCoins tx n ((out, i) :: vout) =
      (tx.outpoint i, tx.coin n out) :: outputCoins tx n vout := by
  simp [outputCoins, h]

lemma outputCoins_unspendable (h : out.scriptPubKey.isUnspendable) :
    outputCoins tx n ((out, i) :: vout) = outputCoins tx n vout := by
  simp [outputCoins, h]

lemma CTransaction.coins_nodup (tx : CTransaction) (n) : ((tx.coins n).map Prod.fst).Nodup := by
  have hs : ((tx.coins n).map fun kv => kv.1.n).Sublist (tx.vout.zipIdx.map Prod.snd) := by
    rw [coins]
    induction tx.vout.zipIdx
    case nil => simp [outputCoins]
    case cons p vout hi =>
    cases hu : p.1.scriptPubKey.isUnspendable
    case false =>
      rw [outputCoins_spendable hu]
      exact hi.cons_cons _
    case true =>
    rw [outputCoins_unspendable hu]
    exact hi.cons _
  have hn := hs.nodup (by simp [List.nodup_range'])
  exact List.Nodup.of_map COutPoint.n (by rwa [List.map_map])

lemma mem_outputCoins (h : kv ∈ outputCoins tx n vout) :
    ∃ out i, (out, i) ∈ vout ∧ out.scriptPubKey.isUnspendable = false ∧
      kv = (tx.outpoint i, tx.coin n out) := by
  have ⟨⟨out, i⟩, hm, he⟩ := mem_filterMap.mp h
  dsimp only at he
  split at he
  · nomatch he
  case isFalse hu => exact ⟨out, i, hm, by simpa using hu, (some.inj he).symm⟩

lemma CCoinsViewCache.Coherent.addOutputs_updates (hv : view.Coherent)
    (hs : ∀ p ∈ vout, view.Shown (tx.outpoint p.2))
    (h : addOutputs tx n false vout view = .ok view') :
    Updates view view' (insertAll view.getCoin (outputCoins tx n vout)) ∧
    (tx.isCoinBase = false → ∀ kv ∈ outputCoins tx n vout, view.getCoin kv.1 = none) := by
  induction vout generalizing view
  case nil =>
    cases h
    exact ⟨Updates.refl hv, fun _ => nofun⟩
  case cons p vout hi =>
  have ⟨out, i⟩ := p
  have ⟨hp, hs⟩ := forall_mem_cons.mp hs
  have ⟨view1, ha, h⟩ := bind_eq_ok.mp h
  cases hu : out.scriptPubKey.isUnspendable
  case true =>
    cases addCoin_unspendable ha hu
    rw [outputCoins_unspendable hu]
    exact hi hv hs h
  have hup := hv.addCoin_updates ha hu (fun _ => hp)
  have hs1 p (hm : p ∈ vout) := hup.shown _ (hs p hm)
  have ⟨hr, hn⟩ := hi hup.coherent hs1 h
  have hr := hup.trans hr
  rw [outputCoins_spendable hu]
  rw [hup.coins] at hr hn
  refine ⟨by rwa [insertAll_cons], fun hc => forall_mem_cons.mpr ⟨?_, fun kv hk => ?_⟩⟩
  · simp only [hc, Bool.false_eq_true, if_false] at ha
    exact addCoin_getCoin ha hu hp
  -- A later output at the same place would have found the coin that was just added.
  have hk := hn hc kv hk
  by_cases he : kv.1 = tx.outpoint i
  · simp [he] at hk
  · rwa [update_of_ne he] at hk

lemma CCoinsViewCache.Coherent.spendInputs_updates (hv : view.Coherent)
    (hn : (vin.map CTxIn.prevout).Nodup) (hi : ∀ txin ∈ vin, view.haveCoin txin.prevout)
    (h : spendInputs vin view = .ok (vprevout, view')) :
    Updates view view' (eraseAll view.getCoin (vin.map CTxIn.prevout)) ∧
    Forall₂ (fun o c => view.getCoin o = some c) (vin.map CTxIn.prevout) vprevout := by
  induction vin generalizing view vprevout
  case nil =>
    cases h
    exact ⟨Updates.refl hv, .nil⟩
  case cons txin vin ih =>
  have ⟨hc, hi⟩ := forall_mem_cons.mp hi
  have ⟨hnm, hn⟩ := nodup_cons.mp hn
  have ⟨coin, hc⟩ := isSome_iff_exists.mp hc
  have ⟨view1, hs⟩ := spendCoin_eq_some hc
  simp only [spendInputs, hs] at h
  have ⟨⟨vprevout, view2⟩, hr, h⟩ := bind_eq_ok.mp h
  cases h
  have hup := hv.spendCoin_updates hs
  -- The other inputs spend different coins, so they are still there.
  have hne txin' (hm : txin' ∈ vin) : view1.getCoin txin'.prevout = view.getCoin txin'.prevout := by
    have he : txin'.prevout ≠ txin.prevout := fun he => hnm (he ▸ mem_map_of_mem hm)
    rw [hup.coins, update_of_ne he]
  have hi1 txin' (hm : txin' ∈ vin) : view1.haveCoin txin'.prevout := by
    rw [haveCoin, hne txin' hm]
    exact hi txin' hm
  have ⟨hup1, hf⟩ := ih hup.coherent hn hi1 hr
  constructor
  case left =>
    rw [hup.coins] at hup1
    exact hup.trans hup1
  case right =>
  refine .cons hc ?_
  rw [forall₂_map_left_iff] at hf ⊢
  refine (forall₂_iff_get.mp hf).elim fun hl hg => forall₂_iff_get.mpr ⟨hl, ?_⟩
  intro i h1 h2
  rw [← hg i h1 h2, hne _ (get_mem ..)]

-- What `UpdateCoins` does for a transaction whose inputs are there and whose outputs are not hidden.
structure Updated (tx : CTransaction) (nHeight : Nat) (view view' : CCoinsViewCache)
    (vprevout : List Coin) : Prop where
  updates : Updates view view' (insertAll (eraseAll view.getCoin tx.prevouts) (tx.coins nHeight))
  spent : Forall₂ (fun o c => view.getCoin o = some c) tx.prevouts vprevout
  new : tx.isCoinBase = false →
    ∀ kv ∈ tx.coins nHeight, eraseAll view.getCoin tx.prevouts kv.1 = none

lemma CCoinsViewCache.Coherent.markInputsSpent_updates (hv : view.Coherent)
    (hn : (tx.vin.map CTxIn.prevout).Nodup) (hi : view.haveInputs tx)
    (h : view.markInputsSpent tx = .ok (vprevout, view')) :
    Updates view view' (eraseAll view.getCoin tx.prevouts) ∧
    List.Forall₂ (fun o c => view.getCoin o = some c) tx.prevouts vprevout := by
  cases hc : tx.isCoinBase
  case true =>
    simp only [markInputsSpent, hc, if_true] at h
    cases h
    simp only [CTransaction.prevouts, hc, if_true]
    exact ⟨Updates.refl hv, .nil⟩
  simp only [markInputsSpent, hc, Bool.false_eq_true, if_false] at h
  simp only [CTransaction.prevouts, hc, Bool.false_eq_true, if_false]
  simp only [haveInputs, hc, Bool.false_or, List.all_eq_true] at hi
  exact hv.spendInputs_updates hn hi h

lemma CCoinsViewCache.Updates.shown_outputs (hup : Updates view view' m)
    (hs : ∀ i < tx.vout.length, view.Shown (tx.outpoint i)) :
    ∀ p ∈ tx.vout.zipIdx, view'.Shown (tx.outpoint p.2) := by
  intro p hm
  have hl := List.mk_mem_zipIdx_iff_getElem?.mp hm
  exact hup.shown _ (hs p.2 (List.getElem?_eq_some_iff.mp hl).choose)

lemma CCoinsViewCache.Coherent.updateCoins_updated (hv : view.Coherent)
    (hn : (tx.vin.map CTxIn.prevout).Nodup) (hi : view.haveInputs tx)
    (hs : ∀ i < tx.vout.length, view.Shown (tx.outpoint i))
    (h : view.updateCoins tx n = .ok (vprevout, view')) : Updated tx n view view' vprevout := by
  have ⟨⟨vprevout, view1⟩, hsp, h⟩ := bind_eq_ok.mp h
  have ⟨view2, ha, h⟩ := bind_eq_ok.mp h
  cases h
  have ⟨hup, hf⟩ := hv.markInputsSpent_updates hn hi hsp
  have hs1 := hup.shown_outputs hs
  have ⟨hup2, hnew⟩ := hup.coherent.addOutputs_updates hs1 ha
  rw [hup.coins] at hup2 hnew
  exact ⟨hup.trans hup2, hf, hnew⟩

section

-- Two views with the same coins, whatever their caches look like, take the same transactions.

variable {other : CCoinsViewCache}

lemma CCoinsViewCache.addCoin_again (hc : other.getCoin o = view.getCoin o)
    (hs : overwrite = false → view.Shown o) (h : view.addCoin o coin overwrite = .ok view') :
    ∃ other', other.addCoin o coin overwrite = .ok other' := by
  cases hp : coin.isSpent
  case true => simp [addCoin, hp, fault] at h
  cases hu : coin.out.scriptPubKey.isUnspendable
  case true => exact ⟨other, by simp [addCoin, hp, hu]⟩
  cases overwrite
  case true => exact ⟨_, by simp [addCoin, hp, hu]; rfl⟩
  case false =>
  have hn := hc.trans (addCoin_getCoin h hu (hs rfl))
  exact ⟨_, by simp [addCoin, hp, hu, emplaced_spent hn]; rfl⟩

section

variable (hv : view.Coherent) (ho : other.Coherent) (hc : other.getCoin = view.getCoin)
include hv ho hc

lemma CCoinsViewCache.Coherent.addOutputs_again (hs : ∀ p ∈ vout, view.Shown (tx.outpoint p.2))
    (hs' : ∀ p ∈ vout, other.Shown (tx.outpoint p.2))
    (h : addOutputs tx n false vout view = .ok view') :
    ∃ other', addOutputs tx n false vout other = .ok other' := by
  induction vout generalizing view other
  case nil => exact ⟨other, rfl⟩
  case cons p vout hi =>
  have ⟨out, i⟩ := p
  have ⟨hs0, hs⟩ := forall_mem_cons.mp hs
  have ⟨hs0', hs'⟩ := forall_mem_cons.mp hs'
  have ⟨view1, ha, h⟩ := bind_eq_ok.mp h
  have ⟨other1, ha'⟩ := addCoin_again (congrFun hc _) (fun _ => hs0) ha
  have ⟨other', h'⟩ : ∃ other', addOutputs tx n false vout other1 = .ok other' := by
    cases hu : out.scriptPubKey.isUnspendable
    case true =>
      cases addCoin_unspendable ha hu
      cases addCoin_unspendable ha' hu
      exact hi hv ho hc hs hs' h
    have hup := hv.addCoin_updates ha hu (fun _ => hs0)
    have hup' := ho.addCoin_updates ha' hu (fun _ => hs0')
    exact hi hup.coherent hup'.coherent (by rw [hup.coins, hup'.coins, hc])
      (fun p hm => hup.shown _ (hs p hm)) (fun p hm => hup'.shown _ (hs' p hm)) h
  exact ⟨other', bind_eq_ok.mpr ⟨other1, ha', h'⟩⟩

lemma CCoinsViewCache.Coherent.spendInputs_again (hn : (vin.map CTxIn.prevout).Nodup)
    (hi : ∀ txin ∈ vin, view.haveCoin txin.prevout)
    (h : spendInputs vin view = .ok (vprevout, view')) :
    ∃ other', spendInputs vin other = .ok (vprevout, other') := by
  induction vin generalizing view other vprevout
  case nil =>
    cases h
    exact ⟨other, rfl⟩
  case cons txin vin ih =>
  have ⟨hg, hi⟩ := forall_mem_cons.mp hi
  have ⟨hnm, hn⟩ := nodup_cons.mp hn
  have ⟨coin, hg⟩ := isSome_iff_exists.mp hg
  have ⟨view1, hs⟩ := spendCoin_eq_some hg
  have ⟨other1, hs'⟩ := spendCoin_eq_some ((congrFun hc _).trans hg)
  simp only [spendInputs, hs] at h
  have ⟨⟨vprevout1, view2⟩, hr, h⟩ := bind_eq_ok.mp h
  cases h
  have hup := hv.spendCoin_updates hs
  have hup' := ho.spendCoin_updates hs'
  have hi1 txin' (hm : txin' ∈ vin) : view1.haveCoin txin'.prevout := by
    have hne : txin'.prevout ≠ txin.prevout := fun he =>
      hnm (mem_map.mpr ⟨txin', hm, he⟩)
    rw [haveCoin, hup.coins, update_of_ne hne]
    exact hi txin' hm
  have ⟨other', hr'⟩ := ih hup.coherent hup'.coherent (by rw [hup.coins, hup'.coins, hc]) hn hi1 hr
  refine ⟨other', ?_⟩
  simp only [spendInputs, hs']
  exact bind_eq_ok.mpr ⟨_, hr', rfl⟩

lemma CCoinsViewCache.Coherent.updateCoins_again (hn : (tx.vin.map CTxIn.prevout).Nodup)
    (hi : view.haveInputs tx) (hs : ∀ i < tx.vout.length, view.Shown (tx.outpoint i))
    (hs' : ∀ i < tx.vout.length, other.Shown (tx.outpoint i))
    (h : view.updateCoins tx n = .ok (vprevout, view')) :
    ∃ other', other.updateCoins tx n = .ok (vprevout, other') := by
  have ⟨⟨vprevout, view1⟩, hsp, h⟩ := bind_eq_ok.mp h
  have ⟨view2, ha, h⟩ := bind_eq_ok.mp h
  cases h
  have ⟨other1, hsp'⟩ : ∃ other1, other.markInputsSpent tx = .ok (vprevout, other1) := by
    cases hcb : tx.isCoinBase
    case true =>
      simp only [markInputsSpent, hcb, if_true] at hsp ⊢
      cases hsp
      exact ⟨other, rfl⟩
    simp only [markInputsSpent, hcb, Bool.false_eq_true, if_false] at hsp ⊢
    simp only [haveInputs, hcb, Bool.false_or, List.all_eq_true] at hi
    exact hv.spendInputs_again ho hc hn hi hsp
  have hi' : other.haveInputs tx := by
    simpa only [haveInputs, haveCoin, hc] using hi
  have ⟨hup, _⟩ := hv.markInputsSpent_updates hn hi hsp
  have ⟨hup', _⟩ := ho.markInputsSpent_updates hn hi' hsp'
  have ⟨other2, ha'⟩ := hup.coherent.addOutputs_again hup'.coherent (by rw [hup.coins, hup'.coins, hc])
    (hup.shown_outputs hs) (hup'.shown_outputs hs') ha
  exact ⟨other2, bind_eq_ok.mpr ⟨_, hsp', bind_eq_ok.mpr ⟨_, ha', rfl⟩⟩⟩

end

end

end

end Taler
